import Misterplex.Baseline.Macroblock

/-!
# Macroblocks as the parser reads them

The states of the parser follow the code of a macroblock element by element: the
prediction modes block by block, the types of the partitions, the differences of the
motion vectors counted down, and the coded block pattern with the quantiser behind
it. What they come to is the report of the macroblock.
-/

namespace Misterplex.Baseline

open BitString ExpGolomb List

theorem se8FromUe_seIndex (k : ℤ) : se8FromUe (seIndex k)=BitVec.ofInt 8 k := by
  have hvalue := seValue_seIndex k
  rw [seValue] at hvalue
  rw [se8FromUe]
  by_cases hodd : seIndex k%2=1
  · rw [if_pos hodd] at hvalue ⊢
    rw [hvalue]
  · rw [if_neg hodd] at hvalue ⊢
    rw [hvalue]

theorem zerosOf_fits {v : ℕ} (h : v<2^24) : zerosOf v≤parserLimits.zeros :=
  zerosOf_le (lt_of_lt_of_le (Nat.succ_lt_succ h) (by decide))

/-- What is reported about a macroblock beside its residual. -/
structure Told (p : Bool) (m : Macroblock) (r : Regs) : Prop where
  supported : r.unsupported=false
  skipRun : r.mb.mbSkipRun = .ofNat 16 m.skipRun
  mbType : r.mb.mbType = .ofNat 8 (m.mbType p)
  mode : r.mb.partitionMode=m.mode
  flags : r.mb.intra4x4PredModeFlags=m.flags
  rems : r.mb.intra4x4RemModes=m.rems
  chroma : r.mb.intraChromaPredMode = .ofNat 3 m.chroma

/-- What is reported about a macroblock. -/
structure MbReport (i : Inputs) (p : Bool) (m : Macroblock) (r : Regs) (n : ℕ) : Prop
    extends Told p m r where
  cbp : r.mb.codedBlockPattern = .ofNat 6 m.cbp
  qp : r.mb.mbQp=i.qpIn+BitVec.ofInt 8 m.qpDelta
  offset : r.mb.residualBitOffset = .ofNat 16 n

variable {i : Inputs} {h : Heard} {r : Regs} {tail : List Bool} {Q : Regs → ℕ → Prop}

variable {k : ℤ}

open Comes

theorem comes_quantiser (hfit : seIndex k<2^24) (hQ : Q { r with mb := { r.mb with
        mbQpDelta := .ofInt 8 k
        mbQp := i.qpIn + .ofInt 8 k
        residualBitOffset := .ofNat 16 (h.position+(seCode k).length) } }
      (h.position+(seCode k).length)) :
    Comes parserLimits (ownState i) (.ue .mbQpDelta) h r (seCode k ++ tail) Q := by
  refine se (zerosOf_fits hfit) rfl rfl (Comes.go rfl (done ?_))
  rw [se8FromUe_seIndex]
  exact hQ

theorem comes_cbpDone {cbp : BitVec 6} (hfit : cbp≠0 → seIndex k<2^24)
    (hcoded : cbp≠0 → Q { r with mb := { r.mb with
        codedBlockPattern := cbp
        mbQpDelta := .ofInt 8 k
        mbQp := i.qpIn + .ofInt 8 k
        residualBitOffset := .ofNat 16 (h.position+(seCode k).length) } }
      (h.position+(seCode k).length))
    (hplain : cbp=0 → Q { r with mb := { r.mb with
        codedBlockPattern := cbp
        residualBitOffset := .ofNat 16 h.position } } h.position) :
    Comes parserLimits (ownState i) (cbpDone cbp h r).2 h (cbpDone cbp h r).1
      ((if cbp ≠ 0 then seCode k else []) ++ tail) Q := by
  rw [cbpDone]
  by_cases hzero : cbp=0
  · rw [if_neg (not_not.mpr hzero),if_neg (not_not.mpr hzero)]
    exact Comes.go rfl (done (hplain hzero))
  · rw [if_pos hzero,if_pos hzero]
    exact comes_quantiser (hfit hzero) (hcoded hzero)

theorem comes_mvds {mvds : List Mvd} (hlegal : ∀ m∈mvds, m.Legal) (hfew : mvds.length<256)
    (hleft : r.counters.mvdPairsLeft=mvds.length)
    (hrest : ∀ v, Comes parserLimits (ownState i) (.ue .mbCbpInter)
      ⟨v,h.acc,h.position+(mvds.flatMap Mvd.bits).length⟩
      { r with counters := { r.counters with mvdPairsLeft := 0 } } tail Q) :
    Comes parserLimits (ownState i) (.go .mbMvdX) h r (mvds.flatMap Mvd.bits ++ tail) Q := by
  induction mvds generalizing h r with
  | nil =>
    have hask : ownState i .mbMvdX h r=(r,.ue .mbCbpInter) :=
      Prod.ext rfl (if_pos hleft)
    have hsame : { r with counters := { r.counters with mvdPairsLeft := 0 } } = r := by
      rw [← show r.counters.mvdPairsLeft=0 from hleft]
    refine Comes.go hask ?_
    rw [hsame] at hrest
    exact hrest h.ueValue
  | cons m mvds ih =>
    have hm := hlegal m mem_cons_self
    rw [length_cons] at hfew hleft
    have hask : ownState i .mbMvdX h r=(r,.ue .mbMvdY) :=
      Prod.ext rfl (if_neg (by omega))
    have hx := seIndex_le (k := m.x) (b := 32768) (by have := hm.x; omega) (by have := hm.x; omega)
    have hy := seIndex_le (k := m.y) (b := 32768) (by have := hm.y; omega) (by have := hm.y; omega)
    have hdown : (r.counters.mvdPairsLeft+255)%256=mvds.length := by omega
    rw [List.flatMap_cons,Mvd.bits,List.append_assoc,List.append_assoc]
    refine Comes.go hask ?_
    refine se (zerosOf_fits (by omega)) rfl rfl ?_
    refine se (zerosOf_fits (by omega)) rfl rfl ?_
    have hlen : ∀ k, k+(seCode m.x).length+(seCode m.y).length +
        (mvds.flatMap Mvd.bits).length=k+((m::mvds).flatMap Mvd.bits).length := by
      rw [List.flatMap_cons,Mvd.bits,length_append,length_append]
      omega
    refine ih (fun x hx => hlegal x (mem_cons_of_mem m hx)) (by omega) hdown fun v => ?_
    rw [hlen]
    exact hrest v

theorem subMbMvdPairs_code (t : SubMbType) : subMbMvdPairs t.code=t.parts := by
  cases t <;> rfl

theorem code_le (t : SubMbType) : t.code≤3 := by
  cases t <;> decide

theorem parts_le (t : SubMbType) : t.parts≤4 := by
  cases t <;> decide

theorem comes_subs {subs : List SubMbType} {k n : ℕ} (hsome : subs≠[])
    (hidx : r.counters.subIdx=k) (hcount : k+subs.length=4)
    (hleft : r.counters.mvdPairsLeft=n) (hfew : n+4*subs.length<256)
    (hrest : ∀ v, Comes parserLimits (ownState i) (.go .mbMvdX)
      ⟨v,h.acc,h.position+(subs.flatMap fun t => ueCode t.code).length⟩
      { r with counters := { r.counters with
        mvdPairsLeft := n+(subs.map SubMbType.parts).sum
        subIdx := 3 } } tail Q) :
    Comes parserLimits (ownState i) (.ue .mbSubType) h r
      ((subs.flatMap fun t => ueCode t.code) ++ tail) Q := by
  induction subs generalizing h r k n with
  | nil => exact absurd rfl hsome
  | cons t subs ih =>
    have hcode := code_le t
    have hparts := parts_le t
    rw [length_cons] at hcount hfew
    have hpairs : (r.counters.mvdPairsLeft+subMbMvdPairs t.code)%256=n+t.parts := by
      rw [hleft,subMbMvdPairs_code,Nat.mod_eq_of_lt (by omega)]
    rw [List.flatMap_cons,List.append_assoc]
    by_cases hlast : subs=[]
    · subst hlast
      have hthree : k=3 := by
        rw [length_nil] at hcount
        omega
      have hask : ∀ p, ownState i .mbSubType ⟨t.code,h.acc,p⟩ r =
          ({ r with counters := { r.counters with mvdPairsLeft := n+t.parts } },.go .mbMvdX) := by
        intro p
        show mbState i .mbSubType _ r=_
        rw [mbState]
        dsimp only
        rw [if_neg (by omega),hpairs,if_pos (hidx.trans hthree)]
      have hsame : { r.counters with mvdPairsLeft := n+t.parts } =
          { r.counters with mvdPairsLeft := n+t.parts, subIdx := 3 } := by
        rw [← hidx.trans hthree]
      refine Comes.ue (zerosOf_fits (by omega)) rfl (hask _) ?_
      have hthen := hrest t.code
      rw [List.flatMap_cons,flatMap_nil,append_nil,map_cons,map_nil,
        sum_cons,sum_nil,Nat.add_zero,← hsame] at hthen
      exact hthen
    · have hpos := length_pos_iff.mpr hlast
      have hask : ∀ p, ownState i .mbSubType ⟨t.code,h.acc,p⟩ r =
          ({ r with counters := { r.counters with
            mvdPairsLeft := n+t.parts
            subIdx := k+1 } },.ue .mbSubType) := by
        intro p
        have hnext : (r.counters.subIdx+1)%8=k+1 := by omega
        show mbState i .mbSubType _ r = _
        rw [mbState]
        dsimp only
        rw [if_neg (by omega),hpairs,if_neg (by omega),hnext]
      refine Comes.ue (zerosOf_fits (by omega)) rfl (hask _) ?_
      refine ih (k := k+1) (n := n+t.parts) hlast rfl (by omega) rfl (by omega) fun v => ?_
      have hthen := hrest v
      rw [List.flatMap_cons,length_append,map_cons,sum_cons,← Nat.add_assoc,
        ← Nat.add_assoc] at hthen
      exact hthen

/-- The registers before a block: the modes in front of it are recorded. -/
def atBlock (modes : Fin 16 → BlockMode) (k : ℕ) (r : Regs) : Regs :=
  { r with
    mb := { r.mb with
      intra4x4PredModeFlags := fun b => decide (b.val<k) && (modes b).isNone
      intra4x4RemModes := fun b => if b.val < k then (modes b).getD 0 else 0 }
    counters := { r.counters with i4Idx := min k 15 } }

variable {modes : Fin 16 → BlockMode} {b : Fin 16}

theorem flags_update (hnone : modes b=none) :
    Function.update (fun c : Fin 16 => decide (c.val<b.val) && (modes c).isNone) b true =
      fun c => decide (c.val<b.val+1) && (modes c).isNone := by
  funext c
  by_cases hc : c=b
  · rw [hc,Function.update_self,hnone,decide_eq_true (Nat.lt_succ_self _)]
    rfl
  · have hiff : (c.val<b.val)=(c.val<b.val+1) := propext (by omega)
    rw [Function.update_of_ne hc]
    simp only [hiff]

theorem rems_skip (hnone : modes b=none) :
    (fun c : Fin 16 => if c.val < b.val then (modes c).getD 0 else 0) =
      fun c => if c.val < b.val+1 then (modes c).getD 0 else 0 := by
  funext c
  by_cases hc : c=b
  · rw [hc,if_neg (Nat.lt_irrefl _),if_pos (Nat.lt_succ_self _),hnone]
    rfl
  · have hiff : (c.val<b.val)=(c.val<b.val+1) := propext (by omega)
    simp only [hiff]

theorem flags_skip {rem : BitVec 3} (hsome : modes b=some rem) :
    (fun c : Fin 16 => decide (c.val<b.val) && (modes c).isNone) =
      fun c => decide (c.val<b.val+1) && (modes c).isNone := by
  funext c
  by_cases hc : c=b
  · rw [hc,hsome,Option.isNone_some,Bool.and_false,Bool.and_false]
  · have hiff : (c.val<b.val)=(c.val<b.val+1) := propext (by omega)
    simp only [hiff]

theorem rems_update {rem : BitVec 3} (hsome : modes b=some rem) :
    Function.update (fun c : Fin 16 => if c.val < b.val then (modes c).getD 0 else 0) b rem =
      fun c => if c.val < b.val+1 then (modes c).getD 0 else 0 := by
  funext c
  by_cases hc : c=b
  · rw [hc,Function.update_self,if_pos (Nat.lt_succ_self _),hsome]
    rfl
  · have hiff : (c.val<b.val)=(c.val<b.val+1) := propext (by omega)
    rw [Function.update_of_ne hc]
    simp only [hiff]

theorem nextI4_atBlock {t : Regs} (ht : t = { atBlock modes (b.val+1) r with
      counters := { r.counters with i4Idx := b.val } }) :
    nextI4 t=(atBlock modes (b.val+1) r,
      if b.val = 15 then .ue .mbChroma else .bits 1 .mbI4Flag) := by
  subst ht
  rw [nextI4]
  by_cases hlast : b.val=15
  · have hidx : min (b.val+1) 15=b.val := by omega
    rw [if_pos hlast,if_pos hlast,atBlock,hidx]
  · have hidx : min (b.val+1) 15=b.val+1 := by omega
    rw [if_neg hlast,if_neg hlast,atBlock,hidx]

theorem comes_mode (b : Fin 16) (hrest : ∀ a, Comes parserLimits (ownState i)
      (if b.val = 15 then .ue .mbChroma else .bits 1 .mbI4Flag)
      ⟨h.ueValue,a,h.position+(modeBits (modes b)).length⟩
      (atBlock modes (b.val+1) r) tail Q) :
    Comes parserLimits (ownState i) (.bits 1 .mbI4Flag) h (atBlock modes b.val r)
      (modeBits (modes b) ++ tail) Q := by
  have hidx : min b.val 15=b.val := by omega
  have hat : blockAt (min b.val 15)=b := Fin.ext (by
    show min b.val 15%16=b.val
    omega)
  cases hmode : modes b with
  | none =>
    have hask : ∀ p, ownState i .mbI4Flag ⟨h.ueValue,true.toNat,p⟩ (atBlock modes b.val r) =
        (atBlock modes (b.val+1) r,
          if b.val = 15 then .ue .mbChroma else .bits 1 .mbI4Flag) := by
      intro p
      show mbState i .mbI4Flag _ _ = _
      rw [mbState]
      dsimp only
      rw [if_pos (by decide)]
      refine nextI4_atBlock ?_
      rw [atBlock,atBlock]
      rw [hat,flags_update hmode,rems_skip hmode,hidx]
    have hthen := hrest true.toNat
    rw [hmode] at hthen
    exact bit (by decide) rfl (hask _) hthen
  | some rem =>
    have hask : ∀ p, ownState i .mbI4Rem ⟨h.ueValue,rem.toNat,p⟩ (atBlock modes b.val r) =
        (atBlock modes (b.val+1) r,
          if b.val = 15 then .ue .mbChroma else .bits 1 .mbI4Flag) := by
      intro p
      refine nextI4_atBlock ?_
      rw [atBlock,atBlock]
      rw [hat,BitVec.ofNat_toNat,BitVec.setWidth_eq,rems_update hmode,flags_skip hmode,hidx]
    have hthen := hrest rem.toNat
    rw [hmode] at hthen
    have hlen : ∀ n, n+1+3=n+(modeBits (some rem)).length := fun n => by
      rw [modeBits,length_cons,length_ofNat]
    have hflag : ∀ p t, ownState i .mbI4Flag ⟨h.ueValue,false.toNat,p⟩ t =
        (t,.bits 3 .mbI4Rem) := by
      intro p t
      show mbState i .mbI4Flag _ _ = _
      rw [mbState]
      dsimp only
      rw [if_neg (by decide)]
    refine bit (by decide) rfl (hflag _ _) ?_
    refine field rem.isLt (by decide) ?_ (hask _) hthen
    exact hlen h.position

theorem comes_modes {k : ℕ} (hk : k<16)
    (hrest : ∀ a, Comes parserLimits (ownState i) (.ue .mbChroma)
      ⟨h.ueValue,a,h.position+(((List.ofFn modes).drop k).flatMap modeBits).length⟩
      (atBlock modes 16 r) tail Q) :
    Comes parserLimits (ownState i) (.bits 1 .mbI4Flag) h (atBlock modes k r)
      (((List.ofFn modes).drop k).flatMap modeBits ++ tail) Q := by
  have hdrop : (ofFn modes).drop k=modes ⟨k,hk⟩::(ofFn modes).drop (k+1) := by
    rw [List.drop_eq_getElem_cons (by rw [List.length_ofFn]; exact hk),List.getElem_ofFn]
  induction hleft : 15-k generalizing h k with
  | zero =>
    have hlast : k=15 := by omega
    subst hlast
    have hnil : (ofFn modes).drop 16=[] := drop_of_length_le (by
      rw [List.length_ofFn])
    rw [hdrop,hnil,List.flatMap_cons,flatMap_nil,append_nil] at hrest ⊢
    exact comes_mode ⟨15,hk⟩ hrest
  | succ n ih =>
    rw [hdrop,List.flatMap_cons,List.append_assoc]
    refine comes_mode ⟨k,hk⟩ fun a => ?_
    rw [if_neg (show k≠15 by omega)]
    have hnext : (ofFn modes).drop (k+1) =
        modes ⟨k+1,by omega⟩::(ofFn modes).drop (k+1+1) := by
      rw [List.drop_eq_getElem_cons (by rw [List.length_ofFn]; omega),List.getElem_ofFn]
    refine ih (k := k+1) (by omega) (fun a => ?_) hnext (by omega)
    have hthen := hrest a
    rw [hdrop,List.flatMap_cons,length_append,← Nat.add_assoc] at hthen
    exact hthen

/-- The registers behind mb_type, the partition mode apart. -/
structure Fresh (i : Inputs) (p : Bool) (m : Macroblock) (r : Regs) : Prop where
  supported : r.unsupported=false
  skipRun : r.mb.mbSkipRun=0
  mbType : r.mb.mbType = .ofNat 8 (m.mbType p)
  flags : r.mb.intra4x4PredModeFlags = fun _ => false
  rems : r.mb.intra4x4RemModes = fun _ => 0
  chroma : r.mb.intraChromaPredMode=0
  /-- The quantiser so far. -/
  qp : r.mb.mbQp=i.qpIn

theorem delta_fits (hlow : -26≤k) (hhigh : k≤25) : seIndex k<2^24 := by
  have hle := seIndex_le (k := k) (b := 26) (by omega) (by omega)
  omega

theorem cbpIntraMap_code (c : Fin 48) : cbpIntraMap (.ofNat 6 c) = .ofNat 6 (meIntra c) := by
  rw [← cbpIntraMap_eq,BitVec.ofNat_toNat,BitVec.setWidth_eq]

theorem cbpInterMap_code (c : Fin 48) : cbpInterMap (.ofNat 6 c) = .ofNat 6 (meInter c) := by
  rw [← cbpInterMap_eq,BitVec.ofNat_toNat,BitVec.setWidth_eq]

theorem meIntra_ne : ∀ c : Fin 48, (BitVec.ofNat 6 (meIntra c)≠0) ↔ meIntra c≠0 := by
  decide

theorem meInter_ne : ∀ c : Fin 48, (BitVec.ofNat 6 (meInter c)≠0) ↔ meInter c≠0 := by
  decide

theorem i16CbpFromType_eq : ∀ (predMode : Fin 4) (chromaCbp : Fin 3) (lumaCoded : Bool),
    i16CbpFromType (.ofNat 8 (1+predMode+4*chromaCbp+if lumaCoded then 12 else 0)) =
      .ofNat 6 (16*chromaCbp+if lumaCoded then 15 else 0) := by
  decide

theorem wholeType_ne : ∀ (predMode : Fin 4) (chromaCbp : Fin 3) (lumaCoded : Bool),
    BitVec.ofNat 8 (1+predMode+4*chromaCbp+if lumaCoded then 12 else 0)≠25 ∧
      BitVec.ofNat 8 (1+predMode+4*chromaCbp+if lumaCoded then 12 else 0)≠0 := by
  decide

variable {p : Bool}

theorem Told.report {m : Macroblock} {n : ℕ} {c : BitVec 6} {d q : BitVec 8}
    (ht : Told p m r) (hc : c = .ofNat 6 m.cbp) (hq : q=i.qpIn + .ofInt 8 m.qpDelta) :
    MbReport i p m { r with mb := { r.mb with
      codedBlockPattern := c
      mbQpDelta := d
      mbQp := q
      residualBitOffset := .ofNat 16 n } } n where
  supported := ht.supported
  skipRun := ht.skipRun
  mbType := ht.mbType
  mode := ht.mode
  flags := ht.flags
  rems := ht.rems
  chroma := ht.chroma
  cbp := hc
  qp := hq
  offset := rfl

theorem comes_cbp {m : Macroblock} {cbp : ℕ} (ht : Told p m r)
    (hqp : r.mb.mbQp=i.qpIn) (hcbp : m.cbp=cbp) (hdelta : m.qpDelta = if cbp ≠ 0 then k else 0)
    (hne : BitVec.ofNat 6 cbp≠0 ↔ cbp≠0) (hfit : cbp≠0 → seIndex k<2^24) :
    Comes parserLimits (ownState i) (cbpDone (.ofNat 6 cbp) h r).2 h
      (cbpDone (.ofNat 6 cbp) h r).1 ((if cbp ≠ 0 then seCode k else []) ++ tail) fun t n =>
        MbReport i p m t n ∧ n=h.position+(if cbp ≠ 0 then seCode k else []).length := by
  have hbits : (if cbp ≠ 0 then seCode k else []) =
      if BitVec.ofNat 6 cbp ≠ 0 then seCode k else [] := if_congr hne.symm rfl rfl
  rw [hbits]
  refine comes_cbpDone (fun hc => hfit (hne.mp hc)) (fun hc => ?_) fun hc => ?_
  · rw [if_pos (hne.mp hc)] at hdelta
    rw [if_pos hc]
    exact ⟨ht.report (by rw [hcbp]) (by rw [hdelta]),rfl⟩
  · have hzero : cbp=0 := by
      by_contra hcoded
      exact hne.mpr hcoded hc
    rw [if_neg (not_not.mpr hzero)] at hdelta
    have hsame : r.mb.mbQp=i.qpIn+BitVec.ofInt 8 m.qpDelta := by
      rw [hqp,hdelta]
      exact (BitVec.add_zero _).symm
    rw [if_neg (not_not.mpr hc)]
    exact ⟨ht.report (by rw [hcbp]) hsame,rfl⟩

theorem atBlock_zero (modes : Fin 16 → BlockMode)
    (hflags : r.mb.intra4x4PredModeFlags = fun _ => false)
    (hrems : r.mb.intra4x4RemModes = fun _ => 0) (hidx : r.counters.i4Idx=0) :
    atBlock modes 0 r=r := by
  have hnoFlags : (fun b : Fin 16 => decide (b.val<0) && (modes b).isNone) = fun _ => false :=
    funext fun b => by rw [decide_eq_false (Nat.not_lt_zero _),Bool.false_and]
  have hnoRems : (fun b : Fin 16 => if b.val < 0 then (modes b).getD 0 else (0 : BitVec 3)) =
      fun _ => 0 := funext fun b => if_neg (Nat.not_lt_zero _)
  have hnoIdx : min 0 15=r.counters.i4Idx := hidx.symm
  rw [atBlock,hnoFlags,hnoRems,← hflags,← hrems,hnoIdx]

theorem atBlock_all (modes : Fin 16 → BlockMode) (r : Regs) :
    (atBlock modes 16 r).mb.intra4x4PredModeFlags=(fun b => (modes b).isNone) ∧
      (atBlock modes 16 r).mb.intra4x4RemModes = fun b => (modes b).getD 0 := by
  constructor
  · exact funext fun b =>
      (congrArg (· && (modes b).isNone) (decide_eq_true b.isLt)).trans (Bool.true_and _)
  · exact funext fun b => if_pos b.isLt

theorem ownState_chroma_blocks (hmode : r.mb.partitionMode = .iNxN) :
    ownState i .mbChroma h r =
      ({ r with mb := { r.mb with intraChromaPredMode := .ofNat 3 h.ueValue } },
        .ue .mbCbpIntra) := by
  have hnot : r.mb.partitionMode ≠ .i16x16 := by
    rw [hmode]
    exact PartitionMode.noConfusion
  exact Prod.ext rfl (if_neg hnot)

theorem ownState_chroma_whole (hmode : r.mb.partitionMode = .i16x16) :
    ownState i .mbChroma h r =
      ({ r with mb := { r.mb with intraChromaPredMode := .ofNat 3 h.ueValue } },
        .ue .mbQpDelta) :=
  Prod.ext rfl (if_pos hmode)

theorem ownState_cbpIntra (c : Fin 48) (x t : ℕ) (r : Regs) :
    ownState i .mbCbpIntra ⟨c,x,t⟩ r =
      ((cbpDone (.ofNat 6 (meIntra c)) ⟨c,x,t⟩
          { r with counters := { r.counters with cbpMapped := .ofNat 6 (meIntra c) } }).1,
        (cbpDone (.ofNat 6 (meIntra c)) ⟨c,x,t⟩
          { r with counters := { r.counters with cbpMapped := .ofNat 6 (meIntra c) } }).2) := by
  show mbState i .mbCbpIntra _ _ = _
  rw [mbState]
  dsimp only
  rw [if_neg (by omega),cbpIntraMap_code]

theorem ownState_cbpInter (c : Fin 48) (x t : ℕ) (r : Regs) :
    ownState i .mbCbpInter ⟨c,x,t⟩ r =
      ((cbpDone (.ofNat 6 (meInter c)) ⟨c,x,t⟩ r).1,
        (cbpDone (.ofNat 6 (meInter c)) ⟨c,x,t⟩ r).2) := by
  show mbState i .mbCbpInter _ _ = _
  rw [mbState]
  dsimp only
  rw [if_neg (by omega),cbpInterMap_code]

theorem comes_nxn {chroma : Fin 4} {cbpCode : Fin 48}
    (hr : Fresh i p (.intra (.nxn modes chroma cbpCode k)) r)
    (hfit : meIntra cbpCode≠0 → seIndex k<2^24) :
    Comes parserLimits (ownState i) (mbIntraType 0 h r).2 h (mbIntraType 0 h r).1
      ((IntraMb.nxn modes chroma cbpCode k).bits ++ tail) fun t n =>
        MbReport i p (.intra (.nxn modes chroma cbpCode k)) t n ∧
          n=h.position+(IntraMb.nxn modes chroma cbpCode k).bits.length := by
  have hstart : mbIntraType 0 h r=({ r with
      mb := { r.mb with partitionMode := .iNxN }
      counters := { r.counters with i4Idx := 0 } },.bits 1 .mbI4Flag) :=
    (if_neg (by decide)).trans (if_pos rfl)
  rw [hstart,IntraMb.bits,List.append_assoc,List.append_assoc,List.append_assoc]
  rw [← atBlock_zero modes (r := { r with
      mb := { r.mb with partitionMode := .iNxN }
      counters := { r.counters with i4Idx := 0 } }) hr.flags hr.rems rfl]
  refine comes_modes (k := 0) (by decide) fun acc => ?_
  refine Comes.ue (zerosOf_fits (by omega)) rfl (ownState_chroma_blocks rfl) ?_
  refine Comes.ue (zerosOf_fits (by omega)) rfl (ownState_cbpIntra _ _ _ _) ?_
  have hall := atBlock_all modes r
  refine mono (comes_cbp (p := p) (m := .intra (.nxn modes chroma cbpCode k)) ?_ ?_ rfl rfl
    (meIntra_ne cbpCode) hfit) fun t n ht => ⟨ht.1,?_⟩
  · exact ⟨hr.supported,hr.skipRun,hr.mbType,rfl,hall.1,hall.2,rfl⟩
  · exact hr.qp
  · rw [ht.2]
    simp only [length_append,drop_zero]
    omega

theorem comes_whole {predMode : Fin 4} {chromaCbp : Fin 3} {lumaCoded : Bool} {chroma : Fin 4}
    (hr : Fresh i p (.intra (.whole predMode chromaCbp lumaCoded chroma k)) r)
    (hfit : seIndex k<2^24) : Comes parserLimits (ownState i)
      (mbIntraType (.ofNat 8 (IntraMb.whole predMode chromaCbp lumaCoded chroma k).mbType) h r).2 h
      (mbIntraType (.ofNat 8 (IntraMb.whole predMode chromaCbp lumaCoded chroma k).mbType) h r).1
      ((IntraMb.whole predMode chromaCbp lumaCoded chroma k).bits ++ tail) fun t n =>
        MbReport i p (.intra (.whole predMode chromaCbp lumaCoded chroma k)) t n ∧
          n=h.position+(IntraMb.whole predMode chromaCbp lumaCoded chroma k).bits.length := by
  have htype := wholeType_ne predMode chromaCbp lumaCoded
  have hcbp := i16CbpFromType_eq predMode chromaCbp lumaCoded
  have hstart : mbIntraType
      (.ofNat 8 (IntraMb.whole predMode chromaCbp lumaCoded chroma k).mbType) h r =
      ({ r with mb := { r.mb with
        partitionMode := .i16x16
        codedBlockPattern := .ofNat 6 (16*chromaCbp+if lumaCoded then 15 else 0) } },
        .ue .mbChroma) := by
    rw [← hcbp]
    exact (if_neg htype.1).trans (if_neg htype.2)
  rw [hstart,IntraMb.bits,List.append_assoc]
  refine Comes.ue (zerosOf_fits (by omega)) rfl (ownState_chroma_whole rfl) ?_
  refine comes_quantiser hfit ⟨?_,?_⟩
  · refine Told.report ?_ rfl rfl
    exact { hr with mode := rfl, chroma := rfl }
  · rw [length_append]
    exact Nat.add_assoc _ _ _

theorem comes_intra {a : IntraMb} (hr : Fresh i p (.intra a) r)
    (hlow : -26≤a.qpDelta) (hhigh : a.qpDelta≤25) :
    Comes parserLimits (ownState i) (mbIntraType (.ofNat 8 a.mbType) h r).2 h
      (mbIntraType (.ofNat 8 a.mbType) h r).1 (a.bits ++ tail) fun t n =>
        MbReport i p (.intra a) t n ∧ n=h.position+a.bits.length := by
  cases a with
  | nxn modes chroma cbpCode k =>
    refine comes_nxn hr fun hcoded => ?_
    rw [IntraMb.qpDelta,if_pos hcoded] at hlow hhigh
    exact delta_fits hlow hhigh
  | whole predMode chromaCbp lumaCoded chroma k => exact comes_whole hr (delta_fits hlow hhigh)

theorem comes_vectors {m : InterMb} (ht : Told p (.inter m) r)
    (hqp : r.mb.mbQp=i.qpIn) (hleft : r.counters.mvdPairsLeft=m.partition.vectors)
    (hfew : m.partition.vectors<256) (hlegal : ∀ d∈m.mvds, d.Legal)
    (hfit : m.cbp≠0 → seIndex m.qpDelta<2^24) :
    Comes parserLimits (ownState i) (.go .mbMvdX) h r
      (m.mvds.flatMap Mvd.bits ++ (ueCode m.cbpCode ++
        ((if m.cbp ≠ 0 then seCode m.qpDelta else []) ++ tail))) fun t n =>
      MbReport i p (.inter m) t n ∧ n=h.position+(m.mvds.flatMap Mvd.bits ++
        (ueCode m.cbpCode ++ if m.cbp ≠ 0 then seCode m.qpDelta else [])).length := by
  have hcount := m.counted
  refine comes_mvds hlegal (by omega) (hleft.trans hcount.symm) fun v => ?_
  refine Comes.ue (zerosOf_fits (by omega)) rfl (ownState_cbpInter _ _ _ _) ?_
  refine mono (comes_cbp (p := p) (m := .inter m) ?_ ?_ rfl rfl
    (meInter_ne m.cbpCode) hfit) fun t n ht => ⟨ht.1,?_⟩
  · exact { ht with }
  · exact hqp
  · rw [ht.2,length_append,length_append,← Nat.add_assoc,← Nat.add_assoc]
    rfl

theorem comes_inter {m : InterMb} (hr : Fresh i p (.inter m) r) {x t : ℕ}
    (hlegal : ∀ d∈m.mvds, d.Legal) (hlow : -26 ≤ m.change) (hhigh : m.change≤25) :
    Comes parserLimits (ownState i) (mbInterType ⟨m.partition.mbType,x,t⟩ r).2
      ⟨m.partition.mbType,x,t⟩ (mbInterType ⟨m.partition.mbType,x,t⟩ r).1
      (m.bits ++ tail) fun u n =>
        MbReport i p (.inter m) u n ∧ n=t+m.bits.length := by
  have hfit : m.cbp≠0 → seIndex m.qpDelta<2^24 := by
    intro hcoded
    rw [InterMb.change,if_pos hcoded] at hlow hhigh
    exact delta_fits hlow hhigh
  have hplain : ∀ n mode, m.partition.subBits=[] → m.partition.mode=mode →
      m.partition.vectors=n → n<256 →
      Comes parserLimits (ownState i) (.go .mbMvdX) ⟨m.partition.mbType,x,t⟩ { r with
        mb := { r.mb with partitionMode := mode }
        counters := { r.counters with mvdPairsLeft := n } } (m.bits ++ tail) fun u n =>
          MbReport i p (.inter m) u n ∧ n=t+m.bits.length := by
    intro n mode hsubs hmode hvectors hfew
    rw [InterMb.bits,hsubs,List.nil_append,List.append_assoc,List.append_assoc]
    refine comes_vectors ?_ hr.qp hvectors.symm (hvectors.trans_lt hfew) hlegal hfit
    exact { hr with mode := hmode.symm }
  cases hpart : m.partition with
  | p16x16 =>
    have hcase := hplain 1 .p16x16 (by rw [hpart]; rfl) (by rw [hpart]; rfl) (by rw [hpart]; rfl)
      (by decide)
    rw [hpart] at hcase
    exact hcase
  | p16x8 =>
    have hcase := hplain 2 .p16x8 (by rw [hpart]; rfl) (by rw [hpart]; rfl) (by rw [hpart]; rfl)
      (by decide)
    rw [hpart] at hcase
    exact hcase
  | p8x16 =>
    have hcase := hplain 2 .p8x16 (by rw [hpart]; rfl) (by rw [hpart]; rfl) (by rw [hpart]; rfl)
      (by decide)
    rw [hpart] at hcase
    exact hcase
  | p8x8 ref0 first second third fourth =>
    have hask : mbInterType ⟨(Partition.p8x8 ref0 first second third fourth).mbType,x,t⟩ r =
        ({ r with
          mb := { r.mb with partitionMode := .p8x8 }
          counters := { r.counters with subIdx := 0, mvdPairsLeft := 0 } },.ue .mbSubType) := by
      cases ref0 with
      | true => rfl
      | false => rfl
    have hsubs : m.partition.subs=[first,second,third,fourth] := by rw [hpart]; rfl
    have hvectors : m.partition.vectors =
        0+([first,second,third,fourth].map SubMbType.parts).sum := by
      rw [hpart,Partition.vectors]
      simp only [map_cons,map_nil,sum_cons,sum_nil]
      omega
    have hfew : m.partition.vectors<256 := by
      have hfirst := parts_le first
      have hsecond := parts_le second
      have hthird := parts_le third
      have hfourth := parts_le fourth
      rw [hpart,Partition.vectors]
      omega
    rw [hask,InterMb.bits,List.append_assoc,List.append_assoc,List.append_assoc,
      Partition.subBits,hsubs]
    have hroom : 0+4*[first,second,third,fourth].length<256 := by
      simp only [length_cons,length_nil]
      omega
    refine comes_subs (k := 0) (n := 0) (cons_ne_nil _ _) rfl rfl rfl hroom fun v => ?_
    refine mono (comes_vectors (p := p) (m := m) ?_ ?_ hvectors.symm hfew hlegal hfit)
      fun u n hu => ⟨hu.1,?_⟩
    · have hmode : PartitionMode.p8x8=m.partition.mode := by rw [hpart]; rfl
      exact { hr with mode := hmode }
    · exact hr.qp
    · rw [hu.2,Nat.add_assoc,← length_append]

end Misterplex.Baseline
