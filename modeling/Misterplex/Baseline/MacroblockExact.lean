import Misterplex.Baseline.MacroblockWalk
import Misterplex.Recon.Transform

/-!
# Which macroblocks the parser reports

Every macroblock of an I or P slice is read to its last element in front of the
residual, and everything about it is reported as coded, but for two kinds: a run of
more than 65535 skipped macroblocks does not fit its output, and a quantiser that
leaves the range of 0 to 51 is not wrapped around into it.
-/

namespace Misterplex.Baseline

open BitString ExpGolomb Recon List

variable {i : Inputs} {h : Heard} {r : Regs} {tail : List Bool} {p : Bool} {m : Macroblock}

theorem isPSlice_of_legal (hl : m.Legal i p) : isPSlice i.activeSliceType=p := by
  have hslice := hl.slice
  have hofNat : i.activeSliceType=BitVec.ofNat 8 i.activeSliceType.toNat := by
    rw [BitVec.ofNat_toNat,BitVec.setWidth_eq]
  cases p with
  | true =>
    rw [if_pos rfl,mem_cons,mem_singleton] at hslice
    rw [hofNat]
    rcases hslice with hzero | hfive
    · rw [hzero]
      rfl
    · rw [hfive]
      rfl
  | false =>
    rw [if_neg Bool.false_ne_true,mem_cons,mem_singleton] at hslice
    rw [hofNat]
    rcases hslice with htwo | hseven
    · rw [htwo]
      rfl
    · rw [hseven]
      rfl

theorem isISlice_of_legal (hl : m.Legal i false) : isISlice i.activeSliceType=true := by
  have hslice := hl.slice
  have hofNat : i.activeSliceType=BitVec.ofNat 8 i.activeSliceType.toNat := by
    rw [BitVec.ofNat_toNat,BitVec.setWidth_eq]
  rw [if_neg Bool.false_ne_true,mem_cons,mem_singleton] at hslice
  rw [hofNat]
  rcases hslice with htwo | hseven
  · rw [htwo]
    rfl
  · rw [hseven]
    rfl

theorem IntraMb.mbType_le (a : IntraMb) : a.mbType≤24 := by
  cases a with
  | nxn modes chroma cbpCode k => exact Nat.zero_le _
  | whole predMode chromaCbp lumaCoded chroma k =>
    rw [IntraMb.mbType]
    split <;> omega

theorem Partition.mbType_le (a : Partition) : a.mbType≤4 := by
  cases a with
  | p8x8 ref0 first second third fourth =>
    rw [Partition.mbType]
    split <;> omega
  | p16x16 | p16x8 | p8x16 => decide

/-- The registers behind mb_type. -/
def typed (i : Inputs) (v : ℕ) (r : Regs) : Regs :=
  { r with mb := { r.mb with mbType := .ofNat 8 v, mbQp := i.qpIn } }

theorem ownState_type_inter {v x t : ℕ} (hP : isPSlice i.activeSliceType=true)
    (hone : i.numRefIdxL0ActiveMinus1=0) (hv : v≤4) :
    ownState i .mbType ⟨v,x,t⟩ r =
      ((mbInterType ⟨v,x,t⟩ (typed i v r)).1,(mbInterType ⟨v,x,t⟩ (typed i v r)).2) := by
  show mbTypeState i _ _ = _
  rw [mbTypeState]
  rw [if_pos ⟨hP,hv⟩,hone,if_neg (not_not.mpr rfl)]
  rfl

theorem ownState_type_intra {a : IntraMb} {v x t : ℕ} (hP : isPSlice i.activeSliceType=p)
    (hv : v = if p then a.mbType+5 else a.mbType) :
    ∃ c, ownState i .mbType ⟨v,x,t⟩ r =
      ((mbIntraType (.ofNat 8 a.mbType) ⟨v,x,t⟩ { typed i v r with counters := c }).1,
        (mbIntraType (.ofNat 8 a.mbType) ⟨v,x,t⟩ { typed i v r with counters := c }).2) := by
  have hle := a.mbType_le
  have htype : (if isPSlice i.activeSliceType = true then BitVec.ofNat 8 v-5
      else BitVec.ofNat 8 v)=BitVec.ofNat 8 a.mbType := by
    rw [hP]
    cases p with
    | true =>
      rw [if_pos rfl] at hv ⊢
      rw [hv,BitVec.ofNat_add]
      exact BitVec.add_sub_cancel _ _
    | false =>
      rw [if_neg Bool.false_ne_true] at hv ⊢
      rw [hv]
  have hinter : ¬(isPSlice i.activeSliceType=true ∧ v≤4) := by
    rw [hP]
    rintro ⟨rfl,hsmall⟩
    rw [if_pos rfl] at hv
    omega
  have hknown : ¬((isPSlice i.activeSliceType=true ∧ 30<v) ∨
      (¬isPSlice i.activeSliceType=true ∧ 25<v)) := by
    rw [hP]
    cases p with
    | true =>
      rw [if_pos rfl] at hv
      rintro (⟨-,hbig⟩ | ⟨hnot,-⟩)
      · omega
      · exact hnot rfl
    | false =>
      rw [if_neg Bool.false_ne_true] at hv
      rintro (⟨hnot,-⟩ | ⟨-,hbig⟩)
      · cases hnot
      · omega
  refine ⟨{ r.counters with iMbType := .ofNat 8 a.mbType },?_⟩
  show mbTypeState i _ _ = _
  rw [mbTypeState]
  rw [if_neg hinter,if_neg hknown,htype]
  rfl

theorem fresh_typed {c : MbCounters} {v : ℕ} (hv : v=m.mbType p)
    (hsupported : r.unsupported=false) (hmb : r.mb=(Regs.reset i).mb) :
    Fresh i p m { typed i v r with counters := c } := by
  refine ⟨hsupported,?_,?_,?_,?_,?_,rfl⟩
  · exact congrArg MbFields.mbSkipRun hmb
  · exact congrArg (BitVec.ofNat 8) hv
  · exact congrArg MbFields.intra4x4PredModeFlags hmb
  · exact congrArg MbFields.intra4x4RemModes hmb
  · exact congrArg MbFields.intraChromaPredMode hmb

theorem ownState_unskipped (x t : ℕ) (r : Regs) :
    ownState i .mbPSkip ⟨0,x,t⟩ r =
      ({ r with mb := { r.mb with mbSkipRun := .ofNat 16 0 } },.ue .mbType) :=
  rfl

open Regs

/-- A macroblock whose run of skipped ones is short is read to its last element in front of the
residual. -/
theorem comes_macroblock (hl : m.Legal i p) (hrun : m.skipRun<65536) (start : ℕ) :
    Comes parserLimits (ownState i) (.go .dispatch) ⟨0,0,start⟩ (Regs.reset i)
      (m.bits p ++ tail) fun t n => MbReport i p m t n ∧ n=start+(m.bits p).length := by
  have hP := isPSlice_of_legal hl
  have hdispatch : ownState i .dispatch ⟨0,0,start⟩ (reset i) =
      (reset i,.go .mbStart) := by
    refine Prod.ext rfl ?_
    show (if i.mode = 0 then Ask.ue Own.ppsId else if i.mode = 1 then .ue .slFirst
      else if i.mode = 2 then .go .mbStart else .fail)=_
    rw [hl.mode]
    rfl
  refine Comes.go hdispatch ?_
  cases p with
  | false =>
    obtain ⟨a,rfl⟩ := hl.intra rfl
    have hle := a.mbType_le
    have hstart : ownState i .mbStart ⟨0,0,start⟩ (reset i) =
        (reset i,.ue .mbType) := by
      show mbState i .mbStart ⟨0,0,start⟩ (reset i)=_
      rw [mbState,hP,if_neg Bool.false_ne_true,isISlice_of_legal hl,if_pos rfl]
    obtain ⟨c,htype⟩ := ownState_type_intra (a := a) (v := a.mbType) (x := 0)
      (t := start+(ueCode a.mbType).length) (r := reset i) hP rfl
    rw [Macroblock.bits,if_neg Bool.false_ne_true,List.append_assoc]
    refine Comes.go hstart ?_
    refine Comes.ue (zerosOf_fits (by omega)) rfl htype ?_
    refine Comes.mono (comes_intra (p := false) (fresh_typed rfl rfl rfl) hl.delta.1 hl.delta.2)
      fun t n ht => ⟨ht.1,?_⟩
    rw [ht.2,length_append]
    exact Nat.add_assoc _ _ _
  | true =>
    have hstart : ownState i .mbStart ⟨0,0,start⟩ (reset i) =
        (reset i,.ue .mbPSkip) := by
      show mbState i .mbStart ⟨0,0,start⟩ (reset i)=_
      rw [mbState,hP,if_pos rfl]
    refine Comes.go hstart ?_
    cases m with
    | skipped run hpos =>
      have hskip : ∀ t, ownState i .mbPSkip ⟨run,0,t⟩ (reset i) =
          ({ reset i with mb := mbDone ⟨run,0,t⟩ { (reset i).mb with
            mbSkipRun := .ofNat 16 run
            mbSkipped := true
            partitionMode := .pSkip
            mbQp := i.qpIn } },.go .finish) := fun t => if_pos hpos.ne'
      have hrun' : run<65536 := hrun
      refine Comes.ue (zerosOf_fits (by omega)) rfl (hskip _) (Comes.go rfl (Comes.done ⟨?_,rfl⟩))
      exact ⟨⟨rfl,rfl,rfl,rfl,rfl,rfl,rfl⟩,rfl,(BitVec.add_zero _).symm,rfl⟩
    | inter a =>
      have hle := a.partition.mbType_le
      rw [Macroblock.bits,List.append_assoc,List.append_assoc]
      refine Comes.ue (by decide) rfl (ownState_unskipped _ _ _) ?_
      refine Comes.ue (zerosOf_fits (by omega)) rfl
        (ownState_type_inter hP hl.oneReference hle) ?_
      refine Comes.mono (comes_inter (p := true) (fresh_typed rfl rfl rfl) (hl.mvds a rfl) hl.delta.1
        hl.delta.2) fun t n ht => ⟨ht.1,?_⟩
      rw [ht.2,length_append,length_append,Nat.add_assoc,Nat.add_assoc]
    | intra a =>
      have hle := a.mbType_le
      obtain ⟨c,htype⟩ := ownState_type_intra (a := a) (v := a.mbType+5) (x := 0)
        (t := start+(ueCode 0).length+(ueCode (a.mbType+5)).length)
        (r := { reset i with mb := { (reset i).mb with mbSkipRun := .ofNat 16 0 } })
        hP rfl
      rw [Macroblock.bits,if_pos rfl,List.append_assoc,List.append_assoc]
      refine Comes.ue (by decide) rfl (ownState_unskipped _ _ _) ?_
      refine Comes.ue (zerosOf_fits (by omega)) rfl htype ?_
      refine Comes.mono (comes_intra (p := true) (fresh_typed rfl rfl rfl) hl.delta.1 hl.delta.2)
        fun t n ht => ⟨ht.1,?_⟩
      rw [ht.2,length_append,length_append,← Nat.add_assoc,← Nat.add_assoc]

/-- What a macroblock is to be reported as. -/
structure Macroblock.Reported (i : Inputs) (p : Bool) (m : Macroblock) (start : ℕ) (q : Parser) :
    Prop where
  valid : q.valid=true
  healthy : q.error=false
  supported : q.regs.unsupported=false
  skipRun : q.regs.mb.mbSkipRun.toNat=m.skipRun
  mbType : q.regs.mb.mbType.toNat=m.mbType p
  mode : q.regs.mb.partitionMode=m.mode
  flags : q.regs.mb.intra4x4PredModeFlags=m.flags
  rems : q.regs.mb.intra4x4RemModes=m.rems
  chroma : q.regs.mb.intraChromaPredMode.toNat=m.chroma
  cbp : q.regs.mb.codedBlockPattern.toNat=m.cbp
  qp : q.regs.mb.mbQp.toInt=wrapQpY i.qpIn.toInt m.qpDelta
  offset : q.regs.mb.residualBitOffset.toNat=start+(m.bits p).length

theorem wrapQpY_eq_iff {qp delta : ℤ} (hqp : 0≤qp ∧ qp≤51) (hdelta : -26≤delta ∧ delta≤25) :
    qp+delta=wrapQpY qp delta ↔ 0≤qp+delta ∧ qp+delta≤51 := by
  rw [wrapQpY]
  rcases lt_or_ge (qp+delta) 0 with hneg | hpos
  · have hmod : (qp+delta).tmod 52=qp+delta := by
      rw [← neg_neg (qp+delta),Int.neg_tmod,Int.tmod_eq_of_lt (by omega) (by omega)]
    omega
  · have hmod : (qp+delta).tmod 52=(qp+delta)%52 := Int.tmod_eq_emod_of_nonneg hpos
    omega

theorem qp_reported {qp : BitVec 8} {delta : ℤ} (hqp : 0≤qp.toInt ∧ qp.toInt≤51)
    (hdelta : -26≤delta ∧ delta≤25) :
    (qp+BitVec.ofInt 8 delta).toInt=qp.toInt+delta := by
  rw [BitVec.toInt_add,BitVec.toInt_ofInt,Int.add_bmod_bmod]
  refine Int.bmod_eq_of_le ?_ ?_
  · omega
  · omega

theorem me_lt : ∀ c : Fin 48, meIntra c<64 ∧ meInter c<64 := by
  decide

theorem Macroblock.cbp_lt (m : Macroblock) : m.cbp<64 := by
  cases m with
  | skipped run hpos => exact (by decide : 0<64)
  | inter a => exact (me_lt a.cbpCode).2
  | intra a =>
    cases a with
    | nxn modes chroma cbpCode k => exact (me_lt cbpCode).1
    | whole predMode chromaCbp lumaCoded chroma k =>
      show 16*chromaCbp.val+(if lumaCoded then 15 else 0)<64
      split <;> omega

theorem Macroblock.chroma_lt (m : Macroblock) : m.chroma<4 := by
  cases m with
  | skipped run hpos => exact (by decide : 0<4)
  | inter a => exact (by decide : 0<4)
  | intra a => exact a.chroma.isLt

theorem Macroblock.mbType_lt (m : Macroblock) (p : Bool) : m.mbType p<32 := by
  cases m with
  | skipped run hpos => exact (by decide : 0<32)
  | inter a => exact lt_of_le_of_lt a.partition.mbType_le (by decide)
  | intra a =>
    have hle := a.mbType_le
    rw [Macroblock.mbType]
    split <;> omega

theorem toNat_of_fits {w v : ℕ} {x : BitVec w} (hx : x = .ofNat w v) (hv : v<2^w) :
    x.toNat=v := by
  rw [hx,BitVec.toNat_ofNat,Nat.mod_eq_of_lt hv]

/-- A macroblock is reported as coded exactly when the RBSP has at most 8191 bytes, the run of
skipped macroblocks fits 16 bits and the quantiser needs no wrapping. -/
theorem reported_iff (hl : m.Legal i p) (d : Delivery) (pre rest : List Bool)
    (hbits : bitsOf d.bytes = pre ++ (m.bits p ++ rest)) (hstart : i.startBit.toNat=pre.length)
    (offers : ℕ → Option (Byte × Bool)) :
    (∃ q, Parser.Ends i offers (Parser.loaded i d) q ∧ m.Reported i p pre.length q) ↔
      d.bytes.length≤8191 ∧ m.skipRun<65536 ∧
        0 ≤ i.qpIn.toInt+m.qpDelta ∧ i.qpIn.toInt+m.qpDelta≤51 := by
  constructor
  · rintro ⟨q,hends,hq⟩
    have hshort := Parser.short_of_valid (Or.inr hl.mode) hends hq.valid
    have hrun : m.skipRun<65536 := by
      rw [← hq.skipRun]
      exact q.regs.mb.mbSkipRun.isLt
    obtain ⟨t,n,hends',-,hreport,-⟩ :=
      Parser.ends_valid offers hshort hbits hstart (comes_macroblock hl hrun pre.length)
    have hsame := hends.unique hends'
    subst hsame
    have hqp := hq.qp
    rw [hreport.qp,qp_reported hl.qp hl.delta] at hqp
    exact ⟨Nat.le_of_lt_succ hshort,hrun,(wrapQpY_eq_iff hl.qp hl.delta).mp hqp⟩
  · rintro ⟨hlen,hrun,hqp⟩
    have hshort : d.bytes.length < maxRbspBytes := Nat.lt_succ_of_le hlen
    obtain ⟨q,n,hends,hvalid,hreport,hn⟩ :=
      Parser.ends_valid offers hshort hbits hstart (comes_macroblock hl hrun pre.length)
    have hbound := congrArg length hbits
    rw [length_bitsOf,length_append,length_append] at hbound
    refine ⟨q,hends,hvalid.valid,hvalid.healthy,hreport.supported,?_,?_,hreport.mode,
      hreport.flags,hreport.rems,?_,?_,?_,?_⟩
    · exact toNat_of_fits hreport.skipRun hrun
    · exact toNat_of_fits hreport.mbType (lt_trans (m.mbType_lt p) (by decide))
    · exact toNat_of_fits hreport.chroma (lt_trans m.chroma_lt (by decide))
    · exact toNat_of_fits hreport.cbp m.cbp_lt
    · rw [hreport.qp,qp_reported hl.qp hl.delta]
      exact (wrapQpY_eq_iff hl.qp hl.delta).mpr hqp
    · rw [← hn]
      refine toNat_of_fits hreport.offset ?_
      omega

/-- Inputs of a macroblock of an I slice at the start of its RBSP. -/
def intraInputs (qp : BitVec 8) : Inputs := ⟨2,0,1,1,4,4,2,26,false,7,qp,0⟩

local instance neZero_modes : NeZero 4 := ⟨by decide⟩

/-- A macroblock predicted as a whole, without coefficients beside its DC, with a change of the
quantiser. -/
def wholeMb (k : ℤ) : Macroblock := .intra (.whole 0 0 false 0 k)

theorem legal_wholeMb {qp : BitVec 8} {k : ℤ} (hqp : 0≤qp.toInt ∧ qp.toInt≤51)
    (hk : -26≤k ∧ k≤25) : (wholeMb k).Legal (intraInputs qp) false where
  mode := rfl
  slice := mem_cons_of_mem _ mem_cons_self
  intra := fun _ => ⟨_,rfl⟩
  oneReference := rfl
  qp := hqp
  delta := hk
  mvds := fun _ ha => Macroblock.noConfusion ha

/-- From 26 to 29 the quantiser is reported. -/
theorem reported_up : ∃ q, Parser.Ends (intraInputs 26) (fun _ => none)
    (Parser.loaded (intraInputs 26) (.atOnce [0x53] 0x00)) q ∧
      (wholeMb 3).Reported (intraInputs 26) false 0 q :=
  (reported_iff (legal_wholeMb (by decide) (by decide)) (.atOnce [0x53] 0x00) []
    (replicate 7 false) (by decide) rfl fun _ => none).mpr (by decide)

/-- From 0 down to 51 it is not. -/
theorem not_reported_down :
    (wholeMb (-1)).Legal (intraInputs 0) false ∧
      bitsOf (Delivery.atOnce [] 0x57).bytes = (wholeMb (-1)).bits false ++ [true] ∧
      ¬∃ q, Parser.Ends (intraInputs 0) (fun _ => none)
        (Parser.loaded (intraInputs 0) (.atOnce [] 0x57)) q ∧
          (wholeMb (-1)).Reported (intraInputs 0) false 0 q := by
  have hl : (wholeMb (-1)).Legal (intraInputs 0) false := legal_wholeMb (by decide) (by decide)
  have hbits : bitsOf (Delivery.atOnce [] 0x57).bytes = (wholeMb (-1)).bits false ++ [true] := by
    decide
  refine ⟨hl,hbits,?_⟩
  rintro ⟨q,hends,hq⟩
  have hheld : bitsOf (Delivery.atOnce [] 0x57).bytes = [] ++ ((wholeMb (-1)).bits false ++ [true]) :=
    hbits
  obtain ⟨t,n,hends',-,hreport,-⟩ := Parser.ends_valid (fun _ => none) (by decide) hheld rfl
    (comes_macroblock hl (by decide) 0)
  have hsame := hends.unique hends'
  subst hsame
  have hqp := hq.qp
  rw [hreport.qp] at hqp
  exact absurd hqp (by decide)

end Misterplex.Baseline
