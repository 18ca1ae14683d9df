import Misterplex.Baseline.SliceHeader
import Misterplex.Baseline.MacroblockExact

/-!
# Which slice headers the parser reports

Slice headers of I slices are reported as coded, but for IDR pictures whose headers
have a picture order count: the parser takes its first bits for the marking and the
others for the quantiser. In P slices it takes the flags for an override of the
number of references and for changes of the reference list for what follows them.
Every kind of either has a short header that is misread.
-/

namespace Misterplex.Baseline

open BitString ExpGolomb List

variable {i : Inputs} {p : Bool} {h : SliceHeader}

/-- The header of the first slice of a picture, with the quantiser of its parameter set. -/
def plainHeader (p : Bool) : SliceHeader where
  firstMb := 0
  sliceType := if p then 0 else 2
  ppsId := 0
  frameNum := 0
  idrPicId := 0
  pocLsb := 0
  numRefOverride := none
  modifications := none
  noOutputOfPriorPics := false
  longTermReference := false
  qpDelta := 0
  deblockingIdc := 0
  alpha := 0
  beta := 0

theorem legal_plainHeader (hk : SliceKind i p) : (plainHeader p).Legal i p where
  sliceType := by
    cases p with
    | true => exact mem_cons_self
    | false => exact mem_cons_self
  ppsId := Nat.zero_le _
  frameNum := Nat.two_pow_pos _
  idrPicId := Nat.zero_le _
  pocLsb := fun _ => Nat.two_pow_pos _
  qp := by
    have hinit := hk.initQp
    show 0 ≤ i.ppsPicInitQp.toInt+0 ∧ i.ppsPicInitQp.toInt+0≤51
    omega
  deblockingIdc := Nat.zero_le _
  alpha := (by decide : (-6 : ℤ)≤0 ∧ (0 : ℤ)≤6)
  beta := (by decide : (-6 : ℤ)≤0 ∧ (0 : ℤ)≤6)

/-- A header with a change of the quantiser that is plain otherwise. -/
def shiftedHeader (k : ℤ) : SliceHeader := { plainHeader false with qpDelta := k }

open SliceHeader

theorem deblockingBits_ones (h : SliceHeader) (hzero : h.deblockingIdc=0 ∧ h.alpha=0 ∧
    h.beta=0) (n : ℕ) :
    h.deblockingBits i ++ List.replicate n true =
      List.replicate (n+if i.ppsDeblockCtrl then 3 else 0) true := by
  rw [deblockingBits,hzero.1,hzero.2.1,hzero.2.2]
  split
  · rfl
  · rfl

/-- A quantiser that is read from other bits ends the header with another report. -/
theorem comes_shifted {hd : Heard} {r : Regs} {k : ℤ} {n : ℕ} (hfit : seIndex k<2^24)
    (hidc0 : r.slice.disableDeblockingIdc=0) (halpha0 : r.slice.sliceAlphaC0OffsetDiv2=0)
    (hbeta0 : r.slice.sliceBetaOffsetDiv2=0) :
    Comes parserLimits (ownState i) (.ue .slQpDelta) hd r
      (seCode k ++ List.replicate (n+if i.ppsDeblockCtrl then 3 else 0) true) fun t _ =>
        t.slice.sliceQpDelta = .ofInt 8 k := by
  have hoffset : (-6 : ℤ)≤0 ∧ (0 : ℤ)≤6 := by decide
  rw [← deblockingBits_ones (shiftedHeader k) ⟨rfl,rfl,rfl⟩]
  exact Comes.mono (comes_quantised (h := shiftedHeader k) hfit (Nat.zero_le 2) hoffset hoffset
    hidc0 halpha0 hbeta0) fun t n ht => ht.1.qpDelta

/-- The signed number that zeros and as many ones spell. -/
def shiftOf (n : ℕ) : ℤ := -(2^n-1 : ℕ)

theorem seCode_shiftOf (n : ℕ) :
    seCode (shiftOf n) = List.replicate n false ++ true::List.replicate n true := by
  have hvalue := value_replicate_true n
  have hcode := ueCode_of_digits (replicate n true)
  have hindex : seIndex (shiftOf n)=2^n+value (replicate n true)-1 := by
    rw [seIndex,shiftOf,if_neg (by omega)]
    omega
  rw [length_replicate] at hcode
  rw [seCode,hindex,hcode]

theorem shiftOf_facts : ∀ n : Fin 17, 1<n.val →
    seIndex (shiftOf n)<2^24 ∧ (BitVec.ofInt 8 (shiftOf n)).toInt≠0 := by
  decide

theorem plainHeader_bits (p : Bool) (n : ℕ) :
    (plainHeader p).bits i p ++ List.replicate n true =
      (plainHeader p).frontBits i ++ ((plainHeader p).idrBits i ++ ((plainHeader p).pocBits i ++
        ((if p then [false,false] else []) ++ ((plainHeader p).markingBits i ++
          (true::List.replicate (n+if i.ppsDeblockCtrl then 3 else 0) true))))) := by
  have hqp : seCode (plainHeader p).qpDelta=[true] := rfl
  rw [bits,hqp,← deblockingBits_ones (plainHeader p) ⟨rfl,rfl,rfl⟩]
  simp only [append_assoc,cons_append,nil_append]
  rfl

/-- In a P slice the flags in front of the quantiser are taken for its leading zeros. -/
theorem comes_misread_p (hk : SliceKind i true) (n start : ℕ) :
    Comes parserLimits (ownState i) (.go .dispatch) ⟨0,0,start⟩ (Regs.reset i)
      ((plainHeader true).bits i true ++ List.replicate (n+2) true) fun t _ =>
        t.slice.sliceQpDelta = .ofInt 8 (shiftOf 2) := by
  have hidr : i.nalUnitType≠5 := fun hfive => Bool.noConfusion (hk.idr hfive).1
  have hones : ∀ m, replicate (n+2+m) true =
      [true,true] ++ replicate (n+m) true := by
    intro m
    rw [show n+2+m=2+(n+m) by omega,replicate_add]
    rfl
  have hqp : ∀ (hd : Heard) (r : Regs), r.slice.disableDeblockingIdc=0 →
      r.slice.sliceAlphaC0OffsetDiv2=0 → r.slice.sliceBetaOffsetDiv2=0 →
      Comes parserLimits (ownState i)
        (if i.nalRefIdc ≠ 0 then .bits 1 .slRefMark else .ue .slQpDelta) hd r
        ([false,false] ++ ((plainHeader true).markingBits i ++
          (true::replicate (n+2+if i.ppsDeblockCtrl then 3 else 0) true))) fun t _ =>
        t.slice.sliceQpDelta = .ofInt 8 (shiftOf 2) := by
    intro hd r hidc0 halpha0 hbeta0
    have hbits : [false,false] ++ ((plainHeader true).markingBits i ++
        (true::replicate (n+2+if i.ppsDeblockCtrl then 3 else 0) true)) =
        (if i.nalRefIdc = 0 then [] else [false]) ++ (seCode (shiftOf 2) ++
          replicate (n+if i.ppsDeblockCtrl then 3 else 0) true) := by
      rw [hones,markingBits,if_neg hidr,seCode_shiftOf]
      split
      · rfl
      · rfl
    rw [hbits]
    exact comes_refMark fun a => comes_shifted (shiftOf_facts 2 (by decide)).1 hidc0 halpha0 hbeta0
  rw [plainHeader_bits,if_pos rfl]
  refine comes_front hk (legal_plainHeader hk) (by decide) fun v a => ?_
  rw [idrBits,if_neg hidr,nil_append,afterFrame,if_neg hidr,
    pocBits]
  by_cases hzero : i.pocTypeIn=0
  · rw [if_pos hzero,if_pos hzero]
    refine Comes.field (Nat.two_pow_pos _) (le_trans (hk.pocBits hzero).2 (by decide)) rfl rfl ?_
    exact hqp _ _ rfl rfl rfl
  · rw [if_neg hzero,if_neg hzero,nil_append]
    exact hqp _ _ rfl rfl rfl

/-- In an IDR picture with a picture order count its bits are taken for the leading zeros of the
quantiser. -/
theorem comes_misread_idr (hk : SliceKind i false) (hidr : i.nalUnitType=5)
    (hzero : i.pocTypeIn=0) (n start : ℕ) :
    Comes parserLimits (ownState i) (.go .dispatch) ⟨0,0,start⟩ (Regs.reset i)
      ((plainHeader false).bits i false ++
        List.replicate (n+i.log2MaxPicOrderCntLsb.toNat) true) fun t _ =>
        t.slice.sliceQpDelta = .ofInt 8 (shiftOf i.log2MaxPicOrderCntLsb.toNat) := by
  obtain ⟨hlow,hhigh⟩ := hk.pocBits hzero
  have href := (hk.idr hidr).2
  have hfits := shiftOf_facts ⟨i.log2MaxPicOrderCntLsb.toNat,by omega⟩ (by
    show 1 < i.log2MaxPicOrderCntLsb.toNat
    omega)
  have hpoc : ofNat i.log2MaxPicOrderCntLsb.toNat 0 ++ [false,false] =
      [false,false] ++ replicate i.log2MaxPicOrderCntLsb.toNat false := by
    have htwo : [false,false]=replicate 2 false := rfl
    rw [ofNat_zero,htwo,← replicate_add,← replicate_add,Nat.add_comm]
  have hones : replicate
      (n+i.log2MaxPicOrderCntLsb.toNat+if i.ppsDeblockCtrl then 3 else 0) true =
      replicate i.log2MaxPicOrderCntLsb.toNat true ++
        replicate (n+if i.ppsDeblockCtrl then 3 else 0) true := by
    rw [← replicate_add]
    exact congrArg (replicate · true) (by omega)
  rw [plainHeader_bits,if_neg Bool.false_ne_true,nil_append]
  refine comes_front hk (legal_plainHeader hk) (by decide) fun v a => ?_
  rw [idrBits,if_pos hidr,afterFrame,if_pos hidr,pocBits,if_pos hzero,
    markingBits,if_neg href,if_pos hidr,hones]
  have hbits : ofNat i.log2MaxPicOrderCntLsb.toNat (plainHeader false).pocLsb ++
      ([(plainHeader false).noOutputOfPriorPics,(plainHeader false).longTermReference] ++
        (true::(replicate i.log2MaxPicOrderCntLsb.toNat true ++
          replicate (n+if i.ppsDeblockCtrl then 3 else 0) true))) =
      false::false::(seCode (shiftOf i.log2MaxPicOrderCntLsb.toNat) ++
        replicate (n+if i.ppsDeblockCtrl then 3 else 0) true) := by
    show ofNat i.log2MaxPicOrderCntLsb.toNat 0 ++ ([false,false] ++ _) = _
    rw [← append_assoc,hpoc,seCode_shiftOf,append_assoc,append_assoc]
    rfl
  rw [hbits]
  refine Comes.ue (by decide) rfl rfl ?_
  refine Comes.bit (by decide) rfl rfl ?_
  refine Comes.bit (by decide) rfl rfl ?_
  exact comes_shifted hfits.1 rfl rfl rfl

theorem length_plainHeader (hk : SliceKind i p) : ((plainHeader p).bits i p).length≤80 := by
  have hframe := hk.frameNumBits.2
  have hfront : ((plainHeader p).frontBits i).length≤21 := by
    have htype : (ueCode (plainHeader p).sliceType).length≤3 := by
      cases p <;> decide
    have hzero : (ueCode (plainHeader p).firstMb).length=1 ∧
        (ueCode (plainHeader p).ppsId).length=1 := by
      cases p <;> decide
    rw [frontBits,length_append,length_append,length_append,
      length_ofNat,hzero.1,hzero.2]
    omega
  have hidr : ((plainHeader p).idrBits i).length≤1 := by
    rw [idrBits]
    split
    · cases p <;> decide
    · exact Nat.zero_le _
  have hpoc : ((plainHeader p).pocBits i).length≤31 := by
    rw [pocBits]
    split
    · rw [length_ofNat]
      omega
    · exact Nat.zero_le _
  have hmarking : ((plainHeader p).markingBits i).length≤2 := by
    rw [markingBits]
    split
    · exact Nat.zero_le _
    · split
      · exact le_refl 2
      · exact Nat.le_succ 1
  have hflags : (if p then [false,false] else []).length≤2 := by
    cases p <;> decide
  have hdeblocking : (0+if i.ppsDeblockCtrl then 3 else 0)≤3 := by
    split <;> decide
  have hbits := congrArg length (plainHeader_bits (i := i) p 0)
  simp only [length_append,length_cons,length_replicate] at hbits
  omega

theorem exists_delivery {bytes : List Byte} (hsome : bytes≠[]) :
    ∃ d : Delivery, d.bytes=bytes :=
  ⟨.atOnce bytes.dropLast (bytes.getLast hsome),by
    rw [Delivery.bytes_atOnce,dropLast_append_getLast]⟩

/-- Every kind of a P slice or of an IDR picture with a picture order count has a short header
that is misread. -/
theorem exists_misread (hk : SliceKind i p)
    (hbad : p=true ∨ (i.nalUnitType=5 ∧ i.pocTypeIn=0)) :
    ∃ h : SliceHeader, h.Legal i p ∧ h.firstMb=0 ∧ ∃ (d : Delivery) (rest : List Bool),
      bitsOf d.bytes = h.bits i p ++ rest ∧ d.bytes.length≤8191 ∧
        ∀ offers q, Parser.Ends (i.startingAt 0) offers (Parser.loaded (i.startingAt 0) d) q →
          q.regs.slice.sliceQpDelta.toInt≠h.qpDelta := by
  have hlen := length_plainHeader hk
  have hk' : SliceKind (i.startingAt 0) p :=
    { hk with }
  obtain ⟨k,m,hm,hcomes,hk0⟩ : ∃ (k : ℤ) (m : ℕ), m≤16 ∧
      (∀ n, Comes parserLimits (ownState (i.startingAt 0)) (.go .dispatch) ⟨0,0,0⟩
        (Regs.reset (i.startingAt 0))
        ((plainHeader p).bits i p ++ replicate (n+m) true) fun t _ =>
          t.slice.sliceQpDelta = .ofInt 8 k) ∧ (BitVec.ofInt 8 k).toInt≠0 := by
    by_cases hP : p=true
    · subst hP
      exact ⟨shiftOf 2,2,by decide,fun n => comes_misread_p hk' n 0,
        (shiftOf_facts 2 (by decide)).2⟩
    · have hI : p=false := Bool.eq_false_of_not_eq_true hP
      subst hI
      obtain ⟨hidr,hzero⟩ := hbad.resolve_left hP
      obtain ⟨hlow,hhigh⟩ := hk.pocBits hzero
      have hfacts := shiftOf_facts ⟨i.log2MaxPicOrderCntLsb.toNat,by omega⟩ (by
        show 1 < i.log2MaxPicOrderCntLsb.toNat
        omega)
      exact ⟨shiftOf i.log2MaxPicOrderCntLsb.toNat,i.log2MaxPicOrderCntLsb.toNat,hhigh,
        fun n => comes_misread_idr hk' hidr hzero n 0,hfacts.2⟩
  have htotal : ((plainHeader p).bits i p ++
      replicate (800-((plainHeader p).bits i p).length-m+m) true).length=8*100 := by
    rw [length_append,length_replicate]
    omega
  obtain ⟨bytes,hcount,hbits⟩ := exists_bytes htotal
  have hsome : bytes≠[] := by
    intro hnil
    rw [hnil] at hcount
    cases hcount
  obtain ⟨d,hd⟩ := exists_delivery hsome
  have hdcount : d.bytes.length=100 := by rw [hd,hcount]
  refine ⟨plainHeader p,legal_plainHeader hk,rfl,d,_,by rw [hd,hbits],
    by rw [hdcount]; decide,fun offers q hends => ?_⟩
  have hshort : d.bytes.length < maxRbspBytes := by
    rw [hdcount]
    decide
  have hheld : bitsOf d.bytes = [] ++ ((plainHeader p).bits i p ++
      replicate (800-((plainHeader p).bits i p).length-m+m) true) := by
    rw [hd,hbits,nil_append]
  obtain ⟨t,n,hends',-,hdelta⟩ := Parser.ends_valid (i := i.startingAt 0) offers hshort hheld
    rfl (hcomes _)
  have hsame := hends.unique hends'
  subst hsame
  rw [hdelta]
  exact hk0

theorem toInt_of_fits {k : ℤ} {x : BitVec 8} (hx : x = .ofInt 8 k) (hlow : -128≤k)
    (hhigh : k<128) : x.toInt=k := by
  rw [hx,BitVec.toInt_ofInt]
  exact Int.bmod_eq_of_le (by omega) (by omega)

/-- Where the parser can start a header. -/
structure Holds (i : Inputs) (p : Bool) (h : SliceHeader) (s : BitVec 16) (d : Delivery)
    (pre rest : List Bool) : Prop where
  bits : bitsOf d.bytes = pre ++ (h.bits i p ++ rest)
  /-- The parser starts at its first bit. -/
  start : s.toNat=pre.length

/-- The parser ends with the report of a header. -/
def Reports (i : Inputs) (p : Bool) (h : SliceHeader) (s : BitVec 16) (d : Delivery)
    (offers : ℕ → Option (Byte × Bool)) : Prop :=
  ∃ q, Parser.Ends (i.startingAt s) offers (Parser.loaded (i.startingAt s) d) q ∧
    h.Reported i p s.toNat q

/-- A header of an I slice in a short RBSP is reported as coded, unless it belongs to an IDR
picture with a picture order count. -/
theorem reports_of_coded {s : BitVec 16} {d : Delivery} {pre rest : List Bool}
    (hk : SliceKind i false) (hpoc : ¬(i.nalUnitType=5 ∧ i.pocTypeIn=0))
    (hl : h.Legal i false) (hheld : Holds i false h s d pre rest) (hlen : d.bytes.length≤8191)
    (hfirst : h.firstMb<65536) (offers : ℕ → Option (Byte × Bool)) :
    Reports i false h s d offers := by
  have hshort : d.bytes.length < maxRbspBytes := Nat.lt_succ_of_le hlen
  have hk' : SliceKind (i.startingAt s) false :=
    { hk with }
  have hl' : h.Legal (i.startingAt s) false :=
    { hl with }
  obtain ⟨q,n,hends,hvalid,⟨r,harrived,hq⟩,hn⟩ := Parser.ends_valid (i := i.startingAt s)
    offers hshort hheld.bits hheld.start (comes_header hk' hl' hfirst hpoc)
  have hbound := congrArg length hheld.bits
  have hinit := hk.initQp
  have hqp := hl.qp
  have hpps := hl.ppsId
  have hidc : h.deblockingIdcOf i≤2 := by
    have hle := hl.deblockingIdc
    rw [deblockingIdcOf]
    split
    · exact hle
    · exact Nat.zero_le 2
  have halpha : -6≤h.alphaOf i ∧ h.alphaOf i≤6 := by
    rw [alphaOf]
    split
    · exact hl.alpha
    · decide
  have hbeta : -6≤h.betaOf i ∧ h.betaOf i≤6 := by
    rw [betaOf]
    split
    · exact hl.beta
    · decide
  have htype : h.sliceType<8 := by
    have hmem := hl.sliceType
    rw [if_neg Bool.false_ne_true,mem_cons,mem_singleton] at hmem
    omega
  have hframe : h.frameNum<65536 :=
    lt_of_lt_of_le hl.frameNum (Nat.pow_le_pow_right Nat.two_pos hk.frameNumBits.2)
  have hsum : (i.ppsPicInitQp+BitVec.ofInt 8 h.qpDelta).toInt =
      i.ppsPicInitQp.toInt+h.qpDelta := by
    rw [BitVec.toInt_add,BitVec.toInt_ofInt,Int.add_bmod_bmod]
    exact Int.bmod_eq_of_le (by omega) (by omega)
  rw [length_bitsOf,length_append,length_append] at hbound
  refine ⟨q,hends,hvalid.valid,hvalid.healthy,?_,?_,?_,?_,?_,?_,?_,?_,?_,?_,?_,?_,
    ?_⟩
  · rw [hq.supported,harrived.supported]
  · exact toNat_of_fits (hq.firstMb.trans harrived.firstMb) hfirst
  · exact toNat_of_fits (hq.sliceType.trans harrived.sliceType) (lt_trans htype (by decide))
  · exact toNat_of_fits (hq.ppsId.trans harrived.ppsId) (Nat.lt_succ_of_le hpps)
  · exact toNat_of_fits (hq.frameNum.trans harrived.frameNum) hframe
  · intro hzero
    have hwide := Nat.pow_le_pow_right Nat.two_pos (hk.pocBits hzero).2
    exact toNat_of_fits (hq.pocLsb.trans (harrived.pocLsb hzero))
      (lt_of_lt_of_le (hl.pocLsb hzero) hwide)
  · intro hfive
    exact toNat_of_fits (hq.idrPicId.trans (harrived.idrPicId hfive))
      (Nat.lt_succ_of_le hl.idrPicId)
  · exact toInt_of_fits hq.qpDelta (by omega) (by omega)
  · rw [hq.qp]
    exact hsum
  · exact toNat_of_fits hq.deblockingIdc (lt_of_le_of_lt hidc (by decide))
  · exact toInt_of_fits hq.alpha (by omega) (by omega)
  · exact toInt_of_fits hq.beta (by omega) (by omega)
  · have hend : n=s.toNat+(h.bits i false).length := by
      rw [hn,hheld.start]
      rfl
    rw [← hend]
    refine toNat_of_fits hq.offset ?_
    rw [hend,hheld.start]
    omega

/-- The headers of a kind are all reported as coded, from RBSPs of at most 8191 bytes and with a
first macroblock below 65536, exactly when they are those of I slices and not of IDR pictures with
a picture order count. No other header is reported as coded. -/
theorem reports_iff (hk : SliceKind i p) :
    ((∀ h s d pre rest offers, h.Legal i p → Holds i p h s d pre rest →
        d.bytes.length≤8191 → h.firstMb<65536 → Reports i p h s d offers) ↔
      p=false ∧ ¬(i.nalUnitType=5 ∧ i.pocTypeIn=0)) ∧
    ∀ h s d offers, Reports i p h s d offers → d.bytes.length≤8191 ∧ h.firstMb<65536 := by
  refine ⟨⟨fun hall => ?_,?_⟩,?_⟩
  · by_contra hnot
    have hbad : p=true ∨ (i.nalUnitType=5 ∧ i.pocTypeIn=0) := by
      cases p with
      | true => exact Or.inl rfl
      | false => exact Or.inr (by_contra fun hno => hnot ⟨rfl,hno⟩)
    obtain ⟨h,hl,hfirst,d,rest,hbits,hlen,hmisread⟩ := exists_misread hk hbad
    obtain ⟨q,hends,hq⟩ := hall h 0 d [] rest (fun _ => none) hl ⟨hbits,rfl⟩ hlen (by omega)
    exact hmisread _ q hends hq.qpDelta
  · rintro ⟨rfl,hpoc⟩ h s d pre rest offers hl hheld hlen hfirst
    exact reports_of_coded hk hpoc hl hheld hlen hfirst offers
  · rintro h s d offers ⟨q,hends,hq⟩
    have hmode : (i.startingAt s).mode=1 ∨ (i.startingAt s).mode=2 := Or.inl hk.mode
    have hshort := Parser.short_of_valid hmode hends hq.valid
    have hfirst : h.firstMb<65536 := by
      rw [← hq.firstMb]
      exact q.regs.slice.firstMbInSlice.isLt
    exact ⟨Nat.le_of_lt_succ hshort,hfirst⟩

/-- Inputs of a slice of a reference picture with the deblocking filter in its header. -/
def sliceInputs : Inputs := ⟨1,0,1,1,4,4,2,26,true,0,26,0⟩

theorem sliceKind_sliceInputs (p : Bool) : SliceKind sliceInputs p where
  mode := rfl
  unit := Or.inl rfl
  idr := fun hfive => absurd hfive (by decide)
  frameNumBits := by decide
  pocType := Or.inr rfl
  pocBits := fun hzero => absurd hzero (by decide)
  initQp := by decide

/-- Inputs of a slice of a picture with a picture order count of six bits. -/
def countedInputs : Inputs := ⟨1,0,1,1,4,6,0,26,true,0,26,0⟩

/-- The header of a later slice of a picture, with its own quantiser and deblocking filter. -/
def laterHeader : SliceHeader :=
  { plainHeader false with
    firstMb := 5
    sliceType := 7
    ppsId := 1
    frameNum := 3
    pocLsb := 9
    qpDelta := -4
    deblockingIdc := 2
    alpha := 1
    beta := -2 }

/-- The header of a later I slice is reported, from the fifth bit of the RBSP on. -/
theorem reports_laterHeader :
    Reports countedInputs false laterHeader 4 (.atOnce [0xF3,0x08,0x46,0x48,0x4B,0x45] 0x80)
      fun _ => none :=
  have hk : SliceKind countedInputs false :=
    ⟨rfl,Or.inl rfl,by decide,by decide,Or.inl rfl,by decide,by decide⟩
  have hlegal : laterHeader.Legal countedInputs false :=
    ⟨by decide,by decide,by decide,by decide,by decide,by decide,by decide,by decide,
      by decide⟩
  (reports_iff hk).1.mpr (by decide) _ 4 _ [true,true,true,true]
    (true::List.replicate 7 false) _ hlegal ⟨by decide,rfl⟩ (by decide) (by decide)

/-- A plain header of a P slice is not. -/
theorem not_reports_p :
    (plainHeader true).Legal sliceInputs true ∧
      Holds sliceInputs true (plainHeader true) 0 (.atOnce [0xE0] 0x3F) [] [true,true] ∧
      ¬Reports sliceInputs true (plainHeader true) 0 (.atOnce [0xE0] 0x3F) fun _ => none := by
  have hk := sliceKind_sliceInputs true
  have hheld : Holds sliceInputs true (plainHeader true) 0 (.atOnce [0xE0] 0x3F) [] [true,true] :=
    ⟨by decide,rfl⟩
  refine ⟨legal_plainHeader hk,hheld,?_⟩
  rintro ⟨q,hends,hq⟩
  obtain ⟨t,n,hends',-,hdelta⟩ := Parser.ends_valid (i := sliceInputs) (fun _ => none)
    (by decide) hheld.bits rfl (comes_misread_p hk 0 0)
  have hsame := hends.unique hends'
  subst hsame
  have hqp := hq.qpDelta
  rw [hdelta] at hqp
  exact absurd hqp (by decide)

end Misterplex.Baseline
