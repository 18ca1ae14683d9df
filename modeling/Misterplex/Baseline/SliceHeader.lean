import Misterplex.Baseline.MacroblockWalk

/-!
# The slice header

The syntax of 7.3.3 for the slices of frames in the Baseline profile: one colour
plane, no fields, picture order counts of type 0 without a second count or of type
2, no slice groups that change, no redundant pictures, no weighted prediction and no
adaptive marking of reference pictures.

The states of the parser read idr_pic_id or pic_order_cnt_lsb but never both. No state
reads an element of a P slice.
-/

namespace Misterplex.Baseline

open BitString ExpGolomb

/-- One operation of ref_pic_list_modification: modification_of_pic_nums_idc with its value. -/
structure Modification where
  /-- 0 and 1 with a difference of picture numbers, 2 with a long-term number. -/
  idc : Fin 3
  value : ℕ
  deriving DecidableEq, Repr

/-- A slice header; elements that a stream does not code are not looked at. -/
structure SliceHeader where
  /-- First macroblock and type of the slice. -/
  (firstMb sliceType : ℕ)
  /-- pic_parameter_set_id. -/
  ppsId : ℕ
  /-- Numbers of the picture. -/
  (frameNum idrPicId : ℕ)
  /-- pic_order_cnt_lsb. -/
  pocLsb : ℕ
  /-- num_ref_idx_l0_active_minus1, when it is overridden. -/
  numRefOverride : Option ℕ
  /-- Operations on the reference list, when there are any. -/
  modifications : Option (List Modification)
  /-- Marking of an IDR picture. -/
  (noOutputOfPriorPics longTermReference : Bool)
  qpDelta : ℤ
  deblockingIdc : ℕ
  /-- slice_alpha_c0_offset_div2. -/
  alpha : ℤ
  /-- slice_beta_offset_div2. -/
  beta : ℤ
  deriving DecidableEq, Repr

namespace SliceHeader

variable (i : Inputs)

/-- Elements in front of the ones that are optional. -/
def frontBits (h : SliceHeader) : List Bool :=
  ueCode h.firstMb ++ (ueCode h.sliceType ++ (ueCode h.ppsId ++
    ofNat i.log2MaxFrameNum.toNat h.frameNum))

/-- idr_pic_id of an IDR picture. -/
def idrBits (h : SliceHeader) : List Bool := if i.nalUnitType = 5 then ueCode h.idrPicId else []

/-- pic_order_cnt_lsb of the first type of counts. -/
def pocBits (h : SliceHeader) : List Bool :=
  if i.pocTypeIn = 0 then ofNat i.log2MaxPicOrderCntLsb.toNat h.pocLsb else []

/-- num_ref_idx_active_override_flag of a P slice, and the number. -/
def overrideBits (h : SliceHeader) : List Bool :=
  match h.numRefOverride with
  | none => [false]
  | some n => true::ueCode n

/-- ref_pic_list_modification of a P slice. -/
def modificationBits (h : SliceHeader) : List Bool :=
  match h.modifications with
  | none => [false]
  | some ops => true::((ops.flatMap fun o => ueCode o.idc ++ ueCode o.value) ++ ueCode 3)

/-- dec_ref_pic_marking of a reference picture. -/
def markingBits (h : SliceHeader) : List Bool :=
  if i.nalRefIdc = 0 then []
  else if i.nalUnitType = 5 then [h.noOutputOfPriorPics,h.longTermReference]
  else [false]

/-- Elements of the deblocking filter, when the parameter set has them. -/
def deblockingBits (h : SliceHeader) : List Bool :=
  if i.ppsDeblockCtrl then
    ueCode h.deblockingIdc ++ if h.deblockingIdc ≠ 1 then seCode h.alpha ++ seCode h.beta else []
  else []

/-- The code of a slice header of a P slice or of an I slice. -/
def bits (p : Bool) (h : SliceHeader) : List Bool :=
  h.frontBits i ++ (h.idrBits i ++ (h.pocBits i ++
    ((if p then h.overrideBits ++ h.modificationBits else []) ++
      (h.markingBits i ++ (seCode h.qpDelta ++ h.deblockingBits i)))))

/-- disable_deblocking_filter_idc, 0 where it is not coded. -/
def deblockingIdcOf (h : SliceHeader) : ℕ := if i.ppsDeblockCtrl then h.deblockingIdc else 0

/-- slice_alpha_c0_offset_div2, 0 where it is not coded. -/
def alphaOf (h : SliceHeader) : ℤ :=
  if i.ppsDeblockCtrl ∧ h.deblockingIdc ≠ 1 then h.alpha else 0

/-- slice_beta_offset_div2, 0 where it is not coded. -/
def betaOf (h : SliceHeader) : ℤ :=
  if i.ppsDeblockCtrl ∧ h.deblockingIdc ≠ 1 then h.beta else 0

/-- A slice header as streams hold it. -/
structure Legal (p : Bool) (h : SliceHeader) : Prop where
  sliceType : h.sliceType ∈ if p then [0,5] else [2,7]
  /-- Picture parameter sets. -/
  ppsId : h.ppsId≤255
  frameNum : h.frameNum<2^i.log2MaxFrameNum.toNat
  idrPicId : h.idrPicId≤65535
  pocLsb : i.pocTypeIn=0 → h.pocLsb<2^i.log2MaxPicOrderCntLsb.toNat
  qp : 0 ≤ i.ppsPicInitQp.toInt+h.qpDelta ∧ i.ppsPicInitQp.toInt+h.qpDelta≤51
  deblockingIdc : h.deblockingIdc≤2
  /-- slice_alpha_c0_offset_div2. -/
  alpha : -6≤h.alpha ∧ h.alpha≤6
  /-- slice_beta_offset_div2. -/
  beta : -6≤h.beta ∧ h.beta≤6

end SliceHeader

/-- What a stream, its parameter sets and its NAL units give to the parser for a P slice or an
I slice. -/
structure SliceKind (i : Inputs) (p : Bool) : Prop where
  mode : i.mode=1
  /-- A slice of an IDR picture or of another one. -/
  unit : i.nalUnitType=1 ∨ i.nalUnitType=5
  /-- IDR pictures are reference pictures of I slices. -/
  idr : i.nalUnitType=5 → p=false ∧ i.nalRefIdc≠0
  frameNumBits : 4 ≤ i.log2MaxFrameNum.toNat ∧ i.log2MaxFrameNum.toNat≤16
  /-- Types of picture order counts. -/
  pocType : i.pocTypeIn=0 ∨ i.pocTypeIn=2
  /-- Bits of pic_order_cnt_lsb. -/
  pocBits : i.pocTypeIn=0 →
    4 ≤ i.log2MaxPicOrderCntLsb.toNat ∧ i.log2MaxPicOrderCntLsb.toNat≤16
  /-- The quantiser of the picture parameter set. -/
  initQp : 0 ≤ i.ppsPicInitQp.toInt ∧ i.ppsPicInitQp.toInt≤51

/-- What a slice header is to be reported as. -/
structure SliceHeader.Reported (i : Inputs) (p : Bool) (h : SliceHeader) (start : ℕ)
    (q : Parser) : Prop where
  valid : q.valid=true
  healthy : q.error=false
  supported : q.regs.unsupported=false
  firstMb : q.regs.slice.firstMbInSlice.toNat=h.firstMb
  sliceType : q.regs.slice.sliceType.toNat=h.sliceType
  ppsId : q.regs.ppsId.toNat=h.ppsId
  frameNum : q.regs.slice.frameNum.toNat=h.frameNum
  pocLsb : i.pocTypeIn=0 → q.regs.slice.picOrderCntLsb.toNat=h.pocLsb
  idrPicId : i.nalUnitType=5 → q.regs.slice.idrPicId.toNat=h.idrPicId
  qpDelta : q.regs.slice.sliceQpDelta.toInt=h.qpDelta
  qp : q.regs.slice.sliceQp.toInt=i.ppsPicInitQp.toInt+h.qpDelta
  deblockingIdc : q.regs.slice.disableDeblockingIdc.toNat=h.deblockingIdcOf i
  alpha : q.regs.slice.sliceAlphaC0OffsetDiv2.toInt=h.alphaOf i
  beta : q.regs.slice.sliceBetaOffsetDiv2.toInt=h.betaOf i
  offset : q.regs.slice.macroblockBitOffset.toNat=start+(h.bits i p).length

/-- The parser started at another bit. -/
def Inputs.startingAt (i : Inputs) (s : BitVec 16) : Inputs := { i with startBit := s }

variable {i : Inputs} {hd : Heard} {r : Regs} {tail : List Bool} {Q : Regs → ℕ → Prop}

/-- The registers at the end of a header, from those before its quantiser. -/
structure Quantised (i : Inputs) (h : SliceHeader) (r t : Regs) (n : ℕ) : Prop where
  supported : t.unsupported=r.unsupported
  firstMb : t.slice.firstMbInSlice=r.slice.firstMbInSlice
  sliceType : t.slice.sliceType=r.slice.sliceType
  ppsId : t.ppsId=r.ppsId
  frameNum : t.slice.frameNum=r.slice.frameNum
  pocLsb : t.slice.picOrderCntLsb=r.slice.picOrderCntLsb
  idrPicId : t.slice.idrPicId=r.slice.idrPicId
  qpDelta : t.slice.sliceQpDelta = .ofInt 8 h.qpDelta
  qp : t.slice.sliceQp=i.ppsPicInitQp + .ofInt 8 h.qpDelta
  deblockingIdc : t.slice.disableDeblockingIdc = .ofNat 2 (h.deblockingIdcOf i)
  alpha : t.slice.sliceAlphaC0OffsetDiv2 = .ofInt 8 (h.alphaOf i)
  beta : t.slice.sliceBetaOffsetDiv2 = .ofInt 8 (h.betaOf i)
  offset : t.slice.macroblockBitOffset = .ofNat 16 n

theorem offset_fits {k : ℤ} (hk : -6≤k ∧ k≤6) : seIndex k<2^24 := by
  have hle := seIndex_le (k := k) (b := 6) (by omega) (by omega)
  omega

variable {h : SliceHeader}

open Comes SliceHeader

theorem comes_quantised (hqp : seIndex h.qpDelta<2^24)
    (hidc : h.deblockingIdc≤2) (halpha : -6≤h.alpha ∧ h.alpha≤6)
    (hbeta : -6≤h.beta ∧ h.beta≤6) (hidc0 : r.slice.disableDeblockingIdc=0)
    (halpha0 : r.slice.sliceAlphaC0OffsetDiv2=0) (hbeta0 : r.slice.sliceBetaOffsetDiv2=0) :
    Comes parserLimits (ownState i) (.ue .slQpDelta) hd r
      (seCode h.qpDelta ++ (h.deblockingBits i ++ tail)) fun t n =>
        Quantised i h r t n ∧
          n=hd.position+(seCode h.qpDelta ++ h.deblockingBits i).length := by
  rw [List.length_append]
  have hse := se8FromUe_seIndex h.qpDelta
  by_cases hctrl : i.ppsDeblockCtrl=true
  · have hask : ∀ t, ownState i .slQpDelta ⟨seIndex h.qpDelta,hd.acc,t⟩ r =
        ({ r with slice := { r.slice with
          sliceQpDelta := se8FromUe (seIndex h.qpDelta)
          sliceQp := i.ppsPicInitQp+se8FromUe (seIndex h.qpDelta) } },.ue .slDeblockIdc) :=
      fun t => if_pos hctrl
    have hdidc : h.deblockingIdcOf i=h.deblockingIdc := if_pos hctrl
    rw [deblockingBits,if_pos hctrl,List.append_assoc]
    refine se (zerosOf_fits hqp) rfl (hask _) ?_
    rw [hse]
    by_cases hone : h.deblockingIdc=1
    · have hlast : ∀ t u, ownState i .slDeblockIdc ⟨h.deblockingIdc,hd.acc,t⟩ u =
          ({ u with slice := sliceDone ⟨h.deblockingIdc,hd.acc,t⟩ { u.slice with
            disableDeblockingIdc := .ofNat 2 h.deblockingIdc } },.go .finish) :=
        fun t u => if_neg (not_not.mpr hone)
      have hnone : h.alphaOf i=0 ∧ h.betaOf i=0 :=
        ⟨if_neg fun hboth => hboth.2 hone,if_neg fun hboth => hboth.2 hone⟩
      rw [if_neg (not_not.mpr hone),List.nil_append,List.append_nil]
      refine Comes.ue (zerosOf_fits (by omega)) rfl (hlast _ _) (Comes.go rfl (done ?_))
      refine ⟨⟨rfl,rfl,rfl,rfl,rfl,rfl,rfl,rfl,rfl,by rw [hdidc]; rfl,?_,?_,rfl⟩,
        Nat.add_assoc _ _ _⟩
      · rw [hnone.1]
        exact halpha0
      · rw [hnone.2]
        exact hbeta0
    · have hmore : ∀ t u, ownState i .slDeblockIdc ⟨h.deblockingIdc,hd.acc,t⟩ u =
          ({ u with slice := { u.slice with
            disableDeblockingIdc := .ofNat 2 h.deblockingIdc } },.ue .slAlpha) :=
        fun t u => if_pos hone
      have hboth : h.alphaOf i=h.alpha ∧ h.betaOf i=h.beta :=
        ⟨if_pos ⟨hctrl,hone⟩,if_pos ⟨hctrl,hone⟩⟩
      rw [if_pos hone,List.append_assoc]
      refine Comes.ue (zerosOf_fits (by omega)) rfl (hmore _ _) ?_
      refine se (zerosOf_fits (offset_fits halpha)) rfl rfl ?_
      refine se (zerosOf_fits (offset_fits hbeta)) rfl rfl (Comes.go rfl (done ?_))
      rw [se8FromUe_seIndex,se8FromUe_seIndex]
      refine ⟨⟨rfl,rfl,rfl,rfl,rfl,rfl,rfl,rfl,rfl,by rw [hdidc]; rfl,?_,?_,rfl⟩,?_⟩
      · rw [hboth.1]
        rfl
      · rw [hboth.2]
        rfl
      · rw [List.length_append,List.length_append]
        dsimp only
        omega
  · have hask : ∀ t, ownState i .slQpDelta ⟨seIndex h.qpDelta,hd.acc,t⟩ r =
        ({ r with slice := sliceDone ⟨seIndex h.qpDelta,hd.acc,t⟩ { r.slice with
          sliceQpDelta := se8FromUe (seIndex h.qpDelta)
          sliceQp := i.ppsPicInitQp+se8FromUe (seIndex h.qpDelta) } },.go .finish) :=
      fun t => if_neg hctrl
    have hdidc : h.deblockingIdcOf i=0 := if_neg hctrl
    have hnone : h.alphaOf i=0 ∧ h.betaOf i=0 :=
      ⟨if_neg fun hboth => hctrl hboth.1,if_neg fun hboth => hctrl hboth.1⟩
    rw [deblockingBits,if_neg hctrl,List.nil_append]
    refine se (zerosOf_fits hqp) rfl (hask _) (Comes.go rfl (done ?_))
    rw [hse]
    refine ⟨⟨rfl,rfl,rfl,rfl,rfl,rfl,rfl,rfl,rfl,?_,?_,?_,rfl⟩,rfl⟩
    · rw [hdidc]
      exact hidc0
    · rw [hnone.1]
      exact halpha0
    · rw [hnone.2]
      exact hbeta0

/-- The registers behind frame_num. -/
def fronted (i : Inputs) (h : SliceHeader) : Regs :=
  { Regs.reset i with
    ppsId := .ofNat 8 h.ppsId
    slice := { (Regs.reset i).slice with
      firstMbInSlice := .ofNat 16 h.firstMb
      sliceType := .ofNat 8 h.sliceType
      frameNum := .ofNat 16 h.frameNum } }

/-- What the parser asks for behind frame_num. -/
def afterFrame (i : Inputs) : Ask Own :=
  if i.nalUnitType = 5 then .ue .slIdr
  else if i.pocTypeIn = 0 then .bits i.log2MaxPicOrderCntLsb.toNat .slPoc
  else if i.nalRefIdc ≠ 0 then .bits 1 .slRefMark
  else .ue .slQpDelta

theorem comes_front {p : Bool} {start : ℕ} (hk : SliceKind i p)
    (hl : h.Legal i p) (hfirst : h.firstMb<65536)
    (hrest : ∀ v a, Comes parserLimits (ownState i) (afterFrame i)
      ⟨v,a,start+(h.frontBits i).length⟩ (fronted i h) tail Q) :
    Comes parserLimits (ownState i) (.go .dispatch) ⟨0,0,start⟩ (Regs.reset i)
      (h.frontBits i ++ tail) Q := by
  have hdispatch : ownState i .dispatch ⟨0,0,start⟩ (Regs.reset i) =
      (Regs.reset i,.ue .slFirst) := by
    refine Prod.ext rfl ?_
    show (if i.mode = 0 then Ask.ue Own.ppsId else if i.mode = 1 then .ue .slFirst
      else if i.mode = 2 then .go .mbStart else .fail)=_
    rw [hk.mode]
    rfl
  have htype : h.sliceType<8 := by
    have hmem := hl.sliceType
    cases p with
    | true =>
      rw [if_pos rfl,List.mem_cons,List.mem_singleton] at hmem
      omega
    | false =>
      rw [if_neg Bool.false_ne_true,List.mem_cons,List.mem_singleton] at hmem
      omega
  have hpps := hl.ppsId
  have hbits := hk.frameNumBits.2
  have hlen : start+(h.frontBits i).length=start+(ueCode h.firstMb).length +
      (ueCode h.sliceType).length+(ueCode h.ppsId).length+i.log2MaxFrameNum.toNat := by
    simp only [SliceHeader.frontBits,List.length_append,length_ofNat]
    omega
  rw [hlen] at hrest
  rw [SliceHeader.frontBits,List.append_assoc,List.append_assoc,List.append_assoc]
  refine Comes.go hdispatch ?_
  refine Comes.ue (zerosOf_fits (by omega)) rfl rfl ?_
  refine Comes.ue (zerosOf_fits (by omega)) rfl rfl ?_
  refine Comes.ue (zerosOf_fits (by omega)) rfl rfl ?_
  refine field hl.frameNum (le_trans hbits (by decide)) rfl rfl ?_
  exact hrest _ _

theorem comes_refMark
    (hrest : ∀ a, Comes parserLimits (ownState i) (.ue .slQpDelta)
      ⟨hd.ueValue,a,hd.position+(if i.nalRefIdc = 0 then [] else [false]).length⟩ r tail Q) :
    Comes parserLimits (ownState i)
      (if i.nalRefIdc ≠ 0 then .bits 1 .slRefMark else .ue .slQpDelta) hd r
      ((if i.nalRefIdc = 0 then [] else [false]) ++ tail) Q := by
  by_cases href : i.nalRefIdc=0
  · rw [if_pos href] at hrest ⊢
    rw [if_neg (not_not.mpr href)]
    exact hrest hd.acc
  · have hask : ∀ t, ownState i .slRefMark ⟨hd.ueValue,false.toNat,t⟩ r =
        (r,.ue .slQpDelta) := by
      intro t
      show slState i .slRefMark ⟨hd.ueValue,false.toNat,t⟩ r=_
      rw [slState]
      dsimp only
      rw [if_neg (by decide)]
    rw [if_neg href] at hrest ⊢
    rw [if_pos href]
    exact bit (by decide) rfl (hask _) (hrest _)

/-- The registers in front of the quantiser. -/
structure Arrived (i : Inputs) (h : SliceHeader) (r : Regs) : Prop where
  supported : r.unsupported=false
  firstMb : r.slice.firstMbInSlice = .ofNat 16 h.firstMb
  sliceType : r.slice.sliceType = .ofNat 8 h.sliceType
  ppsId : r.ppsId = .ofNat 8 h.ppsId
  frameNum : r.slice.frameNum = .ofNat 16 h.frameNum
  pocLsb : i.pocTypeIn=0 → r.slice.picOrderCntLsb = .ofNat 16 h.pocLsb
  idrPicId : i.nalUnitType=5 → r.slice.idrPicId = .ofNat 16 h.idrPicId

/-- What is reported about a header. -/
def HeaderReport (i : Inputs) (h : SliceHeader) (t : Regs) (n : ℕ) : Prop :=
  ∃ r, Arrived i h r ∧ Quantised i h r t n

theorem sliceQp_fits {p : Bool} (hk : SliceKind i p) (hl : h.Legal i p) :
    seIndex h.qpDelta<2^24 := by
  have hqp := hl.qp
  have hinit := hk.initQp
  have hle := seIndex_le (k := h.qpDelta) (b := 51) (by omega) (by omega)
  omega

/-- A header of an I slice is read, unless it belongs to an IDR picture with a picture order
count. -/
theorem comes_header {start : ℕ} (hk : SliceKind i false)
    (hl : h.Legal i false) (hfirst : h.firstMb<65536)
    (hpoc : ¬(i.nalUnitType=5 ∧ i.pocTypeIn=0)) :
    Comes parserLimits (ownState i) (.go .dispatch) ⟨0,0,start⟩ (Regs.reset i)
      (h.bits i false ++ tail) fun t n =>
        HeaderReport i h t n ∧ n=start+(h.bits i false).length := by
  have hend : ∀ (hd : Heard) (r : Regs), Arrived i h r → r.slice.disableDeblockingIdc=0 →
      r.slice.sliceAlphaC0OffsetDiv2=0 → r.slice.sliceBetaOffsetDiv2=0 →
      hd.position+(seCode h.qpDelta ++ h.deblockingBits i).length =
        start+(h.bits i false).length →
      Comes parserLimits (ownState i) (.ue .slQpDelta) hd r
        (seCode h.qpDelta ++ (h.deblockingBits i ++ tail)) fun t n =>
          HeaderReport i h t n ∧ n=start+(h.bits i false).length := by
    intro hd r harrived hidc0 halpha0 hbeta0 hlen
    refine mono (comes_quantised (sliceQp_fits hk hl) hl.deblockingIdc hl.alpha hl.beta
      hidc0 halpha0 hbeta0) fun t n ht => ⟨⟨r,harrived,ht.1⟩,?_⟩
    rw [ht.2,hlen]
  have hbits : h.bits i false ++ tail = h.frontBits i ++ (h.idrBits i ++ (h.pocBits i ++
      (h.markingBits i ++ (seCode h.qpDelta ++ (h.deblockingBits i ++ tail))))) := by
    simp only [SliceHeader.bits,if_neg Bool.false_ne_true,List.nil_append,List.append_assoc]
  have hlen : (h.bits i false).length=(h.frontBits i).length+(h.idrBits i).length +
      (h.pocBits i).length+(h.markingBits i).length +
      (seCode h.qpDelta ++ h.deblockingBits i).length := by
    simp only [SliceHeader.bits,if_neg Bool.false_ne_true,List.nil_append,List.length_append]
    omega
  rw [hbits]
  refine comes_front hk hl hfirst fun v a => ?_
  rw [afterFrame]
  by_cases hidr : i.nalUnitType=5
  · have hno : i.pocTypeIn≠0 := fun hzero => hpoc ⟨hidr,hzero⟩
    have href := (hk.idr hidr).2
    have hid := hl.idrPicId
    rw [idrBits,if_pos hidr,pocBits,if_neg hno,
      markingBits,if_neg href,if_pos hidr] at hlen ⊢
    rw [if_pos hidr,List.nil_append,List.cons_append,List.cons_append,List.nil_append]
    refine Comes.ue (zerosOf_fits (by omega)) rfl rfl ?_
    refine bit (by decide) rfl rfl ?_
    refine bit (by decide) rfl rfl ?_
    refine hend _ _ ?_ rfl rfl rfl ?_
    · exact ⟨rfl,rfl,rfl,rfl,rfl,fun hzero => absurd hzero hno,fun _ => rfl⟩
    · rw [hlen]
      simp only [List.length_cons,List.length_nil]
      omega
  · have hmarking : h.markingBits i = if i.nalRefIdc = 0 then [] else [false] := by
      rw [markingBits,if_neg hidr]
    rw [idrBits,if_neg hidr,hmarking] at hlen ⊢
    rw [if_neg hidr,List.nil_append]
    by_cases hzero : i.pocTypeIn=0
    · have hwide := (hk.pocBits hzero).2
      rw [pocBits,if_pos hzero] at hlen ⊢
      rw [if_pos hzero]
      refine field (hl.pocLsb hzero) (le_trans hwide (by decide)) rfl rfl ?_
      refine comes_refMark fun b => ?_
      refine hend _ _ ?_ rfl rfl rfl ?_
      · exact ⟨rfl,rfl,rfl,rfl,rfl,fun _ => rfl,fun hfive => absurd hfive hidr⟩
      · rw [hlen,length_ofNat,List.length_nil]
        dsimp only
        omega
    · rw [pocBits,if_neg hzero] at hlen ⊢
      rw [if_neg hzero,List.nil_append]
      refine comes_refMark fun b => ?_
      refine hend _ _ ?_ rfl rfl rfl ?_
      · exact ⟨rfl,rfl,rfl,rfl,rfl,fun h0 => absurd h0 hzero,fun hfive => absurd hfive hidr⟩
      · rw [hlen,List.length_nil]
        dsimp only
        omega

end Misterplex.Baseline
