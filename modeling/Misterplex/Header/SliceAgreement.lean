import Misterplex.Header.SliceDelivery

/-!
# The two parsers of slice headers

The hardware takes the course of the host through a slice header that predicts
from no other picture and marks references in the plain way. There the outputs
are those of the host in the widths of the hardware.
-/

namespace Misterplex.Header

open BitString BitGrammar Cavlc Emulation ParserText

/-- The slice type behind `first_mb_in_slice`. -/
def readSliceType : Grammar ℕ := do
  skip ue
  ue

/-- The flag of adaptive marking, which another picture than an IDR picture has. -/
def readAdaptiveFlag (log2MaxFrameNum : ℕ) : Grammar ℕ := do
  skip ue
  skip ue
  skip ue
  skip (u log2MaxFrameNum)
  u 1

variable (isIdr : Bool)

/-- The code of the change of the quantiser behind the plain marking of references. -/
def readDeltaCode (nalRefIdc log2MaxFrameNum : ℕ) : Grammar ℕ := do
  skip ue
  skip ue
  skip ue
  skip (u log2MaxFrameNum)
  skip (readIdrPicId isIdr)
  onlyIf (nalRefIdc≠0) (if isIdr then skipIdrMarking else skip (u 1))
  ue

/-- The hardware reads the fields of the header that the host reads. -/
structure SameCourse (bits : List Bool) (isIdr : Bool) (nalRefIdc log2MaxFrameNum : ℕ) : Prop where
  /-- The slice is not predicted from other pictures. -/
  intra : ∀ t rest, readSliceType bits=some (t,rest) → isPOrB (uint8 t)=false
  idr : isIdr=true → nalRefIdc≠0
  /-- Another reference is not marked adaptively. -/
  plain : isIdr=false → nalRefIdc≠0 →
    ∀ a rest, readAdaptiveFlag log2MaxFrameNum bits=some (a,rest) → a=0

/-- The quantiser is the same in the eight bits of se_of. -/
def QpKept (initQp : ℤ) (code : ℕ) : Prop :=
  clampQp (initQp+seOf code)=clampQp (initQp+int8 (seFromUe code))

/-- The syntax elements keep their values in the widths of the hardware. -/
structure InRange (bits : List Bool) (isIdr : Bool) (nalRefIdc log2MaxFrameNum : ℕ) (initQp : ℤ)
    (before : SliceOut) (s : SliceSyntax) : Prop where
  firstMb : s.firstMbInSlice<65536
  idrPicId : isIdr=true → s.idrPicId<65536
  /-- No identifier is left from an earlier IDR picture. -/
  stale : isIdr=false → before.idrPicId=0
  qp : ∀ c rest, readDeltaCode isIdr nalRefIdc log2MaxFrameNum bits=some (c,rest) →
    QpKept initQp c
  didc : s.disableDeblockingIdc<4

/-- The fields that both parsers report. -/
structure SliceAgrees (h : SliceHeader) (o : SliceOut) : Prop where
  firstMb : o.firstMb=h.firstMbInSlice
  sliceType : o.sliceType=h.sliceType
  /-- Identifier of the picture parameter set. -/
  ppsId : o.ppsId=h.ppsId
  frameNum : o.frameNum=h.frameNum
  idrPicId : o.idrPicId=h.idrPicId
  sliceQp : o.sliceQp=h.sliceQp
  didc : o.disableDeblockingFilterIdc=h.disableDeblockingIdc

variable {bits more rest rest' : List Bool} {v v' : ℕ}

theorem same_ue (h : walkUe bits=some (v,rest))
    (h' : (ue : Grammar ℕ) (bits ++ more)=some (v',rest')) :
    v=v'%65536 ∧ rest' = rest ++ more := by
  obtain ⟨w,hw,hv⟩ := covers_ue bits rest more v h
  rw [hw,Option.some.injEq,Prod.mk.injEq] at h'
  rw [← h'.1,← h'.2]
  exact ⟨hv,rfl⟩

theorem same_u {n : ℕ} (h : Grammar.field n bits=some (v,rest))
    (h' : (u n : Grammar ℕ) (bits ++ more)=some (v',rest')) :
    v=v' ∧ rest' = rest ++ more := by
  obtain ⟨w,hw,hv,-⟩ := covers_u n bits rest more v h
  rw [hw,Option.some.injEq,Prod.mk.injEq] at h'
  rw [← h'.1,← h'.2]
  exact ⟨hv,rfl⟩

/-- The outputs before the quantiser. -/
def SameFields (o o' : SliceOut) : Prop :=
  o'.firstMb=o.firstMb ∧ o'.sliceType=o.sliceType ∧ o'.ppsId=o.ppsId ∧
    o'.frameNum=o.frameNum ∧ o'.idrPicId=o.idrPicId

variable {r r' : SliceRegs} {o : Option ℕ}

open Grammar

theorem out_of_end (h : (walkUe >>= beforeMbt r) bits=some ((r',o),rest)) : r'=r := by
  obtain ⟨_,_,-,h⟩ := bind_eq_some.mp h
  obtain ⟨heq,-⟩ := pure_eq_some.mp h
  exact (Prod.mk.inj heq).1.symm

theorem out_of_alpha (h : (walkUe >>= afterAlpha r) bits=some ((r',o),rest)) :
    SameFields r.out r'.out ∧ r'.out.sliceQp=r.out.sliceQp ∧
      r'.out.disableDeblockingFilterIdc=r.out.disableDeblockingFilterIdc := by
  obtain ⟨_,_,-,h⟩ := bind_eq_some.mp h
  obtain ⟨_,_,-,h⟩ := bind_eq_some.mp h
  rw [out_of_end h]
  exact ⟨⟨rfl,rfl,rfl,rfl,rfl⟩,rfl,rfl⟩

theorem out_of_qpd {c : ℕ} (h : afterQpd r c bits=some ((r',o),rest))
    (h' : (readDeblocking r.lat.db : Grammar ℕ) (bits ++ more)=some (v',rest'))
    (hzero : r.out.disableDeblockingFilterIdc=0) :
    SameFields r.out r'.out ∧ r'.out.sliceQp=clampQp (r.lat.initQp+seOf c) ∧
      r'.out.disableDeblockingFilterIdc=v'%4 := by
  rw [afterQpd] at h
  rw [readDeblocking] at h'
  by_cases hdb : r.lat.db=true
  · rw [if_pos hdb] at h h'
    obtain ⟨d,_,hd,h⟩ := bind_eq_some.mp h
    obtain ⟨d',_,hd',h'⟩ := bind_eq_some.mp h'
    obtain ⟨_,_,-,h'⟩ := bind_eq_some.mp h'
    obtain ⟨rfl,-⟩ := pure_eq_some.mp h'
    obtain ⟨hsame,-⟩ := same_ue hd hd'
    have hlow : d%4=uint8 d'%4 := by
      rw [hsame,uint8]
      omega
    rw [afterDidc] at h
    by_cases hone : d≠1
    · rw [if_pos hone] at h
      obtain ⟨hfields,hqp,hdidc⟩ := out_of_alpha h
      exact ⟨hfields,hqp,hdidc.trans hlow⟩
    · rw [if_neg hone] at h
      rw [out_of_end h]
      exact ⟨⟨rfl,rfl,rfl,rfl,rfl⟩,rfl,hlow⟩
  · rw [if_neg hdb] at h h'
    obtain ⟨rfl,-⟩ := pure_eq_some.mp h'
    rw [out_of_end h]
    exact ⟨⟨rfl,rfl,rfl,rfl,rfl⟩,rfl,hzero⟩

/-- Outputs and syntax elements of a header whose course is the same. -/
structure HeaderHolds (isIdr : Bool) (initQp : ℤ) (before : ℕ) (o : SliceOut) (s : SliceSyntax)
    (c : ℕ) : Prop where
  firstMb : o.firstMb=s.firstMbInSlice%65536
  sliceType : o.sliceType=s.sliceType
  /-- Identifier of the picture parameter set. -/
  ppsId : o.ppsId=s.ppsId
  frameNum : o.frameNum=s.frameNum
  idrPicId : o.idrPicId = if isIdr then s.idrPicId%65536 else before
  /-- Another picture has no identifier. -/
  noId : isIdr=false → s.idrPicId=0
  sliceQp : o.sliceQp=clampQp (initQp+seOf c)
  delta : s.sliceQpDelta=int8 (seFromUe c)
  didc : o.disableDeblockingFilterIdc=s.disableDeblockingIdc%4

theorem seOf_mod (c : ℕ) : seOf (c%65536)=seOf c := by
  have hbit : c%65536%2=c%2 := by omega
  have hbyte : c%65536%256=c%256 := by omega
  rw [seOf,seOf,hbit,hbyte]

variable {s : SliceSyntax}

theorem holds_of_qpd {f : ℤ → ℕ → SliceSyntax} (hzero : r.out.disableDeblockingFilterIdc=0)
    (h : beforeQpd r bits=some ((r',o),rest)) (h' : (do
      let delta ← se
      let idc ← readDeblocking r.lat.db
      pure (f delta idc) : Grammar SliceSyntax) (bits ++ more)=some (s,rest')) :
    ∃ c tail idc, (ue : Grammar ℕ) (bits ++ more)=some (c,tail) ∧ s=f (seFromUe c) idc ∧
      SameFields r.out r'.out ∧ r'.out.sliceQp=clampQp (r.lat.initQp+seOf c) ∧
        r'.out.disableDeblockingFilterIdc=idc%4 := by
  obtain ⟨v,mid,hv,h⟩ := bind_eq_some.mp h
  obtain ⟨delta,mid',hdelta,h'⟩ := bind_eq_some.mp h'
  obtain ⟨c,tail,hc,hpure⟩ := bind_eq_some.mp hdelta
  obtain ⟨rfl,rfl⟩ := pure_eq_some.mp hpure
  obtain ⟨idc,tail',hidc,hlast⟩ := bind_eq_some.mp h'
  obtain ⟨rfl,-⟩ := pure_eq_some.mp hlast
  obtain ⟨rfl,rfl⟩ := same_ue hv hc
  obtain ⟨hfields,hqp,hdidc⟩ := out_of_qpd h hidc hzero
  rw [seOf_mod] at hqp
  exact ⟨c,_,idc,hc,rfl,hfields,hqp,hdidc⟩

/-- The part of a slice header behind the frame number, without references. -/
def readRest (nalRefIdc : ℕ) (db : Bool) (fuel : ℕ) (f : ℕ → ℤ → ℕ → SliceSyntax) :
    Grammar SliceSyntax := do
  let idrPicId ← readIdrPicId isIdr
  skipRefMarking isIdr nalRefIdc fuel
  let delta ← se
  let idc ← readDeblocking db
  pure (f idrPicId delta idc)

/-- The same part up to the code of the quantiser. -/
def readRestDelta (nalRefIdc : ℕ) : Grammar ℕ := do
  skip (readIdrPicId isIdr)
  onlyIf (nalRefIdc≠0) (if isIdr then skipIdrMarking else skip (u 1))
  ue

theorem same_idrMarking {w : ℕ} {tail : List Bool} (h : Grammar.field 2 bits=some (w,rest))
    (h' : (skipIdrMarking : Grammar Unit) (bits ++ more)=some ((),tail)) :
    tail = rest ++ more := by
  obtain ⟨front,hlen,rfl,-⟩ := field_eq_some.mp h
  obtain ⟨_,mid,hfirst,hsecond⟩ := bind_eq_some.mp h'
  obtain ⟨a,_,ha,hpure⟩ := bind_eq_some.mp hfirst
  obtain ⟨-,rfl⟩ := pure_eq_some.mp hpure
  obtain ⟨b,last,hb,hpure⟩ := bind_eq_some.mp hsecond
  obtain ⟨-,rfl⟩ := pure_eq_some.mp hpure
  obtain ⟨front₁,hlen₁,hsplit₁,-⟩ := field_eq_some.mp ha
  obtain ⟨front₂,hlen₂,hsplit₂,-⟩ := field_eq_some.mp hb
  have hsame : (front₁ ++ front₂) ++ last = front ++ (rest ++ more) := by
    rw [List.append_assoc,← hsplit₂,← hsplit₁,List.append_assoc]
  have hlength : (front₁ ++ front₂).length=front.length := by
    rw [List.length_append,hlen₁,hlen₂,hlen]
  exact (List.append_inj hsame hlength).2

theorem holds_of_rest {nalRefIdc fuel : ℕ} {f : ℕ → ℤ → ℕ → SliceSyntax}
    (hzero : r.out.disableDeblockingFilterIdc=0) (hintra : isPSliceType r.out.sliceType=false)
    (href : r.lat.nalRef=decide (nalRefIdc≠0)) (hidr : r.lat.idr=true → nalRefIdc≠0)
    (hplain : r.lat.idr=false → nalRefIdc≠0 →
      ∀ a tail, (u 1 : Grammar ℕ) (bits ++ more)=some (a,tail) → a=0)
    (h : behindFn r bits=some ((r',o),rest))
    (h' : readRest r.lat.idr nalRefIdc r.lat.db fuel f (bits ++ more)=some (s,rest')) :
    ∃ c tail id idc, readRestDelta r.lat.idr nalRefIdc (bits ++ more)=some (c,tail) ∧
      s=f id (seFromUe c) idc ∧ (r.lat.idr=false → id=0) ∧
      r'.out.firstMb=r.out.firstMb ∧ r'.out.sliceType=r.out.sliceType ∧
      r'.out.ppsId=r.out.ppsId ∧ r'.out.frameNum=r.out.frameNum ∧
      r'.out.idrPicId=(if r.lat.idr then id%65536 else r.out.idrPicId) ∧
      r'.out.sliceQp=clampQp (r.lat.initQp+seOf c) ∧
        r'.out.disableDeblockingFilterIdc=idc%4 := by
  obtain ⟨id,m₁,hid,h'⟩ := bind_eq_some.mp h'
  obtain ⟨_,m₂,hmark,h'⟩ := bind_eq_some.mp h'
  rw [behindFn] at h
  cases hcase : r.lat.idr with
  | true =>
    rw [hcase] at hid hmark
    rw [if_pos hcase] at h
    have hnonzero := hidr hcase
    obtain ⟨v,b₁,hv,h⟩ := bind_eq_some.mp h
    obtain ⟨w,b₂,hw,h⟩ := bind_eq_some.mp h
    obtain ⟨rfl,rfl⟩ := same_ue hv hid
    rw [skipRefMarking,onlyIf,if_pos hnonzero,if_pos rfl] at hmark
    obtain rfl := same_idrMarking hw hmark
    obtain ⟨c,tail,idc,hc,hs,⟨hf,ht,hp,hn,hi⟩,hqp,hdidc⟩ :=
      holds_of_qpd (r := r.withOut { r.out with idrPicId := id%65536 }) (f := f id) hzero h h'
    refine ⟨c,tail,id,idc,?_,hs,Bool.noConfusion,hf,ht,hp,hn,hi,hqp,hdidc⟩
    have hskip : (skip (readIdrPicId true) : Grammar Unit) (bits ++ more) =
        some ((),b₁ ++ more) := (bind_of_some hid).trans rfl
    rw [readRestDelta,onlyIf,if_pos hnonzero,if_pos rfl]
    exact (bind_of_some hskip).trans ((bind_of_some hmark).trans hc)
  | false =>
    rw [hcase] at hid hmark
    obtain ⟨rfl,rfl⟩ := pure_eq_some.mp hid
    have hskip : (skip (readIdrPicId false) : Grammar Unit) (bits ++ more) =
        some ((),bits ++ more) := rfl
    rw [if_neg (by rw [hcase]; exact Bool.false_ne_true),
      if_neg (by rw [hintra]; exact Bool.false_ne_true),beforeMarking,href] at h
    rw [skipRefMarking,onlyIf] at hmark
    by_cases hzeroIdc : nalRefIdc≠0
    · rw [if_pos (decide_eq_true hzeroIdc)] at h
      rw [if_pos hzeroIdc,if_neg Bool.false_ne_true] at hmark
      obtain ⟨a,b₁,ha,h⟩ := bind_eq_some.mp h
      obtain ⟨a',m₃,ha',hmark⟩ := bind_eq_some.mp hmark
      obtain ⟨rfl,rfl⟩ := same_u ha ha'
      have hnone := hplain hcase hzeroIdc a _ ha'
      rw [hnone,onlyIf,if_neg (not_not.mpr rfl)] at hmark
      obtain ⟨-,rfl⟩ := pure_eq_some.mp hmark
      rw [afterNidrRefmark,hnone,if_neg (by decide)] at h
      obtain ⟨c,tail,idc,hc,hs,⟨hf,ht,hp,hn,hi⟩,hqp,hdidc⟩ :=
        holds_of_qpd (f := f 0) hzero h h'
      refine ⟨c,tail,0,idc,?_,hs,fun _ => rfl,hf,ht,hp,hn,hi,hqp,hdidc⟩
      have hflag : (skip (u 1) : Grammar Unit) (bits ++ more)=some ((),b₁ ++ more) :=
        (bind_of_some ha').trans rfl
      rw [readRestDelta,onlyIf,if_pos hzeroIdc,if_neg Bool.false_ne_true]
      exact (bind_of_some hskip).trans ((bind_of_some hflag).trans hc)
    · rw [if_neg (by rw [decide_eq_true_eq]; exact hzeroIdc)] at h
      rw [if_neg hzeroIdc] at hmark
      obtain ⟨-,rfl⟩ := pure_eq_some.mp hmark
      obtain ⟨c,tail,idc,hc,hs,⟨hf,ht,hp,hn,hi⟩,hqp,hdidc⟩ :=
        holds_of_qpd (f := f 0) hzero h h'
      refine ⟨c,tail,0,idc,?_,hs,fun _ => rfl,hf,ht,hp,hn,hi,hqp,hdidc⟩
      rw [readRestDelta,onlyIf,if_neg hzeroIdc]
      exact (bind_of_some hskip).trans hc

theorem isPSliceType_eq_false {t : ℕ} (h : isPOrB t=false) : isPSliceType t=false := by
  cases hp : isPSliceType t with
  | false => rfl
  | true =>
    rw [isPSliceType,Bool.or_eq_true,beq_iff_eq,beq_iff_eq] at hp
    rcases hp with rfl | rfl
    · cases h
    · cases h

theorem holds_of_walkSlice {nalType nalRefIdc fuel : ℕ}
    (hzero : r.out.disableDeblockingFilterIdc=0)
    (hidr : r.lat.idr=(nalType == 5)) (href : r.lat.nalRef=decide (nalRefIdc≠0))
    (hcourse : SameCourse (bits ++ more) (nalType == 5) nalRefIdc r.lat.log2)
    (h : walkSlice r bits=some ((r',o),rest))
    (h' : (readSliceHeader nalType nalRefIdc r.lat.log2 r.lat.db fuel : Grammar SliceSyntax)
      (bits ++ more)=some (s,rest')) :
    ∃ c tail, readDeltaCode (nalType == 5) nalRefIdc r.lat.log2 (bits ++ more)=some (c,tail) ∧
      HeaderHolds (nalType == 5) r.lat.initQp r.out.idrPicId r'.out s c := by
  obtain ⟨v₁,b₁,h₁,h⟩ := bind_eq_some.mp h
  obtain ⟨v₂,b₂,h₂,h⟩ := bind_eq_some.mp h
  obtain ⟨v₃,b₃,h₃,h⟩ := bind_eq_some.mp h
  obtain ⟨v₄,b₄,h₄,h⟩ := bind_eq_some.mp h
  obtain ⟨w₁,c₁,k₁,h'⟩ := bind_eq_some.mp h'
  obtain ⟨rfl,rfl⟩ := same_ue h₁ k₁
  obtain ⟨w₂,c₂,k₂,h'⟩ := bind_eq_some.mp h'
  obtain ⟨rfl,rfl⟩ := same_ue h₂ k₂
  obtain ⟨w₃,c₃,k₃,h'⟩ := bind_eq_some.mp h'
  obtain ⟨rfl,rfl⟩ := same_ue h₃ k₃
  obtain ⟨w₄,c₄,k₄,h'⟩ := bind_eq_some.mp h'
  obtain ⟨rfl,rfl⟩ := same_u h₄ k₄
  have hskip₁ : (skip ue : Grammar Unit) (bits ++ more)=some ((),b₁ ++ more) :=
    (bind_of_some k₁).trans rfl
  have hskip₂ : (skip ue : Grammar Unit) (b₁ ++ more)=some ((),b₂ ++ more) :=
    (bind_of_some k₂).trans rfl
  have hskip₃ : (skip ue : Grammar Unit) (b₂ ++ more)=some ((),b₃ ++ more) :=
    (bind_of_some k₃).trans rfl
  have hskip₄ : (skip (u r.lat.log2) : Grammar Unit) (b₃ ++ more)=some ((),b₄ ++ more) :=
    (bind_of_some k₄).trans rfl
  have hintra : isPOrB (uint8 w₂)=false :=
    hcourse.intra w₂ _ ((bind_of_some hskip₁).trans k₂)
  have htype : w₂%65536%256=uint8 w₂ := by
    rw [uint8]
    omega
  have hpps : w₃%65536%256=uint8 w₃ := by
    rw [uint8]
    omega
  have hnone : ∀ g : Grammar Unit, onlyIf (isPOrB (uint8 w₂)=true) g=pure () := fun g =>
    if_neg (by rw [hintra]; exact Bool.false_ne_true)
  simp only [hnone,pure_bind] at h'
  rw [← hidr] at h' hcourse ⊢
  have hplain : r.lat.idr=false → nalRefIdc≠0 →
      ∀ a tail, (u 1 : Grammar ℕ) (b₄ ++ more)=some (a,tail) → a=0 := by
    intro hother hnonzero a tail ha
    exact hcourse.plain hother hnonzero a tail ((bind_of_some hskip₁).trans <|
      (bind_of_some hskip₂).trans <| (bind_of_some hskip₃).trans <|
        (bind_of_some hskip₄).trans ha)
  obtain ⟨r₄,hr₄⟩ : ∃ r₄, r₄=r.withOut { r.out with
      firstMb := w₁%65536, sliceType := w₂%65536%256
      isISlice := isISliceType (w₂%65536%256), ppsId := w₃%65536%256
      frameNum := v₄ } := ⟨_,rfl⟩
  have hbehind : behindFn r₄ b₄=some ((r',o),rest) := by
    rw [hr₄]
    exact h
  have hlat : r.lat=r₄.lat := by
    rw [hr₄]
    rfl
  have hid₄ : r₄.out.idrPicId=r.out.idrPicId := by
    rw [hr₄]
    rfl
  have hzero₄ : r₄.out.disableDeblockingFilterIdc=0 := by
    rw [hr₄]
    exact hzero
  have hf₄ : r₄.out.firstMb=w₁%65536 := by
    rw [hr₄]
    rfl
  have ht₄ : r₄.out.sliceType=uint8 w₂ := by
    rw [hr₄]
    exact htype
  have hp₄ : r₄.out.ppsId=uint8 w₃ := by
    rw [hr₄]
    exact hpps
  have hn₄ : r₄.out.frameNum=v₄ := by
    rw [hr₄]
    rfl
  rw [hlat] at href hcourse hplain h' hskip₄ ⊢
  obtain ⟨c,tail,id,idc,hdelta,rfl,hid,hf,ht,hp,hn,hi,hqp,hdidc⟩ :=
    holds_of_rest (f := fun idrPicId delta idc =>
      { firstMbInSlice := w₁, sliceType := uint8 w₂, ppsId := uint8 w₃, frameNum := v₄, idrPicId,
        sliceQpDelta := int8 delta, disableDeblockingIdc := idc }) hzero₄
      (by rw [ht₄]; exact isPSliceType_eq_false hintra) href hcourse.idr hplain hbehind h'
  refine ⟨c,tail,?_,?_⟩
  · exact (bind_of_some hskip₁).trans <| (bind_of_some hskip₂).trans <|
      (bind_of_some hskip₃).trans <| (bind_of_some hskip₄).trans hdelta
  · rw [hid₄] at hi
    exact ⟨hf.trans hf₄,ht.trans ht₄,hp.trans hp₄,hn.trans hn₄,hi,hid,hqp,rfl,hdidc⟩

/-- A header that the host accepts was read, and its fields are those of the syntax. -/
theorem read_of_valid {payload : List Byte} {nalType nalRefIdc log2 : ℕ} {pps : PpsInfo}
    (hvalid : (parseSliceHeaderRbsp payload nalType nalRefIdc log2 pps).valid=true) :
    1≤log2 ∧ log2≤16 ∧ ∃ s rest,
      (readSliceHeader nalType nalRefIdc log2 pps.deblockCtrl (8*(removeEpb payload).length+1) :
        Grammar SliceSyntax) (payloadBits payload)=some (s,rest) ∧
      ∀ o, SliceAgrees (parseSliceHeaderRbsp payload nalType nalRefIdc log2 pps) o ↔
        SliceAgrees (sliceFields s nalType pps.picInitQp) o := by
  rw [parseSliceHeaderRbsp] at hvalid ⊢
  by_cases hargs : payload.length<1 ∨ log2=0 ∨ 16<log2 ∨ pps.valid=false
  · rw [if_pos hargs] at hvalid
    cases hvalid
  · rw [if_neg hargs] at hvalid ⊢
    have hlog2 : 1≤log2 ∧ log2≤16 := by omega
    refine ⟨hlog2.1,hlog2.2,?_⟩
    dsimp only at hvalid ⊢
    split at hvalid
    · cases hvalid
    · rename_i hok
      obtain ⟨rest,hread,-⟩ := (reads_readSliceHeader nalType nalRefIdc log2 pps.deblockCtrl _
        (by omega)).of_not_failed (at_startReader payload) hok
      refine ⟨_,rest,hread,fun o => ?_⟩
      rw [if_neg hok]
      constructor
      · intro h
        exact { h with }
      · intro h
        exact { h with }

/-- The hardware has the values of the host when the capture ends. -/
structure SameInputs (i : SlicePort) (nalType nalRefIdc : ℕ) (log2 : ℕ) (pps : PpsInfo) : Prop where
  idr : i.isIdrNal=(nalType == 5)
  ref : i.nalRefIdcNonzero=decide (nalRefIdc≠0)
  log2 : i.log2MaxFrameNum=log2
  deblock : i.deblockCtrl=pps.deblockCtrl
  qp : i.picInitQp=pps.picInitQp

/-- Outputs and syntax elements of the same course agree when the elements are in range. -/
theorem HeaderHolds.agrees_iff {nalType nalRefIdc log2 : ℕ} {initQp : ℤ} {before o : SliceOut}
    {c : ℕ} {tail : List Bool}
    (hdelta : readDeltaCode (nalType == 5) nalRefIdc log2 bits=some (c,tail))
    (h : HeaderHolds (nalType == 5) initQp before.idrPicId o s c) :
    SliceAgrees (sliceFields s nalType initQp) o ↔
      InRange bits (nalType == 5) nalRefIdc log2 initQp before s := by
  have hqp : QpKept initQp c ↔ o.sliceQp=(sliceFields s nalType initQp).sliceQp := by
    rw [QpKept,h.sliceQp,sliceFields,h.delta]
  constructor
  · intro hagrees
    have hfirst : s.firstMbInSlice%65536=s.firstMbInSlice := h.firstMb.symm.trans hagrees.firstMb
    have hdidc : s.disableDeblockingIdc%4=s.disableDeblockingIdc :=
      h.didc.symm.trans hagrees.didc
    have hid := h.idrPicId.symm.trans hagrees.idrPicId
    refine ⟨by omega,?_,?_,?_,by omega⟩
    · intro hidr
      rw [if_pos hidr] at hid
      have hsame : s.idrPicId%65536=s.idrPicId := hid
      omega
    · intro hother
      rw [if_neg (by rw [hother]; exact Bool.false_ne_true)] at hid
      exact hid.trans (h.noId hother)
    · intro c' tail' hc'
      rw [hdelta,Option.some.injEq,Prod.mk.injEq] at hc'
      rw [← hc'.1]
      exact hqp.mpr hagrees.sliceQp
  · intro hrange
    refine ⟨h.firstMb.trans (Nat.mod_eq_of_lt hrange.firstMb),h.sliceType,h.ppsId,h.frameNum,?_,
      hqp.mp (hrange.qp c tail hdelta),h.didc.trans (Nat.mod_eq_of_lt hrange.didc)⟩
    rw [h.idrPicId]
    by_cases hidr : (nalType == 5)=true
    · rw [if_pos hidr]
      exact Nat.mod_eq_of_lt (hrange.idrPicId hidr)
    · rw [if_neg hidr]
      have hother : (nalType == 5)=false := Bool.eq_false_of_not_eq_true hidr
      exact (hrange.stale hother).trans (h.noId hother).symm

/-- On a header of the same course that both accept, the two parsers agree exactly when its
syntax elements are in range. -/
theorem sliceHeaders_agree_iff {p q : SliceParser} {payload : List Byte} {i : SlicePort}
    {nalType nalRefIdc log2 : ℕ} {pps : PpsInfo} (hdelivers : SliceDelivers p payload i q)
    (hinputs : SameInputs i nalType nalRefIdc log2 pps)
    (hhost : (parseSliceHeaderRbsp payload nalType nalRefIdc log2 pps).valid=true)
    (hvalid : q.regs.valid=true)
    (hcourse : SameCourse (payloadBits payload) (nalType == 5) nalRefIdc log2) :
    SliceAgrees (parseSliceHeaderRbsp payload nalType nalRefIdc log2 pps) q.regs.out ↔
      ∀ s rest, (readSliceHeader nalType nalRefIdc log2 pps.deblockCtrl
          (8*(removeEpb payload).length+1) : Grammar SliceSyntax) (payloadBits payload) =
            some (s,rest) →
        InRange (payloadBits payload) (nalType == 5) nalRefIdc log2 pps.picInitQp p.regs.out s := by
  obtain ⟨hlow,hhigh,s,rest,hread,hfields⟩ := read_of_valid hhost
  obtain ⟨m,hwaiting,r,o,tail,hwalk,hout⟩ :=
    walk_of_delivers hdelivers hvalid (by rw [hinputs.log2]; exact hhigh)
  have hlog2 : (m.start i).regs.lat.log2=log2 := by
    show (if i.log2MaxFrameNum = 0 then 4 else i.log2MaxFrameNum)=log2
    rw [hinputs.log2,if_neg (by omega)]
  have hidr : (m.start i).regs.lat.idr=(nalType == 5) := hinputs.idr
  have href : (m.start i).regs.lat.nalRef=decide (nalRefIdc≠0) := hinputs.ref
  have hdb : (m.start i).regs.lat.db=pps.deblockCtrl := hinputs.deblock
  have hqp : (m.start i).regs.lat.initQp=pps.picInitQp := hinputs.qp
  have hbefore : (m.start i).regs.out.idrPicId=p.regs.out.idrPicId := by
    show m.regs.out.idrPicId=p.regs.out.idrPicId
    rw [hwaiting.out]
  rw [← hlog2,← hdb,payloadBits_split payload] at hread
  rw [← hlog2,payloadBits_split payload] at hcourse
  obtain ⟨c,tail',hdelta,hholds⟩ :=
    holds_of_walkSlice (r := (m.start i).regs) rfl hidr href hcourse hwalk hread
  rw [hlog2,← payloadBits_split payload] at hdelta
  rw [hlog2,hdb,← payloadBits_split payload] at hread
  rw [hqp,hbefore,← hout] at hholds
  rw [hfields,hholds.agrees_iff hdelta]
  constructor
  · intro hrange s' rest' hread'
    rw [hread,Option.some.injEq,Prod.mk.injEq] at hread'
    rw [← hread'.1]
    exact hrange
  · intro hall
    exact hall s rest hread

/-- A slice that comes byte after byte, with a number of clocks behind it, and the same inputs on
every clock. -/
def feedSlice (p : SliceParser) (payload : List Byte) (i : SlicePort) (n : ℕ) : SliceParser :=
  Trace.finalState SliceParser.step p
    ({ i with cap := .begin } :: (removeEpb payload).map (fun b => { i with cap := ⟨false,true,b,false⟩ }) ++
      { i with cap := .close } :: List.replicate n { i with cap := .quiet })

theorem sliceDelivers_feed {p : SliceParser} {payload : List Byte} {i : SlicePort} {n : ℕ}
    (h : (feedSlice p payload i n).walk.st = .own .idle) :
    SliceDelivers p payload { i with cap := .close } (feedSlice p payload i n) := by
  refine ⟨{ i with cap := .begin },_,List.replicate n { i with cap := .quiet },rfl,?_,rfl,?_,h,
    rfl⟩
  · rw [List.map_map]
    exact brings_bytes (removeEpb payload)
  · intro j hj
    rw [(List.mem_replicate.mp hj).2]

/-- A picture parameter set without filter control. -/
def plainPps : PpsInfo := { valid := true, picInitQp := 26 }

/-- Inputs for an IDR picture or for another reference, with frame numbers of four bits. -/
def plainPort : SlicePort where
  cap := .quiet
  isIdrNal := isIdr
  nalRefIdcNonzero := true
  log2MaxFrameNum := 4
  pocType := 2
  spsReady := true
  ppsReady := true
  deblockCtrl := false
  picInitQp := 26

/-- An I slice of an IDR picture. -/
def idrSlice : List Byte := [0x88,0x84,0x86,0xA0]

/-- A P slice of another reference, whose list of references is not modified. -/
def pSlice : List Byte := [0xE2,0x2B,0xF8]

theorem sameCourse_idrSlice : SameCourse (payloadBits idrSlice) (5 == 5) 3 4 := by
  have htype : (readSliceType (payloadBits idrSlice)).map Prod.fst=some 7 := by decide
  refine ⟨?_,fun _ => by decide,fun hother => absurd hother (by decide)⟩
  intro t rest h
  rw [h,Option.map_some,Option.some.injEq] at htype
  rw [show t=7 from htype]
  decide

theorem inRange_idrSlice (before : SliceOut) (s : SliceSyntax) (rest : List Bool)
    (h : (readSliceHeader 5 3 4 plainPps.deblockCtrl (8*(removeEpb idrSlice).length+1) :
      Grammar SliceSyntax) (payloadBits idrSlice)=some (s,rest)) :
    InRange (payloadBits idrSlice) (5 == 5) 3 4 plainPps.picInitQp before s := by
  have hread : ((readSliceHeader 5 3 4 plainPps.deblockCtrl (8*(removeEpb idrSlice).length+1) :
      Grammar SliceSyntax) (payloadBits idrSlice)).map Prod.fst =
        some ⟨0,7,0,0,0,0,0⟩ := by decide
  have hdelta : (readDeltaCode (5 == 5) 3 4 (payloadBits idrSlice)).map Prod.fst=some 0 := by
    decide
  rw [h,Option.map_some,Option.some.injEq] at hread
  obtain rfl : s=⟨0,7,0,0,0,0,0⟩ := hread
  refine ⟨by decide,fun _ => by decide,fun hother => absurd hother (by decide),?_,by decide⟩
  intro c tail hc
  rw [hc,Option.map_some,Option.some.injEq] at hdelta
  obtain rfl : c=0 := hdelta
  rfl

open SliceParser

/-- The two parsers agree on the IDR slice. -/
theorem sliceHeaders_agree_idr :
    SliceAgrees (parseSliceHeaderRbsp idrSlice 5 3 4 plainPps)
      (feedSlice SliceParser.reset idrSlice (plainPort true) 60).regs.out := by
  have hidle : (feedSlice reset idrSlice (plainPort true) 60).walk.st = .own .idle := by
    decide +kernel
  have hvalid : (feedSlice reset idrSlice (plainPort true) 60).regs.valid=true := by
    decide +kernel
  have hhost : (parseSliceHeaderRbsp idrSlice 5 3 4 plainPps).valid=true := by decide
  exact (sliceHeaders_agree_iff (sliceDelivers_feed hidle) ⟨rfl,rfl,rfl,rfl,rfl⟩ hhost hvalid
    sameCourse_idrSlice).mpr (inRange_idrSlice _)

/-- The quantiser of a P slice is read one bit too early. -/
theorem not_sliceHeaders_agree :
    ¬∀ (p q : SliceParser) (payload : List Byte) (i : SlicePort) (nalType nalRefIdc log2 : ℕ)
      (pps : PpsInfo), SliceDelivers p payload i q → SameInputs i nalType nalRefIdc log2 pps →
        i.pocType=2 → (parseSliceHeaderRbsp payload nalType nalRefIdc log2 pps).valid=true →
          q.regs.valid=true →
            SliceAgrees (parseSliceHeaderRbsp payload nalType nalRefIdc log2 pps) q.regs.out := by
  intro h
  have hidle : (feedSlice reset pSlice (plainPort false) 60).walk.st = .own .idle := by
    decide +kernel
  have hvalid : (feedSlice reset pSlice (plainPort false) 60).regs.valid=true := by
    decide +kernel
  have hhost : (parseSliceHeaderRbsp pSlice 1 1 4 plainPps).valid=true := by decide
  have hqp : (feedSlice reset pSlice (plainPort false) 60).regs.out.sliceQp=27 := by
    decide +kernel
  have hostQp : (parseSliceHeaderRbsp pSlice 1 1 4 plainPps).sliceQp=26 := by decide
  have hagrees := h _ _ pSlice _ 1 1 4 plainPps (sliceDelivers_feed hidle)
    ⟨rfl,rfl,rfl,rfl,rfl⟩ rfl hhost hvalid
  have hsame := hagrees.sliceQp
  rw [hqp,hostQp] at hsame
  exact absurd hsame (by decide)

end Misterplex.Header
