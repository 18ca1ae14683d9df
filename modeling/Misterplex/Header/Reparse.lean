import Misterplex.Header.NalChain

/-!
# The host re-parses of the slice header

Three host functions search the stream again for a slice and skip its header
with a shorter text of their own before they read the first macroblock. They
start where the chain's parser ended when the first slice of the stream is the
one that the chain accepted, its marking of references is the one of an IDR
picture exactly in IDR units, and its deblocking control is not a wrapped one.
-/

namespace Misterplex.Header

open BitString BitGrammar Cavlc Emulation

variable (data : List Byte)

/-- The first slice of a stream; the byte behind the start code of an empty unit is
the zero of the next start code, which is no slice. -/
def vclUnit : Option (List Byte) :=
  (annexBUnits data).find? fun unit => nalType unit == 5 || nalType unit == 1

/-- The part of a slice header that is skipped behind the marking of references. -/
def skipFilter {m : Type → Type} [Monad m] [HeaderReader m] (deblockCtrl : Bool) : m Unit :=
  onlyIf deblockCtrl do
    let d ← ue
    onlyIf (d≠1) do
      skip se
      skip se

/-- The text that skips a slice header. -/
def reparseHeader {m : Type → Type} [Monad m] [HeaderReader m] (ntype log2MaxFrameNum : ℕ)
    (deblockCtrl : Bool) : m Unit := do
  skip ue
  skip ue
  skip ue
  skip (u log2MaxFrameNum)
  onlyIf (ntype=5) do
    skip ue
    skip (u 1)
    skip (u 1)
  skip se
  skipFilter deblockCtrl

/-- The reader behind the skipped header of a unit. -/
def reparseReader (info : NalChainInfo) (unit : List Byte) : BitReader :=
  ((reparseHeader (nalType unit) info.log2MaxFrameNum info.pps.deblockCtrl :
    StateM BitReader Unit) (startReader unit.tail)).2

/-- The slice that is found again and the reader behind its header, if the chain passes a check. -/
def reparseAfter (check : NalChainInfo → Bool) (data : List Byte) :
    Option (List Byte × BitReader) :=
  let chain := parseAnnexBChain data
  if check chain then (vclUnit data).map fun unit => (unit,reparseReader chain unit) else none

/-- The chain has both parameter sets and a slice. -/
def chainValid (chain : NalChainInfo) : Bool :=
  chain.sps.valid && chain.pps.valid && chain.slice.valid

/-- Where `walkISliceResiduals` reads the first macroblock. -/
def walkISliceResidualsStart : List Byte → Option (List Byte × BitReader) := reparseAfter chainValid

/-- Where `reconISlice` reads the first macroblock. -/
def reconISliceStart : List Byte → Option (List Byte × BitReader) := reparseAfter chainValid

/-- Where `probeFirstI16Dc` reads the first macroblock. -/
def probeFirstI16DcStart : List Byte → Option (List Byte × BitReader) :=
  reparseAfter fun chain =>
    chainValid chain && chain.slice.hasFirstMbType && decide (chain.slice.firstMbType≤25)

/-- The slice that the chain accepts over some units. -/
def acceptedFrom (info : NalChainInfo) : List (List Byte) → Option (List Byte)
  | [] => none
  | unit::units =>
    if chainStops info unit then some unit else acceptedFrom (chainStep info unit) units

/-- The slice that the chain accepts. -/
def acceptedSlice : Option (List Byte) :=
  if data.length < 5 then none else acceptedFrom {} (annexBUnits data)

/-- The header of a unit as the chain parses it at last, and the reader behind it. -/
def chainHeader (data unit : List Byte) : SliceSyntax × BitReader :=
  sliceHeaderAt unit.tail (nalType unit) (nalRefIdc unit) (parseAnnexBChain data).log2MaxFrameNum
    (parseAnnexBChain data).pps.deblockCtrl

/-- A re-parse is at the slice, the bit and the macroblock type of the chain. -/
def SameStart (start : Option (List Byte × BitReader)) : Prop :=
  ∃ unit, acceptedSlice data=some unit ∧ start=some (unit,(chainHeader data unit).2) ∧
    uint8 (hostUe (chainHeader data unit).2).1=(parseAnnexBChain data).slice.firstMbType

/-- All re-parses are where the chain is; the probe needs a valid macroblock type. -/
def ReparsesAgree : Prop :=
  SameStart data (walkISliceResidualsStart data) ∧ SameStart data (reconISliceStart data) ∧
    ((parseAnnexBChain data).slice.hasFirstMbType=true →
      SameStart data (probeFirstI16DcStart data))

/-- The identifiers of a slice header. -/
def skipIds {m : Type → Type} [Monad m] [HeaderReader m] (ntype log2MaxFrameNum : ℕ) : m Unit := do
  skip ue
  skip ue
  skip ue
  skip (u log2MaxFrameNum)
  skip (readIdrPicId (ntype == 5))

/-- What the parser reads between the identifiers and the macroblocks of an I slice. -/
def parserRest {m : Type → Type} [Monad m] [HeaderReader m] (ntype nri fuel : ℕ)
    (deblockCtrl : Bool) : m Unit := do
  skipRefMarking (ntype == 5) nri fuel
  skip se
  skip (readDeblocking deblockCtrl)

/-- What a re-parse skips there. -/
def reparseRest {m : Type → Type} [Monad m] [HeaderReader m] (ntype : ℕ) (deblockCtrl : Bool) :
    m Unit := do
  onlyIf (ntype=5) skipIdrMarking
  skip se
  skipFilter deblockCtrl

/-- The reader behind the identifiers of a slice header. -/
def behindIds (payload : List Byte) (ntype log2MaxFrameNum : ℕ) : BitReader :=
  ((skipIds ntype log2MaxFrameNum : StateM BitReader Unit) (startReader payload)).2

/-- The reader behind the change of the quantiser. -/
def behindQpDelta (ntype nri fuel : ℕ) (br : BitReader) : BitReader :=
  ((do
    skipRefMarking (ntype == 5) nri fuel
    skip se : StateM BitReader Unit) br).2

/-- References are marked with the two flags of an IDR picture exactly in IDR units. -/
def RegularMarking (unit : List Byte) : Prop := nalType unit=5 ↔ nalRefIdc unit≠0

/-- A deblocking control that is 1 in a byte is 1. -/
def RegularFilter (unit : List Byte) (info : NalChainInfo) : Prop :=
  let filter := behindQpDelta (nalType unit) (nalRefIdc unit)
    (8*(removeEpb unit.tail).length+1)
    (behindIds unit.tail (nalType unit) info.log2MaxFrameNum)
  info.pps.deblockCtrl=true → (hostUe filter).1%256=1 → (hostUe filter).1=1

/-- Both ways of reading the bits behind the identifiers leave the same ones, though one of them
skips marking flags that the other does not know. Without filter control it takes an IDR picture
whose change of the quantiser is coded 011. -/
def Resynchronises (unit : List Byte) (info : NalChainInfo) : Prop :=
  ∃ bits, (skipIds (nalType unit) info.log2MaxFrameNum : Grammar Unit)
      (bitsOf (removeEpb unit.tail))=some ((),bits) ∧
    if info.pps.deblockCtrl then
      ∃ rest, (parserRest (nalType unit) (nalRefIdc unit) (8*(removeEpb unit.tail).length+1)
          true : Grammar Unit) bits=some ((),rest) ∧
        (reparseRest (nalType unit) true : Grammar Unit) bits = some ((),rest)
    else nalType unit = 5 ∧ [false,true,true] <+: bits

/-- A re-parse ends where the parser of the chain does. -/
def EndsTogether (unit : List Byte) (info : NalChainInfo) : Prop :=
  reparseReader info unit=(sliceHeaderAt unit.tail (nalType unit) (nalRefIdc unit)
    info.log2MaxFrameNum info.pps.deblockCtrl).2

theorem sliceHeaderAt_of_intra {payload : List Byte} {ntype nri log2 : ℕ} {deblock : Bool}
    (h : isPOrB (sliceHeaderAt payload ntype nri log2 deblock).1.sliceType=false) :
    (sliceHeaderAt payload ntype nri log2 deblock).2 =
      ((readDeblocking deblock : StateM BitReader ℕ)
        (behindQpDelta ntype nri (8*(removeEpb payload).length+1)
          (behindIds payload ntype log2))).2 := by
  simp only [sliceHeaderAt,readSliceHeader,host_bind,host_pure] at h ⊢
  simp only [h,onlyIf,behindQpDelta,behindIds,skipIds,host_bind,host_skip]
  rfl

theorem skipFilter_eq {deblock : Bool} {br : BitReader}
    (h : deblock=true → (hostUe br).1%256=1 → (hostUe br).1=1) :
    ((skipFilter deblock : StateM BitReader Unit) br).2 =
      ((readDeblocking deblock : StateM BitReader ℕ) br).2 := by
  cases deblock with
  | false => rfl
  | true =>
    have hidc : uint8 (hostUe br).1≠1 ↔ (hostUe br).1≠1 := by
      have hwrap := h rfl
      rw [uint8]
      omega
    rw [skipFilter,readDeblocking,onlyIf,if_pos rfl,if_pos rfl,host_bind,host_bind,host_ue,
      host_bind,host_pure,onlyIf,onlyIf]
    by_cases hone : (hostUe br).1≠1
    · rw [if_pos hone,if_pos (hidc.mpr hone)]
    · rw [if_neg hone,if_neg (fun hw => hone (hidc.mp hw))]

theorem reparseReader_of_idr {unit : List Byte} (info : NalChainInfo) (hidr : nalType unit=5)
    {nri fuel : ℕ} (hnri : nri≠0) :
    reparseReader info unit=((skipFilter info.pps.deblockCtrl : StateM BitReader Unit)
      (behindQpDelta (nalType unit) nri fuel
        (behindIds unit.tail (nalType unit) info.log2MaxFrameNum))).2 := by
  simp only [reparseReader,reparseHeader,host_bind,host_skip,behindQpDelta,behindIds,
    skipIds,skipRefMarking,onlyIf,readIdrPicId,skipIdrMarking,hidr,hnri,beq_self_eq_true,if_true,
    not_false_eq_true,ne_eq]

theorem reparseReader_of_other {unit : List Byte} (info : NalChainInfo) (hidr : nalType unit≠5)
    (fuel : ℕ) :
    reparseReader info unit=((skipFilter info.pps.deblockCtrl : StateM BitReader Unit)
      (behindQpDelta (nalType unit) 0 fuel
        (behindIds unit.tail (nalType unit) info.log2MaxFrameNum))).2 := by
  have hbeq : (nalType unit == 5)=false := beq_eq_false_iff_ne.mpr hidr
  simp only [reparseReader,reparseHeader,host_bind,host_skip,behindQpDelta,behindIds,
    skipIds,skipRefMarking,onlyIf,readIdrPicId,skipIdrMarking,hidr,hbeq,if_false,host_pure,
    ne_eq,not_true_eq_false]
  rfl

/-- With regular marking a re-parse of an I slice only treats the filter in its own way. -/
theorem reparseReader_eq {unit : List Byte} (info : NalChainInfo) (hmarking : RegularMarking unit) :
    reparseReader info unit=((skipFilter info.pps.deblockCtrl : StateM BitReader Unit)
      (behindQpDelta (nalType unit) (nalRefIdc unit) (8*(removeEpb unit.tail).length+1)
        (behindIds unit.tail (nalType unit) info.log2MaxFrameNum))).2 := by
  by_cases hidr : nalType unit=5
  · exact reparseReader_of_idr info hidr (hmarking.mp hidr)
  · have hnri : nalRefIdc unit=0 := Classical.byContradiction fun h => hidr (hmarking.mpr h)
    rw [hnri]
    exact reparseReader_of_other info hidr _

theorem skipFilter_ne {d : List Byte} {bits : List Bool} {br : BitReader}
    (hwrap : (hostUe br).1%256=1) (hone : (hostUe br).1≠1)
    (hat : BitReader.At d bits ((readDeblocking true : StateM BitReader ℕ) br).2) :
    ((skipFilter true : StateM BitReader Unit) br).2 ≠
      ((readDeblocking true : StateM BitReader ℕ) br).2 := by
  have hparse : ((readDeblocking true : StateM BitReader ℕ) br).2=(hostUe br).2 := by
    rw [readDeblocking,if_pos rfl,host_bind,host_ue,host_bind,host_pure,onlyIf,
      if_neg (by rw [uint8]; omega),host_pure]
  have hskip : ((skipFilter true : StateM BitReader Unit) br).2 =
      (hostUe (hostUe (hostUe br).2).2).2 := by
    rw [skipFilter,onlyIf,if_pos rfl,host_bind,host_ue,onlyIf,if_pos hone,host_bind,
      host_skip,host_skip]
    rfl
  rw [hparse] at hat ⊢
  rw [hskip]
  intro hsame
  have hok : (hostUe (hostUe (hostUe br).2).2).2.ok=true := by
    rw [hsame]
    exact hat.healthy
  have hmid := ok_of_hostUe_ok hok
  obtain ⟨rest,hfirst,hlt⟩ := hostUe_advances hat hmid
  obtain ⟨rest',hsecond,hlt'⟩ := hostUe_advances hfirst hok
  rw [hsame] at hsecond
  have hpos := hat.position
  have hpos' := hsecond.position
  omega

variable {info : NalChainInfo}

theorem slice_valid_chainStep {unit : List Byte}
    (h : info.slice.valid=false) (hgo : chainStops info unit=false) :
    (chainStep info unit).slice.valid=false := by
  rw [chainStops] at hgo
  cases htakes : takesSlice info unit with
  | true =>
    rw [htakes,Bool.true_and] at hgo
    exact hgo
  | false =>
    rw [chainStep]
    split
    · exact h
    · split
      · exact h
      · rw [if_neg (by rw [htakes]; exact Bool.false_ne_true)]
        exact h

theorem chainStep_of_stops {unit : List Byte} (h : chainStops info unit=true) :
    chainStep info unit = { info with
      slice := parseSliceHeaderRbsp unit.tail (nalType unit) (nalRefIdc unit) info.log2MaxFrameNum
        info.pps } := by
  rw [chainStops,Bool.and_eq_true] at h
  have htype := h.1
  rw [takesSlice] at htype
  simp only [Bool.and_eq_true,Bool.or_eq_true,beq_iff_eq] at htype
  rw [chainStep,if_neg (by omega),if_neg (by omega),if_pos h.1]

theorem exists_acceptedFrom {units : List (List Byte)}
    (hstart : info.slice.valid=false) (hend : (chainFrom info units).slice.valid=true) :
    ∃ unit, acceptedFrom info units=some unit ∧
      (chainFrom info units).slice=parseSliceHeaderRbsp unit.tail (nalType unit)
        (nalRefIdc unit) (chainFrom info units).log2MaxFrameNum (chainFrom info units).pps := by
  induction units generalizing info with
  | nil =>
    rw [chainFrom,hstart] at hend
    cases hend
  | cons unit units ih =>
    cases hstop : chainStops info unit with
    | true =>
      rw [chainFrom,acceptedFrom,hstop,if_pos rfl,if_pos rfl,chainStep_of_stops hstop]
      exact ⟨unit,rfl,rfl⟩
    | false =>
      rw [chainFrom,hstop,if_neg Bool.false_ne_true] at hend
      rw [chainFrom,acceptedFrom,hstop,if_neg Bool.false_ne_true,if_neg Bool.false_ne_true]
      exact ih (slice_valid_chainStep hstart hstop) hend

/-- A slice that the chain reports was parsed from the accepted unit of the stream. -/
theorem exists_acceptedSlice {data : List Byte}
    (h : (parseAnnexBChain data).slice.valid=true) :
    ∃ unit, acceptedSlice data=some unit ∧
      (parseAnnexBChain data).slice=parseSliceHeaderRbsp unit.tail (nalType unit)
        (nalRefIdc unit) (parseAnnexBChain data).log2MaxFrameNum (parseAnnexBChain data).pps := by
  by_cases hlen : data.length<5
  · rw [parseAnnexBChain,if_pos hlen] at h
    cases h
  · rw [parseAnnexBChain,if_neg hlen] at h ⊢
    rw [acceptedSlice,if_neg hlen]
    exact exists_acceptedFrom rfl h

theorem parseSliceHeaderRbsp_of_valid {payload : List Byte} {ntype nri log2 : ℕ} {pps : PpsInfo}
    (hvalid : (parseSliceHeaderRbsp payload ntype nri log2 pps).valid=true) :
    (parseSliceHeaderRbsp payload ntype nri log2 pps).sliceType =
        (sliceHeaderAt payload ntype nri log2 pps.deblockCtrl).1.sliceType ∧
      (parseSliceHeaderRbsp payload ntype nri log2 pps).firstMbType =
        uint8 (hostUe (sliceHeaderAt payload ntype nri log2 pps.deblockCtrl).2).1 ∧
      (parseSliceHeaderRbsp payload ntype nri log2 pps).isISlice =
        isISliceType (sliceHeaderAt payload ntype nri log2 pps.deblockCtrl).1.sliceType := by
  rw [parseSliceHeaderRbsp] at hvalid ⊢
  by_cases hargs : payload.length<1 ∨ log2=0 ∨ 16<log2 ∨ pps.valid=false
  · rw [if_pos hargs] at hvalid
    cases hvalid
  · rw [if_neg hargs] at hvalid ⊢
    dsimp only at hvalid ⊢
    split at hvalid
    · cases hvalid
    · rw [if_neg (by assumption)]
      exact ⟨rfl,rfl,rfl⟩

theorem firstMbType_le_of_has {payload : List Byte} {ntype nri log2 : ℕ} {pps : PpsInfo}
    (h : (parseSliceHeaderRbsp payload ntype nri log2 pps).hasFirstMbType=true) :
    (parseSliceHeaderRbsp payload ntype nri log2 pps).firstMbType≤25 := by
  rw [parseSliceHeaderRbsp] at h ⊢
  split at h
  · cases h
  · rw [if_neg (by assumption)]
    dsimp only at h ⊢
    split at h
    · cases h
    · rw [if_neg (by assumption)]
      rw [Bool.and_eq_true,decide_eq_true_eq] at h
      exact h.2

theorem at_of_valid {payload : List Byte} {ntype nri log2 : ℕ} {pps : PpsInfo}
    (hvalid : (parseSliceHeaderRbsp payload ntype nri log2 pps).valid=true) :
    log2≤32 ∧ ∃ bits, BitReader.At (removeEpb payload) bits
      (sliceHeaderAt payload ntype nri log2 pps.deblockCtrl).2 := by
  rw [parseSliceHeaderRbsp] at hvalid
  split at hvalid
  · cases hvalid
  · rename_i hargs
    dsimp only at hvalid
    split at hvalid
    · cases hvalid
    · rename_i hok
      obtain ⟨rest,-,hat⟩ := (reads_readSliceHeader ntype nri log2 pps.deblockCtrl _
        (by omega)).of_not_failed (at_startReader payload) hok
      exact ⟨by omega,rest,hat⟩

/-- With regular marking a re-parse ends where the parser does exactly if the filter is regular. -/
theorem reparseReader_iff {unit : List Byte} {d : List Byte}
    {bits : List Bool} (hmarking : RegularMarking unit)
    (hintra : isPOrB (sliceHeaderAt unit.tail (nalType unit) (nalRefIdc unit) info.log2MaxFrameNum
      info.pps.deblockCtrl).1.sliceType=false)
    (hat : BitReader.At d bits (sliceHeaderAt unit.tail (nalType unit) (nalRefIdc unit)
      info.log2MaxFrameNum info.pps.deblockCtrl).2) :
    EndsTogether unit info ↔ RegularFilter unit info := by
  rw [sliceHeaderAt_of_intra hintra] at hat
  rw [EndsTogether,RegularFilter,reparseReader_eq info hmarking,sliceHeaderAt_of_intra hintra]
  constructor
  · intro hsame hdeblock hwrap
    rw [hdeblock] at hsame hat
    exact Classical.byContradiction fun hone => skipFilter_ne hwrap hone hat hsame
  · exact skipFilter_eq

section Bits

variable {bits rest : List Bool}

open Grammar

theorem skip_eq_some {α : Type} {g : Grammar α} :
    skip g bits=some ((),rest) ↔ ∃ a, g bits=some (a,rest) := by
  rw [skip,bind_eq_some]
  constructor
  · rintro ⟨a,mid,ha,hpure⟩
    exact ⟨a,(pure_eq_some.mp hpure).2 ▸ ha⟩
  · rintro ⟨a,ha⟩
    exact ⟨a,rest,ha,rfl⟩

theorem skip_se_eq_some : (skip se : Grammar Unit) bits=some ((),rest) ↔
    ∃ c, (ue : Grammar ℕ) bits=some (c,rest) := by
  rw [skip_eq_some]
  constructor
  · rintro ⟨v,hv⟩
    obtain ⟨c,mid,hc,hpure⟩ := bind_eq_some.mp hv
    exact ⟨c,(pure_eq_some.mp hpure).2 ▸ hc⟩
  · rintro ⟨c,hc⟩
    exact ⟨seFromUe c,bind_eq_some.mpr ⟨c,rest,hc,rfl⟩⟩

theorem bit_eq_some {v : ℕ} :
    (u 1 : Grammar ℕ) bits=some (v,rest) ↔ ∃ b : Bool, bits=b::rest ∧ v=b.toNat := by
  constructor
  · intro h
    obtain ⟨front,hone,hsplit,hv⟩ := field_eq_some.mp h
    obtain ⟨b,rfl⟩ := List.length_eq_one_iff.mp hone
    exact ⟨b,hsplit,by rw [hv]; cases b <;> rfl⟩
  · rintro ⟨b,rfl,rfl⟩
    exact field_eq_some.mpr ⟨[b],rfl,rfl,by cases b <;> rfl⟩

theorem skipIdrMarking_eq_some : (skipIdrMarking : Grammar Unit) bits=some ((),rest) ↔
    ∃ b c, bits=b::c::rest := by
  rw [skipIdrMarking,bind_eq_some]
  constructor
  · rintro ⟨_,mid,hfirst,hsecond⟩
    obtain ⟨_,hb⟩ := skip_eq_some.mp hfirst
    obtain ⟨_,hc⟩ := skip_eq_some.mp hsecond
    obtain ⟨b,rfl,-⟩ := bit_eq_some.mp hb
    obtain ⟨c,rfl,-⟩ := bit_eq_some.mp hc
    exact ⟨b,c,rfl⟩
  · rintro ⟨b,c,rfl⟩
    exact ⟨(),c::rest,skip_eq_some.mpr ⟨_,bit_eq_some.mpr ⟨b,rfl,rfl⟩⟩,
      skip_eq_some.mpr ⟨_,bit_eq_some.mpr ⟨c,rfl,rfl⟩⟩⟩

/-- Reading may only shorten the bits. -/
theorem length_le_of_onlyIf {c : Prop} [Decidable c] {g : Grammar Unit}
    (hg : ∀ {bits rest}, g bits=some ((),rest) → rest.length≤bits.length)
    (h : onlyIf c g bits=some ((),rest)) : rest.length≤bits.length := by
  rw [onlyIf] at h
  split at h
  · exact hg h
  · rw [(pure_eq_some.mp h).2]

theorem length_le_of_skip_ue (h : (skip ue : Grammar Unit) bits=some ((),rest)) :
    rest.length≤bits.length := by
  obtain ⟨v,hv⟩ := skip_eq_some.mp h
  exact Nat.le_of_lt (length_lt_of_ue hv)

theorem length_le_of_skipOperations {fuel : ℕ}
    (h : (skipOperations fuel : Grammar Unit) bits=some ((),rest)) :
    rest.length≤bits.length := by
  induction fuel generalizing bits rest with
  | zero => rw [(pure_eq_some.mp h).2]
  | succ fuel ih =>
    obtain ⟨mmco,b₁,h₁,h⟩ := bind_eq_some.mp h
    obtain ⟨_,b₂,h₂,h⟩ := bind_eq_some.mp h
    obtain ⟨_,b₃,h₃,h⟩ := bind_eq_some.mp h
    obtain ⟨_,b₄,h₄,h⟩ := bind_eq_some.mp h
    obtain ⟨_,b₅,h₅,h⟩ := bind_eq_some.mp h
    calc rest.length
      _ ≤ b₅.length := length_le_of_onlyIf (g := whileOk (skipOperations fuel)) ih h
      _ ≤ b₄.length := length_le_of_onlyIf length_le_of_skip_ue h₅
      _ ≤ b₃.length := length_le_of_onlyIf length_le_of_skip_ue h₄
      _ ≤ b₂.length := length_le_of_onlyIf length_le_of_skip_ue h₃
      _ ≤ b₁.length := length_le_of_onlyIf length_le_of_skip_ue h₂
      _ ≤ bits.length := Nat.le_of_lt (length_lt_of_ue h₁)

/-- Behind two more bits a code ends where it does from the first one on only as 1 behind 011. -/
theorem meets_idr {c : ℕ} (h : (ue : Grammar ℕ) bits=some (c,rest)) :
    (∃ b₁ b₂ mid c', bits=b₁::b₂::mid ∧ (ue : Grammar ℕ) mid=some (c',rest)) ↔
      [false,true,true] <+: bits := by
  obtain ⟨z,tail,hz,hlength⟩ := zeros_of_ue h
  constructor
  · rintro ⟨b₁,b₂,mid,c',rfl,hmid⟩
    obtain ⟨z',tail',hz',hlength'⟩ := zeros_of_ue hmid
    have hlt := length_lt_of_ue hmid
    cases b₁ with
    | true =>
      obtain ⟨rfl,rfl⟩ := Prod.mk.inj (Option.some.inj hz)
      rw [List.length_cons] at hlength
      omega
    | false =>
      cases b₂ with
      | true =>
        have hone : zerosBeforeOne (false::true::mid)=some (1,mid) := rfl
        obtain ⟨rfl,rfl⟩ := Prod.mk.inj (Option.some.inj (hz.symm.trans hone))
        have hbits := zerosBeforeOne_eq_some hz'
        have hcount := congrArg List.length hbits
        rw [List.length_append,List.length_cons,List.length_replicate] at hcount
        have hzero : z'=0 := by omega
        rw [hzero] at hbits
        exact ⟨tail',by rw [hbits]; rfl⟩
      | false =>
        have htwo : zerosBeforeOne (false::false::mid)=some (z'+1+1,tail') := by
          rw [zerosBeforeOne,zerosBeforeOne,hz']
          rfl
        obtain ⟨rfl,rfl⟩ := Prod.mk.inj (Option.some.inj (hz.symm.trans htwo))
        omega
  · rintro ⟨mid,rfl⟩
    have hcode : (ue : Grammar ℕ) (false::true::true::mid)=some (2,mid) := rfl
    obtain ⟨-,rfl⟩ := Prod.mk.inj (Option.some.inj (hcode.symm.trans h))
    exact ⟨false,true,true::mid,0,rfl,rfl⟩

/-- Without the flag in front of it a code never ends where it does behind the flag. -/
theorem meets_other {b : Bool} {mid : List Bool} {c k : ℕ} (hbits : bits=b::mid)
    (h : (ue : Grammar ℕ) bits=some (c,rest)) (hle : b=true → rest.length < mid.length)
    (hmid : b=false → (ue : Grammar ℕ) mid=some (k,rest)) : False := by
  subst hbits
  obtain ⟨z,tail,hz,hlength⟩ := zeros_of_ue h
  cases b with
  | true =>
    obtain ⟨rfl,rfl⟩ := Prod.mk.inj (Option.some.inj hz)
    have hlt := hle rfl
    omega
  | false =>
    obtain ⟨z',tail',hz',hlength'⟩ := zeros_of_ue (hmid rfl)
    have hone : zerosBeforeOne (false::mid)=some (z'+1,tail') := by
      rw [zerosBeforeOne,hz']
      rfl
    obtain ⟨rfl,rfl⟩ := Prod.mk.inj (Option.some.inj (hz.symm.trans hone))
    omega

end Bits

open Grammar

section Readers

variable {d : List Byte}

theorem reads_skipIds (ntype : ℕ) {log2 : ℕ} (hlog2 : log2≤32) :
    Reads (hostReader d) (skipIds ntype log2) (skipIds ntype log2) := by
  refine (reads_skip reads_ue).bind fun _ => (reads_skip reads_ue).bind fun _ => ?_
  refine (reads_skip reads_ue).bind fun _ => (reads_skip (reads_u hlog2)).bind fun _ => ?_
  exact reads_skip (Reads.ite reads_ue (Reads.pure 0))

theorem reads_parserRest (ntype nri fuel : ℕ) (deblock : Bool) :
    Reads (hostReader d) (parserRest ntype nri fuel deblock)
      (parserRest ntype nri fuel deblock) := by
  refine (reads_skipRefMarking _ _ _).bind fun _ => (reads_skip reads_se).bind fun _ => ?_
  exact reads_skip (reads_readDeblocking deblock)

theorem reads_reparseRest (ntype : ℕ) (deblock : Bool) :
    Reads (hostReader d) (reparseRest ntype deblock) (reparseRest ntype deblock) := by
  have hbit : Reads (hostReader d) (skip (u 1)) (skip (u 1)) := reads_skip (reads_u (by omega))
  refine Reads.bind (reads_onlyIf (hbit.bind fun _ => hbit)) fun _ => ?_
  refine (reads_skip reads_se).bind fun _ => reads_onlyIf (reads_ue.bind fun idc => ?_)
  exact reads_onlyIf ((reads_skip reads_se).bind fun _ => reads_skip reads_se)

/-- Where the parser ends, the re-parse ends just if it leaves the same bits. -/
theorem endsTogether_bits {unit : List Byte} {left : List Bool}
    (hlog2 : info.log2MaxFrameNum≤32)
    (hintra : isPOrB (sliceHeaderAt unit.tail (nalType unit) (nalRefIdc unit) info.log2MaxFrameNum
      info.pps.deblockCtrl).1.sliceType=false)
    (hat : BitReader.At (removeEpb unit.tail) left (sliceHeaderAt unit.tail (nalType unit)
      (nalRefIdc unit) info.log2MaxFrameNum info.pps.deblockCtrl).2) :
    ∃ bits rest, (skipIds (nalType unit) info.log2MaxFrameNum : Grammar Unit)
        (bitsOf (removeEpb unit.tail))=some ((),bits) ∧
      (parserRest (nalType unit) (nalRefIdc unit) (8*(removeEpb unit.tail).length+1)
        info.pps.deblockCtrl : Grammar Unit) bits=some ((),rest) ∧
      (EndsTogether unit info ↔
        (reparseRest (nalType unit) info.pps.deblockCtrl : Grammar Unit) bits =
          some ((),rest)) := by
  have hids := reads_skipIds (d := removeEpb unit.tail) (nalType unit) hlog2
  have hparser := reads_parserRest (d := removeEpb unit.tail) (nalType unit) (nalRefIdc unit)
    (8*(removeEpb unit.tail).length+1) info.pps.deblockCtrl
  have hreparser := reads_reparseRest (d := removeEpb unit.tail) (nalType unit)
    info.pps.deblockCtrl
  have hstart := at_startReader unit.tail
  have hend : (sliceHeaderAt unit.tail (nalType unit) (nalRefIdc unit) info.log2MaxFrameNum
      info.pps.deblockCtrl).2=((parserRest (nalType unit) (nalRefIdc unit)
        (8*(removeEpb unit.tail).length+1) info.pps.deblockCtrl : StateM BitReader Unit)
        (behindIds unit.tail (nalType unit) info.log2MaxFrameNum)).2 :=
    sliceHeaderAt_of_intra hintra
  have hskipped : reparseReader info unit=((reparseRest (nalType unit) info.pps.deblockCtrl :
      StateM BitReader Unit) (behindIds unit.tail (nalType unit) info.log2MaxFrameNum)).2 := by
    simp only [reparseReader,reparseHeader,reparseRest,behindIds,skipIds,host_bind,host_skip,
      readIdrPicId,onlyIf,beq_iff_eq]
    split
    · rfl
    · rfl
  rw [EndsTogether,hskipped,hend]
  rw [hend] at hat
  obtain ⟨rest,hboth,hrest⟩ := (hids.bind fun _ => hparser).of_not_failed hstart
    ((hostReader _).disjoint hat)
  obtain ⟨_,bits,hskip,hparse⟩ := bind_eq_some.mp hboth
  have hbehind := (hids.found hstart hskip).2
  refine ⟨bits,rest,hskip,hparse,fun hsame => ?_,fun hleft => ?_⟩
  · obtain ⟨rest',hre,hat'⟩ := hreparser.of_not_failed hbehind
      ((hostReader _).disjoint (hsame ▸ hat))
    have hsame' : rest'=rest := by
      rw [← BitReader.At.left hat',← BitReader.At.left hrest]
      exact congrArg BitReader.rest hsame
    rw [← hsame']
    exact hre
  · exact BitReader.At.unique (hreparser.found hbehind hleft).2 (hparser.found hbehind hparse).2

end Readers

theorem parserRest_plain {ntype nri fuel : ℕ} {bits rest : List Bool} :
    (parserRest ntype nri fuel false : Grammar Unit) bits=some ((),rest) ↔
      ∃ mid c, (skipRefMarking (ntype == 5) nri fuel : Grammar Unit) bits=some ((),mid) ∧
        (ue : Grammar ℕ) mid=some (c,rest) := by
  constructor
  · intro h
    obtain ⟨_,mid,hmarking,h⟩ := bind_eq_some.mp h
    obtain ⟨_,mid',hse,hlast⟩ := bind_eq_some.mp h
    obtain ⟨c,hc⟩ := skip_se_eq_some.mp hse
    obtain ⟨_,hpure⟩ := skip_eq_some.mp hlast
    exact ⟨mid,c,hmarking,(pure_eq_some.mp hpure).2 ▸ hc⟩
  · rintro ⟨mid,c,hmarking,hc⟩
    exact bind_eq_some.mpr ⟨(),mid,hmarking,
      bind_eq_some.mpr ⟨(),rest,skip_se_eq_some.mpr ⟨c,hc⟩,rfl⟩⟩

theorem reparseRest_plain {ntype : ℕ} {bits rest : List Bool} :
    (reparseRest ntype false : Grammar Unit) bits=some ((),rest) ↔
      ∃ mid c, (onlyIf (ntype=5) skipIdrMarking : Grammar Unit) bits=some ((),mid) ∧
        (ue : Grammar ℕ) mid=some (c,rest) := by
  constructor
  · intro h
    obtain ⟨_,mid,hmarking,h⟩ := bind_eq_some.mp h
    obtain ⟨_,mid',hse,hlast⟩ := bind_eq_some.mp h
    obtain ⟨c,hc⟩ := skip_se_eq_some.mp hse
    exact ⟨mid,c,hmarking,(pure_eq_some.mp hlast).2 ▸ hc⟩
  · rintro ⟨mid,c,hmarking,hc⟩
    exact bind_eq_some.mpr ⟨(),mid,hmarking,
      bind_eq_some.mpr ⟨(),rest,skip_se_eq_some.mpr ⟨c,hc⟩,rfl⟩⟩

/-- Without filter control only an IDR picture with the code 011 resynchronises. -/
theorem reparseRest_plain_iff {unit : List Byte} {fuel : ℕ} {bits rest : List Bool}
    (hmarking : ¬RegularMarking unit)
    (hparse : (parserRest (nalType unit) (nalRefIdc unit) fuel false : Grammar Unit) bits =
      some ((),rest)) :
    (reparseRest (nalType unit) false : Grammar Unit) bits=some ((),rest) ↔
      nalType unit=5 ∧ [false,true,true] <+: bits := by
  obtain ⟨mid,c,hmid,hc⟩ := parserRest_plain.mp hparse
  rw [reparseRest_plain]
  rw [skipRefMarking,onlyIf] at hmid
  by_cases hidr : nalType unit=5
  · have hnri : nalRefIdc unit=0 := by
      by_contra hne
      exact hmarking ⟨fun _ => hne,fun _ => hidr⟩
    rw [if_neg (not_not.mpr hnri)] at hmid
    obtain ⟨-,rfl⟩ := pure_eq_some.mp hmid
    rw [onlyIf,if_pos hidr,← meets_idr hc]
    constructor
    · rintro ⟨mid,c',hskip,hc'⟩
      obtain ⟨b₁,b₂,rfl⟩ := skipIdrMarking_eq_some.mp hskip
      exact ⟨hidr,b₁,b₂,mid,c',rfl,hc'⟩
    · rintro ⟨-,b₁,b₂,mid,c',rfl,hc'⟩
      exact ⟨mid,c',skipIdrMarking_eq_some.mpr ⟨b₁,b₂,rfl⟩,hc'⟩
  · have hnri : nalRefIdc unit≠0 := fun hzero =>
      hmarking ⟨fun h => absurd h hidr,fun h => absurd hzero h⟩
    have hbeq : (nalType unit == 5)=false := beq_eq_false_iff_ne.mpr hidr
    rw [if_pos hnri,hbeq,if_neg Bool.false_ne_true,skipAdaptiveMarking] at hmid
    obtain ⟨_,tail,hflag,hops⟩ := bind_eq_some.mp hmid
    obtain ⟨b,rfl,rfl⟩ := bit_eq_some.mp hflag
    refine iff_of_false ?_ fun h => hidr h.1
    rintro ⟨mid',c',hskip,hc'⟩
    rw [onlyIf,if_neg hidr] at hskip
    obtain ⟨-,rfl⟩ := pure_eq_some.mp hskip
    refine meets_other (k := c) rfl hc' (fun _ => ?_) fun hb => ?_
    · exact lt_of_lt_of_le (length_lt_of_ue hc) (length_le_of_onlyIf length_le_of_skipOperations hops)
    · rw [hb,Bool.toNat_false,onlyIf,if_neg (not_not.mpr rfl)] at hops
      rw [(pure_eq_some.mp hops).2]
      exact hc

/-- With other marking a re-parse ends where the parser does exactly if the bits say so. -/
theorem resynchronises_iff {unit : List Byte} {left : List Bool}
    (hmarking : ¬RegularMarking unit) (hlog2 : info.log2MaxFrameNum≤32)
    (hintra : isPOrB (sliceHeaderAt unit.tail (nalType unit) (nalRefIdc unit) info.log2MaxFrameNum
      info.pps.deblockCtrl).1.sliceType=false)
    (hat : BitReader.At (removeEpb unit.tail) left (sliceHeaderAt unit.tail (nalType unit)
      (nalRefIdc unit) info.log2MaxFrameNum info.pps.deblockCtrl).2) :
    EndsTogether unit info ↔ Resynchronises unit info := by
  obtain ⟨bits,rest,hskip,hparse,hiff⟩ := endsTogether_bits hlog2 hintra hat
  have honly : ∀ P : List Bool → Prop,
      (∃ bits, (skipIds (nalType unit) info.log2MaxFrameNum : Grammar Unit)
        (bitsOf (removeEpb unit.tail))=some ((),bits) ∧ P bits) ↔ P bits := by
    intro P
    constructor
    · rintro ⟨bits',hskip',hP⟩
      rw [hskip] at hskip'
      obtain ⟨-,rfl⟩ := Prod.mk.inj (Option.some.inj hskip')
      exact hP
    · exact fun hP => ⟨bits,hskip,hP⟩
  rw [hiff,Resynchronises,honly]
  cases hdeblock : info.pps.deblockCtrl with
  | false =>
    rw [hdeblock] at hparse
    rw [if_neg Bool.false_ne_true]
    exact reparseRest_plain_iff hmarking hparse
  | true =>
    rw [hdeblock] at hparse
    rw [if_pos rfl,hparse]
    constructor
    · exact fun h => ⟨rest,rfl,h⟩
    · rintro ⟨rest',hsame,h⟩
      rw [hsame]
      exact h

/-- The re-parses agree with the chain exactly if they find the accepted slice and end at its
first macroblock. -/
theorem reparsesAgree_iff {data unit : List Byte}
    (hchain : chainValid (parseAnnexBChain data)=true)
    (haccepted : acceptedSlice data=some unit)
    (hslice : (parseAnnexBChain data).slice=parseSliceHeaderRbsp unit.tail (nalType unit)
      (nalRefIdc unit) (parseAnnexBChain data).log2MaxFrameNum (parseAnnexBChain data).pps)
    (hvalid : (parseAnnexBChain data).slice.valid=true) :
    ReparsesAgree data ↔
      vclUnit data=some unit ∧ EndsTogether unit (parseAnnexBChain data) := by
  constructor
  · rintro ⟨⟨unit',haccepted',hstart,-⟩,-,-⟩
    rw [haccepted,Option.some.injEq] at haccepted'
    subst haccepted'
    rw [walkISliceResidualsStart,reparseAfter,if_pos hchain,Option.map_eq_some_iff] at hstart
    obtain ⟨found,hfound,hpair⟩ := hstart
    obtain ⟨rfl,hreader⟩ := Prod.mk.inj hpair
    exact ⟨hfound,hreader⟩
  · rintro ⟨hfirst,hreader⟩
    have hsame : ∀ check : NalChainInfo → Bool, check (parseAnnexBChain data)=true →
        SameStart data (reparseAfter check data) := by
      intro check hcheck
      refine ⟨unit,haccepted,?_,?_⟩
      · rw [reparseAfter,if_pos hcheck,hfirst,Option.map_some,hreader]
        rfl
      · rw [hslice] at hvalid ⊢
        exact (parseSliceHeaderRbsp_of_valid hvalid).2.1.symm
    refine ⟨hsame _ hchain,hsame _ hchain,fun hhas => hsame _ ?_⟩
    have hrange : (parseAnnexBChain data).slice.firstMbType≤25 := by
      rw [hslice] at hhas ⊢
      exact firstMbType_le_of_has hhas
    rw [hchain,hhas,decide_eq_true hrange]
    rfl

/-- Parameter sets of a stream in units of 16 by 16 samples, without filter control. -/
def plainSets : List Byte :=
  [0x00,0x00,0x00,0x01,0x67,0x42,0x00,0x1E,0xDA,0x79,
   0x00,0x00,0x00,0x01,0x68,0xCE,0x38,0x80,0x00,0x00,0x00,0x01]

/-- An IDR unit of an I slice, which is used for reference. -/
def idrUnit : List Byte := [0x65,0x88,0x84,0xC0,0x80]

/-- Another unit of an I slice that is used for reference. -/
def referenceUnit : List Byte := [0x61,0x88,0x83,0x80,0x80]

end Misterplex.Header
