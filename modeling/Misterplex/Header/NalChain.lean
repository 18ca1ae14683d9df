import Misterplex.Header.SliceHost

/-!
# The host NAL chain

The host splits an Annex-B stream into units and keeps the parameter sets and
the first slice header it accepts. It reads the sequence parameter set twice:
once with its parser, and once with a shorter walk of its own that takes the
logarithm of the largest frame number and the order count type for the slices.
-/

namespace Misterplex.Header

open BitString BitGrammar Cavlc Emulation

/-- Length of the start code at the front of some bytes, zero if there is none. -/
def startCode : List Byte → ℕ
  | a::b::c::d::_ =>
    if a = 0#8 ∧ b=0#8 ∧ c=0#8 ∧ d = 1#8 then 4
    else if a = 0#8 ∧ b=0#8 ∧ c = 1#8 then 3
    else 0
  | _ => 0

/-- The bytes before the next start code, and the bytes from it on. A start code
needs four bytes; the last bytes belong to the unit. -/
def splitUnit : List Byte → List Byte × List Byte
  | [] => ([],[])
  | a::bytes =>
    if startCode (a::bytes) ≠ 0 then ([],a::bytes)
    else (a::(splitUnit bytes).1,(splitUnit bytes).2)

/-- The loop over the units; every turn drops at least one byte. -/
def unitsFrom : ℕ → List Byte → List (List Byte)
  | 0,_ => []
  | fuel+1,bytes =>
    if bytes.length < 4 then []
    else if startCode bytes = 0 then unitsFrom fuel bytes.tail
    else
      let split := splitUnit (bytes.drop (startCode bytes))
      if split.1 = [] then unitsFrom fuel split.2
      else split.1::unitsFrom fuel split.2

/-- The units of a stream that are not empty. -/
def annexBUnits (data : List Byte) : List (List Byte) := unitsFrom data.length data

/-- The type in a unit's first byte. -/
def nalType (unit : List Byte) : ℕ := (unit.headD 0#8).toNat%32

/-- Reference level of a unit. -/
def nalRefIdc (unit : List Byte) : ℕ := (unit.headD 0#8).toNat/32%4

/-- What the chain knows. -/
structure NalChainInfo where
  /-- Last sequence parameter set. -/
  sps : SpsInfo := {}
  /-- Last picture parameter set. -/
  pps : PpsInfo := {}
  slice : SliceHeader := {}
  /-- Logarithm of the largest frame number. -/
  log2MaxFrameNum : ℕ := 0
  pocType : ℕ := 0
  deriving DecidableEq, Repr

/-- The chain's own walk over a sequence parameter set. -/
def readChainSps {m : Type → Type} [Monad m] [HeaderReader m] : m (ℕ × ℕ) := do
  skip (u 8)
  skip (u 8)
  skip (u 8)
  skip ue
  let log2 ← ue
  let poc ← ue
  pure (uint8 (log2+4),uint8 poc)

variable (payload : List Byte)

/-- Logarithm and order count type that the chain takes from a payload. -/
def chainSps : ℕ × ℕ :=
  ((readChainSps : StateM BitReader (ℕ × ℕ)) (startReader payload)).1

/-- Slices are parsed once both parameter sets are there. -/
def takesSlice (info : NalChainInfo) (unit : List Byte) : Bool :=
  (nalType unit == 1 || nalType unit == 5) && info.sps.valid && info.pps.valid &&
    info.log2MaxFrameNum != 0

/-- What one unit does to the chain. -/
def chainStep (info : NalChainInfo) (unit : List Byte) : NalChainInfo :=
  if nalType unit = 7 then
    { info with
      sps := parseSpsRbsp unit.tail
      log2MaxFrameNum := (chainSps unit.tail).1
      pocType := (chainSps unit.tail).2 }
  else if nalType unit = 8 then { info with pps := parsePpsRbsp unit.tail }
  else if takesSlice info unit then
    { info with
      slice := parseSliceHeaderRbsp unit.tail (nalType unit) (nalRefIdc unit) info.log2MaxFrameNum
        info.pps }
  else info

/-- The chain stops behind the first slice header it accepts. -/
def chainStops (info : NalChainInfo) (unit : List Byte) : Bool :=
  takesSlice info unit && (chainStep info unit).slice.valid

/-- The chain over some units. -/
def chainFrom (info : NalChainInfo) : List (List Byte) → NalChainInfo
  | [] => info
  | unit::units =>
    if chainStops info unit then chainStep info unit else chainFrom (chainStep info unit) units

/-- Parse the chain of a stream. -/
def parseAnnexBChain (data : List Byte) : NalChainInfo :=
  if data.length < 5 then {} else chainFrom {} (annexBUnits data)

/-- A state of the chain with the payload of its last sequence parameter set. -/
structure ChainVisit where
  info : NalChainInfo
  /-- Payload of the last sequence parameter set. -/
  spsPayload : List Byte

/-- Payload of the last sequence parameter set behind one more unit. -/
def lastSps (spsPayload unit : List Byte) : List Byte :=
  if nalType unit = 7 then unit.tail else spsPayload

/-- The states of the chain over some units. -/
def visitsFrom (v : ChainVisit) : List (List Byte) → List ChainVisit
  | [] => [v]
  | unit::units =>
    let next : ChainVisit := ⟨chainStep v.info unit,lastSps v.spsPayload unit⟩
    if chainStops v.info unit then [v,next] else v::visitsFrom next units

/-- The states of the chain over a stream. -/
def chainVisits (data : List Byte) : List ChainVisit :=
  if data.length < 5 then [⟨{},[]⟩] else visitsFrom ⟨{},[]⟩ (annexBUnits data)

/-- The syntax that is coded in a payload. -/
def spsSyntaxOf : SpsSyntax :=
  ((readSps : StateM BitReader SpsSyntax) (startReader payload)).1

/-- The chain goes on with what is coded in its last sequence parameter set. -/
def ChainVisit.UsesCoded (v : ChainVisit) : Prop :=
  v.info.log2MaxFrameNum=(spsSyntaxOf v.spsPayload).log2MaxFrameNumMinus4+4 ∧
    v.info.pocType=(spsSyntaxOf v.spsPayload).poc

/-- The reader behind the identifier of the set. -/
def behindSpsId : BitReader :=
  ((do
    skip (u 8)
    skip (u 8)
    skip (u 8)
    skip ue : StateM BitReader Unit) (startReader payload)).2

/-- The chain's walk takes the right codes: without the High syntax both are at their
place and fit in a byte, with it the codes at their place happen to be the same. -/
def ChainReadable : Prop :=
  let s := spsSyntaxOf payload
  if s.profileIdc ∈ highProfiles then
    s.chroma = s.log2MaxFrameNumMinus4 ∧
      (hostUe (hostUe (behindSpsId payload)).2).1%256 = s.poc
  else s.log2MaxFrameNumMinus4 < 252 ∧ s.poc<256

instance (v : ChainVisit) : Decidable v.UsesCoded := by
  rw [ChainVisit.UsesCoded]
  infer_instance

theorem chainSps_eq : chainSps payload =
      (uint8 ((hostUe (behindSpsId payload)).1+4),
        uint8 (hostUe (hostUe (behindSpsId payload)).2).1) := by
  simp only [chainSps,readChainSps,behindSpsId,host_bind,host_pure,host_skip,host_ue]

/-- The chroma syntax of a payload and the reader behind it. -/
def chromaOf : (ℕ × Bool) × BitReader :=
  (readChroma ((startReader payload).u 8).1 : StateM BitReader (ℕ × Bool)) (behindSpsId payload)

theorem readPicture_keeps (sps : SpsSyntax) (br : BitReader) :
    ((readPicture sps : StateM BitReader SpsSyntax) br).1.profileIdc=sps.profileIdc ∧
      ((readPicture sps : StateM BitReader SpsSyntax) br).1.chroma=sps.chroma ∧
      ((readPicture sps : StateM BitReader SpsSyntax) br).1.log2MaxFrameNumMinus4 =
        sps.log2MaxFrameNumMinus4 ∧
      ((readPicture sps : StateM BitReader SpsSyntax) br).1.poc=sps.poc := by
  simp only [readPicture,host_bind,host_pure,and_self]

theorem spsSyntaxOf_eq : (spsSyntaxOf payload).profileIdc=((startReader payload).u 8).1 ∧
      (spsSyntaxOf payload).chroma=(chromaOf payload).1.1 ∧
      (spsSyntaxOf payload).log2MaxFrameNumMinus4=(hostUe (chromaOf payload).2).1 ∧
      (spsSyntaxOf payload).poc=(hostUe (hostUe (chromaOf payload).2).2).1 := by
  simp only [spsSyntaxOf,chromaOf,readSps,behindSpsId,host_bind,host_skip,host_ue,host_u,
    readPicture_keeps,and_self]

theorem chroma_le_of_valid {payload : List Byte} (h : (parseSpsRbsp payload).valid=true) :
    (spsSyntaxOf payload).chroma≤3 := by
  obtain ⟨s,-,⟨rest,hread⟩,-⟩ := exists_accepted h
  have hval : spsSyntaxOf payload=s := (reads_readSps.found (at_startReader payload) hread).1
  rw [hval]
  exact chroma_le_of_readSps hread

theorem chainSps_iff_of_plain {payload : List Byte}
    (hplain : (spsSyntaxOf payload).profileIdc ∉ highProfiles) :
    chainSps payload=((spsSyntaxOf payload).log2MaxFrameNumMinus4+4,
        (spsSyntaxOf payload).poc) ↔
      (spsSyntaxOf payload).log2MaxFrameNumMinus4<252 ∧ (spsSyntaxOf payload).poc<256 := by
  obtain ⟨hprofile,-,hlog2,hpoc⟩ := spsSyntaxOf_eq payload
  have hchroma : chromaOf payload=((1,false),behindSpsId payload) := by
    rw [chromaOf,readChroma,← hprofile,if_neg hplain,host_pure]
  rw [hchroma] at hlog2 hpoc
  rw [chainSps_eq,Prod.mk.injEq,← hlog2,← hpoc,uint8,uint8]
  omega

/-- With the High syntax the chain reads the chroma format in place of the logarithm. -/
theorem chainSps_iff_of_high {payload : List Byte}
    (hhigh : (spsSyntaxOf payload).profileIdc∈highProfiles)
    (hvalid : (parseSpsRbsp payload).valid=true) :
    chainSps payload=((spsSyntaxOf payload).log2MaxFrameNumMinus4+4,
        (spsSyntaxOf payload).poc) ↔
      (spsSyntaxOf payload).chroma=(spsSyntaxOf payload).log2MaxFrameNumMinus4 ∧
        (hostUe (hostUe (behindSpsId payload)).2).1%256=(spsSyntaxOf payload).poc := by
  obtain ⟨hprofile,hformat,-,-⟩ := spsSyntaxOf_eq payload
  have hle := chroma_le_of_valid hvalid
  have hchroma : (chromaOf payload).1.1=(hostUe (behindSpsId payload)).1 := by
    rw [chromaOf,readChroma,← hprofile,if_pos hhigh,host_bind,host_ue]
    split
    · rw [host_bind,host_pure]
    · rw [host_bind,host_pure]
  rw [hchroma] at hformat
  rw [chainSps_eq,Prod.mk.injEq,← hformat,uint8,uint8]
  omega

/-- The chain reads the right codes of an accepted set exactly when they are readable. -/
theorem chainSps_iff {payload : List Byte} (hvalid : (parseSpsRbsp payload).valid=true) :
    chainSps payload=((spsSyntaxOf payload).log2MaxFrameNumMinus4+4,
        (spsSyntaxOf payload).poc) ↔ ChainReadable payload := by
  rw [ChainReadable]
  by_cases hhigh : (spsSyntaxOf payload).profileIdc∈highProfiles
  · rw [if_pos hhigh]
    exact chainSps_iff_of_high hhigh hvalid
  · rw [if_neg hhigh]
    exact chainSps_iff_of_plain hhigh

theorem chainStep_of_ne {unit : List Byte} (h : nalType unit≠7) (info : NalChainInfo) :
    (chainStep info unit).sps=info.sps ∧
      (chainStep info unit).log2MaxFrameNum=info.log2MaxFrameNum ∧
      (chainStep info unit).pocType=info.pocType := by
  rw [chainStep,if_neg h]
  split
  · exact ⟨rfl,rfl,rfl⟩
  · split
    · exact ⟨rfl,rfl,rfl⟩
    · exact ⟨rfl,rfl,rfl⟩

/-- The chain's set is the last one, read by the parser and by the chain's own walk. -/
def ChainVisit.Known (v : ChainVisit) : Prop :=
  v.info.sps.valid=true →
    v.info.sps=parseSpsRbsp v.spsPayload ∧
      (v.info.log2MaxFrameNum,v.info.pocType)=chainSps v.spsPayload

/-- One unit keeps what is known of the parameter sets. -/
theorem ChainVisit.Known.step {v : ChainVisit} (h : v.Known) (unit : List Byte) :
    ChainVisit.Known ⟨chainStep v.info unit,lastSps v.spsPayload unit⟩ := by
  rw [ChainVisit.Known] at h ⊢
  dsimp only
  by_cases hsps : nalType unit=7
  · rw [chainStep,if_pos hsps,lastSps,if_pos hsps]
    intro _
    rw [Prod.mk.eta]
    constructor
    · rfl
    · rfl
  · obtain ⟨hset,hlog2,hpoc⟩ := chainStep_of_ne hsps v.info
    rw [hset,hlog2,hpoc,lastSps,if_neg hsps]
    exact h

theorem known_of_mem_visitsFrom {units : List (List Byte)} {v w : ChainVisit} (h : v.Known)
    (hw : w∈visitsFrom v units) : w.Known := by
  induction units generalizing v with
  | nil =>
    rw [visitsFrom,List.mem_singleton] at hw
    rw [hw]
    exact h
  | cons unit units ih =>
    rw [visitsFrom] at hw
    split at hw
    · rw [List.mem_pair] at hw
      cases hw with
      | inl hv =>
        rw [hv]
        exact h
      | inr hnext =>
        rw [hnext]
        exact h.step unit
    · rw [List.mem_cons] at hw
      cases hw with
      | inl hv =>
        rw [hv]
        exact h
      | inr hrest => exact ih (h.step unit) hrest

theorem known_of_mem_chainVisits {data : List Byte} {v : ChainVisit} (hv : v∈chainVisits data) :
    v.Known := by
  have hstart : ChainVisit.Known ⟨{},[]⟩ := fun h => Bool.noConfusion h
  rw [chainVisits] at hv
  split at hv
  · rw [List.mem_singleton] at hv
    rw [hv]
    exact hstart
  · exact known_of_mem_visitsFrom hstart hv

/-- Over a stream the chain uses the coded logarithm and order count type with every accepted
set exactly when each of these sets is readable for its walk. -/
theorem chain_uses_coded_iff (data : List Byte) :
    (∀ v∈chainVisits data, v.info.sps.valid=true → v.UsesCoded) ↔
      ∀ v∈chainVisits data, v.info.sps.valid=true → ChainReadable v.spsPayload := by
  refine forall_congr' fun v => forall_congr' fun hv => forall_congr' fun hvalid => ?_
  obtain ⟨hsps,hpair⟩ := known_of_mem_chainVisits hv hvalid
  rw [hsps] at hvalid
  rw [← chainSps_iff hvalid,← hpair,Prod.mk.injEq,ChainVisit.UsesCoded]

/-- A stream with a High profile: the set has chroma format 1, logarithm 4 and order count
type 2. -/
def highStream : List Byte :=
  [0x00,0x00,0x00,0x01,0x67,0x64,0x00,0x1E,0xAC,0xB4,0xF2,
   0x00,0x00,0x00,0x01,0x68,0xCE,0x38,0x80,
   0x00,0x00,0x00,0x01,0x65,0x88,0x84,0xC0,0x80]

/-- The chain parses the slice of this stream with logarithm 5. -/
theorem not_chain_uses_coded :
    ¬∀ data, ∀ v∈chainVisits data, v.info.sps.valid=true → v.UsesCoded := by
  intro h
  have hbad : ∃ v∈chainVisits highStream,
      v.info.slice.valid=true ∧ v.info.sps.valid=true ∧ ¬v.UsesCoded := by
    decide +kernel
  obtain ⟨v,hv,-,hvalid,huses⟩ := hbad
  exact huses (h highStream v hv hvalid)

end Misterplex.Header
