import Misterplex.Header.SpsHost

/-!
# The host picture parameter set and slice header

Both headers as the host parses them, with the narrowing of every field that it
keeps. The loops of list modification and reference marking end with their
terminating code or with an error; every turn reads at least one bit, so the
number of bits of the payload is fuel enough.
-/

namespace Misterplex.Header

open BitString BitGrammar Cavlc Emulation

/-- Narrowing to eight bits. -/
def uint8 (n : ℕ) : ℕ := n%256

/-- Narrowing to eight bits with a sign. -/
def int8 (x : ℤ) : ℤ := Int.bmod x 256

/-- What the host reports of a picture parameter set. -/
structure PpsInfo where
  valid : Bool := false
  ppsId : ℕ := 0
  /-- Identifier of the sequence parameter set. -/
  spsId : ℕ := 0
  entropyCabac : Bool := false
  /-- Number of reference pictures less one. -/
  numRefIdxL0Default : ℕ := 0
  picInitQp : ℤ := 0
  /-- Slices carry deblocking control. -/
  deblockCtrl : Bool := false
  deriving DecidableEq, Repr

/-- What the host reports of a slice header. -/
structure SliceHeader where
  valid : Bool := false
  /-- First macroblock and type of the slice. -/
  (firstMbInSlice sliceType : ℕ := 0)
  /-- Identifier of the picture parameter set. -/
  ppsId : ℕ := 0
  /-- Numbers of the picture. -/
  (frameNum idrPicId : ℕ := 0)
  isIdr : Bool := false
  /-- The slice is an I slice. -/
  isISlice : Bool := false
  /-- Coded change of the quantiser, and the quantiser. -/
  (sliceQpDelta sliceQp : ℤ := 0)
  disableDeblockingIdc : ℕ := 0
  firstMbType : ℕ := 0
  /-- The type of the first macroblock was read and is one of an I slice. -/
  hasFirstMbType : Bool := false
  deriving DecidableEq, Repr

/-- The types of I slices. -/
def isISliceType (t : ℕ) : Bool := t == 2 || t == 7

section Syntax

variable {m : Type → Type} [Monad m] [HeaderReader m]

/-- The syntax of a picture parameter set behind the slice groups. -/
def readPpsTail (out : PpsInfo) : m PpsInfo := do
  let refs ← ue
  skip ue
  skip (u 1)
  skip (u 2)
  let qp ← se
  skip se
  skip se
  let deblock ← u 1
  skip (u 1)
  skip (u 1)
  pure { out with
    numRefIdxL0Default := uint8 refs
    picInitQp := int8 (26+qp)
    deblockCtrl := decide (deblock≠0) }

/-- The syntax of a picture parameter set, and whether it has a single slice group. -/
def readPps : m (PpsInfo × Bool) := do
  let ppsId ← ue
  let spsId ← ue
  let cabac ← u 1
  skip (u 1)
  let groups ← ue
  let out : PpsInfo :=
    { ppsId := uint8 ppsId, spsId := uint8 spsId, entropyCabac := decide (cabac≠0) }
  if 0 < groups then pure (out,false)
  else do
    let out ← readPpsTail out
    pure (out,true)

/-- The part of a slice header that depends on it alone. -/
structure SliceSyntax where
  /-- First macroblock and type of the slice. -/
  (firstMbInSlice sliceType : ℕ)
  /-- Identifier of the picture parameter set. -/
  ppsId : ℕ
  /-- Numbers of the picture. -/
  (frameNum idrPicId : ℕ)
  /-- Coded change of the quantiser. -/
  sliceQpDelta : ℤ
  disableDeblockingIdc : ℕ
  deriving DecidableEq, Repr

/-- Slices that are predicted from other pictures. -/
def isPOrB (sliceType : ℕ) : Bool := !isISliceType sliceType && sliceType%5 != 4

/-- The loop over the modifications of a reference list. -/
def skipModifications : ℕ → m Unit
  | 0 => pure ()
  | fuel+1 => do
    let idc ← ue
    onlyIf (idc=0 ∨ idc=1 ∨ idc=2) (skip ue)
    onlyIf (idc≠3) (whileOk (skipModifications fuel))

/-- The loop over the memory management operations. -/
def skipOperations : ℕ → m Unit
  | 0 => pure ()
  | fuel+1 => do
    let mmco ← ue
    onlyIf (mmco=1 ∨ mmco=3) (skip ue)
    onlyIf (mmco=2) (skip ue)
    onlyIf (mmco=3 ∨ mmco=6) (skip ue)
    onlyIf (mmco=4) (skip ue)
    onlyIf (mmco≠0) (whileOk (skipOperations fuel))

/-- The override of the number of reference pictures. -/
def skipRefOverride : m Unit := do
  let override ← u 1
  onlyIf (override≠0) (skip ue)

/-- The modification of the reference list. -/
def skipListModification (fuel : ℕ) : m Unit := do
  let flag ← u 1
  onlyIf (flag≠0) (skipModifications fuel)

/-- The flags of an IDR picture used for reference. -/
def skipIdrMarking : m Unit := do
  skip (u 1)
  skip (u 1)

/-- The marking of references by another picture. -/
def skipAdaptiveMarking (fuel : ℕ) : m Unit := do
  let adaptive ← u 1
  onlyIf (adaptive≠0) (skipOperations fuel)

/-- The marking of references. -/
def skipRefMarking (isIdr : Bool) (nalRefIdc fuel : ℕ) : m Unit :=
  onlyIf (nalRefIdc≠0) (if isIdr then skipIdrMarking else skipAdaptiveMarking fuel)

/-- The identifier of an IDR picture. -/
def readIdrPicId (isIdr : Bool) : m ℕ := if isIdr then ue else pure 0

/-- The syntax of the deblocking filter. -/
def readDeblocking (deblockCtrl : Bool) : m ℕ :=
  if deblockCtrl then do
    let idc ← ue
    onlyIf (uint8 idc≠1) (do
      skip se
      skip se)
    pure (uint8 idc)
  else pure 0

/-- The syntax of a slice header. -/
def readSliceHeader (nalType nalRefIdc log2MaxFrameNum : ℕ) (deblockCtrl : Bool) (fuel : ℕ) :
    m SliceSyntax := do
  let firstMbInSlice ← ue
  let sliceType ← ue
  let ppsId ← ue
  let frameNum ← u log2MaxFrameNum
  let idrPicId ← readIdrPicId (nalType == 5)
  onlyIf (isPOrB (uint8 sliceType)) skipRefOverride
  onlyIf (isPOrB (uint8 sliceType)) (skipListModification fuel)
  skipRefMarking (nalType == 5) nalRefIdc fuel
  let delta ← se
  let idc ← readDeblocking deblockCtrl
  pure
    { firstMbInSlice, sliceType := uint8 sliceType, ppsId := uint8 ppsId, frameNum, idrPicId,
      sliceQpDelta := int8 delta, disableDeblockingIdc := idc }

end Syntax

section Reading

variable {d : List Byte}

theorem reads_skipModifications (fuel : ℕ) :
    Reads (hostReader d) (skipModifications fuel) (skipModifications fuel) := by
  induction fuel with
  | zero => exact Reads.pure ()
  | succ fuel ih =>
    refine reads_ue.bind fun idc => (reads_onlyIf (reads_skip reads_ue)).bind fun _ => ?_
    exact reads_onlyIf (reads_whileOk ih)

theorem reads_skipOperations (fuel : ℕ) :
    Reads (hostReader d) (skipOperations fuel) (skipOperations fuel) := by
  induction fuel with
  | zero => exact Reads.pure ()
  | succ fuel ih =>
    refine reads_ue.bind fun mmco => (reads_onlyIf (reads_skip reads_ue)).bind fun _ => ?_
    refine (reads_onlyIf (reads_skip reads_ue)).bind fun _ => ?_
    refine (reads_onlyIf (reads_skip reads_ue)).bind fun _ => ?_
    refine (reads_onlyIf (reads_skip reads_ue)).bind fun _ => ?_
    exact reads_onlyIf (reads_whileOk ih)

/-- The host skips the marking syntax. -/
theorem reads_skipRefMarking (isIdr : Bool) (nalRefIdc fuel : ℕ) :
    Reads (hostReader d) (skipRefMarking isIdr nalRefIdc fuel)
      (skipRefMarking isIdr nalRefIdc fuel) := by
  refine reads_onlyIf (Reads.ite ?_ ?_)
  · exact (reads_skip (reads_u (by omega))).bind fun _ => reads_skip (reads_u (by omega))
  · exact (reads_u (by omega)).bind fun adaptive => reads_onlyIf (reads_skipOperations fuel)

/-- The host reads the filter syntax. -/
theorem reads_readDeblocking (deblockCtrl : Bool) :
    Reads (hostReader d) (readDeblocking deblockCtrl) (readDeblocking deblockCtrl) := by
  refine Reads.ite (reads_ue.bind fun idc => ?_) (Reads.pure 0)
  refine Reads.bind (reads_onlyIf ?_) fun _ => Reads.pure _
  exact (reads_skip reads_se).bind fun _ => reads_skip reads_se

/-- The host reads the slice header. -/
theorem reads_readSliceHeader (nalType nalRefIdc log2MaxFrameNum : ℕ) (deblockCtrl : Bool)
    (fuel : ℕ) (hlog2 : log2MaxFrameNum≤32) :
    Reads (hostReader d) (readSliceHeader nalType nalRefIdc log2MaxFrameNum deblockCtrl fuel)
      (readSliceHeader nalType nalRefIdc log2MaxFrameNum deblockCtrl fuel) := by
  refine reads_ue.bind fun firstMb => reads_ue.bind fun sliceType => reads_ue.bind fun ppsId => ?_
  refine (reads_u hlog2).bind fun frameNum => ?_
  refine (Reads.ite reads_ue (Reads.pure 0)).bind fun idrPicId => ?_
  refine Reads.bind (reads_onlyIf ?_) fun _ => Reads.bind (reads_onlyIf ?_) fun _ => ?_
  · exact (reads_u (by omega)).bind fun override => reads_onlyIf (reads_skip reads_ue)
  · exact (reads_u (by omega)).bind fun flag => reads_onlyIf (reads_skipModifications fuel)
  · refine (reads_skipRefMarking _ _ _).bind fun _ => reads_se.bind fun delta => ?_
    exact (reads_readDeblocking deblockCtrl).bind fun idc => Reads.pure _

end Reading

variable (payload : List Byte)

/-- Parse a picture parameter set. -/
def parsePpsRbsp : PpsInfo :=
  if payload.length < 2 then {}
  else
    let r := (readPps : StateM BitReader (PpsInfo × Bool)) (startReader payload)
    { r.1.1 with valid := r.1.2 && r.2.ok && !r.1.1.entropyCabac }

/-- Quantiser of a slice. -/
def clampQp (qp : ℤ) : ℤ := if qp < 0 then 0 else if 51 < qp then 51 else qp

/-- The reader behind the header of a slice, with the syntax of the header. -/
def sliceHeaderAt (nalType nalRefIdc log2MaxFrameNum : ℕ)
    (deblockCtrl : Bool) : SliceSyntax × BitReader :=
  (readSliceHeader nalType nalRefIdc log2MaxFrameNum deblockCtrl
    (8*(removeEpb payload).length+1) : StateM BitReader SliceSyntax) (startReader payload)

/-- The fields that are reported whether or not the header ends without error. -/
def sliceFields (s : SliceSyntax) (nalType : ℕ) (picInitQp : ℤ) : SliceHeader :=
  { firstMbInSlice := s.firstMbInSlice
    sliceType := s.sliceType
    ppsId := s.ppsId
    frameNum := s.frameNum
    idrPicId := s.idrPicId
    isIdr := nalType == 5
    sliceQpDelta := s.sliceQpDelta
    sliceQp := clampQp (picInitQp+s.sliceQpDelta)
    disableDeblockingIdc := s.disableDeblockingIdc }

/-- Parse a slice header and the type of the first macroblock. -/
def parseSliceHeaderRbsp (nalType nalRefIdc log2MaxFrameNum : ℕ) (pps : PpsInfo) : SliceHeader :=
  if payload.length < 1 ∨ log2MaxFrameNum=0 ∨ 16<log2MaxFrameNum ∨ pps.valid = false then {}
  else
    let h := sliceHeaderAt payload nalType nalRefIdc log2MaxFrameNum pps.deblockCtrl
    let out := sliceFields h.1 nalType pps.picInitQp
    if h.2.ok = false then out
    else
      let mbType := hostUe h.2
      { out with
        firstMbType := uint8 mbType.1
        hasFirstMbType := mbType.2.ok && decide (uint8 mbType.1≤25)
        isISlice := isISliceType out.sliceType
        valid := mbType.2.ok || (isISliceType out.sliceType && out.sliceType != 0) }

end Misterplex.Header
