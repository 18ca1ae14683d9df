import Mathlib.Data.Nat.Log
import Misterplex.Inter.Dpb
import Misterplex.Lib.Trace

/-!
# The decoder stub and its picture memory

After an IDR picture the stub writes the samples of a whole picture into the current bank of
its memory, macroblock after macroblock, 256 samples of luma and 64 of each chroma plane. A
writeback controller counts them and lets the picture become the reference at the frame
boundary. Motion compensation reads the reference bank.

The stream path instantiates the stub with its reference seam enabled. What the stub paints
into the frame store is left out.
-/

namespace Misterplex.Inter

/-- Picture size of an instance of the stub. -/
structure StubParams where
  /-- Size of the picture. -/
  (width height : ℕ)

namespace StubParams

variable (g : StubParams)

/-- Macroblocks in a row. -/
def mbW : ℕ := (g.width+15)/16

/-- Rows of macroblocks. -/
def mbH : ℕ := (g.height+15)/16

/-- Macroblocks of a picture. -/
def mbCount : ℕ := g.mbW*g.mbH

/-- Bits of a macroblock's address. -/
def mbAw : ℕ := if g.mbCount ≤ 1 then 1 else Nat.clog 2 g.mbCount

/-- Address of the last macroblock, a word of 16 bits. -/
def lastMbAddr : ℕ := (g.mbCount-1)%2^16

/-- Bytes of a picture. -/
def frameBytes : ℕ := g.width*g.height+2*(g.width/2*(g.height/2))

/-- Bytes of the memory. -/
def memBytes : ℕ := 2*g.frameBytes

/-- Pixels of a picture. -/
def pixels : ℕ := g.width*g.height

/-- The buffer of the stub: the second bank follows the first. -/
def dpb : DpbParams where
  frameW := g.width
  frameH := g.height
  bank0Base := 0
  bank1Base := BitVec.ofNat 32 g.frameBytes

end StubParams

/-- Column and row of a sample of a macroblock. -/
def mbSampleCoord (mbX mbY : ℕ) (plane : PlaneId) (sampleIdx : ℕ) : ℕ × ℕ :=
  if plane = .y then (16*mbX+sampleIdx%16,16*mbY+sampleIdx/16%16)
  else (8*mbX+sampleIdx%8,8*mbY+sampleIdx/8%8)

/-- Address of a sample of a macroblock in the bank at `bankBase`. -/
def mbWriteAddr (g : DpbParams) (bankBase : BitVec 32) (mbX mbY : Fin 256) (plane : PlaneId)
    (sampleIdx : ℕ) : BitVec 32 :=
  i420Addr g bankBase plane (mbSampleCoord mbX mbY plane sampleIdx).1
    (mbSampleCoord mbX mbY plane sampleIdx).2

/-- Registers of the writeback controller. -/
structure Writeback where
  /-- A macroblock is committed. -/
  wbValid : Bool
  /-- Its number. -/
  wbMbAddr : ℕ
  /-- It belongs to a reference picture. -/
  wbIsRef : Bool
  dpbInvalidateRefs : Bool
  /-- The picture becomes the reference. -/
  refReadyPulse : Bool
  /-- Its slot. -/
  refReadySlot : ℕ
  /-- A complete picture waits for the frame boundary. -/
  refPending : Bool
  /-- Its slot. -/
  refPendingSlot : ℕ
  /-- Samples of the macroblock so far. -/
  sampleCount : ℕ
  /-- A macroblock came before all its samples. -/
  commitOrderError : Bool

/-- What the writeback controller reads at a clock. -/
structure WritebackIn where
  /-- An IDR picture begins. -/
  idrFrameStart : Bool
  /-- A sample comes; a macroblock ends. -/
  (filteredSampleValid filteredMbValid : Bool)
  /-- Number of the macroblock. -/
  filteredMbAddr : ℕ
  /-- It belongs to a reference picture. -/
  filteredMbIsRef : Bool
  /-- It is the last one. -/
  filteredFrameDone : Bool
  /-- Slot of the picture. -/
  frameSlot : ℕ
  /-- The picture ends. -/
  frameBoundary : Bool

namespace Writeback

/-- The controller after a reset. -/
def reset : Writeback :=
  ⟨false,0,false,false,false,0,false,0,0,false⟩

/-- All samples of the macroblock have come. -/
def samplesComplete (s : Writeback) : Bool := s.sampleCount == 384

/-- The macroblock is committed. -/
def commitNow (s : Writeback) (i : WritebackIn) : Bool := i.filteredMbValid && s.samplesComplete

/-- One clock of the controller. -/
def step (s : Writeback) (i : WritebackIn) : Writeback where
  wbValid := s.commitNow i
  wbMbAddr := i.filteredMbAddr
  wbIsRef := i.filteredMbIsRef
  dpbInvalidateRefs := i.idrFrameStart
  refReadyPulse := i.frameBoundary && s.refPending
  refReadySlot := s.refPendingSlot
  refPending :=
    if i.frameBoundary && s.refPending then false
    else if s.commitNow i && i.filteredFrameDone && i.filteredMbIsRef then true
    else if i.idrFrameStart then false
    else s.refPending
  refPendingSlot :=
    if s.commitNow i && i.filteredFrameDone && i.filteredMbIsRef then i.frameSlot
    else s.refPendingSlot
  sampleCount :=
    if i.idrFrameStart || s.commitNow i || i.frameBoundary then 0
    else if i.filteredSampleValid && !s.samplesComplete then s.sampleCount+1
    else s.sampleCount
  commitOrderError := i.filteredMbValid && !s.samplesComplete

end Writeback

/-- Where the stub stands. -/
inductive StubPhase where
  | idle
  | wait
  | paint
  /-- Waiting for the motion-compensation fetch. -/
  | fetch
  /-- Writing the picture's samples. -/
  | dpbFill
  deriving DecidableEq, Repr

/-- Registers of the stub. -/
structure StubRegs where
  /-- What the stub is doing. -/
  phase : StubPhase
  /-- A picture is under way. -/
  busy : Bool
  /-- Next pixel of a painted picture. -/
  pixI : ℕ
  /-- The picture is an IDR picture. -/
  isIdrFrame : Bool
  /-- Header of the unit the picture came from. -/
  latType : BitVec 8
  /-- Clocks still to wait. -/
  waitCnt : ℕ
  /-- Column of the macroblock to fetch. -/
  latPMbX : Fin 256
  /-- Row of the macroblock to fetch. -/
  latPMbY : Fin 256
  /-- Its partitioning. -/
  latPPartMode : Fin 8
  /-- A P macroblock was seen; it is to be fetched. -/
  (pCandidateSeen pendingPFetch : Bool)
  /-- Its place. -/
  (pendingPMbX pendingPMbY : Fin 256)
  /-- Its partitioning. -/
  pendingPPartMode : Fin 8
  /-- Pulse that starts a fetch. -/
  dpbFetchStart : Bool
  /-- Macroblock being written. -/
  fillMbAddr : ℕ
  /-- Next sample of that one. -/
  fillSampleIdx : ℕ
  /-- Address the memory shows. -/
  memRaddrQ : BitVec 32
  /-- The memory answers a request. -/
  memRvalid : Bool

/-- What the stub reads from the stream at a clock. -/
structure StubIn where
  reset : Bool
  /-- A coded slice was found. -/
  vclPulse : Bool
  /-- Header of the last unit. -/
  lastNalType : BitVec 8
  /-- Macroblocks in a row of the stream's picture. -/
  mbW : Fin 256
  /-- The slice header. -/
  (sliceIsI sliceValid : Bool)
  /-- Number of its first macroblock. -/
  firstMbAddr : Fin (2^16)
  /-- The type of that one was read. -/
  hasMbType : Bool
  /-- Its partitioning. -/
  firstMbPartMode : Fin 8
  /-- Its first macroblock. -/
  (firstMbIntra residualValid : Bool)

namespace StubIn

variable (i : StubIn)

/-- An IDR picture is found. -/
def idrFound : Bool := i.vclPulse && (i.lastNalType.toNat%32 == 5)

/-- Macroblocks in a row, with a default before the first parameter set. -/
def pMbWidth : ℕ := if i.mbW = 0 then 20 else i.mbW

/-- Column of the slice's first macroblock. -/
def pReqMbX : Fin 256 := Fin.ofNat 256 ((i.firstMbAddr : ℕ)%i.pMbWidth)

/-- Row of the slice's first macroblock. -/
def pReqMbY : Fin 256 := Fin.ofNat 256 ((i.firstMbAddr : ℕ)/i.pMbWidth)

/-- The slice asks for a prediction from the reference. -/
def pFetchCandidate : Bool :=
  i.sliceValid && !i.sliceIsI && i.hasMbType && !i.firstMbIntra &&
    decide ((i.firstMbPartMode : ℕ)≤4)

end StubIn

/-- What the stub reads from the buffer and the writeback controller. -/
structure StubView where
  /-- Outputs of the buffer. -/
  (refReady fetchDone memRd : Bool)
  memRaddr : BitVec 32
  /-- The picture becomes the reference. -/
  refReadyPulse : Bool

namespace StubRegs

/-- The stub after a reset. -/
def reset : StubRegs where
  phase := .idle
  busy := false
  pixI := 0
  isIdrFrame := false
  latType := 0
  waitCnt := 0
  latPMbX := 0
  latPMbY := 0
  latPPartMode := 0
  pCandidateSeen := false
  pendingPFetch := false
  pendingPMbX := 0
  pendingPMbY := 0
  pendingPPartMode := 0
  dpbFetchStart := false
  fillMbAddr := 0
  fillSampleIdx := 0
  memRaddrQ := 0
  memRvalid := false

/-- A sample is written. -/
def fillSamplePhase (s : StubRegs) : Bool := s.phase == .dpbFill && decide (s.fillSampleIdx<384)

/-- A macroblock is complete. -/
def filteredMbValid (s : StubRegs) : Bool := s.phase == .dpbFill && s.fillSampleIdx == 384

/-- The picture is complete. -/
def filteredFrameDone (g : StubParams) (s : StubRegs) : Bool :=
  s.filteredMbValid && s.fillMbAddr == g.lastMbAddr

/-- The picture ends. -/
def frameBoundary (s : StubRegs) : Bool := s.phase == .dpbFill && s.fillSampleIdx == 385

end StubRegs

variable (g : StubParams)

/-- Column of a macroblock, a word of 8 bits. -/
def fillMbX (mbAddr : ℕ) : Fin 256 := Fin.ofNat 256 (mbAddr%g.mbW)

/-- Row of a macroblock, a word of 8 bits. -/
def fillMbY (mbAddr : ℕ) : Fin 256 := Fin.ofNat 256 (mbAddr/g.mbW)

/-- Plane of a sample of a macroblock. -/
def filteredPlane (sampleIdx : ℕ) : PlaneId :=
  if sampleIdx < 256 then .y else if sampleIdx < 320 then .u else .v

/-- Number of a sample in its plane. -/
def filteredSampleIdx (sampleIdx : ℕ) : ℕ :=
  match filteredPlane sampleIdx with
  | .y => sampleIdx%256
  | .u => (sampleIdx-256)%256
  | .v => (sampleIdx-320)%256

/-- The sample a fill writes at a column and a row. -/
def filteredSample (plane : PlaneId) (absX absY : ℕ) : BitVec 8 :=
  match plane with
  | .y => 0x20#8 ^^^ BitVec.ofNat 8 absX ^^^ BitVec.ofNat 8 (absY%32*8)
  | .u => 0x80#8+BitVec.ofNat 8 (absX%64)
  | .v => 0x80#8+BitVec.ofNat 8 (absY%64)

/-- Address of a sample that a fill writes into the bank at `bankBase`. -/
def fillAddr (bankBase : BitVec 32) (mbAddr sampleIdx : ℕ) : BitVec 32 :=
  mbWriteAddr g.dpb bankBase (fillMbX g mbAddr) (fillMbY g mbAddr) (filteredPlane sampleIdx)
    (filteredSampleIdx sampleIdx)

/-- Column and row the stub computes for a sample of a fill. -/
def fillAbs (mbAddr sampleIdx : ℕ) : ℕ × ℕ :=
  mbSampleCoord (fillMbX g mbAddr) (fillMbY g mbAddr) (filteredPlane sampleIdx)
    (filteredSampleIdx sampleIdx)

/-- The sample that the fill writes, filtered where it must be. -/
def fillValue (mbAddr sampleIdx : ℕ) : BitVec 8 :=
  filteredSample (filteredPlane sampleIdx) (fillAbs g mbAddr sampleIdx).1
    (fillAbs g mbAddr sampleIdx).2

namespace StubRegs

variable (s : StubRegs)

/-- The candidate of a slice is noted once. -/
def noteCandidate (i : StubIn) : StubRegs :=
  let noted : StubRegs :=
    if i.pFetchCandidate && !s.pCandidateSeen then
      { s with
        pendingPFetch := true, pendingPMbX := i.pReqMbX, pendingPMbY := i.pReqMbY
        pendingPPartMode := i.firstMbPartMode }
    else s
  { noted with
    pCandidateSeen :=
      if i.sliceValid then i.pFetchCandidate || s.pCandidateSeen else false }

/-- Without work the stub looks for a coded slice, then for a waiting candidate. -/
def idleOwn (old s : StubRegs) (i : StubIn) (v : StubView) : StubRegs :=
  if i.vclPulse then
    { s with phase := .wait, busy := true, waitCnt := 4095, latType := i.lastNalType }
  else if old.pendingPFetch && v.refReady then
    { s with
      phase := .fetch, busy := true, latType := 1, isIdrFrame := false
      latPMbX := old.pendingPMbX, latPMbY := old.pendingPMbY
      latPPartMode := old.pendingPPartMode, pendingPFetch := false, dpbFetchStart := true }
  else s

/-- The header of the unit names an IDR picture. -/
def latIdr : Bool := s.latType.toNat%32 == 5

/-- After the residual, or a time, an IDR picture is written and another one painted, unless
the slice asks for a prediction. -/
def waitOwn (old s : StubRegs) (i : StubIn) (v : StubView) : StubRegs :=
  let counted : StubRegs :=
    { s with waitCnt := if old.waitCnt = 0 then s.waitCnt else old.waitCnt-1 }
  if i.residualValid || old.waitCnt == 0 then
    let placed : StubRegs :=
      { counted with
        phase := if old.latIdr then .dpbFill else .paint
        pixI := 0, isIdrFrame := old.latIdr
        latPMbX := i.pReqMbX, latPMbY := i.pReqMbY, latPPartMode := i.firstMbPartMode
        fillMbAddr := if old.latIdr then 0 else old.fillMbAddr
        fillSampleIdx := if old.latIdr then 0 else old.fillSampleIdx }
    if i.pFetchCandidate && v.refReady then
      { placed with phase := .fetch, dpbFetchStart := true, pendingPFetch := false }
    else placed
  else counted

/-- The fetch has ended. -/
def fetchOwn (v : StubView) : StubRegs :=
  if v.fetchDone then { s with phase := .paint, pixI := 0 } else s

/-- One sample a clock, a clock to commit each macroblock, one for the boundary; then the stub
waits for the picture to become the reference. -/
def fillOwn (g : StubParams) (old s : StubRegs) (v : StubView) : StubRegs :=
  if old.fillSampleIdx < 384 then { s with fillSampleIdx := old.fillSampleIdx+1 }
  else if old.fillSampleIdx = 384 then
    if old.fillMbAddr = g.lastMbAddr then { s with fillSampleIdx := 385 }
    else { s with fillMbAddr := (old.fillMbAddr+1)%2^16, fillSampleIdx := 0 }
  else if old.fillSampleIdx = 385 then { s with fillSampleIdx := 386 }
  else if v.refReadyPulse then { s with phase := .paint, pixI := 0 }
  else s

/-- One pixel a clock. -/
def paintOwn (g : StubParams) (old s : StubRegs) : StubRegs :=
  if old.pixI = g.pixels-1 then { s with phase := .idle, busy := false, pixI := 0 }
  else { s with pixI := old.pixI+1 }

/-- The state a clock has formed before it looks at the phase. -/
def shown (i : StubIn) (v : StubView) : StubRegs :=
  { s.noteCandidate i with
    dpbFetchStart := false, memRvalid := v.memRd, memRaddrQ := v.memRaddr }

/-- One clock of the stub. -/
def step (g : StubParams) (s : StubRegs) (i : StubIn) (v : StubView) : StubRegs :=
  if i.reset then reset
  else
    match s.phase with
    | .idle => idleOwn s (s.shown i v) i v
    | .wait => waitOwn s (s.shown i v) i v
    | .fetch => fetchOwn (s.shown i v) v
    | .dpbFill => fillOwn g s (s.shown i v) v
    | .paint => paintOwn g s (s.shown i v)

end StubRegs

/-- The memory takes a sample inside its bounds, at an index of 18 bits. -/
def dpbMemWrite (mem : BitVec 18 → BitVec 8) (we : Bool) (waddr : BitVec 32)
    (wdata : BitVec 8) : BitVec 18 → BitVec 8 :=
  if we && decide (waddr<BitVec.ofNat 32 g.memBytes) then
    Function.update mem (waddr.setWidth 18) wdata
  else mem

/-- The memory shows a sample inside its bounds, at an index of 18 bits. -/
def dpbMemRdata (mem : BitVec 18 → BitVec 8) (raddr : BitVec 32) : BitVec 8 :=
  if raddr < BitVec.ofNat 32 g.memBytes then mem (raddr.setWidth 18) else 0

/-- The stub, its writeback controller, its buffer and its memory. -/
structure DecodeStub where
  /-- The state machine. -/
  stub : StubRegs
  /-- The writeback controller. -/
  wb : Writeback
  /-- The picture buffer. -/
  dpb : DpbRegs
  /-- Its memory. -/
  mem : BitVec 18 → BitVec 8

namespace DecodeStub

variable (g : StubParams)

/-- The state after a reset, with any memory. -/
def start (mem : BitVec 18 → BitVec 8) : DecodeStub :=
  ⟨.reset,.reset,.reset g.dpb,mem⟩

/-- What the stub sees of the others. -/
def view (s : DecodeStub) : StubView where
  refReady := s.dpb.refReady
  fetchDone := s.dpb.fetchDone
  memRd := s.dpb.memRd
  memRaddr := s.dpb.memRaddr
  refReadyPulse := s.wb.refReadyPulse

/-- What the writeback controller sees. -/
def writebackIn (s : DecodeStub) (i : StubIn) : WritebackIn where
  idrFrameStart := i.idrFound
  filteredSampleValid := s.stub.fillSamplePhase
  filteredMbValid := s.stub.filteredMbValid
  filteredMbAddr := s.stub.fillMbAddr%2^g.mbAw
  filteredMbIsRef := true
  filteredFrameDone := s.stub.filteredFrameDone g
  frameSlot := 0
  frameBoundary := s.stub.frameBoundary

/-- What the buffer sees. -/
def dpbIn (s : DecodeStub) (i : StubIn) : DpbIn where
  reset := i.reset
  idrStart := s.wb.dpbInvalidateRefs || i.idrFound
  frameDone := s.wb.refReadyPulse
  fetchStart := s.stub.dpbFetchStart
  request :=
    { mbX := s.stub.latPMbX, mbY := s.stub.latPMbY, partMode := s.stub.latPPartMode
      partIdx := 0, mvX := 0, mvY := 0 }
  memRvalid := s.stub.memRvalid
  memRdata := dpbMemRdata g s.mem s.stub.memRaddrQ

/-- One clock. -/
def step (s : DecodeStub) (i : StubIn) : DecodeStub where
  stub := s.stub.step g i s.view
  wb := if i.reset then .reset else s.wb.step (s.writebackIn g i)
  dpb := s.dpb.step g.dpb (s.dpbIn g i)
  mem := dpbMemWrite g s.mem s.stub.fillSamplePhase
    (fillAddr g s.dpb.currentBase s.stub.fillMbAddr s.stub.fillSampleIdx)
    (fillValue g s.stub.fillMbAddr s.stub.fillSampleIdx)

end DecodeStub

end Misterplex.Inter
