import Misterplex.Inter.Interpolation

/-!
# The decoded picture buffer's window fetch

One reference and one current picture in planar 4:2:0 layout. A fetch latches where a
partition's prediction lies, asks for the 21x21 luma window around it and for two 9x9
chroma windows, one sample a clock, and passes each answer on under the number of the
request it belongs to. Coordinates outside the picture are moved to its edge.

The memory registers a request before it answers: one clock after an address was put out the
memory has it, and at the clock after that the buffer reads the sample.
-/

namespace Misterplex.Inter

/-- Frame size and the two picture banks of an instance. -/
structure DpbParams where
  /-- Size of the picture. -/
  (frameW frameH : ℕ)
  /-- First cells of the banks. -/
  (bank0Base bank1Base : BitVec 32)

variable (g : DpbParams)

/-- Chroma columns. -/
def DpbParams.cW : ℕ := g.frameW/2

/-- Chroma rows. -/
def DpbParams.cH : ℕ := g.frameH/2

/-- The planes of a picture, in the order they are stored. -/
inductive PlaneId where
  | y
  | u
  | v
  deriving DecidableEq, Repr

/-- Address of a sample of a picture stored at `base`. -/
def i420Addr (base : BitVec 32) (plane : PlaneId) (x y : ℕ) : BitVec 32 :=
  match plane with
  | .y => base+BitVec.ofNat 32 (y*g.frameW+x)
  | .u => base+BitVec.ofNat 32 (g.frameW*g.frameH+y*g.cW+x)
  | .v => base+BitVec.ofNat 32 (g.frameW*g.frameH+g.cW*g.cH+y*g.cW+x)

/-- The value of a signed register of 16 bits. -/
def signed16 (v : ℤ) : ℤ := Int.bmod v (2^16)

/-- Column of a partition in its macroblock. -/
def partXOff (mode idx : ℕ) : ℤ :=
  match mode with
  | 2 => if idx = 1 then 8 else 0
  | 3 | 4 => if idx%2 = 1 then 8 else 0
  | _ => 0

/-- Row of a partition in its macroblock. -/
def partYOff (mode idx : ℕ) : ℤ :=
  match mode with
  | 1 => if idx = 1 then 8 else 0
  | 3 | 4 => if idx/2%2 = 1 then 8 else 0
  | _ => 0

/-- A coordinate moved into the picture; the limit is a word of 16 bits. -/
def clampCoord (v : ℤ) (limit : ℕ) : ℕ :=
  if v < 0 then 0 else if (limit : ℤ) ≤ v then (limit+(2^16-1))%2^16 else v.toNat

scoped instance neZero_coord : NeZero 256 := ⟨by decide⟩

scoped instance neZero_part : NeZero 8 := ⟨by decide⟩

scoped instance neZero_sub : NeZero 4 := ⟨by decide⟩

/-- What a fetch asks for. -/
structure FetchRequest where
  /-- Place of the macroblock. -/
  (mbX mbY : Fin 256)
  partMode : Fin 8
  partIdx : Fin 4
  /-- Horizontal motion in quarter samples. -/
  mvX : BitVec 16
  /-- Vertical motion in quarter samples. -/
  mvY : BitVec 16

/-- Where the fetch stands. -/
inductive FetchPhase where
  | idle
  | luma
  /-- Asking for the first chroma plane. -/
  | u
  /-- Asking for the second chroma plane. -/
  | v
  /-- Waiting for the last answer. -/
  | drain
  deriving DecidableEq, Repr

/-- Registers of the buffer. -/
structure DpbRegs where
  /-- There is a reference. -/
  refReady : Bool
  /-- Banks of the picture being decoded and of its reference. -/
  (currentBase referenceBase : BitVec 32)
  /-- A fetch is under way; one has ended. -/
  (fetchBusy fetchDone : Bool)
  /-- The last fetch had no reference. -/
  fetchErrorNoRef : Bool
  /-- Quarter samples right of the luma origin. -/
  lumaFracX : ℕ
  /-- Quarter samples below the luma origin. -/
  lumaFracY : ℕ
  /-- Eighths right of the chroma origin. -/
  chromaFracX : ℕ
  /-- Eighths below the chroma origin. -/
  chromaFracY : ℕ
  /-- Upper left samples of the windows. -/
  (lumaOriginX lumaOriginY chromaOriginX chromaOriginY : ℤ)
  /-- A cell is asked for. -/
  memRd : Bool
  /-- Its address. -/
  memRaddr : BitVec 32
  /-- A luma sample is shown. -/
  lumaWindowValid : Bool
  /-- Its place in the window. -/
  lumaWindowIdx : ℕ
  /-- The sample. -/
  lumaWindowSample : BitVec 8
  /-- A sample of the first chroma window is shown. -/
  chromaUWindowValid : Bool
  /-- A sample of the second chroma window is shown. -/
  chromaVWindowValid : Bool
  /-- Place of the chroma sample shown. -/
  chromaWindowIdx : ℕ
  /-- That sample. -/
  chromaWindowSample : BitVec 8
  /-- What is being fetched. -/
  phase : FetchPhase
  /-- Number of the next request of the phase. -/
  issueIdx : ℕ
  /-- Plane of the last request. -/
  pendingPlane : PlaneId
  /-- Number of the last request. -/
  pendingIdx : ℕ
  /-- There was a request at the last clock. -/
  pendingValid : Bool

/-- What the buffer reads at a clock. -/
structure DpbIn where
  reset : Bool
  /-- An IDR picture begins. -/
  idrStart : Bool
  /-- The current picture is complete and becomes the reference. -/
  frameDone : Bool
  /-- A window is asked for. -/
  fetchStart : Bool
  /-- Of this partition. -/
  request : FetchRequest
  /-- A cell is answered. -/
  memRvalid : Bool
  /-- The cell. -/
  memRdata : BitVec 8

namespace DpbRegs

variable (g : DpbParams)

/-- The registers after a reset. -/
def reset : DpbRegs :=
  { refReady := false, currentBase := g.bank0Base, referenceBase := g.bank1Base
    fetchBusy := false, fetchDone := false, fetchErrorNoRef := false
    lumaFracX := 0, lumaFracY := 0, chromaFracX := 0, chromaFracY := 0
    lumaOriginX := 0, lumaOriginY := 0, chromaOriginX := 0, chromaOriginY := 0
    memRd := false, memRaddr := 0
    lumaWindowValid := false, lumaWindowIdx := 0, lumaWindowSample := 0
    chromaUWindowValid := false, chromaVWindowValid := false
    chromaWindowIdx := 0, chromaWindowSample := 0
    phase := .idle, issueIdx := 0
    pendingPlane := .y, pendingIdx := 0, pendingValid := false }

/-- The plane a phase asks for. -/
def issuePlane (s : DpbRegs) : PlaneId :=
  match s.phase with
  | .luma => .y
  | .u => .u
  | _ => .v

/-- Column and row of the next request, moved into the picture. -/
def issueCoord (s : DpbRegs) : ℕ × ℕ :=
  match s.phase with
  | .luma =>
    (clampCoord (signed16 (s.lumaOriginX+(s.issueIdx%21 : ℕ)-2)) (g.frameW%2^16),
      clampCoord (signed16 (s.lumaOriginY+(s.issueIdx/21 : ℕ)-2)) (g.frameH%2^16))
  | _ =>
    (clampCoord (signed16 (s.chromaOriginX+(s.issueIdx%9 : ℕ))) (g.cW%2^16),
      clampCoord (signed16 (s.chromaOriginY+(s.issueIdx/9 : ℕ))) (g.cH%2^16))

/-- Pictures change at the end of a frame; an IDR picture has no reference. -/
def pictures (s : DpbRegs) (i : DpbIn) : DpbRegs :=
  if i.frameDone then
    { s with
      referenceBase := s.currentBase
      currentBase := if s.currentBase = g.bank0Base then g.bank1Base else g.bank0Base
      refReady := true }
  else if i.idrStart then { s with refReady := false } else s

/-- An answer goes to the window the last request was for. -/
def answer (old s : DpbRegs) (i : DpbIn) : DpbRegs :=
  if i.memRvalid && old.pendingValid then
    match old.pendingPlane with
    | .y =>
      { s with
        lumaWindowValid := true, lumaWindowIdx := old.pendingIdx
        lumaWindowSample := i.memRdata }
    | .u =>
      { s with
        chromaUWindowValid := true, chromaWindowIdx := old.pendingIdx%2^7
        chromaWindowSample := i.memRdata }
    | .v =>
      { s with
        chromaVWindowValid := true, chromaWindowIdx := old.pendingIdx%2^7
        chromaWindowSample := i.memRdata }
  else s

/-- A fetch begins by latching the integer and the fractional part of where it reads. -/
def begin (old s : DpbRegs) (r : FetchRequest) : DpbRegs :=
  if old.refReady then
    { s with
      fetchDone := false, fetchErrorNoRef := false, fetchBusy := true
      phase := .luma, issueIdx := 0
      lumaFracX := r.mvX.toNat%4, lumaFracY := r.mvY.toNat%4
      chromaFracX := r.mvX.toNat%8, chromaFracY := r.mvY.toNat%8
      lumaOriginX := signed16 (16*(r.mbX : ℕ)+partXOff r.partMode r.partIdx+r.mvX.toInt >>> 2)
      lumaOriginY := signed16 (16*(r.mbY : ℕ)+partYOff r.partMode r.partIdx+r.mvY.toInt >>> 2)
      chromaOriginX :=
        signed16 (8*(r.mbX : ℕ)+partXOff r.partMode r.partIdx >>> 1+r.mvX.toInt >>> 3)
      chromaOriginY :=
        signed16 (8*(r.mbY : ℕ)+partYOff r.partMode r.partIdx >>> 1+r.mvY.toInt >>> 3) }
  else { s with fetchDone := true, fetchErrorNoRef := true }

/-- Number of the last request of a phase. -/
def lastIdx (s : DpbRegs) : ℕ :=
  match s.phase with
  | .luma => 440
  | _ => 80

/-- A request goes out, and the number of the next one is formed. -/
def issue (old s : DpbRegs) : DpbRegs :=
  let asked : DpbRegs :=
    { s with
      fetchErrorNoRef := false, memRd := true, pendingValid := true
      pendingPlane := old.issuePlane, pendingIdx := old.issueIdx
      memRaddr := i420Addr g old.referenceBase old.issuePlane (old.issueCoord g).1
        (old.issueCoord g).2 }
  if old.issueIdx = old.lastIdx then
    match old.phase with
    | .luma => { asked with phase := .u, issueIdx := 0 }
    | .u => { asked with phase := .v, issueIdx := 0 }
    | _ => { asked with phase := .drain }
  else { asked with issueIdx := (old.issueIdx+1)%2^9 }

/-- The state whose pulses are taken back at the beginning of a clock. -/
def quieted (s : DpbRegs) : DpbRegs :=
  { s with
    memRd := false, lumaWindowValid := false, chromaUWindowValid := false
    chromaVWindowValid := false }

/-- The state a clock has formed before it looks at the phase. -/
def shown (s : DpbRegs) (i : DpbIn) : DpbRegs :=
  answer s (pictures g s.quieted i) i

/-- Without a fetch the buffer waits for one to be started. -/
def idleOwn (old s : DpbRegs) (i : DpbIn) : DpbRegs :=
  let waiting : DpbRegs := { s with pendingValid := false, fetchBusy := false }
  if i.fetchStart then begin old waiting i.request else waiting

/-- The fetch ends with its last answer. -/
def drainOwn (old s : DpbRegs) (i : DpbIn) : DpbRegs :=
  if i.memRvalid && old.pendingValid then
    { s with pendingValid := false, phase := .idle, fetchBusy := false, fetchDone := true }
  else { s with pendingValid := false }

/-- One clock of the buffer. -/
def step (s : DpbRegs) (i : DpbIn) : DpbRegs :=
  if i.reset then reset g
  else
    match s.phase with
    | .idle => idleOwn s (s.shown g i) i
    | .drain => drainOwn s (s.shown g i) i
    | _ => issue g s (s.shown g i)

end DpbRegs

/-- What the rest of the decoder does at a clock, and what the memory then holds. -/
structure DpbClock where
  reset : Bool
  /-- An IDR picture begins. -/
  idrStart : Bool
  /-- The current picture is complete and becomes the reference. -/
  frameDone : Bool
  /-- A window is asked for. -/
  fetchStart : Bool
  /-- Of this partition. -/
  request : FetchRequest
  /-- The cells of the memory. -/
  mem : BitVec 32 → BitVec 8

/-- The windows that the interpolation reads. -/
structure Windows where
  /-- The luma window, 21 samples a row. -/
  luma : ℕ → BitVec 8
  /-- The first chroma window, 9 samples a row. -/
  u : ℕ → BitVec 8
  /-- The second chroma window, 9 samples a row. -/
  v : ℕ → BitVec 8

/-- The windows take the sample that is shown. -/
def Windows.take (w : Windows) (s : DpbRegs) : Windows where
  luma := if s.lumaWindowValid then
    Function.update w.luma s.lumaWindowIdx s.lumaWindowSample else w.luma
  u := if s.chromaUWindowValid then
    Function.update w.u s.chromaWindowIdx s.chromaWindowSample else w.u
  v := if s.chromaVWindowValid then
    Function.update w.v s.chromaWindowIdx s.chromaWindowSample else w.v

/-- The buffer with its memory's registers and the windows its samples go to. -/
structure FetchUnit where
  /-- The buffer itself. -/
  dpb : DpbRegs
  /-- The memory answers a request. -/
  memRvalid : Bool
  /-- Address that it answers. -/
  memRaddrQ : BitVec 32
  /-- What the interpolation reads. -/
  win : Windows

/-- What the buffer reads at a clock beside its memory. -/
def FetchUnit.input (f : FetchUnit) (c : DpbClock) : DpbIn :=
  { reset := c.reset, idrStart := c.idrStart, frameDone := c.frameDone
    fetchStart := c.fetchStart, request := c.request
    memRvalid := f.memRvalid, memRdata := c.mem f.memRaddrQ }

/-- One clock: the memory takes the request that is out, and the windows take the sample that
is shown. -/
def FetchUnit.step (f : FetchUnit) (c : DpbClock) : FetchUnit where
  dpb := f.dpb.step g (f.input c)
  memRvalid := f.dpb.memRd
  memRaddrQ := f.dpb.memRaddr
  win := f.win.take f.dpb

end Misterplex.Inter
