import Misterplex.Lib.Trace
import Mathlib.Data.Int.Notation

/-!
# The audio pump and the gate of the strict present thread

The pump submits audio in chunks and waits while what it has submitted is ahead
of the presented frames; the present thread holds a frame until what is heard
of the audio has reached it. The heard position is the submitted bytes without
the smoothed depth of the audio ring, which the pump refreshes after every
fourth chunk. Every access of one thread to what the other one stores is one
step. Seconds in floating point are exact fractions here.
-/

namespace Misterplex.Present

/-- Bytes per second of 48 kHz stereo samples of 16 bits. -/
def kMrAudioBytesPerSec : ℤ := 192000

/-- Bytes that the pump reads at most at once. -/
def kChunkBytes : ℕ := 3840

/-- The rate assumed when the content rate is not known. -/
def kDefaultFpsNum : ℤ := 24

/-- The denominator of the assumed rate. -/
def kDefaultFpsDen : ℤ := 1

/-- Extra audio allowed ahead of the presented frames, in milliseconds. -/
def audioHoldSlackMs : ℤ := 80

/-- Allowed lead of the video, in milliseconds. -/
def presentLeadMs : ℤ := 0

/-- Offset between audio and video, in milliseconds. -/
def avOffsetMs : ℤ := 0

/-- Content time of a frame in microseconds; the first frame has number one. -/
def frameContentUs (frameIndex num den : ℤ) : ℤ :=
  let rate := if num ≤ 0 ∨ den ≤ 0 then (kDefaultFpsNum,kDefaultFpsDen) else (num,den)
  frameIndex*1000000*rate.2/rate.1

/-- What is heard, in microseconds: the submitted bytes without those still queued, where a
negative depth is not known. -/
def audibleClockUs (writtenBytes queuedBytes : ℤ) : ℤ :=
  let played := if 0 ≤ queuedBytes then writtenBytes-queuedBytes else writtenBytes
  if played ≤ 0 then 0 else played*1000000/kMrAudioBytesPerSec

/-- What to do with a frame. -/
inductive AvAction
  | present
  /-- Wait, the video is ahead of the clock. -/
  | hold
  /-- Skip the frame, it is too late. -/
  | drop
  deriving DecidableEq, Repr

/-- Decide on a frame from the clock minus its content time. -/
def avDecide (drift lead dropAfter : ℤ) (dropRun maxDropRun : ℕ) : AvAction :=
  if 0 < dropAfter ∧ dropAfter<drift ∧ dropRun < maxDropRun then .drop
  else if drift+lead < 0 then .hold
  else .present

/-- What one playback fixes. -/
structure Settings where
  /-- Numerator of the content rate, not positive when unknown. -/
  fpsNum : ℤ
  /-- Denominator of the content rate. -/
  fpsDen : ℤ
  /-- Drift past which a late frame is dropped, in milliseconds; zero never drops. -/
  dropMs : ℤ
  deriving DecidableEq, Repr

variable (c : Settings)

/-- The numerator by which the present thread paces. -/
def Settings.paceNum : ℤ := if 0 < c.fpsNum then c.fpsNum else kDefaultFpsNum

/-- The denominator by which the present thread paces. -/
def Settings.paceDen : ℤ :=
  if 0 < c.fpsNum ∧ 0 < c.fpsDen then c.fpsDen else kDefaultFpsDen

/-- Release time of a frame in microseconds. -/
def Settings.frameUs (frame : ℕ) : ℤ :=
  frameContentUs frame c.paceNum c.paceDen+avOffsetMs*1000

/-- The decision on a frame at a clock. -/
def Settings.decide (clockUs : ℤ) (frame dropRun : ℕ) : AvAction :=
  avDecide (clockUs-c.frameUs frame) (presentLeadMs*1000) (c.dropMs*1000) dropRun 1

/-- The pump holds back after this many submitted bytes: a rate is known, a frame was presented,
and the audio is more than the slack ahead of the presented frames. -/
def Settings.holdsBack (audio presents : ℕ) : Prop :=
  0<c.fpsNum ∧ 0<c.fpsDen ∧ 0<presents ∧
    (presents*c.fpsDen*1000+audioHoldSlackMs*c.fpsNum)*kMrAudioBytesPerSec <
      audio*(c.fpsNum*1000)

instance (c : Settings) (audio presents : ℕ) : Decidable (c.holdsBack audio presents) :=
  inferInstanceAs (Decidable (_ ∧ _ ∧ _ ∧ _))

/-- Where the pump is. -/
inductive PumpPc
  | looping
  | reading
  /-- In the hold loop, with the submitted bytes it compares. -/
  | holding (audio : ℕ)
  /-- Paced, about to read the depth of the ring. -/
  | sampling
  | finished
  deriving DecidableEq, Repr

/-- Where the present thread is. -/
inductive PresentPc
  | waiting
  | gating (frame : ℕ)
  /-- Loading the submitted bytes and the depth, in either order. -/
  | clocking (frame : ℕ) (bytes : Option ℕ) (queued : Option ℤ)
  | sending (frame : ℕ)
  | releasing
  | finished
  deriving DecidableEq, Repr

/-- What the pump, the reader and the present thread share and keep. -/
structure State where
  /-- The bytes sent to the audio FIFO. -/
  audioBytes : ℕ := 0
  /-- Smoothed depth of the audio ring, negative when unknown. -/
  audioQueuedBytes : ℤ := -1
  /-- The pump runs. -/
  audioActive : Bool := true
  /-- The chunks read. -/
  chunkIndex : ℕ := 0
  /-- The depth that the pump smooths, negative before the first reading. -/
  queuedEma : ℤ := -1
  /-- Where the pump stands. -/
  pump : PumpPc := .looping
  /-- The frames presented. -/
  presentCount : ℕ := 0
  /-- Frames delivered by the reader. -/
  frameIndex : ℕ := 0
  /-- Frame numbers of the full slots, from the slot that is presented next. -/
  ring : List ℕ := []
  /-- The reader has ended. -/
  readerEof : Bool := false
  /-- Where the present thread stands. -/
  present : PresentPc := .waiting
  /-- Frames dropped one after the other. -/
  dropRun : ℕ := 0
  /-- The frames dropped. -/
  droppedFrames : ℕ := 0
  /-- The player is paused. -/
  paused : Bool := false
  /-- The player is to stop. -/
  stop : Bool := false
  /-- A frame could not be sent. -/
  pipelineFatal : Bool := false
  deriving DecidableEq, Repr

/-- One step of a thread or a command. -/
inductive Action
  | pumpTurn
  /-- The pump reads a chunk and submits it; an empty one ends it. -/
  | chunk (n : ℕ)
  /-- The pump compares in its hold loop. -/
  | recheck
  /-- The pump goes on after pacing; the depth it reads, if it can be read. -/
  | sample (reading : Option ℕ)
  | deliver
  | videoEof
  /-- The present thread takes the next full slot. -/
  | take
  /-- The present thread checks for a stop and a pause; the wall clock, if there is no audio. -/
  | gate (wallUs : ℤ)
  /-- The present thread loads the submitted bytes. -/
  | loadBytes
  /-- The present thread loads the depth. -/
  | loadQueued
  /-- The present thread decides on its frame. -/
  | settle
  /-- The present thread sends its frame. -/
  | send (ok : Bool)
  /-- The present thread frees its slot. -/
  | release
  | setPaused (paused : Bool)
  | requestStop
  deriving DecidableEq, Repr

/-- Follow the decision on a frame. -/
def State.follow (s : State) (frame : ℕ) : AvAction → State
  | .hold => { s with present := .gating frame }
  | .drop =>
    { s with present := .releasing, dropRun := s.dropRun+1, droppedFrames := s.droppedFrames+1 }
  | .present => { s with present := .sending frame, dropRun := 0 }

/-- The pump thread ends. -/
def State.endPump (s : State) : State := { s with pump := .finished, audioActive := false }

/-- Store a depth reading; one that cannot be read makes the depth unknown. -/
def State.storeDepth (s : State) : Option ℕ → State
  | none => { s with audioQueuedBytes := -1 }
  | some q =>
    let queuedEma := if s.queuedEma < 0 then (q : ℤ) else (s.queuedEma*3+q)/4
    { s with queuedEma := queuedEma, audioQueuedBytes := queuedEma }

/-- One step of the audio pump. -/
def State.pumpStep (s : State) : Action → State
  | .pumpTurn =>
    match s.pump with
    | .looping =>
      if s.stop then s.endPump else if s.paused then s else { s with pump := .reading }
    | _ => s
  | .chunk n =>
    match s.pump with
    | .reading =>
      if n = 0 then s.endPump
      else if n ≤ kChunkBytes then
        { s with audioBytes := s.audioBytes+n, pump := .holding (s.audioBytes+n) }
      else s
    | _ => s
  | .recheck =>
    match s.pump with
    | .holding audio =>
      if s.stop = false ∧ c.holdsBack audio s.presentCount then s
      else { s with pump := .sampling }
    | _ => s
  | .sample reading =>
    match s.pump with
    | .sampling =>
      let next := { s with pump := .looping, chunkIndex := s.chunkIndex+1 }
      if s.chunkIndex%4 = 0 then next.storeDepth reading else next
    | _ => s
  | _ => s

/-- One step of the present thread. -/
def State.presentStep (s : State) : Action → State
  | .take =>
    match s.present,s.ring with
    | .waiting,frame::_ => { s with present := .gating frame }
    | .waiting,[] =>
      if s.readerEof ∨ s.stop ∨ s.pipelineFatal then { s with present := .finished } else s
    | _,_ => s
  | .gate wallUs =>
    match s.present with
    | .gating frame =>
      if s.stop ∨ s.pipelineFatal then { s with present := .releasing }
      else if s.paused then s
      else if s.audioActive then { s with present := .clocking frame none none }
      else s.follow frame (c.decide wallUs frame s.dropRun)
    | _ => s
  | .loadBytes =>
    match s.present with
    | .clocking frame none queued =>
      { s with present := .clocking frame (some s.audioBytes) queued }
    | _ => s
  | .loadQueued =>
    match s.present with
    | .clocking frame bytes none =>
      { s with present := .clocking frame bytes (some s.audioQueuedBytes) }
    | _ => s
  | .settle =>
    match s.present with
    | .clocking frame (some bytes) (some queued) =>
      s.follow frame (c.decide (audibleClockUs bytes queued) frame s.dropRun)
    | _ => s
  | .send ok =>
    match s.present with
    | .sending _ =>
      if ok then { s with present := .releasing, presentCount := s.presentCount+1 }
      else { s with present := .releasing, pipelineFatal := true }
    | _ => s
  | .release =>
    match s.present with
    | .releasing =>
      { s with
        present := if s.pipelineFatal then .finished else .waiting
        ring := s.ring.tail }
    | _ => s
  | _ => s

/-- One step of the reader or a command. -/
def State.otherStep (s : State) : Action → State
  | .deliver =>
    if s.readerEof ∨ 2 ≤ s.ring.length then s
    else { s with frameIndex := s.frameIndex+1, ring := s.ring ++ [s.frameIndex+1] }
  | .videoEof => { s with readerEof := true }
  | .setPaused paused => { s with paused := paused }
  | .requestStop => { s with stop := true }
  | _ => s

/-- One step of either thread. -/
def State.step (s : State) (a : Action) : State :=
  match a with
  | .pumpTurn | .chunk _ | .recheck | .sample _ => s.pumpStep c a
  | .take | .gate _ | .loadBytes | .loadQueued | .settle | .send _ | .release =>
    s.presentStep c a
  | .deliver | .videoEof | .setPaused _ | .requestStop => s.otherStep a

/-- The frame at the gate. -/
def PresentPc.gated : PresentPc → Option ℕ
  | .gating frame => some frame
  | .clocking frame _ _ => some frame
  | _ => none

/-- Playback is frozen: the pump waits for a frame to be presented, and the frame at the gate is
held because the heard audio has not reached it. -/
structure State.Frozen (c : Settings) (s : State) : Prop where
  /-- Nothing asks the threads to end. -/
  running : s.stop=false ∧ s.pipelineFatal=false ∧ s.audioActive=true
  pumpWaits : ∃ audio, s.pump = .holding audio ∧ c.holdsBack audio s.presentCount
  presentHolds : ∃ frame, s.present.gated=some frame ∧
    c.decide (audibleClockUs s.audioBytes s.audioQueuedBytes) frame s.dropRun = .hold

end Misterplex.Present
