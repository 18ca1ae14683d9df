import Misterplex.Present.AvGate
import Misterplex.Present.BankRelease

/-!
# The pipelined presenter

The main thread warms up by reading frames into the two ring slots and into lists
that it sends itself, then starts the present thread and reads on into the ring,
or straight into a bank of the frame window. The present thread prepares the frame
of the next slot, draws the overlay and kicks it: the bank it stands in, a bank
into which it was prefetched, or a copy. While playback is paused the main thread
repaints the last presented frame. What one thread does under a lock, and each
access outside of the locks, is one step; the copy and the kick of the present
thread are two, because the reader runs on between them.
-/

namespace Misterplex.Pipeline

open BankRelease
open Present (AvAction)

/-- Frame geometries that the pipeline tells apart. -/
inductive Geometry
  | plex480
  | plex720
  | plex960
  | other
  deriving DecidableEq, Repr

/-- What a playback is set up with; pictures and overlays are of any type. -/
structure Settings (α O : Type*) where
  /-- Frames come from the decoder in the process, not from a pipe. -/
  useInproc : Bool
  /-- The size of a frame. -/
  geometry : Geometry
  /-- The raw frames have the size of the 960 bank. -/
  bank960 : Bool
  /-- The size of the 960 bank is asked for. -/
  budget960 : Bool
  /-- The source is the one of 720 lines. -/
  source720 : Bool
  /-- Reading straight into the banks is asked for. -/
  stickIngest : Bool
  /-- The beam paces the frames. -/
  beamPace : Bool
  /-- No copy of the last presented frame is kept. -/
  skipLastPresented : Bool
  /-- Pixels of the frames in the order in which they are delivered; the first has number one. -/
  src : ℕ → α
  /-- Clear the crop padding and bias the chroma. -/
  prep : α → α
  /-- Draw an overlay on a picture. -/
  draw : O → α → α

/-- One kick of a bank. -/
structure Kick (α O : Type*) where
  /-- The frame's number. -/
  number : ℕ
  /-- It shows a frame again. -/
  repaint : Bool
  /-- The overlay drawn on it. -/
  overlay : Option O
  /-- The picture. -/
  picture : α
  deriving DecidableEq, Repr

/-- The writer of the frame window. -/
structure Fpga (α O : Type*) where
  /-- How kicks are made. -/
  kickMode : KickMode
  /-- The state of the bank release. -/
  strictDdrRelease : DdrStrictReleaseState
  /-- The pictures in the banks. -/
  bank : ℕ → α
  /-- Every kick made. -/
  kicks : List (Kick α O)

/-- One slot of the ring. -/
structure Slot (α : Type*) where
  /-- The picture on the heap. -/
  heap : α
  /-- The bank that it points to instead of its own buffer. -/
  ptr : Option ℕ
  /-- The bank it was read into. -/
  ingestBank : Option ℕ
  /-- The frame's number. -/
  frameIndex : ℕ

/-- The loops that read frames ahead and send them. -/
inductive AheadLoop
  | ahead
  | ahead720
  deriving DecidableEq, Repr

/-- Where the main thread is. -/
inductive MainPc (α : Type*)
  /-- Filling the ring before the start, with so many reads to go. -/
  | prefilling (left : ℕ)
  /-- Reading ahead, with so many reads to go and the frames read. -/
  | readingAhead (loop : AheadLoop) (left : ℕ) (frames : List (ℕ × α))
  | sendingAhead (loop : AheadLoop) (frames : List (ℕ × α))
  /-- About to start the present thread. -/
  | starting
  | looping
  /-- About to take a bank for the slot that is read next. -/
  | claiming
  /-- Reading a frame; something else wrote to where it goes. -/
  | reading (touched : Bool)
  | ended
  deriving DecidableEq, Repr

/-- What the present thread keeps of a frame while it sends it. -/
structure Drawn (α O : Type*) where
  /-- The overlay. -/
  overlay : Option O
  /-- The picture under it. -/
  before : α
  /-- The next frame may be prefetched meanwhile. -/
  live : Bool
  deriving DecidableEq, Repr

/-- Where the present thread is. -/
inductive PresentPc (α O : Type*)
  | notStarted
  | waiting
  | gating
  | presenting
  /-- The frame is copied to a bank, after a release sample if there was one. -/
  | copied (bank : ℕ) (sample : Option BankReleaseStatus) (drawn : Drawn α O)
  | kicked (ok : Bool) (drawn : Drawn α O)
  /-- About to free the slot. -/
  | releasing
  | finished
  deriving DecidableEq, Repr

scoped instance neZero_slots : NeZero 2 := ⟨by decide⟩

/-- What the threads share and keep. -/
structure State (α O : Type*) where
  /-- The writer of the frame window. -/
  fpga : Fpga α O
  /-- The two slots. -/
  slot : Fin 2 → Slot α
  /-- The slot being read into. -/
  readSlot : Fin 2
  /-- The slot to present next. -/
  presentSlot : Fin 2
  /-- The slots that are full. -/
  fullCount : ℕ
  /-- The frames read. -/
  frameIndex : ℕ
  /-- The banks that slots hold. -/
  bankHeld : ℕ → Bool
  /-- The bank proposed for the next send. -/
  localBank : ℕ
  /-- The bank of the prefetched frame, if there is one. -/
  overlapBank : Option ℕ
  /-- Nothing else has written the bank of the prefetched frame. -/
  overlapKept : Bool
  /-- The last picture presented. -/
  lastPresentedFrame : α
  /-- Some picture was presented. -/
  lastPresentedFrameValid : Bool
  /-- It had an overlay. -/
  lastPresentedHadOverlay : Bool
  /-- Its number. -/
  lastPresented : ℕ
  /-- Where the main thread stands. -/
  main : MainPc α
  /-- Where the present thread stands. -/
  present : PresentPc α O
  /-- The reader has ended. -/
  readerEof : Bool
  /-- The player is to stop. -/
  stop : Bool
  /-- A frame could not be sent. -/
  pipelineFatal : Bool

/-- One step of a thread or a request. -/
inductive Action (α O : Type*)
  | requestStop
  /-- The main thread tries to fill a slot before the start. -/
  | prefill (delivered : Bool)
  /-- The main thread tries to read a frame ahead. -/
  | readAhead (delivered : Bool)
  /-- The main thread sends a frame read ahead; the overlay that would be shown. -/
  | sendAhead (overlay : Option O) (i : CopyInput) (k : KickInput)
  | startThread
  /-- The main thread finds playback paused and repaints. -/
  | repaint (visible : Bool) (overlay : Option O) (i : CopyInput) (k : KickInput)
  /-- The main thread finds a seek. -/
  | seek
  /-- The main thread goes to fill a slot. -/
  | claim
  /-- The main thread takes a bank for its slot. -/
  | takeBank (reading : Option BankReleaseStatus)
  /-- Part of a frame arrives. -/
  | readSome (pixels : α)
  /-- The frame is complete or cannot be; its pixels, where something else wrote to it. -/
  | readEnd (full : Bool) (pixels : α)
  /-- The present thread takes the next full slot. -/
  | take
  /-- The present thread decides on its frame. -/
  | gate (action : AvAction)
  /-- The present thread prepares its frame and commits or copies it. -/
  | prepare (overlay : Option O) (live : Bool) (i : CopyInput) (k : KickInput)
  /-- The present thread kicks the copy. -/
  | ring (k : KickInput)
  /-- The present thread tries to prefetch the next frame. -/
  | prefetch (visible : Bool) (reading : Option BankReleaseStatus)
  /-- The present thread restores the frame and notes what it presented. -/
  | finish (visible : Bool)
  /-- The present thread frees its slot. -/
  | release
  deriving DecidableEq, Repr

section Settings

variable {α O : Type*} (c : Settings α O)

/-- The frame gate is strict. -/
def Settings.strictDdrPipeline : Bool := c.geometry == .plex480

/-- The geometry is that of 720p. -/
def Settings.hd : Bool := c.geometry == .plex720

/-- Frames are read straight into the banks. -/
def Settings.wantStickIngest : Bool := c.stickIngest && c.hd

/-- How the pipeline chooses its banks. -/
def Settings.policy : DdrBankWritePolicy :=
  if c.strictDdrPipeline then .requireReleased else .bestEffort

/-- The ring is filled before the start. -/
def Settings.prefills : Bool :=
  c.useInproc && !c.strictDdrPipeline && c.hd && !(c.geometry == .plex960) && !c.bank960

/-- A frame as it is shown. -/
def Settings.shown : Option O → α → α
  | none,x => x
  | some overlay,x => c.draw overlay x

/-- Whether a loop reads ahead. -/
def AheadLoop.wanted : AheadLoop → Bool
  | .ahead =>
    c.useInproc && !c.strictDdrPipeline &&
      (c.budget960 || c.bank960 || c.geometry == .plex960)
  | .ahead720 =>
    c.useInproc && !c.strictDdrPipeline && c.hd && !c.bank960 && !(c.geometry == .plex960) &&
      c.source720

/-- How many frames a loop reads ahead at most. -/
def AheadLoop.limit : AheadLoop → ℕ
  | .ahead => 48
  | .ahead720 => 60

/-- The main thread comes to a loop that reads ahead, or to what follows it. -/
def AheadLoop.enter (loop : AheadLoop) (after : MainPc α) : MainPc α :=
  if loop.wanted c then .readingAhead loop loop.limit [] else after

/-- Where the main thread goes after a loop that reads ahead. -/
def AheadLoop.next : AheadLoop → MainPc α
  | .ahead => AheadLoop.ahead720.enter c .starting
  | .ahead720 => .starting

/-- Where the main thread goes after filling the ring. -/
def Settings.afterPrefill : MainPc α := AheadLoop.ahead.enter c (AheadLoop.ahead.next c)

/-- Where the main thread begins. -/
def Settings.startMain : MainPc α := if c.prefills then .prefilling 2 else c.afterPrefill

end Settings

/-- The other bank of a pair. -/
def nextBank (b : ℕ) : ℕ := (b+1)%2

/-- The bank that the reader takes: a free one, else the one that is not displayed, else the
first that is not held. -/
def takeIngestBank (reading : Option BankReleaseStatus) (held : ℕ → Bool) : Option ℕ :=
  let free := reading.bind fun r =>
    [0,1].find? fun b => r.freeBankMask.getLsbD b && !held b
  let fallback := (reading.map fun r => r.dispBank.toNat ^^^ 1).getD 0
  match free with
  | some b => some b
  | none => (fallback::[0,1,2]).find? fun b => !held b

section Fpga

variable {α O : Type*} (f : Fpga α O)

/-- The writer when a send begins: an unavailable path is probed again after a while. -/
def Fpga.begin (i : CopyInput) : Fpga α O :=
  if f.kickMode = .unavailable ∧ i.reprobe then
    { f with kickMode := .probing, strictDdrRelease := {} }
  else f

variable (policy : DdrBankWritePolicy)

/-- The bank that a send writes, with the release sample it goes by. -/
def Fpga.target (bank : ℕ) (i : CopyInput) : Option (ℕ × Option BankReleaseStatus) :=
  if 1 < bank ∨ f.kickMode = .unavailable ∨ i.mapped = false then none
  else
    match policy with
    | .requireReleased =>
      i.readings.findSome? fun r =>
        (decideDdrBankWrite r .requireReleased f.strictDdrRelease).map fun b => (b,some r)
    | .bestEffort =>
      match i.readings.head? with
      | some r =>
        (decideDdrBankWrite r .bestEffort f.strictDdrRelease).map fun b => (b,some r)
      | none => some (bank,none)

/-- Write a bank. -/
def Fpga.write (b : ℕ) (picture : α) : Fpga α O :=
  { f with bank := Function.update f.bank b picture }

/-- Kick a bank that shows a frame. -/
def Fpga.ring (b : ℕ) (sample : Option BankReleaseStatus)
    (number : ℕ) (repaint : Bool) (overlay : Option O) (k : KickInput) : Fpga α O :=
  let r := kick policy f.kickMode k
  { f with
    kickMode := r.kickMode
    strictDdrRelease :=
      match policy,sample with
      | .requireReleased,some status =>
        if k.cleaned then
          if r.ok then f.strictDdrRelease.noteWrite status else f.strictDdrRelease.beginWrite
        else f.strictDdrRelease
      | _,_ => f.strictDdrRelease
    kicks := f.kicks ++ List.replicate r.rings ⟨number,repaint,overlay,f.bank b⟩ }

/-- What the kick of a bank reports. -/
def Fpga.rung (k : KickInput) : Bool :=
  (kick policy f.kickMode k).ok

end Fpga

section State

variable {α O : Type*} (c : Settings α O) (s : State α O)

/-- Pixels that a slot points to. -/
def State.pixels (j : Fin 2) : α :=
  match (s.slot j).ptr with
  | none => (s.slot j).heap
  | some b => s.fpga.bank b

/-- Write the pixels that a slot points to. -/
def State.setPixels (j : Fin 2) (x : α) : State α O :=
  { s with
    slot := Function.update s.slot j
      { s.slot j with heap := if (s.slot j).ptr = none then x else (s.slot j).heap }
    fpga :=
      match (s.slot j).ptr with
      | none => s.fpga
      | some b => s.fpga.write b x }

/-- The bank that the reader writes. -/
def State.readBank : Option ℕ :=
  match s.main with
  | .reading _ => (s.slot s.readSlot).ptr
  | _ => none

/-- Where the main thread is after a send wrote a bank. -/
def State.touch (b : ℕ) : MainPc α :=
  match s.main with
  | .reading touched => .reading (touched || (s.slot s.readSlot).ptr == some b)
  | m => m

/-- A send writes a bank, whatever else uses it. -/
def State.writeBank (b : ℕ) (picture : α) : State α O :=
  { s with
    fpga := s.fpga.write b picture
    overlapKept := s.overlapKept && !(s.overlapBank == some b)
    main := s.touch b }

/-- Free the bank held for a slot. -/
def State.releaseIngestBank (j : Fin 2) : State α O :=
  { s with
    bankHeld :=
      match (s.slot j).ingestBank with
      | some b => Function.update s.bankHeld b false
      | none => s.bankHeld
    slot := Function.update s.slot j { s.slot j with ingestBank := none } }

/-- The reader reaches the end of the stream. -/
def State.endReader : State α O := { s with main := .ended, readerEof := true }

/-- The frame that is read is complete: number it and give its slot to the present thread. -/
def State.publish : State α O :=
  { s with
    frameIndex := s.frameIndex+1
    slot := Function.update s.slot s.readSlot
      { s.slot s.readSlot with frameIndex := s.frameIndex+1 }
    readSlot := s.readSlot+1
    fullCount := s.fullCount+1 }

/-- A whole send: the bank is chosen, written and kicked. -/
def State.send (picture : α) (number : ℕ) (repaint : Bool) (overlay : Option O) (i : CopyInput)
    (k : KickInput) : State α O × Bool :=
  let s := { s with fpga := s.fpga.begin i }
  match s.fpga.target c.policy s.localBank i with
  | none => (s,false)
  | some (b,sample) =>
    let s := s.writeBank b picture
    ({ s with fpga := s.fpga.ring c.policy b sample number repaint overlay k },
      s.fpga.rung c.policy k)

/-- Send the next frame that was read ahead. -/
def State.sendAhead (loop : AheadLoop) (number : ℕ) (x : α) (rest : List (ℕ × α))
    (overlay : Option O) (i : CopyInput) (k : KickInput) : State α O :=
  match s.send c x number false overlay i k with
  | (s,true) =>
    { s with
      localBank := nextBank s.localBank
      lastPresented := number
      main := .sendingAhead loop rest }
  | (s,false) => { s with main := loop.next c }

/-- The present thread holds the lock of the presentation. -/
def PresentPc.locked : PresentPc α O → Bool
  | .copied .. | .kicked .. => true
  | _ => false

/-- The main thread looks for a pause here. -/
def MainPc.servicesPause : MainPc α → Bool
  | .looping => true
  | .reading _ => !c.useInproc
  | _ => false

/-- A pause leads to a repaint: there is a copy, and an overlay to show or to remove. -/
def State.Repaints (visible : Bool) : Prop :=
  s.main.servicesPause c=true ∧ s.present.locked=false ∧ s.lastPresentedFrameValid=true ∧
    (visible=true ∨ s.lastPresentedHadOverlay=true)

instance (visible : Bool) : Decidable (s.Repaints c visible) :=
  inferInstanceAs (Decidable (_ ∧ _ ∧ _ ∧ _))

/-- Repaint the last presented frame. -/
def State.repaint (visible : Bool) (overlay : Option O) (i : CopyInput) (k : KickInput) :
    State α O :=
  if s.Repaints c visible then
    match s.send c (c.shown overlay s.lastPresentedFrame) s.lastPresented true overlay i k with
    | (s,true) =>
      { s with
        localBank := nextBank s.localBank
        lastPresentedHadOverlay := overlay.isSome }
    | (s,false) =>
      if c.strictDdrPipeline then { s with pipelineFatal := true } else s
  else s

/-- Take a bank for the slot that is read next. -/
def State.takeBank (reading : Option BankReleaseStatus) : State α O :=
  match takeIngestBank reading s.bankHeld with
  | none =>
    { s with
      slot := Function.update s.slot s.readSlot
        { s.slot s.readSlot with ptr := none, ingestBank := none }
      main := .reading false }
  | some b =>
    if b ≤ 1 then
      { s with
        bankHeld := Function.update s.bankHeld b true
        slot := Function.update s.slot s.readSlot
          { s.slot s.readSlot with ptr := some b, ingestBank := some b }
        main := .reading false }
    else { s with pipelineFatal := true }.endReader

/-- One step of the main thread. -/
def State.mainStep : Action α O → State α O
  | .prefill delivered =>
    match s.main with
    | .prefilling left =>
      if 0 < left ∧ s.stop=false ∧ delivered = true then
        { (s.setPixels s.readSlot (c.src (s.frameIndex+1))).publish with
          main := .prefilling (left-1) }
      else { s with main := c.afterPrefill }
    | _ => s
  | .readAhead delivered =>
    match s.main with
    | .readingAhead loop left frames =>
      if 0 < left ∧ s.stop=false ∧ delivered = true then
        { s with
          frameIndex := s.frameIndex+1
          main := .readingAhead loop (left-1)
            (frames ++ [(s.frameIndex+1,c.src (s.frameIndex+1))]) }
      else { s with main := .sendingAhead loop frames }
    | _ => s
  | .sendAhead overlay i k =>
    match s.main with
    | .sendingAhead loop [] => { s with main := loop.next c }
    | .sendingAhead loop ((number,x)::rest) =>
      if s.stop then { s with main := loop.next c }
      else s.sendAhead c loop number x rest overlay i k
    | _ => s
  | .startThread =>
    match s.main with
    | .starting => { s with main := .looping, present := .waiting }
    | _ => s
  | .repaint visible overlay i k => s.repaint c visible overlay i k
  | .seek =>
    match s.main with
    | .looping => s.endReader
    | _ => s
  | .claim =>
    match s.main with
    | .looping =>
      if s.stop = true ∨ s.pipelineFatal = true then s.endReader
      else if s.fullCount < 2 then
        { s with main := if c.wantStickIngest then .claiming else .reading false }
      else s
    | _ => s
  | .takeBank reading =>
    match s.main with
    | .claiming => s.takeBank reading
    | _ => s
  | .readSome pixels =>
    match s.main with
    | .reading _ => s.setPixels s.readSlot pixels
    | _ => s
  | .readEnd full pixels =>
    match s.main with
    | .reading touched =>
      if s.pipelineFatal = true ∨ full = false then (s.releaseIngestBank s.readSlot).endReader
      else
        { (s.setPixels s.readSlot
            (if touched then pixels else c.src (s.frameIndex+1))).publish with
          main := .looping }
    | _ => s
  | _ => s

/-- Commit a bank that holds the frame, which is rung without a copy. -/
def State.commit (b after number : ℕ) (drawn : Drawn α O) (k : KickInput) : State α O :=
  { s with
    fpga := s.fpga.ring .bestEffort b none number false drawn.overlay k
    localBank := if s.fpga.rung .bestEffort k then after else s.localBank
    overlapBank := none
    present := .kicked (s.fpga.rung .bestEffort k) drawn }

/-- Copy the frame of the next slot to a bank. -/
def State.copyFrame (drawn : Drawn α O) (i : CopyInput) : State α O :=
  let s := { s with fpga := s.fpga.begin i, overlapBank := none }
  match s.fpga.target c.policy s.localBank i with
  | none => { s with present := .kicked false drawn }
  | some (b,sample) =>
    { s.writeBank b (s.pixels s.presentSlot) with present := .copied b sample drawn }

/-- The bank into which the frame of the next slot was read. -/
def State.ingested : Option ℕ :=
  match (s.slot s.presentSlot).ingestBank with
  | some b => if c.wantStickIngest = true ∧ b ≤ 1 then some b else none
  | none => none

/-- The bank into which the frame of the next slot was prefetched, if it is still to be used. -/
def State.prefetched : Option ℕ :=
  match s.overlapBank with
  | some b => if b = s.localBank then some b else none
  | none => none

/-- Prepare the frame of the next slot, draw the overlay, and commit or copy it. -/
def State.prepare (overlay : Option O) (live : Bool) (i : CopyInput) (k : KickInput) : State α O :=
  let before := c.prep (s.pixels s.presentSlot)
  let drawn : Drawn α O :=
    ⟨overlay,before,!c.beamPace && !c.wantStickIngest && c.hd && !c.bank960 && live⟩
  let number := (s.slot s.presentSlot).frameIndex
  let s := s.setPixels s.presentSlot (c.shown overlay before)
  match s.ingested c,s.prefetched with
  | some b,_ => s.commit b (b ^^^ 1) number drawn k
  | none,some b => s.commit b (nextBank b) number drawn k
  | none,none => s.copyFrame c drawn i

/-- Prefetch the frame of the slot after the next into a free bank that is not displayed. -/
def State.prefetch (visible : Bool) (reading : Option BankReleaseStatus) : State α O :=
  if s.overlapBank = none ∧ c.wantStickIngest=false ∧ visible=false ∧ c.hd=true ∧
      c.bank960=false ∧ 2 ≤ s.fullCount then
    match reading with
    | none => s
    | some r =>
      match r.freeBank with
      | none => s
      | some dest =>
        if dest = r.dispBank.toNat then s
        else
          { s.writeBank dest (c.prep (s.pixels (s.presentSlot+1))) with
            overlapBank := some dest
            overlapKept := true
            localBank := dest }
  else s

/-- Restore the frame and note what was presented. -/
def State.finish (ok : Bool) (drawn : Drawn α O) (visible : Bool) : State α O :=
  let s := if drawn.overlay.isSome then s.setPixels s.presentSlot drawn.before else s
  let keeps := !c.skipLastPresented && (drawn.overlay.isSome || visible)
  if ok then
    { s with
      lastPresentedFrame := if keeps then s.pixels s.presentSlot else s.lastPresentedFrame
      lastPresentedFrameValid := keeps
      lastPresentedHadOverlay := drawn.overlay.isSome
      lastPresented := (s.slot s.presentSlot).frameIndex
      present := .releasing }
  else
    { s with
      pipelineFatal := s.pipelineFatal || c.strictDdrPipeline
      present := .releasing }

/-- One step of the present thread. -/
def State.presentStep : Action α O → State α O
  | .take =>
    match s.present with
    | .waiting =>
      if s.fullCount = 0 then
        if s.readerEof = true ∨ s.stop=true ∨ s.pipelineFatal = true then
          { s with present := .finished }
        else s
      else { s with present := .gating }
    | _ => s
  | .gate action =>
    match s.present with
    | .gating =>
      if c.strictDdrPipeline then
        if s.stop = true ∨ s.pipelineFatal = true then { s with present := .releasing }
        else
          match action with
          | .hold => s
          | .drop => { s with present := .releasing }
          | .present => { s with present := .presenting }
      else { s with present := .presenting }
    | _ => s
  | .prepare overlay live i k =>
    match s.present with
    | .presenting => s.prepare c overlay live i k
    | _ => s
  | .ring k =>
    match s.present with
    | .copied b sample drawn =>
      { s with
        fpga := s.fpga.ring c.policy b sample (s.slot s.presentSlot).frameIndex false
          drawn.overlay k
        localBank := if s.fpga.rung c.policy k then nextBank s.localBank else s.localBank
        present := .kicked (s.fpga.rung c.policy k) drawn }
    | _ => s
  | .prefetch visible reading =>
    match s.present with
    | .kicked true drawn => if drawn.live then s.prefetch c visible reading else s
    | _ => s
  | .finish visible =>
    match s.present with
    | .kicked ok drawn => s.finish c ok drawn visible
    | _ => s
  | .release =>
    match s.present with
    | .releasing =>
      let s := s.releaseIngestBank s.presentSlot
      { s with
        presentSlot := s.presentSlot+1
        fullCount := s.fullCount-1
        present := if s.pipelineFatal then .finished else .waiting }
    | _ => s
  | _ => s

/-- One step of the main or the present thread, or a request to stop. -/
def State.step (a : Action α O) : State α O :=
  match a with
  | .requestStop => { s with stop := true }
  | .prefill _ | .readAhead _ | .sendAhead .. | .startThread | .repaint .. | .seek | .claim
  | .takeBank _ | .readSome _ | .readEnd .. => s.mainStep c a
  | .take | .gate _ | .prepare .. | .ring _ | .prefetch .. | .finish _ | .release =>
    s.presentStep c a

/-- The state in which a playback begins. -/
def State.start (fpga : Fpga α O) (heap : Fin 2 → α) (last : α) (localBank : ℕ) :
    State α O where
  fpga := { fpga with kicks := [] }
  slot j := ⟨heap j,none,none,0⟩
  readSlot := 0
  presentSlot := 0
  fullCount := 0
  frameIndex := 0
  bankHeld _ := false
  localBank := localBank
  overlapBank := none
  overlapKept := false
  lastPresentedFrame := last
  lastPresentedFrameValid := false
  lastPresentedHadOverlay := false
  lastPresented := 0
  main := c.startMain
  present := .notStarted
  readerEof := false
  stop := false
  pipelineFatal := false

end State

end Misterplex.Pipeline
