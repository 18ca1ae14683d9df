import Misterplex.Present.PipelineSteps

/-!
# Frames are kicked in order

A run of clean steps kicks the frames in order, each once and as it is to be shown,
and the reader stays out of the slots whose frames are still to be presented. The
warm-up breaks the order: it kicks frames that it read ahead before the two frames
that it had read into the ring.
-/

namespace Misterplex.Pipeline

open BankRelease
open Present (AvAction)

variable {α O : Type*} {c : Settings α O} {s : State α O}

/-- Where the pixels of a slot stand: in its own buffer or in a bank. -/
def State.place (s : State α O) (j : Fin 2) : Fin 2 ⊕ ℕ :=
  match (s.slot j).ptr with
  | none => .inl j
  | some b => .inr b

/-- The presenter does what it is for. -/
structure State.InOrder (c : Settings α O) (s : State α O) : Prop where
  /-- Frames are kicked in increasing number, each at most once. -/
  rising : s.fpga.movie.Pairwise (· < ·)
  /-- Every kick rings a bank that holds its frame, with its overlay; a repaint shows the frame
  presented last. -/
  shows : s.fpga.Shows c
  /-- The reader writes no slot whose frame is still to be presented. -/
  keeps : s.main.reads=true → ∀ j, s.Full j → s.place j≠s.place s.readSlot

theorem State.Sound.inOrder (h : s.Sound c) : s.InOrder c := by
  refine ⟨h.lined.rising,h.exact.shows,fun hreads j hfull => ?_⟩
  have hroom : s.fullCount≤1 := by
    refine h.laid.room ?_
    cases hmain : s.main with
    | reading touched => rfl
    | _ =>
      rw [hmain] at hreads
      cases hreads
  have hne : s.readSlot≠j := by
    rintro rfl
    exact h.laid.not_full hroom hfull
  have hapart : ∀ b, (s.slot s.readSlot).ptr=some b → (s.slot j).ptr≠some b := fun b hb =>
    h.laid.apart_of_ne hne (Or.inr ⟨hreads,rfl⟩) (Or.inl hfull) hb
  unfold State.place
  cases hread : (s.slot s.readSlot).ptr with
  | none =>
    cases hj : (s.slot j).ptr with
    | none => exact fun hsame => hne (Sum.inl.inj hsame).symm
    | some b => exact nofun
  | some b =>
    cases hj : (s.slot j).ptr with
    | none => exact nofun
    | some b' =>
      intro hsame
      rw [Sum.inr.inj hsame] at hj
      exact hapart b hread hj

/-- Frames are numbers, an overlay adds a hundred and the preparation a thousand. -/
def numbered (geometry : Geometry) : Settings ℕ Unit where
  useInproc := true
  geometry := geometry
  bank960 := false
  budget960 := false
  source720 := true
  stickIngest := false
  beamPace := false
  skipLastPresented := false
  src n := n
  prep x := if geometry = .plex720 then x else x+1000
  draw _ x := x+100

/-- A writer whose doorbell works. -/
def rungBefore : Fpga ℕ Unit := ⟨.doorbell,{},fun _ => 0,[]⟩

/-- A playback of numbered frames. -/
def numberedStart (geometry : Geometry) : State ℕ Unit :=
  State.start (numbered geometry) rungBefore (fun _ => 0) 0 0

/-- The first bank is free. -/
def bankFree (frames : BitVec 16) : CopyInput := ⟨false,true,[⟨1#2,1#1,false,frames⟩]⟩

/-- A doorbell that is seen. -/
def doorbellRung : KickInput := ⟨true,true,true,true,true,true⟩

/-- Two frames are read and presented, the first with an overlay that a pause repaints. -/
def twoFrames : List (Action ℕ Unit) :=
  [.startThread,.claim,.readEnd true 0,.take,.gate .present,
    .prepare (some ()) true (bankFree 0) doorbellRung,.claim,.ring doorbellRung,
    .readEnd true 0,.finish true,.repaint true (some ()) (bankFree 1) doorbellRung,.release,
    .take,.gate .present,.prepare none true (bankFree 2) doorbellRung,.ring doorbellRung,
    .finish false,.release]

/-- Three frames with the size of 720p: two fill the ring and the third is read ahead. -/
def threeFrames : List (Action ℕ Unit) :=
  [.prefill true,.prefill true,.prefill false,.readAhead true,.readAhead false,
    .sendAhead none (bankFree 0) doorbellRung,.sendAhead none (bankFree 0) doorbellRung,
    .startThread,.take,.gate .present,.prepare none false (bankFree 1) doorbellRung,
    .ring doorbellRung]

theorem threeFrames_kicked :
    (Trace.finalState (State.step (numbered .plex720)) (numberedStart .plex720)
      threeFrames).fpga.movie=[3,1] := by
  decide +kernel

end Misterplex.Pipeline
