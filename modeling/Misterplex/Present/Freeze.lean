import Misterplex.Present.AvGateRun

/-!
# The freeze of audio and video

Where the slack covers the depth of the ring and the content time of the frame
at the gate and the dropped ones, no state of a run is frozen.
-/

namespace Misterplex.Present

open Misterplex.Trace

variable {c : Settings} {s : State}

theorem State.Sound.not_frozen (h : s.Sound) (hroom : s.HasRoom c) : ¬s.Frozen c := by
  intro hfrozen
  obtain ⟨audio,hpump,hheld⟩ := hfrozen.pumpWaits
  obtain ⟨frame,hgated,hholds⟩ := hfrozen.presentHolds
  have hordered := h.ordered hfrozen.running.1 hfrozen.running.2.1
  have hframe : frame=s.presentCount+s.droppedFrames+1 := hordered.gated hgated
  have haudio : audio=s.audioBytes := h.held audio hpump
  have hpositive : 0<s.presentCount := hheld.2.2.1
  have hspace : c.Room s.audioQueuedBytes.toNat s.droppedFrames := by
    rcases hroom with hzero | hspace
    · omega
    · exact hspace
  rw [haudio] at hheld
  have hheard : c.frameUs (s.presentCount+s.droppedFrames+1) ≤
      audibleClockUs s.audioBytes s.audioQueuedBytes :=
    hspace.heard hheld le_rfl (Int.self_le_toNat _)
  rw [hframe] at hholds
  exact Settings.decide_ne_hold hheard hholds

/-- In a run whose states all have room, no state is frozen. -/
theorem never_frozen (c : Settings) (actions : List Action)
    (hroom : Throughout (State.step c) (State.HasRoom c) {} actions) :
    Throughout (State.step c) (fun s => ¬s.Frozen c) {} actions :=
  Throughout.mono_of (fun _ a h => State.Sound.step h a) (fun _ h => h.not_frozen) sound_start hroom

/-- A run at 24 frames per second that presents the first frame and holds the second one, with
a smoothed depth of five milliseconds. -/
def shallowRun : List Action :=
  [.pumpTurn,.chunk 3840,.recheck,.sample (some 960),.pumpTurn,.chunk 3840,.recheck,
    .sample none,.pumpTurn,.chunk 3840,.recheck,.sample none,.deliver,.take,.gate 0,
    .loadBytes,.loadQueued,.settle,.send true,.release,.deliver,.take,.gate 0,.loadBytes,
    .loadQueued,.settle]

/-- Playback at 24 frames per second with a depth of five milliseconds is not frozen. -/
theorem never_frozen_shallow :
    Throughout (State.step ⟨24,1,80⟩) (fun s => ¬s.Frozen ⟨24,1,80⟩) {} shallowRun :=
  never_frozen ⟨24,1,80⟩ shallowRun (by decide)

/-- A run at 24 frames per second whose depth readings are what was submitted: the first frame is
presented, and a short chunk is past the slack with the second frame at the gate. -/
def deepRun : List Action :=
  [.pumpTurn,.chunk 3840,.recheck,.sample (some 3840),.pumpTurn,.chunk 3840,.recheck,
    .sample none,.pumpTurn,.chunk 3840,.recheck,.sample none,.pumpTurn,.chunk 3840,.recheck,
    .sample none,.pumpTurn,.chunk 3840,.recheck,.sample (some 19200),.deliver,.take,
    .gate 0,.loadBytes,.loadQueued,.settle,.send true,.release,.deliver,.take,.gate 0,
    .loadBytes,.loadQueued,.settle,.pumpTurn,.chunk 3840,.recheck,.sample none,.pumpTurn,
    .chunk 480]

theorem deepRun_frozen :
    (finalState (State.step ⟨24,1,80⟩) {} deepRun).Frozen ⟨24,1,80⟩ :=
  ⟨by decide,⟨23520,by decide⟩,⟨2,by decide⟩⟩

/-- Playback freezes in a run whose depth readings are at most what was submitted. -/
theorem not_never_frozen :
    ¬∀ (c : Settings) (actions : List Action),
      Along (State.step c) (fun s a => a.Reads s.audioBytes) {} actions →
        Throughout (State.step c) (fun s => ¬s.Frozen c) {} actions :=
  fun h => (h ⟨24,1,80⟩ deepRun (by decide)).last deepRun_frozen

end Misterplex.Present
