import Misterplex.Present.AvGate
import Mathlib.Tactic.Linarith
import Mathlib.Tactic.Ring

/-!
# When the audio pump and the present thread never freeze each other

The pump holds back only more than the slack ahead of the presented frames; the
frame at the gate is one frame and the dropped ones past them. What is heard
lacks the depth of the ring, so nothing freezes while the depth and the content
time of these frames fit in the slack. In that case the audio past which the
pump holds back has been heard past the frame at the gate.
-/

namespace Misterplex.Present

open Misterplex.Trace List

variable {c : Settings} {s : State}

/-- The depth and the dropped frames of a playback leave room: the slack covers the content time
of the frame at the gate and the dropped ones, and the depth. -/
def Settings.Room (c : Settings) (depth drops : ℕ) : Prop :=
  c.fpsNum≤0 ∨ c.fpsDen≤0 ∨
    depth*(c.fpsNum*1000)+(drops+1)*(c.fpsDen*1000)*kMrAudioBytesPerSec ≤
      audioHoldSlackMs*c.fpsNum*kMrAudioBytesPerSec

instance (c : Settings) (depth drops : ℕ) : Decidable (c.Room depth drops) :=
  inferInstanceAs (Decidable (_ ∨ _ ∨ _))

/-- A frame was presented only where the stored depth and the dropped frames leave room. -/
def State.HasRoom (c : Settings) (s : State) : Prop :=
  s.presentCount=0 ∨ c.Room s.audioQueuedBytes.toNat s.droppedFrames

instance (c : Settings) (s : State) : Decidable (s.HasRoom c) :=
  inferInstanceAs (Decidable (_ ∨ _))

/-- The depth that the step reads is at most the given one. -/
def Action.Reads (limit : ℕ) : Action → Prop
  | .sample (some q) => q≤limit
  | _ => True

instance (limit : ℕ) (a : Action) : Decidable (a.Reads limit) := by
  unfold Action.Reads
  split <;> infer_instance

/-- The number of the first full slot: the presented frames and the dropped ones come before it,
and the slot of a frame that was just shown or dropped is still to be freed. -/
def State.shown (s : State) : ℕ :=
  match s.present with
  | .releasing => s.presentCount+s.droppedFrames
  | _ => s.presentCount+s.droppedFrames+1

/-- The present thread has its frame from the first full slot. -/
def PresentPc.Holds : PresentPc → List ℕ → Prop
  | .gating frame,ring => ring.head?=some frame
  | .clocking frame _ _,ring => ring.head?=some frame
  | .sending frame,ring => ring.head?=some frame
  | .releasing,ring => ring ≠ []
  | _,_ => True

/-- The full slots hold consecutive frames. -/
structure State.Ordered (s : State) : Prop where
  /-- The slots hold the frames that were not shown yet, in order. -/
  ring : s.ring=List.range' s.shown s.ring.length
  /-- The last full slot holds the frame that was delivered last. -/
  last : s.frameIndex+1=s.shown+s.ring.length
  /-- The present thread has its frame from the first slot. -/
  holds : s.present.Holds s.ring

theorem Settings.frameUs_known (hnum : 0<c.fpsNum) (hden : 0<c.fpsDen) (frame : ℕ) :
    c.frameUs frame=frame*1000000*c.fpsDen/c.fpsNum := by
  have hpaceNum : c.paceNum=c.fpsNum := if_pos hnum
  have hpaceDen : c.paceDen=c.fpsDen := if_pos ⟨hnum,hden⟩
  have hknown : ¬(c.fpsNum≤0 ∨ c.fpsDen≤0) := by omega
  rw [Settings.frameUs,hpaceNum,hpaceDen,frameContentUs,if_neg hknown]
  simp only [avOffsetMs,Int.zero_mul,Int.add_zero]

theorem le_audibleClockUs {written depth time : ℕ} {queued : ℤ} (hqueued : queued≤depth)
    (htime : time*kMrAudioBytesPerSec≤(written-depth)*1000000) :
    (time : ℤ)≤audibleClockUs written queued := by
  unfold kMrAudioBytesPerSec at htime
  unfold audibleClockUs kMrAudioBytesPerSec
  dsimp only
  split <;> split <;> omega

/-- A frame whose content time, with the largest depth, is submitted has been heard. -/
theorem frameUs_le_audibleClockUs (hnum : 0<c.fpsNum) (hden : 0<c.fpsDen)
    {written depth frame : ℕ} {queued : ℤ} (hqueued : queued≤depth)
    (hreach : frame*c.fpsDen*kMrAudioBytesPerSec≤(written-depth)*c.fpsNum) :
    c.frameUs frame≤audibleClockUs written queued := by
  have hframe := c.frameUs_known hnum hden frame
  have hpos : 0≤frame*1000000*c.fpsDen/c.fpsNum :=
    Int.ediv_nonneg (by positivity) hnum.le
  obtain ⟨time,htime⟩ := Int.eq_ofNat_of_zero_le hpos
  rw [hframe,htime]
  apply le_audibleClockUs hqueued
  have hfloor : time*c.fpsNum≤frame*1000000*c.fpsDen :=
    htime ▸ Int.ediv_mul_le _ hnum.ne'
  have hscaled : time*kMrAudioBytesPerSec*c.fpsNum ≤
      (written-depth)*1000000*c.fpsNum := by
    unfold kMrAudioBytesPerSec at hreach ⊢
    linarith
  exact le_of_mul_le_mul_right hscaled hnum

/-- Where there is room, audio that is past the slack has been heard past the frame at the gate. -/
theorem Settings.Room.heard {depth drops : ℕ} (hroom : c.Room depth drops)
    {audio presents dropped : ℕ} {queued : ℤ} (hheld : c.holdsBack audio presents)
    (hdropped : dropped≤drops) (hqueued : queued≤depth) :
    c.frameUs (presents+dropped+1)≤audibleClockUs audio queued := by
  obtain ⟨hnum,hden,_,hpast⟩ := hheld
  have hbound : depth*(c.fpsNum*1000)+(drops+1)*(c.fpsDen*1000)*kMrAudioBytesPerSec ≤
      audioHoldSlackMs*c.fpsNum*kMrAudioBytesPerSec := by
    rcases hroom with h | h | h
    · omega
    · omega
    · exact h
  apply frameUs_le_audibleClockUs hnum hden hqueued
  have hfewer : (dropped : ℤ)*c.fpsDen≤drops*c.fpsDen :=
    mul_le_mul_of_nonneg_right (by exact_mod_cast hdropped) hden.le
  push_cast
  unfold kMrAudioBytesPerSec at *
  linarith

theorem Settings.decide_ne_hold {clockUs : ℤ} {frame dropRun : ℕ}
    (h : c.frameUs frame≤clockUs) : c.decide clockUs frame dropRun ≠ .hold := by
  unfold Settings.decide avDecide presentLeadMs
  split
  · simp
  · rw [if_neg (by omega)]
    simp

theorem State.storeDepth_pump (s : State) (reading : Option ℕ) :
    (s.storeDepth reading).pump=s.pump ∧ (s.storeDepth reading).audioBytes=s.audioBytes := by
  cases reading <;> exact ⟨rfl,rfl⟩

/-- The part of the state by which the frames are ordered. -/
def State.video (s : State) : PresentPc × List ℕ × ℕ × ℕ × ℕ × Bool × Bool :=
  (s.present,s.ring,s.frameIndex,s.presentCount,s.droppedFrames,s.stop,s.pipelineFatal)

/-- The part of the state by which the audio is paced. -/
def State.audio (s : State) : ℕ × ℤ × ℤ × PumpPc :=
  (s.audioBytes,s.audioQueuedBytes,s.queuedEma,s.pump)

theorem State.storeDepth_video (s : State) (reading : Option ℕ) :
    (s.storeDepth reading).video=s.video := by
  cases reading <;> rfl

open State

theorem State.pumpStep_video (s : State) (a : Action) : (s.pumpStep c a).video=s.video := by
  cases a with
  | pumpTurn => simp only [State.pumpStep]; split <;> [split <;> [rfl; split <;> rfl]; rfl]
  | chunk n => simp only [State.pumpStep]; split <;> [split <;> [rfl; split <;> rfl]; rfl]
  | recheck => simp only [State.pumpStep]; split <;> [split <;> rfl; rfl]
  | sample reading =>
    simp only [State.pumpStep]
    split
    · split
      · rw [storeDepth_video]
        rfl
      · rfl
    · rfl
  | _ => rfl

/-- The present thread changes its place, the slots, its counters and the mark of a frame that
could not be sent, which it never clears. -/
theorem State.presentStep_touches (s : State) (a : Action) :
    ∃ present ring presentCount dropRun droppedFrames pipelineFatal,
      s.presentStep c a =
        { s with present, ring, presentCount, dropRun, droppedFrames, pipelineFatal } ∧
      (s.pipelineFatal=true → pipelineFatal=true) := by
  have hsame : ∃ present ring presentCount dropRun droppedFrames pipelineFatal,
      s = { s with present, ring, presentCount, dropRun, droppedFrames, pipelineFatal } ∧
      (s.pipelineFatal=true → pipelineFatal=true) := ⟨_,_,_,_,_,_,rfl,id⟩
  have hfollow : ∀ frame action, ∃ present ring presentCount dropRun droppedFrames pipelineFatal,
      s.follow frame action =
        { s with present, ring, presentCount, dropRun, droppedFrames, pipelineFatal } ∧
      (s.pipelineFatal=true → pipelineFatal=true) := by
    intro frame action
    cases action <;> exact ⟨_,_,_,_,_,_,rfl,id⟩
  cases a with
  | take =>
    simp only [State.presentStep]
    split
    · exact ⟨_,_,_,_,_,_,rfl,id⟩
    · split
      · exact ⟨_,_,_,_,_,_,rfl,id⟩
      · exact hsame
    · exact hsame
  | gate wallUs =>
    simp only [State.presentStep]
    split
    · split
      · exact ⟨_,_,_,_,_,_,rfl,id⟩
      · split
        · exact hsame
        · split
          · exact ⟨_,_,_,_,_,_,rfl,id⟩
          · exact hfollow _ _
    · exact hsame
  | loadBytes =>
    simp only [State.presentStep]
    split
    · exact ⟨_,_,_,_,_,_,rfl,id⟩
    · exact hsame
  | loadQueued =>
    simp only [State.presentStep]
    split
    · exact ⟨_,_,_,_,_,_,rfl,id⟩
    · exact hsame
  | settle =>
    simp only [State.presentStep]
    split
    · exact hfollow _ _
    · exact hsame
  | send ok =>
    simp only [State.presentStep]
    split
    · split
      · exact ⟨_,_,_,_,_,_,rfl,id⟩
      · exact ⟨_,_,_,_,_,_,rfl,fun _ => rfl⟩
    · exact hsame
  | release =>
    simp only [State.presentStep]
    split
    · exact ⟨_,_,_,_,_,_,rfl,id⟩
    · exact hsame
  | _ => exact hsame

theorem State.presentStep_audio (s : State) (a : Action) :
    (s.presentStep c a).audio=s.audio := by
  obtain ⟨_,_,_,_,_,_,htouches,_⟩ := s.presentStep_touches (c := c) a
  rw [htouches]
  rfl

theorem State.otherStep_audio (s : State) (a : Action) : (s.otherStep a).audio=s.audio := by
  cases a with
  | deliver => simp only [State.otherStep]; split <;> rfl
  | _ => rfl

/-- The pump compares what was submitted. -/
def State.Held (s : State) : Prop := ∀ audio, s.pump = .holding audio → audio=s.audioBytes

/-- Only the audio counts. -/
theorem State.Held.congr {t : State} (h : s.Held) (haudio : t.audio=s.audio) : t.Held := by
  simp only [audio,Prod.mk.injEq] at haudio
  obtain ⟨hbytes,_,_,hpump⟩ := haudio
  exact fun audio hheld => hbytes ▸ h audio (hpump ▸ hheld)

theorem State.Held.pumpStep (h : s.Held) (a : Action) : (s.pumpStep c a).Held := by
  cases a with
  | pumpTurn =>
    simp only [State.pumpStep]
    split
    · split
      · exact fun _ hheld => PumpPc.noConfusion hheld
      · split
        · exact h
        · exact fun _ hheld => PumpPc.noConfusion hheld
    · exact h
  | chunk n =>
    simp only [State.pumpStep]
    split
    · split
      · exact fun _ hheld => PumpPc.noConfusion hheld
      · split
        · exact fun _ hheld => (PumpPc.holding.inj hheld).symm
        · exact h
    · exact h
  | recheck =>
    simp only [State.pumpStep]
    split
    · split
      · exact h
      · exact fun _ hheld => PumpPc.noConfusion hheld
    · exact h
  | sample reading =>
    simp only [State.pumpStep]
    split
    · split
      · intro audio hheld
        rw [(storeDepth_pump _ reading).1] at hheld
        exact PumpPc.noConfusion hheld
      · exact fun _ hheld => PumpPc.noConfusion hheld
    · exact h
  | _ => exact h

/-- Only the video counts. -/
theorem State.Ordered.congr {t : State} (h : s.Ordered) (hvideo : t.video=s.video) : t.Ordered := by
  simp only [video,Prod.mk.injEq] at hvideo
  obtain ⟨hpresent,hring,hindex,hcount,hdropped,_,_⟩ := hvideo
  have hshown : t.shown=s.shown := by
    unfold shown
    rw [hpresent,hcount,hdropped]
  constructor
  · rw [hring,hshown]
    exact h.ring
  · rw [hring,hshown,hindex]
    exact h.last
  · rw [hring,hpresent]
    exact h.holds

/-- A frame at the gate is in the first slot, whose frame comes after the presented and the
dropped ones. -/
theorem State.Ordered.front (h : s.Ordered) {frame : ℕ} (hgated : s.present.gated=some frame) :
    s.ring.head?=some frame ∧ s.shown=s.presentCount+s.droppedFrames+1 := by
  have hholds := h.holds
  unfold shown
  cases hpresent : s.present with
  | gating f =>
    rw [hpresent] at hholds hgated
    exact ⟨hholds.trans hgated,rfl⟩
  | clocking f bytes queued =>
    rw [hpresent] at hholds hgated
    exact ⟨hholds.trans hgated,rfl⟩
  | _ =>
    rw [hpresent] at hgated
    simp only [PresentPc.gated,reduceCtorEq] at hgated

/-- The frame at the gate is the one after the frames that were presented or dropped. -/
theorem State.Ordered.gated (h : s.Ordered) {frame : ℕ} (hgated : s.present.gated=some frame) :
    frame=s.presentCount+s.droppedFrames+1 := by
  obtain ⟨hhead,hshown⟩ := h.front hgated
  have hring := h.ring
  cases hslots : s.ring with
  | nil =>
    rw [hslots] at hhead
    simp only [head?_nil,reduceCtorEq] at hhead
  | cons first rest =>
    rw [hslots] at hhead hring
    have hfirst : first=frame := Option.some.inj hhead
    have hnumber : first=s.shown := (cons.inj hring).1
    omega

theorem State.Ordered.follow (h : s.Ordered) {frame : ℕ} (hgated : s.present.gated=some frame)
    (action : AvAction) : (s.follow frame action).Ordered := by
  obtain ⟨hhead,hshown⟩ := h.front hgated
  have hring := h.ring
  have hlast := h.last
  rw [hshown] at hring hlast
  cases action with
  | hold => exact ⟨hring,hlast,hhead⟩
  | present => exact ⟨hring,hlast,hhead⟩
  | drop =>
    refine ⟨hring,hlast,fun hempty => ?_⟩
    have hnone : s.ring=[] := hempty
    rw [hnone] at hhead
    simp only [head?_nil,reduceCtorEq] at hhead

/-- The present thread keeps the order of the frames, unless the threads are asked to end. -/
theorem State.Ordered.presentStep (h : s.Ordered) (hstop : s.stop=false)
    (hfatal : s.pipelineFatal=false) (a : Action)
    (hstill : (s.presentStep c a).pipelineFatal=false) : (s.presentStep c a).Ordered := by
  have hring := h.ring
  have hlast := h.last
  have hholds := h.holds
  unfold shown at hring hlast
  cases a with
  | take =>
    simp only [State.presentStep]
    split
    · rename_i frame rest hpresent hslots
      rw [hpresent] at hring hlast
      refine ⟨hring,hlast,?_⟩
      rw [hslots]
      rfl
    · rename_i hpresent hslots
      split
      · rw [hpresent] at hring hlast
        exact ⟨hring,hlast,trivial⟩
      · exact h
    · exact h
  | gate wallUs =>
    simp only [State.presentStep]
    split
    · rename_i frame hpresent
      rw [if_neg (by simp [hstop,hfatal])]
      split
      · exact h
      · split
        · rw [hpresent] at hring hlast hholds
          exact ⟨hring,hlast,hholds⟩
        · exact h.follow (by rw [hpresent]; rfl) _
    · exact h
  | loadBytes =>
    simp only [State.presentStep]
    split
    · rename_i frame queued hpresent
      rw [hpresent] at hring hlast hholds
      exact ⟨hring,hlast,hholds⟩
    · exact h
  | loadQueued =>
    simp only [State.presentStep]
    split
    · rename_i frame bytes hpresent
      rw [hpresent] at hring hlast hholds
      exact ⟨hring,hlast,hholds⟩
    · exact h
  | settle =>
    simp only [State.presentStep]
    split
    · rename_i frame bytes queued hpresent
      exact h.follow (by rw [hpresent]; rfl) _
    · exact h
  | send ok =>
    simp only [State.presentStep] at hstill ⊢
    split
    · rename_i frame hpresent
      rw [hpresent] at hring hlast hholds hstill
      cases ok with
      | true =>
        have hcount : s.presentCount+s.droppedFrames+1 =
            s.presentCount+1+s.droppedFrames := by omega
        rw [hcount] at hring hlast
        refine ⟨hring,hlast,fun hempty => ?_⟩
        have hnone : s.ring=[] := hempty
        rw [hnone] at hholds
        simp only [PresentPc.Holds,head?_nil,reduceCtorEq] at hholds
      | false => exact absurd hstill (by simp)
    · exact h
  | release =>
    simp only [State.presentStep]
    split
    · rename_i hpresent
      rw [hpresent] at hring hlast hholds
      have hpc : (if s.pipelineFatal = true then PresentPc.finished else PresentPc.waiting) =
          .waiting := by rw [hfatal]; rfl
      cases hslots : s.ring with
      | nil => exact absurd hslots hholds
      | cons first rest =>
        rw [hslots,length_cons] at hring hlast
        refine ⟨?_,?_,?_⟩
        · simp only [hpc,shown,tail_cons]
          exact (cons.inj hring).2
        · simp only [hpc,shown,tail_cons]
          dsimp only at hlast
          omega
        · simp only [hpc]
          trivial
    · exact h
  | _ => exact h

theorem State.Ordered.otherStep (h : s.Ordered) (a : Action) : (s.otherStep a).Ordered := by
  cases a with
  | deliver =>
    simp only [State.otherStep]
    split
    · exact h
    · have hlast := h.last
      have hnext : s.shown+s.ring.length=s.frameIndex+1 := hlast.symm
      refine ⟨?_,?_,?_⟩
      · change s.ring ++ [s.frameIndex+1] = range' s.shown (s.ring ++ [s.frameIndex+1]).length
        rw [length_append,length_singleton,range'_1_concat,hnext,← h.ring]
      · change s.frameIndex+1+1 = s.shown+(s.ring ++ [s.frameIndex+1]).length
        rw [length_append,length_singleton]
        omega
      · have hholds := h.holds
        cases hpresent : s.present with
        | waiting => trivial
        | finished => trivial
        | releasing => exact append_ne_nil_of_right_ne_nil _ (cons_ne_nil _ _)
        | _ =>
          rw [hpresent] at hholds
          simp only [PresentPc.Holds,head?_append] at hholds ⊢
          rw [hholds]
          rfl
  | videoEof => exact ⟨h.ring,h.last,h.holds⟩
  | setPaused paused => exact ⟨h.ring,h.last,h.holds⟩
  | requestStop => exact ⟨h.ring,h.last,h.holds⟩
  | _ => exact h

theorem State.step_running (a : Action) (hstop : (s.step c a).stop=false)
    (hfatal : (s.step c a).pipelineFatal=false) : s.stop=false ∧ s.pipelineFatal=false := by
  have hpump : (s.pumpStep c a).stop=s.stop ∧
      (s.pumpStep c a).pipelineFatal=s.pipelineFatal := by
    have hvideo := s.pumpStep_video (c := c) a
    simp only [video,Prod.mk.injEq] at hvideo
    exact hvideo.2.2.2.2.2
  obtain ⟨_,_,_,_,_,fatal,htouches,hkeeps⟩ := s.presentStep_touches (c := c) a
  have hpresent : (s.presentStep c a).stop=s.stop ∧
      ((s.presentStep c a).pipelineFatal=false → s.pipelineFatal=false) := by
    rw [htouches]
    refine ⟨rfl,fun hfalse => ?_⟩
    cases hwas : s.pipelineFatal with
    | false => rfl
    | true => exact absurd (hkeeps hwas) (by simpa using hfalse)
  cases a with
  | pumpTurn => exact ⟨hpump.1 ▸ hstop,hpump.2 ▸ hfatal⟩
  | chunk n => exact ⟨hpump.1 ▸ hstop,hpump.2 ▸ hfatal⟩
  | recheck => exact ⟨hpump.1 ▸ hstop,hpump.2 ▸ hfatal⟩
  | sample reading => exact ⟨hpump.1 ▸ hstop,hpump.2 ▸ hfatal⟩
  | deliver =>
    simp only [step,State.otherStep] at hstop hfatal
    split at hstop <;> split at hfatal <;> exact ⟨hstop,hfatal⟩
  | videoEof => exact ⟨hstop,hfatal⟩
  | setPaused paused => exact ⟨hstop,hfatal⟩
  | requestStop => exact absurd hstop (by simp [step,State.otherStep])
  | _ => exact ⟨hpresent.1 ▸ hstop,hpresent.2 hfatal⟩

/-- What every run keeps: the pump compares what was submitted, and until something asks the
threads to end, the slots hold the frames in order. -/
structure State.Sound (s : State) : Prop where
  /-- The pump compares what was submitted. -/
  held : s.Held
  /-- The slots hold the frames in order. -/
  ordered : s.stop=false → s.pipelineFatal=false → s.Ordered

theorem sound_start : ({} : State).Sound :=
  ⟨fun _ hheld => PumpPc.noConfusion hheld,fun _ _ => ⟨rfl,rfl,trivial⟩⟩

/-- Every step of either thread is sound. -/
theorem State.Sound.step (h : s.Sound) (a : Action) : (s.step c a).Sound := by
  constructor
  · cases a with
    | pumpTurn => exact h.held.pumpStep _
    | chunk n => exact h.held.pumpStep _
    | recheck => exact h.held.pumpStep _
    | sample reading => exact h.held.pumpStep _
    | deliver => exact h.held.congr (s.otherStep_audio _)
    | videoEof => exact h.held.congr (s.otherStep_audio _)
    | setPaused paused => exact h.held.congr (s.otherStep_audio _)
    | requestStop => exact h.held.congr (s.otherStep_audio _)
    | _ => exact h.held.congr (s.presentStep_audio _)
  · intro hstop hfatal
    obtain ⟨hstopped,hfailed⟩ := step_running a hstop hfatal
    have hordered := h.ordered hstopped hfailed
    cases a with
    | pumpTurn => exact hordered.congr (s.pumpStep_video _)
    | chunk n => exact hordered.congr (s.pumpStep_video _)
    | recheck => exact hordered.congr (s.pumpStep_video _)
    | sample reading => exact hordered.congr (s.pumpStep_video _)
    | deliver => exact hordered.otherStep .deliver
    | videoEof => exact hordered.otherStep .videoEof
    | setPaused paused => exact hordered.otherStep (.setPaused paused)
    | requestStop => exact hordered.otherStep .requestStop
    | _ => exact hordered.presentStep hstopped hfailed _ hfatal

end Misterplex.Present
