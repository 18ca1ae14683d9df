import Misterplex.Companion.Timeline
import Misterplex.Companion.Threads

/-!
# A stopped session stays stopped while the hold for the resume dialog lasts

After a stop only three kinds of steps can bring the session back: a progress
report of a running state that finds the hold dropped, and a handler that acts on
an active flag it read before the stop. The end of the last subscription drops
the hold, so the first kind occurs.
-/

namespace Misterplex.Companion

open Misterplex.Trace

variable (w : World)

/-- No session is live and no timeline reports one. -/
def World.Stopped : Prop :=
  w.companion.wantPlay=false ∧ ∀ machineId commandId,
    (w.companion.timelineXml machineId commandId).location ≠ "fullScreenVideo"

open State

theorem World.stopped_iff : w.Stopped ↔ w.companion.wantPlay=false := by
  constructor
  · exact fun h => h.1
  · intro h
    constructor
    · exact h
    · intro machineId commandId hfull
      rw [fullScreen_live hfull] at h
      exact absurd h (by decide)

/-- A report of a running state finds the hold for the resume dialog. -/
def State.lateFits (s : State) (name : String) : Prop :=
  running name=true → s.prePlayHold=true

/-- Without a session, a progress report starts none exactly when it is held off. -/
theorem State.setState_idle_iff {s : State} (h : s.wantPlay=false) (name : String)
    (timeMs durationMs : ℤ) :
    (s.setState name timeMs durationMs).wantPlay=false ↔ s.lateFits name := by
  have hlive : ¬s.wantPlay=true := by rw [h]; decide
  unfold setState
  by_cases hignore : s.ignores name=true
  · rw [if_pos hignore]
    have hhold : s.prePlayHold=true := by
      exact (Bool.and_eq_true_iff.mp (Bool.and_eq_true_iff.mp hignore).1).2
    exact iff_of_true h (fun _ => hhold)
  · rw [if_neg hignore,if_neg (fun hstop => hlive hstop.2),if_neg (fun hhold => hlive hhold.1)]
    have hnext : (s.adopt name (s.incoming timeMs durationMs) durationMs).wantPlay =
        running name := by
      show (running name || s.wantPlay)=running name
      rw [h,Bool.or_false]
    rw [hnext]
    constructor
    · intro hidle hrun
      rw [hidle] at hrun
      exact absurd hrun (by decide)
    · intro hfits
      by_contra hrun
      have hname : running name=true := Bool.not_eq_false _ ▸ hrun
      apply hignore
      unfold ignores progress
      rw [h,hfits hname,hname]
      rfl

/-- The second critical section of a handler does not act on an active flag from before the
stop, unless the hold for the resume dialog keeps its report off. -/
def State.lateFinishFits (s : State) : Phase → Prop
  | .reporting name _ _ active => active=true → s.lateFits name
  | .seeking _ _ active moved => ¬(active=true ∧ moved=true)
  | .skipping t _ active => ¬(active=true ∧ t≠0)
  | _ => True

/-- Without a session, a handler's second critical section starts none exactly when it fits. -/
theorem State.finishRequest_idle_iff {s : State} (h : s.wantPlay=false) (p : Phase) :
    (finishRequest s p).wantPlay=false ↔ s.lateFinishFits p := by
  cases p with
  | idle => exact iff_of_true h trivial
  | routed r => exact iff_of_true h trivial
  | reporting name t d active =>
    cases active with
    | false => exact iff_of_true h (fun hf => absurd hf (by decide))
    | true =>
      exact (setState_idle_iff h name t d).trans ⟨fun hfits _ => hfits,fun hfits => hfits rfl⟩
  | seeking ms d active moved =>
    cases active <;> cases moved <;> simp [finishRequest,lateFinishFits,plant,h]
  | skipping t d active =>
    cases active
    · simp [finishRequest,lateFinishFits,h]
    · by_cases hzero : t=0 <;> simp [finishRequest,lateFinishFits,plant,h,hzero]

/-- Not the start of a new session: no title is staged and no cast is handled. -/
def World.NoCast : Action → Prop
  | .stagePlay _ => False
  | .serve => ∀ pr, w.phase ≠ .routed (.playMedia pr)
  | _ => True

/-- The steps after a stop that bring no session back. -/
def World.Quiet : Action → Prop
  | .setState name _ _ => w.companion.lateFits name
  | .finish => w.companion.lateFinishFits w.phase
  | _ => True

/-- Without a session, a handler's first critical section starts none unless it casts. -/
theorem serveRequest_idle {s : State} (h : s.wantPlay=false) {r : Request}
    (hcast : ∀ pr, r ≠ .playMedia pr) : (serveRequest s r).companion.wantPlay=false := by
  cases r with
  | mirror pr =>
    show (s.mirror pr).wantPlay=false
    unfold mirror
    by_cases hkeep : s.keepActive=true
    · rw [if_pos hkeep]
      exact h
    · rw [if_neg hkeep]
  | playMedia pr => exact absurd rfl (hcast pr)
  | step back offset =>
    show (s.stepBy back offset).wantPlay=false
    unfold stepBy
    rw [if_neg]
    · exact h
    · intro hmove
      rw [h] at hmove
      exact absurd hmove.1 (by decide)
  | stop => rfl
  | _ => exact h

open World

/-- Without a session, a step that is not a new cast starts none exactly when it is quiet. -/
theorem World.step_stopped_iff {w : World} (h : w.Stopped) {a : Action} (hcast : w.NoCast a) :
    (w.step a).Stopped ↔ w.Quiet a := by
  rw [stopped_iff] at h ⊢
  cases a with
  | setState name timeMs durationMs => exact setState_idle_iff h name timeMs durationMs
  | bindMedia req durationMs =>
    refine iff_of_true ?_ trivial
    show (w.companion.bindMedia req durationMs).2.wantPlay=false
    unfold bindMedia acceptsPlayRequest
    rw [h]
    exact h
  | seedPlaybackPosition timeMs durationMs => exact iff_of_true h trivial
  | stagePlay req => exact absurd hcast id
  | clearMedia => exact iff_of_true rfl trivial
  | arrive r player =>
    refine iff_of_true ?_ trivial
    cases hp : w.phase with
    | idle =>
      simp only [step,hp]
      split_ifs
      · exact h
      · exact h
    | _ =>
      simp only [step,hp]
      exact h
  | serve =>
    refine iff_of_true ?_ trivial
    cases hp : w.phase with
    | routed r =>
      simp only [step,hp]
      refine serveRequest_idle h ?_
      intro pr heq
      rw [heq] at hp
      exact hcast pr hp
    | _ =>
      simp only [step,hp]
      exact h
  | finish =>
    cases hp : w.phase with
    | routed r =>
      simp only [step,World.Quiet,hp]
      exact iff_of_true h trivial
    | _ =>
      simp only [step,World.Quiet,hp]
      exact finishRequest_idle_iff h _

/-- The step is a stop: the media binding is dropped. -/
def World.Stops (a : Action) : Prop :=
  a = .clearMedia ∨ a = .serve ∧ w.phase = .routed .stop

/-- A stop leaves the session stopped. -/
theorem World.Stops.stopped {w : World} {a : Action} (h : w.Stops a) : (w.step a).Stopped := by
  rw [stopped_iff]
  rcases h with rfl | ⟨rfl,hphase⟩
  · rfl
  · simp only [step,hphase]
    rfl

/-- In every run after a stop without a new cast, the session stays stopped in every state
exactly when no report of a running state finds the hold for the resume dialog dropped and no
handler acts on an active flag it read before the stop. -/
theorem stopped_throughout_iff (before : List Action) {stop : Action} (after : List Action)
    (hstop : (finalState World.step World.initial before).Stops stop)
    (hcast : Along World.step World.NoCast
      ((finalState World.step World.initial before).step stop) after) :
    Throughout World.step World.Stopped ((finalState World.step World.initial before).step stop)
        after ↔
      Along World.step World.Quiet ((finalState World.step World.initial before).step stop)
        after := by
  have hstart := hstop.stopped
  exact throughout_iff_along_of (fun _ _ hnew h => step_stopped_iff h hnew) hcast hstart

/-- A title plays when its session is stopped. -/
def playThenStop : List Action :=
  [.arrive (.playMedia PlayRequest.blank) true,.serve,.bindMedia PlayRequest.blank 100000,
    .setState "playing" 1000 100000,.arrive .stop true]

/-- The controller unsubscribes, and the media thread reports its last progress. -/
def lateProgress : List Action :=
  [.arrive (.unsubscribe true) true,.serve,.setState "playing" 2000 100000]

/-- Without the unsubscription the hold keeps the late progress off. -/
theorem stopped_throughout_iff_held :
    Throughout World.step World.Stopped
        ((finalState World.step World.initial playThenStop).step .serve)
        [.setState "playing" 2000 100000] ↔
      Along World.step World.Quiet
        ((finalState World.step World.initial playThenStop).step .serve)
        [.setState "playing" 2000 100000] :=
  stopped_throughout_iff playThenStop _ (Or.inr ⟨rfl,by decide⟩) ⟨trivial,trivial⟩

/-- The late progress after the unsubscription brings the session back. -/
theorem late_progress_rearms :
    (finalState World.step World.initial playThenStop).Stops .serve ∧
      Along World.step World.NoCast
        ((finalState World.step World.initial playThenStop).step .serve) lateProgress ∧
      ¬Throughout World.step World.Stopped
        ((finalState World.step World.initial playThenStop).step .serve) lateProgress := by
  have hphase : (((finalState step initial playThenStop).step .serve).step
      (.arrive (.unsubscribe true) true)).phase = .routed (.unsubscribe true) := by
    decide
  constructor
  · exact Or.inr ⟨rfl,by decide⟩
  · constructor
    · refine ⟨trivial,?_,trivial,trivial⟩
      intro pr hcast
      rw [hphase] at hcast
      exact absurd hcast (by simp)
    · intro h
      exact absurd ((stopped_iff _).mp h.last) (by decide)

end Misterplex.Companion
