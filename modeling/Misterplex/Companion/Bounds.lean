import Misterplex.Companion.Timeline
import Misterplex.Companion.Threads

/-!
# The published time keeps within the known duration

Every operation but the progress report and the planting of a seek restores the
bound by itself. A report that keeps the published time, because the session
ends or the target of a seek is held, takes over a shorter duration without
shortening the time; those reports, and a seek planted beyond a duration that
became known since the handler read it, are exactly the steps that lose it.
-/

namespace Misterplex.Companion

open Misterplex.Trace

/-- The time is not negative and within the duration where that is known. -/
def Within (durationMs timeMs : ℤ) : Prop := 0≤timeMs ∧ (0<durationMs → timeMs≤durationMs)

instance (durationMs timeMs : ℤ) : Decidable (Within durationMs timeMs) :=
  inferInstanceAs (Decidable (_ ∧ _))

theorem capTo_within {durationMs timeMs : ℤ} (h : 0≤timeMs) :
    Within durationMs (capTo durationMs timeMs) := by
  unfold capTo Within
  split_ifs with hcap <;> omega

theorem capTo_of_within {durationMs timeMs : ℤ} (h : Within durationMs timeMs) :
    capTo durationMs timeMs=timeMs := by
  refine if_neg ?_
  rintro ⟨hpos,hlt⟩
  have := h.2 hpos
  omega

variable (s : State)

/-- The clock keeps within the duration. -/
def State.Bounded : Prop := Within s.durationMs s.timeMs

theorem State.incoming_nonneg (timeMs durationMs : ℤ) : 0 ≤ s.incoming timeMs durationMs := by
  unfold incoming capTo
  split_ifs <;> omega

theorem State.adopt_bounded (name : String) {timeMs : ℤ} (durationMs : ℤ)
    (h : 0≤timeMs) : (s.adopt name timeMs durationMs).Bounded := capTo_within h

/-- A report that keeps the published time, or pins it to the target, does not bring or leave
a duration below that time. -/
def State.reportFits (name : String) (timeMs durationMs : ℤ) : Prop :=
  if s.ignores name then True
  else if name = "stopped" ∧ s.wantPlay then 0 < durationMs → s.timeMs ≤ durationMs
  else if s.wantPlay ∧ 0 ≤ s.scrubTargetMs ∧ progress name then
    if name = "buffering" then
      0 < s.takeDuration durationMs → s.scrubTargetMs ≤ s.takeDuration durationMs
    else if s.behindTarget (s.incoming timeMs durationMs) then
      0 < durationMs → s.timeMs ≤ durationMs
    else True
  else True

theorem State.Bounded.takeDuration_iff {s : State} (h : s.Bounded) (durationMs : ℤ) :
    Within (s.takeDuration durationMs) s.timeMs ↔ (0<durationMs → s.timeMs≤durationMs) := by
  have hzero := h.1
  have hknown := h.2
  unfold takeDuration Within
  split_ifs <;> omega

theorem State.Bounded.setState_iff {s : State} (h : s.Bounded) (name : String)
    (timeMs durationMs : ℤ) :
    (s.setState name timeMs durationMs).Bounded ↔ s.reportFits name timeMs durationMs := by
  have hin := s.incoming_nonneg timeMs durationMs
  unfold setState reportFits
  by_cases hignore : s.ignores name=true
  · rw [if_pos hignore,if_pos hignore]
    exact iff_of_true h trivial
  rw [if_neg hignore,if_neg hignore]
  by_cases hstop : name = "stopped" ∧ s.wantPlay=true
  · rw [if_pos hstop,if_pos hstop]
    exact h.takeDuration_iff durationMs
  rw [if_neg hstop,if_neg hstop]
  by_cases hhold : s.wantPlay=true ∧ 0 ≤ s.scrubTargetMs ∧ progress name=true
  · rw [if_pos hhold,if_pos hhold]
    unfold reportUnderHold
    by_cases hbuf : name = "buffering"
    · rw [if_pos hbuf,if_pos hbuf]
      constructor
      · intro hnext
        exact hnext.2
      · intro hfits
        exact ⟨hhold.2.1,hfits⟩
    rw [if_neg hbuf,if_neg hbuf]
    by_cases hbehind : s.behindTarget (s.incoming timeMs durationMs)
    · rw [if_pos hbehind,if_pos hbehind]
      exact h.takeDuration_iff durationMs
    rw [if_neg hbehind,if_neg hbehind]
    by_cases hpass : s.passesTarget name (s.incoming timeMs durationMs)
    · rw [if_pos hpass]
      exact iff_of_true (s.release.adopt_bounded name durationMs hin) trivial
    · rw [if_neg hpass]
      exact iff_of_true (s.adopt_bounded name durationMs hin) trivial
  · rw [if_neg hhold,if_neg hhold]
    exact iff_of_true (s.adopt_bounded name durationMs hin) trivial

theorem State.Bounded.bindMedia {s : State} (h : s.Bounded) (req : PlayRequest) (durationMs : ℤ) :
    (s.bindMedia req durationMs).2.Bounded := by
  unfold State.bindMedia
  by_cases haccept : s.acceptsPlayRequest req=true
  · rw [if_pos haccept]
    show Within (max 0 durationMs) (if 0 ≤ s.scrubTargetMs then _ else _)
    split_ifs with hscrub
    · exact capTo_within hscrub
    · exact capTo_within (le_max_left _ _)
  · rw [if_neg haccept]
    exact h

theorem State.seedPlaybackPosition_bounded (timeMs durationMs : ℤ) :
    (s.seedPlaybackPosition timeMs durationMs).Bounded :=
  capTo_within (le_max_left _ _)

theorem State.stagePlay_bounded (req : PlayRequest) : (s.stagePlay req).Bounded :=
  ⟨le_max_left _ _,fun hpos => absurd hpos (lt_irrefl 0)⟩

theorem State.Bounded.mirror {s : State} (h : s.Bounded) (pr : PlayRequest) :
    (s.mirror pr).Bounded := by
  unfold State.mirror
  by_cases hkeep : s.keepActive=true
  · rw [if_pos hkeep]
    exact h
  · rw [if_neg hkeep]
    exact ⟨h.1,fun hpos => absurd hpos (lt_irrefl 0)⟩

theorem State.Bounded.stepBy {s : State} (h : s.Bounded) (back : Bool) (offset : ℤ) :
    (s.stepBy back offset).Bounded := by
  unfold State.stepBy
  split_ifs with hmove
  · show Within (s.takeDuration s.durationMs) (s.stepTarget back offset)
    have hsame : s.takeDuration s.durationMs=s.durationMs := by
      unfold takeDuration
      split_ifs <;> rfl
    rw [hsame]
    exact capTo_within (le_max_left _ _)
  · exact h

/-- What a handler that has read the clock for a seek keeps of it. -/
def Phase.Clamped : Phase → Prop
  | .seeking ms d _ _ => Within d ms
  | _ => True

theorem serveRequest_clamped (r : Request) : (serveRequest s r).phase.Clamped := by
  cases r with
  | seek present ms => exact capTo_within (le_max_left _ _)
  | _ => trivial

theorem State.Bounded.serveRequest {s : State} (h : s.Bounded) (r : Request) :
    (serveRequest s r).companion.Bounded := by
  cases r with
  | mirror pr => exact h.mirror pr
  | playMedia pr => exact s.stagePlay_bounded _
  | stop => exact ⟨le_rfl,fun _ => le_rfl⟩
  | step back offset => exact h.stepBy back offset
  | _ => exact h

/-- The second critical section of a handler fits what the companion knows by then. -/
def State.finishFits : Phase → Prop
  | .reporting name t d active => active=true → s.reportFits name t d
  | .seeking ms d active moved =>
    active=true → moved=true → d≤0 → 0<s.durationMs → ms ≤ s.durationMs
  | _ => True

theorem State.Bounded.finishRequest_iff {s : State} (h : s.Bounded) {p : Phase}
    (hp : p.Clamped) : (finishRequest s p).Bounded ↔ s.finishFits p := by
  cases p with
  | idle => exact iff_of_true h trivial
  | routed r => exact iff_of_true h trivial
  | reporting name t d active =>
    cases active with
    | false => exact iff_of_true h (fun hf => absurd hf (by decide))
    | true => exact (h.setState_iff name t d).trans ⟨fun hfits _ => hfits,fun hfits => hfits rfl⟩
  | seeking ms d active moved =>
    by_cases hmove : (active && moved)=true
    · have hboth := Bool.and_eq_true_iff.mp hmove
      have hnext : finishRequest s (.seeking ms d active moved)=s.plant ms d := if_pos hmove
      have hzero := hp.1
      have hread := hp.2
      rw [hnext]
      show Within (s.takeDuration d) ms ↔ _
      unfold takeDuration Within finishFits
      rw [hboth.1,hboth.2]
      constructor
      · intro hbound _ _ hd hknown
        rw [if_neg (not_lt.mpr hd)] at hbound
        exact hbound.2 hknown
      · intro hfits
        have hlate := hfits rfl rfl
        split_ifs <;> omega
    · have hsame : finishRequest s (.seeking ms d active moved)=s := if_neg hmove
      rw [hsame]
      refine iff_of_true h ?_
      intro hactive hmoved
      exact absurd (Bool.and_eq_true_iff.mpr ⟨hactive,hmoved⟩) hmove
  | skipping t d active =>
    refine iff_of_true ?_ trivial
    show (if (active && t != 0) = true then s.plant 0 d else s).Bounded
    split_ifs with hmove
    · exact ⟨le_rfl,fun hpos => hpos.le⟩
    · exact h

/-- The steps that keep the published time within the known duration. -/
def World.Fits (w : World) : Action → Prop
  | .setState name timeMs durationMs => w.companion.reportFits name timeMs durationMs
  | .finish => w.companion.finishFits w.phase
  | _ => True

/-- The clock keeps within the known duration, and no timeline reports a time that is
negative or past the duration it reports. -/
def World.Bounded (w : World) : Prop :=
  w.companion.Bounded ∧ ∀ machineId commandId,
    Within (w.companion.timelineXml machineId commandId).duration
      (w.companion.timelineXml machineId commandId).time

theorem World.bounded_iff (w : World) : w.Bounded ↔ w.companion.Bounded := by
  constructor
  · exact fun h => h.1
  · exact fun h => ⟨h,fun machineId commandId => State.timelineXml_within h.2 machineId commandId⟩

open World

theorem World.step_clamped {w : World} (h : w.phase.Clamped) (a : Action) :
    (w.step a).phase.Clamped := by
  cases a with
  | arrive r player =>
    cases hp : w.phase <;> simp only [step,hp] <;> first | trivial | (rw [hp] at h; exact h)
  | serve =>
    cases hp : w.phase with
    | routed r =>
      simp only [step,hp]
      exact serveRequest_clamped w.companion r
    | _ =>
      simp only [step,hp]
      rw [hp] at h
      exact h
  | finish => cases hp : w.phase <;> simp only [step,hp] <;> trivial
  | _ => exact h

theorem World.step_bounded_iff {w : World} (hclamped : w.phase.Clamped) (h : w.Bounded)
    (a : Action) : (w.step a).Bounded ↔ w.Fits a := by
  rw [bounded_iff] at h ⊢
  cases a with
  | setState name timeMs durationMs => exact h.setState_iff name timeMs durationMs
  | bindMedia req durationMs => exact iff_of_true (h.bindMedia req durationMs) trivial
  | seedPlaybackPosition timeMs durationMs =>
    exact iff_of_true (w.companion.seedPlaybackPosition_bounded timeMs durationMs) trivial
  | stagePlay req => exact iff_of_true (w.companion.stagePlay_bounded req) trivial
  | clearMedia => exact iff_of_true ⟨le_rfl,fun _ => le_rfl⟩ trivial
  | arrive r player =>
    refine iff_of_true ?_ trivial
    cases hp : w.phase with
    | idle =>
      simp only [step,hp]
      split_ifs
      · exact h
      · exact h
    | _ =>
      simp only [step,hp]
      exact h
  | serve =>
    refine iff_of_true ?_ trivial
    cases hp : w.phase with
    | routed r =>
      simp only [step,hp]
      exact h.serveRequest r
    | _ =>
      simp only [step,hp]
      exact h
  | finish =>
    cases hp : w.phase with
    | routed r =>
      simp only [step,World.Fits,hp]
      exact iff_of_true h trivial
    | _ =>
      rw [hp] at hclamped
      simp only [step,World.Fits,hp]
      exact h.finishRequest_iff hclamped

/-- In every run, the published time keeps within the known duration in every state exactly
when every step fits: no report that keeps the time brings a shorter duration, no buffering
report finds the held target past the duration, and no seek is planted past a duration that
became known meanwhile. -/
theorem time_within_duration_iff (as : List Action) :
    Throughout World.step World.Bounded World.initial as ↔
      Along World.step World.Fits World.initial as :=
  throughout_iff_along (I := fun w => w.phase.Clamped) (fun _ a h => step_clamped h a)
    (fun _ a hclamped h => step_bounded_iff hclamped h a) trivial
    ((bounded_iff _).mpr ⟨le_rfl,fun _ => le_rfl⟩) as

/-- A title of a hundred seconds plays at ninety when its session ends with a report of a
duration of sixty. -/
def shortenedAtEnd : List Action :=
  [.arrive (.playMedia PlayRequest.blank) true,.serve,.bindMedia PlayRequest.blank 100000,
    .setState "playing" 90000 100000,.setState "stopped" 0 60000]

/-- A session that ends with a shorter duration publishes a time past it. -/
theorem time_past_duration :
    ¬Throughout World.step World.Bounded World.initial shortenedAtEnd := by
  intro h
  have hlast := (bounded_iff _).mp h.last
  exact absurd hlast.2 (by decide)

end Misterplex.Companion
