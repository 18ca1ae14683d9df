import Misterplex.Companion.Bounds

/-!
# The hold on a seek target

After a seek the published time is held at the target until progress passes it.
Until then no report rewinds the time by more than the catch-up distance, the
first report that passes the target is published at once and ends the hold, and
from then on the reports are published as they come, within the duration.
-/

namespace Misterplex.Companion

open Misterplex.Trace

/-- A progress report. -/
structure Report where
  /-- The state that is reported. -/
  name : String
  /-- The time that is reported. -/
  timeMs : ℤ
  /-- Reported duration, 0 when it is unknown. -/
  durationMs : ℤ
  deriving DecidableEq

/-- A progress report arrives. -/
def State.report (s : State) (r : Report) : State := s.setState r.name r.timeMs r.durationMs

/-- A report in one of the five states of a player, with an unknown duration or one that
holds the target. -/
def Report.Fits (target : ℤ) (r : Report) : Prop :=
  (progress r.name=true ∨ r.name = "stopped") ∧ (r.durationMs=0 ∨ target≤r.durationMs)

/-- The target of a seek is planted in an active session, within the known duration. -/
structure State.Planted (s : State) (target : ℤ) : Prop where
  /-- Media plays. -/
  active : s.mediaActive=true
  /-- The seek is remembered. -/
  scrub : s.scrubTargetMs=target
  /-- The time is the seek's. -/
  time : s.timeMs=target
  /-- The target is not negative. -/
  nonneg : 0≤target
  /-- The target is within a known duration. -/
  within : 0<s.durationMs → target ≤ s.durationMs

/-- The reported time, within the duration. -/
def State.shown (s : State) (r : Report) : ℤ :=
  capTo (s.takeDuration r.durationMs) (max 0 r.timeMs)

/-- The report does not bring a longer duration together with a time past the known one. -/
def State.Tracks (s : State) (r : Report) : Prop :=
  ¬(0<s.durationMs ∧ s.durationMs<r.timeMs ∧ r.timeMs≤r.durationMs)

/-- Progress passes the target: by the advance while the title runs, or its end near it. -/
def State.Passes (s : State) (target : ℤ) (r : Report) : Prop :=
  (r.name = "playing" ∨ r.name = "paused") ∧ target+kScrubAdvanceMs ≤ s.shown r ∨
    r.name = "ended" ∧ target-kScrubCatchupMs ≤ s.shown r

instance (s : State) (r : Report) : Decidable (s.Tracks r) := inferInstanceAs (Decidable (¬_))

instance (s : State) (target : ℤ) (r : Report) : Decidable (s.Passes target r) :=
  inferInstanceAs (Decidable (_ ∨ _))

/-- The report is published as it came, within the duration. -/
def State.Publishes (s : State) (r : Report) (s' : State) : Prop :=
  s'.state=r.name ∧ s'.timeMs=s.shown r ∧
    ∀ machineId commandId, s'.mediaActive=true →
      (s'.timelineXml machineId commandId).time=s.shown r

variable {s : State} {r : Report}

theorem State.incoming_eq_shown (h : s.Tracks r) :
    s.incoming r.timeMs r.durationMs=s.shown r := by
  unfold State.Tracks at h
  unfold incoming shown takeDuration capTo
  split_ifs <;> omega

theorem State.shown_within (s : State) (r : Report) :
    Within (s.takeDuration r.durationMs) (s.shown r) :=
  capTo_within (le_max_left _ _)

/-- Adopting a report's time publishes it. -/
theorem State.publishes_adopt {s t : State} (hdur : t.durationMs=s.durationMs) :
    s.Publishes r (t.adopt r.name (s.shown r) r.durationMs) := by
  have htake : t.takeDuration r.durationMs=s.takeDuration r.durationMs := by
    unfold takeDuration
    rw [hdur]
  have htime : (t.adopt r.name (s.shown r) r.durationMs).timeMs=s.shown r := by
    show capTo (t.takeDuration r.durationMs) (s.shown r)=s.shown r
    rw [htake]
    exact capTo_of_within (s.shown_within r)
  constructor
  · rfl
  · constructor
    · exact htime
    · intro machineId commandId hactive
      have hview : ((t.adopt r.name (s.shown r) r.durationMs).timelineXml machineId commandId).time
          = max 0 (t.adopt r.name (s.shown r) r.durationMs).timeMs := if_pos hactive
      rw [hview,htime]
      exact max_eq_right (s.shown_within r).1

/-- While the hold lasts: the session is active, the hold is on the target, the clock is no
further behind it than the catch-up distance, and the target is within the duration. -/
structure State.Held (s : State) (target : ℤ) : Prop where
  /-- Media plays. -/
  active : s.mediaActive=true
  /-- The seek is remembered. -/
  scrub : s.scrubTargetMs=target
  /-- The time is near the target or past it. -/
  time : target-kScrubCatchupMs ≤ s.timeMs
  /-- The target is not negative. -/
  nonneg : 0≤target
  /-- The target is within a known duration. -/
  within : 0<s.durationMs → target ≤ s.durationMs

variable {target : ℤ}

/-- A target just planted is held. -/
theorem State.Planted.held (h : s.Planted target) : s.Held target where
  active := h.active
  scrub := h.scrub
  time := by rw [h.time,kScrubCatchupMs]; omega
  nonneg := h.nonneg
  within := h.within

/-- While the hold lasts, something is to be played. -/
theorem State.Held.live (h : s.Held target) : s.wantPlay=true :=
  (Bool.and_eq_true_iff.mp h.active).1

theorem State.Held.within_report (h : s.Held target) (hr : r.Fits target) :
    0<s.takeDuration r.durationMs → target ≤ s.takeDuration r.durationMs := by
  have hknown := h.within
  have hnew := hr.2
  unfold takeDuration
  split_ifs <;> omega

open State

theorem State.Held.finishSession (h : s.Held target)
    (hr : r.Fits target) (hname : r.name = "stopped") :
    (s.finishSession r.name r.durationMs).Held target where
  active := active_of_running h.live (Or.inr hname)
  scrub := h.scrub
  time := h.time
  nonneg := h.nonneg
  within := h.within_report hr

theorem State.Held.pin (h : s.Held target)
    (hr : r.Fits target) : (s.pin r.durationMs).Held target where
  active := active_of_running rfl (Or.inl rfl)
  scrub := h.scrub
  time := by
    show target-kScrubCatchupMs ≤ s.scrubTargetMs
    rw [h.scrub,kScrubCatchupMs]
    omega
  nonneg := h.nonneg
  within := h.within_report hr

theorem running_of_transport {name : String} (h : name = "playing" ∨ name = "paused") :
    running name=true := by
  rcases h with rfl | rfl <;> rfl

theorem State.Held.keepTarget (h : s.Held target)
    (hr : r.Fits target) : (s.keepTarget r.name r.durationMs).Held target where
  active := by
    by_cases hname : r.name = "playing" ∨ r.name = "paused"
    · have hstate : (s.keepTarget r.name r.durationMs).state=r.name := if_pos hname
      refine active_of_running rfl (Or.inl ?_)
      rw [hstate]
      exact running_of_transport hname
    · have hsame : s.keepTarget r.name r.durationMs =
          { s with durationMs := s.takeDuration r.durationMs } := by
        unfold State.keepTarget
        rw [if_neg hname,← h.live]
      rw [hsame]
      exact h.active
  scrub := h.scrub
  time := h.time
  nonneg := h.nonneg
  within := h.within_report hr

theorem State.Held.adopt (h : s.Held target)
    (hr : r.Fits target) (hname : r.name = "playing" ∨ r.name = "paused")
    (hnear : target-kScrubCatchupMs ≤ s.shown r) :
    (s.adopt r.name (s.shown r) r.durationMs).Held target where
  active := by
    refine active_of_running ?_ (Or.inl (running_of_transport hname))
    show (running r.name || s.wantPlay)=true
    rw [h.live,Bool.or_true]
  scrub := h.scrub
  time := by
    show target-kScrubCatchupMs≤capTo (s.takeDuration r.durationMs) (s.shown r)
    rw [capTo_of_within (s.shown_within r)]
    exact hnear
  nonneg := h.nonneg
  within := h.within_report hr

theorem State.Held.report_progress (h : s.Held target)
    (htrack : s.Tracks r) (hname : progress r.name=true) :
    s.report r=s.reportUnderHold r.name (s.shown r) r.durationMs := by
  have hignore : ¬s.ignores r.name=true := by simp [ignores,h.live]
  have hstop : ¬(r.name = "stopped" ∧ s.wantPlay=true) := by
    rintro ⟨hstopped,_⟩
    rw [hstopped] at hname
    exact absurd hname (by decide)
  have hhold : s.wantPlay=true ∧ 0 ≤ s.scrubTargetMs ∧ progress r.name=true :=
    ⟨h.live,h.scrub.symm ▸ h.nonneg,hname⟩
  unfold report setState
  rw [if_neg hignore,if_neg hstop,if_pos hhold,incoming_eq_shown htrack]

theorem progress_cases {name : String} (h : progress name=true) :
    name = "buffering" ∨ (name = "playing" ∨ name = "paused") ∨ name = "ended" := by
  unfold progress running at h
  simp only [Bool.or_eq_true,beq_iff_eq] at h
  rcases h with ((h | h) | h) | h
  · exact Or.inr (Or.inl (Or.inl h))
  · exact Or.inr (Or.inl (Or.inr h))
  · exact Or.inl h
  · exact Or.inr (Or.inr h)

theorem State.behindTarget_iff (s : State) (timeMs : ℤ) :
    s.behindTarget timeMs ↔ timeMs+kScrubCatchupMs<s.scrubTargetMs := by
  unfold behindTarget delta
  constructor
  · exact fun h => h.2
  · intro h
    constructor
    · split_ifs <;> omega
    · exact h

/-- A report that is not far behind the target passes the rule of the hold exactly when it
passes the target. -/
theorem State.passesTarget_iff (h : s.Held target)
    (hname : (r.name = "playing" ∨ r.name = "paused") ∨ r.name = "ended")
    (hnear : ¬s.behindTarget (s.shown r)) :
    s.passesTarget r.name (s.shown r) ↔ s.Passes target r := by
  rw [behindTarget_iff,h.scrub] at hnear
  have hnotend : (r.name = "playing" ∨ r.name = "paused") → r.name ≠ "ended" := by
    rintro (hp | hp) <;> rw [hp] <;> decide
  unfold passesTarget delta Passes
  rw [h.scrub]
  rw [kScrubCatchupMs,kScrubAdvanceMs] at *
  rcases hname with htransport | hended
  · have hne := hnotend htransport
    constructor
    · rintro (hfar | hend | hpast)
      · refine Or.inl ⟨htransport,?_⟩
        split_ifs at hfar <;> omega
      · exact absurd hend hne
      · exact Or.inl hpast
    · rintro (hpast | hend)
      · exact Or.inr (Or.inr hpast)
      · exact absurd hend.1 hne
  · constructor
    · exact fun _ => Or.inr ⟨hended,by omega⟩
    · exact fun _ => Or.inr (Or.inl hended)

theorem State.Held.report (h : s.Held target)
    (hr : r.Fits target) (htrack : s.Tracks r) (hpass : ¬s.Passes target r) :
    (s.report r).Held target := by
  rcases hr.1 with hname | hname
  · rw [h.report_progress htrack hname]
    unfold reportUnderHold
    rcases progress_cases hname with hbuf | hother
    · rw [if_pos hbuf]
      exact h.pin hr
    · have hbuf : r.name ≠ "buffering" := by
        rcases hother with (hp | hp) | hp <;> rw [hp] <;> decide
      rw [if_neg hbuf]
      by_cases hbehind : s.behindTarget (s.shown r)
      · rw [if_pos hbehind]
        exact h.keepTarget hr
      · have hnear : target-kScrubCatchupMs ≤ s.shown r := by
          rw [behindTarget_iff,h.scrub] at hbehind
          omega
        have hrule : ¬s.passesTarget r.name (s.shown r) :=
          fun hp => hpass ((passesTarget_iff h hother hbehind).mp hp)
        rw [if_neg hbehind,if_neg hrule]
        rcases hother with htransport | hended
        · exact h.adopt hr htransport hnear
        · exact absurd (Or.inr ⟨hended,hnear⟩) hpass
  · have hignore : ¬s.ignores r.name=true := by simp [ignores,h.live]
    have hnext : s.report r=s.finishSession r.name r.durationMs := by
      unfold State.report setState
      rw [if_neg hignore,if_pos ⟨hname,h.live⟩]
    rw [hnext]
    exact h.finishSession hr hname

theorem State.Held.report_passes (h : s.Held target)
    (htrack : s.Tracks r) (hpass : s.Passes target r) :
    s.Publishes r (s.report r) ∧ (s.report r).scrubTargetMs = -1 ∧
      (s.report r).wantPlay=true := by
  have hother : (r.name = "playing" ∨ r.name = "paused") ∨ r.name = "ended" := by
    rcases hpass with hp | hp
    · exact Or.inl hp.1
    · exact Or.inr hp.1
  have hname : progress r.name=true := by
    rcases hother with (hp | hp) | hp <;> rw [hp] <;> rfl
  have hbuf : r.name ≠ "buffering" := by
    rcases hother with (hp | hp) | hp <;> rw [hp] <;> decide
  have hbehind : ¬s.behindTarget (s.shown r) := by
    rw [behindTarget_iff,h.scrub]
    rcases hpass with hp | hp
    · have := hp.2
      rw [kScrubAdvanceMs] at this
      rw [kScrubCatchupMs]
      omega
    · omega
  have hnext : s.report r=s.release.adopt r.name (s.shown r) r.durationMs := by
    rw [h.report_progress htrack hname]
    unfold reportUnderHold
    rw [if_neg hbuf,if_neg hbehind,if_pos ((passesTarget_iff h hother hbehind).mpr hpass)]
  rw [hnext]
  refine ⟨publishes_adopt rfl,rfl,?_⟩
  show (running r.name || s.wantPlay)=true
  rw [h.live,Bool.or_true]

theorem State.report_free (hlive : s.wantPlay=true) (hfree : s.scrubTargetMs = -1)
    (htrack : s.Tracks r) :
    (r.name ≠ "stopped" → s.Publishes r (s.report r)) ∧ (s.report r).scrubTargetMs = -1 ∧
      (s.report r).wantPlay=true := by
  have hignore : ¬s.ignores r.name=true := by simp [ignores,hlive]
  have hhold : ¬(s.wantPlay=true ∧ 0 ≤ s.scrubTargetMs ∧ progress r.name=true) := by
    rw [hfree]
    exact fun h => absurd h.2.1 (by decide)
  unfold State.report setState
  rw [if_neg hignore]
  by_cases hstop : r.name = "stopped" ∧ s.wantPlay=true
  · rw [if_pos hstop]
    exact ⟨fun hname => absurd hstop.1 hname,hfree,hlive⟩
  · rw [if_neg hstop,if_neg hhold,incoming_eq_shown htrack]
    refine ⟨fun _ => publishes_adopt rfl,hfree,?_⟩
    show (running r.name || s.wantPlay)=true
    rw [hlive,Bool.or_true]

/-- Reports that pass the target nowhere keep the time held. -/
theorem State.Held.run (h : s.Held target) {rs : List Report}
    (hfit : ∀ r∈rs, r.Fits target) (htrack : Along State.report State.Tracks s rs)
    (hpass : Along State.report (fun t r => ¬t.Passes target r) s rs) :
    (finalState State.report s rs).Held target := by
  induction rs generalizing s with
  | nil => exact h
  | cons r rs ih =>
    refine ih (h.report (hfit r List.mem_cons_self) htrack.1 hpass.1) ?_ htrack.2 hpass.2
    exact fun q hq => hfit q (List.mem_cons_of_mem r hq)

theorem State.free_run (hlive : s.wantPlay=true) (hfree : s.scrubTargetMs = -1)
    {rs : List Report} (htrack : Along State.report State.Tracks s rs) :
    (finalState State.report s rs).wantPlay=true ∧
      (finalState State.report s rs).scrubTargetMs = -1 := by
  induction rs generalizing s with
  | nil => exact ⟨hlive,hfree⟩
  | cons r rs ih =>
    have hnext := report_free hlive hfree htrack.1
    exact ih hnext.2.2 hnext.2.1 htrack.2

theorem State.Held.run_passed (h : s.Held target) {rs : List Report}
    (hfit : ∀ r∈rs, r.Fits target) (htrack : Along State.report State.Tracks s rs)
    (hpass : ¬Along State.report (fun t r => ¬t.Passes target r) s rs) :
    (finalState State.report s rs).wantPlay=true ∧
      (finalState State.report s rs).scrubTargetMs = -1 := by
  induction rs generalizing s with
  | nil => exact absurd trivial hpass
  | cons r rs ih =>
    by_cases hnow : s.Passes target r
    · have hnext := h.report_passes htrack.1 hnow
      exact free_run hnext.2.2 hnext.2.1 htrack.2
    · refine ih (h.report (hfit r List.mem_cons_self) htrack.1 hnow) ?_ htrack.2 ?_
      · exact fun q hq => hfit q (List.mem_cons_of_mem r hq)
      · exact fun hrest => hpass ⟨hnow,hrest⟩

theorem State.Held.reported (h : s.Held target) (machineId commandId : String) :
    target-kScrubCatchupMs≤(s.timelineXml machineId commandId).time := by
  have hview : (s.timelineXml machineId commandId).time=max 0 s.timeMs := if_pos h.active
  rw [hview]
  exact le_trans h.time (le_max_right _ _)

/-- A session of a hundred seconds with a seek to fifty planted. -/
def plantedAtFifty : State :=
  { State.initial with
    state := "buffering", timeMs := 50000, durationMs := 100000, scrubTargetMs := 50000,
    wantPlay := true, castBound := true }

theorem plantedAtFifty_planted : plantedAtFifty.Planted 50000 where
  active := by decide
  scrub := rfl
  time := rfl
  nonneg := by decide
  within := by decide

end Misterplex.Companion
