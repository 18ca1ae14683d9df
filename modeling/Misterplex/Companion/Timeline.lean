import Misterplex.Companion.State

/-!
# What a timeline reports

A timeline is read off the companion in one critical section. An idle companion
that is held for the resume dialog reports buffering without a title; a session
reports its title, clock and duration.
-/

namespace Misterplex.Companion

/-- The media a timeline names. -/
structure TimelineMedia where
  /-- The machine id of the server. -/
  machineIdentifier : String
  /-- Protocol, address and port of the server, when it is known. -/
  endpoint : Option (String × String × String)
  /-- What plays. -/
  pending : Pending
  /-- Container key of the play queue, possibly empty. -/
  containerKey : String
  deriving DecidableEq

/-- The attributes of a timeline. -/
structure TimelineView where
  /-- Number of the command the timeline answers. -/
  commandId : String
  /-- The state. -/
  state : String
  /-- Where the player is. -/
  location : String
  /-- The time. -/
  time : ℤ
  /-- Reported duration, 0 when it is unknown. -/
  duration : ℤ
  /-- The media named, for an active session with a title. -/
  media : Option TimelineMedia
  deriving DecidableEq

variable (s : State)

/-- An idle companion that shows as buffering. -/
def State.holdIdle : Bool :=
  !s.wantPlay && (s.prePlayHold || s.castBound) &&
    (s.state == "stopped" || s.state == "" || s.state == "buffering")

/-- The state name that is reported. -/
def State.videoState : String :=
  if s.wantPlay ∧ (s.state = "stopped" ∨ s.state = "") then "buffering"
  else if s.holdIdle then "buffering" else s.state

/-- A session is reported as active. -/
def State.mediaActive : Bool :=
  s.wantPlay && (running s.videoState || s.pending.key != "")

/-- The container key that is reported: the play queue, or a container of that kind. -/
def State.container : String :=
  if s.pending.playQueueId ≠ "" then "/playQueues/" ++ s.pending.playQueueId ++ "?own=1"
  else if mentions s.pending.containerKey "/playQueues/" then
    let path := String.ofList (upTo ['?'] s.pending.containerKey.toList)
    if mentions path "own=" then path else path ++ "?own=1"
  else ""

/-- The media that an active session names. -/
def State.reportedMedia (machineId : String) : TimelineMedia :=
  { machineIdentifier := orElse s.server.machineId machineId,
    endpoint :=
      if s.server.host = "" then none
      else some (s.server.proto,s.server.host,s.server.port),
    pending :=
      { s.pending with
        playQueueVersion :=
          if s.pending.playQueueId = "" then "" else orElse s.pending.playQueueVersion "1" },
    containerKey := s.container }

/-- The attributes of the timeline that answers a command. -/
def State.timelineXml (machineId commandId : String) : TimelineView :=
  { commandId := orElse commandId "0",
    state := if s.mediaActive ∧ s.videoState = "stopped" then "buffering" else s.videoState,
    location := if s.mediaActive then "fullScreenVideo" else "navigation",
    time := if s.mediaActive then max 0 s.timeMs else 0,
    duration := if s.mediaActive ∧ 0 < s.durationMs then s.durationMs else 0,
    media :=
      if s.mediaActive ∧ s.pending.key ≠ "" then some (s.reportedMedia machineId) else none }

theorem State.fullScreen_live {s : State} {machineId commandId : String}
    (h : (s.timelineXml machineId commandId).location = "fullScreenVideo") :
    s.wantPlay=true := by
  by_cases hactive : s.mediaActive=true
  · exact (Bool.and_eq_true_iff.mp hactive).1
  · have hloc : (s.timelineXml machineId commandId).location = "navigation" := if_neg hactive
    rw [hloc] at h
    exact absurd h (by decide)

theorem State.active_of_running {s : State} (hwant : s.wantPlay=true)
    (hstate : running s.state=true ∨ s.state = "stopped") : s.mediaActive=true := by
  have hshown : running s.videoState=true := by
    rcases hstate with hrun | hstopped
    · have hname : ¬(s.state = "stopped" ∨ s.state = "") := by
        rintro (h | h) <;> rw [h] at hrun <;> exact absurd hrun (by decide)
      have hidle : ¬s.holdIdle=true := by simp [holdIdle,hwant]
      rw [videoState,if_neg (fun h => hname h.2),if_neg hidle]
      exact hrun
    · rw [videoState,if_pos ⟨hwant,Or.inl hstopped⟩]
      decide
  rw [mediaActive,hwant,hshown]
  rfl

/-- A timeline never reports a negative time, and no time past the duration it reports when
the clock keeps within the known duration. -/
theorem State.timelineXml_within {s : State} (hwithin : 0<s.durationMs → s.timeMs ≤ s.durationMs)
    (machineId commandId : String) :
    0≤(s.timelineXml machineId commandId).time ∧
      (0<(s.timelineXml machineId commandId).duration →
        (s.timelineXml machineId commandId).time ≤
          (s.timelineXml machineId commandId).duration) := by
  by_cases hactive : s.mediaActive=true
  · have htime : (s.timelineXml machineId commandId).time=max 0 s.timeMs := if_pos hactive
    have hdur : (s.timelineXml machineId commandId).duration =
        if 0 < s.durationMs then s.durationMs else 0 := by
      by_cases hpos : 0<s.durationMs
      · exact (if_pos ⟨hactive,hpos⟩).trans (if_pos hpos).symm
      · exact (if_neg (fun h => hpos h.2)).trans (if_neg hpos).symm
    rw [htime,hdur]
    constructor
    · exact le_max_left _ _
    · split_ifs with hpos
      · omega
      · omega
  · have htime : (s.timelineXml machineId commandId).time=0 := if_neg hactive
    omega

end Misterplex.Companion
