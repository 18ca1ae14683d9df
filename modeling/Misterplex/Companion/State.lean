import Misterplex.Companion.Text
import Misterplex.Lib.Decimal

/-!
# The playback state of the companion

The companion publishes one clock, one duration and one state name to the
controllers. Every operation below is one critical section of its mutex. Times
are milliseconds; their sums with the fixed step sizes and thresholds are taken
without the overflow of the 64-bit type.

The companion also keeps the number of the newest command of each controller, and a
copy of it with each subscriber, to which it pushes timelines. A controller that names
itself is found by its name, any other one by its host.
-/

namespace Misterplex.Companion

/-- A request to play one title, as the companion reads it off a cast command. -/
structure PlayRequest where
  /-- The key of the title. -/
  key : String
  /-- The key of the play queue. -/
  containerKey : String
  /-- The id of the play queue. -/
  playQueueId : String
  /-- The item of the play queue. -/
  playQueueItemId : String
  /-- The version of the play queue. -/
  playQueueVersion : String
  /-- The rating key of the title. -/
  ratingKey : String
  /-- Host of the playing server. -/
  address : String
  /-- The protocol of the server. -/
  protocol : String
  /-- The port of the server. -/
  port : String
  /-- Access token sent with the cast. -/
  token : String
  /-- The machine id of the server. -/
  serverMachineId : String
  /-- Requested start position. -/
  offsetMs : ℤ
  /-- Whether the request named a start position. -/
  offsetPresent : Bool
  /-- Order in which the requests were queued for dispatch. -/
  dispatchGeneration : ℕ
  deriving DecidableEq

/-- A request that names nothing. -/
def PlayRequest.blank : PlayRequest :=
  { key := "", containerKey := "", playQueueId := "", playQueueItemId := "",
    playQueueVersion := "", ratingKey := "", address := "", protocol := "", port := "",
    token := "", serverMachineId := "", offsetMs := 0, offsetPresent := false,
    dispatchGeneration := 0 }

/-- Active or staged media identity. -/
structure Pending where
  /-- The key of the title. -/
  key : String
  /-- The key of the play queue. -/
  containerKey : String
  /-- The id of the play queue. -/
  playQueueId : String
  /-- The item of the play queue. -/
  playQueueItemId : String
  /-- The version of the play queue. -/
  playQueueVersion : String
  /-- The rating key of the title. -/
  ratingKey : String
  deriving DecidableEq

/-- No media is bound. -/
def Pending.none : Pending := ⟨"","","","","",""⟩

/-- The server the media is played from. -/
structure Server where
  /-- The machine id. -/
  machineId : String
  /-- The host. -/
  host : String
  /-- The port. -/
  port : String
  /-- The protocol. -/
  proto : String
  deriving DecidableEq

/-- What the companion keeps under its mutex. -/
structure State where
  /-- The state that is published. -/
  state : String
  /-- The time that is published. -/
  timeMs : ℤ
  /-- Duration of the title, 0 while unknown. -/
  durationMs : ℤ
  /-- Position the clock is pinned to after a seek, negative when there is none. -/
  scrubTargetMs : ℤ
  /-- A playback session is live. -/
  wantPlay : Bool
  /-- An idle companion is held for the resume dialog. -/
  prePlayHold : Bool
  /-- A controller has the companion as its target. -/
  castBound : Bool
  /-- Active or staged media. -/
  pending : Pending
  /-- The server of the title. -/
  server : Server
  deriving DecidableEq

/-- A companion before its first request. -/
def State.initial : State :=
  { state := "stopped", timeMs := 0, durationMs := 0, scrubTargetMs := -1, wantPlay := false,
    prePlayHold := false, castBound := false, pending := Pending.none,
    server := ⟨"","","","http"⟩ }

/-- Reports behind the target by more than this are demux restarts. -/
def kScrubCatchupMs : ℤ := 2000

/-- Reports ahead of the target by at least this end the hold. -/
def kScrubAdvanceMs : ℤ := 400

/-- The names with which a running session reports progress. -/
def running (name : String) : Bool := name == "playing" || name == "paused" || name == "buffering"

/-- The names that late progress may carry after a stop. -/
def progress (name : String) : Bool := running name || name == "ended"

variable (s : State)

/-- A positive duration replaces the known one. -/
def State.takeDuration (durationMs : ℤ) : ℤ :=
  if 0 < durationMs then durationMs else s.durationMs

/-- A time no later than a duration, if that is known. -/
def capTo (durationMs timeMs : ℤ) : ℤ :=
  if 0 < durationMs ∧ durationMs < timeMs then durationMs else timeMs

/-- Progress is ignored between a stop and the next session. -/
def State.ignores (name : String) : Bool :=
  !s.wantPlay && s.prePlayHold && progress name

/-- A reported time within the reported duration, or else within the known one. -/
def State.incoming (timeMs durationMs : ℤ) : ℤ :=
  if 0 < durationMs ∧ durationMs < max 0 timeMs then durationMs
  else capTo s.durationMs (max 0 timeMs)

/-- The end of a session without content keeps the time. -/
def State.finishSession (name : String) (durationMs : ℤ) : State :=
  { s with state := name, durationMs := s.takeDuration durationMs }

/-- Buffering pins the time to the target of the hold. -/
def State.pin (durationMs : ℤ) : State :=
  { s with
    state := "buffering", durationMs := s.takeDuration durationMs, timeMs := s.scrubTargetMs,
    wantPlay := true }

/-- Progress far behind the target of the hold keeps the time. -/
def State.keepTarget (name : String) (durationMs : ℤ) : State :=
  { s with
    state := if name = "playing" ∨ name = "paused" then name else s.state,
    durationMs := s.takeDuration durationMs, wantPlay := true }

/-- A report is published. -/
def State.adopt (name : String) (timeMs durationMs : ℤ) : State :=
  { s with
    state := name, durationMs := s.takeDuration durationMs,
    timeMs := capTo (s.takeDuration durationMs) timeMs, wantPlay := running name || s.wantPlay }

/-- The hold on the seek target ends. -/
def State.release : State := { s with scrubTargetMs := -1 }

/-- Distance of a time from the target of the hold. -/
def State.delta (timeMs : ℤ) : ℤ :=
  if s.scrubTargetMs < timeMs then timeMs-s.scrubTargetMs else s.scrubTargetMs-timeMs

/-- Progress far behind the target. -/
def State.behindTarget (timeMs : ℤ) : Prop :=
  kScrubCatchupMs<s.delta timeMs ∧ timeMs+kScrubCatchupMs<s.scrubTargetMs

/-- Progress that ends the hold: far ahead of the target, past it by the advance, or the end
of the title near it. -/
def State.passesTarget (name : String) (timeMs : ℤ) : Prop :=
  kScrubCatchupMs<s.delta timeMs ∨ name = "ended" ∨
    ((name = "playing" ∨ name = "paused") ∧ s.scrubTargetMs+kScrubAdvanceMs≤timeMs)

instance (s : State) (timeMs : ℤ) : Decidable (s.behindTarget timeMs) :=
  inferInstanceAs (Decidable (_ ∧ _))

instance (s : State) (name : String) (timeMs : ℤ) : Decidable (s.passesTarget name timeMs) :=
  inferInstanceAs (Decidable (_ ∨ _))

/-- A report while the hold on a seek target lasts, its time already bounded. -/
def State.reportUnderHold (name : String) (timeMs durationMs : ℤ) : State :=
  if name = "buffering" then s.pin durationMs
  else if s.behindTarget timeMs then s.keepTarget name durationMs
  else if s.passesTarget name timeMs then s.release.adopt name timeMs durationMs
  else s.adopt name timeMs durationMs

/-- The playback clock and state are updated. -/
def State.setState (name : String) (timeMs durationMs : ℤ) : State :=
  if s.ignores name then s
  else if name = "stopped" ∧ s.wantPlay then s.finishSession name durationMs
  else if s.wantPlay ∧ 0 ≤ s.scrubTargetMs ∧ progress name then
    s.reportUnderHold name (s.incoming timeMs durationMs) durationMs
  else s.adopt name (s.incoming timeMs durationMs) durationMs

/-- The container key of a request, made up from its play queue when it has none. -/
def PlayRequest.queueContainer (req : PlayRequest) : String :=
  if req.containerKey = "" ∧ req.playQueueId ≠ "" then
    "/playQueues/" ++ req.playQueueId ++ "?own=1"
  else req.containerKey

/-- One text, or another where it is empty. -/
def orElse (text fallback : String) : String := if text = "" then fallback else text

/-- The media identity of a resolved request. -/
def PlayRequest.bound (req : PlayRequest) : Pending :=
  { key := req.key, containerKey := req.queueContainer, playQueueId := req.playQueueId,
    playQueueItemId := req.playQueueItemId,
    playQueueVersion := orElse req.playQueueVersion "1", ratingKey := req.ratingKey }

/-- The server of a resolved request. -/
def PlayRequest.boundServer (req : PlayRequest) : Server :=
  { machineId := req.serverMachineId, host := req.address, port := orElse req.port "32400",
    proto := orElse req.protocol "http" }

/-- Server fields that a request names replace the known ones. -/
def Server.update (server : Server) (req : PlayRequest) : Server :=
  { machineId := orElse req.serverMachineId server.machineId,
    host := orElse req.address server.host, port := orElse req.port server.port,
    proto := orElse req.protocol server.proto }

/-- The request belongs to the live session. -/
def State.acceptsPlayRequest (req : PlayRequest) : Bool :=
  s.wantPlay && (s.pending.key == "" || req.key == "" || s.pending.key == req.key)

/-- The time and the target of the hold within a resolved duration. -/
def State.withinDuration (durationMs : ℤ) : State :=
  { s with
    durationMs := max 0 durationMs,
    scrubTargetMs :=
      if 0 ≤ s.scrubTargetMs then capTo (max 0 durationMs) s.scrubTargetMs else s.scrubTargetMs,
    timeMs :=
      if 0 ≤ s.scrubTargetMs then capTo (max 0 durationMs) s.scrubTargetMs
      else capTo (max 0 durationMs) (max 0 s.timeMs) }

/-- Media identity is bound after its resolution, unless the session stopped or another title
was staged; returns whether it was. -/
def State.bindMedia (req : PlayRequest) (durationMs : ℤ) : Bool × State :=
  if s.acceptsPlayRequest req then
    (true,
      { s.withinDuration durationMs with
        pending := req.bound, server := req.boundServer, wantPlay := true,
        prePlayHold := false })
  else (false,s)

/-- The clock is aligned to the start of the demuxer. -/
def State.seedPlaybackPosition (timeMs durationMs : ℤ) : State :=
  { s with
    durationMs := s.takeDuration durationMs,
    timeMs := capTo (s.takeDuration durationMs) (max 0 timeMs),
    scrubTargetMs := capTo (s.takeDuration durationMs) (max 0 timeMs),
    state := if s.wantPlay ∧ (s.state = "stopped" ∨ s.state = "") then "buffering" else s.state }

/-- A title is staged before it is resolved. -/
def State.stagePlay (req : PlayRequest) : State :=
  { s with
    wantPlay := true, prePlayHold := false, castBound := true, state := "buffering",
    durationMs := 0, timeMs := max 0 req.offsetMs, scrubTargetMs := max 0 req.offsetMs,
    pending := { req.bound with ratingKey := orElse req.ratingKey s.pending.ratingKey },
    server := s.server.update req }

/-- The media binding is dropped after a stop. -/
def State.clearMedia : State :=
  { s with
    pending := Pending.none, wantPlay := false, state := "stopped", timeMs := 0,
    durationMs := 0, scrubTargetMs := -1, prePlayHold := s.castBound || s.prePlayHold }

/-- A cast plants its title before the asynchronous resolution. -/
def State.playMedia (pr : PlayRequest) : State :=
  s.stagePlay { pr with key := orElse pr.key "(no-key)" }

/-- A mirror leaves a live session alone. -/
def State.keepActive : Bool := s.wantPlay && running s.state

/-- A mirror stages media identity without starting it. -/
def State.mirror (pr : PlayRequest) : State :=
  if s.keepActive then s
  else
    { s with
      pending :=
        { s.pending with
          key := orElse pr.key s.pending.key,
          ratingKey := orElse pr.ratingKey s.pending.ratingKey,
          playQueueId := pr.playQueueId, playQueueItemId := pr.playQueueItemId,
          containerKey := if mentions pr.containerKey "/playQueues/" then pr.containerKey else "" },
      server := s.server.update pr, durationMs := 0, prePlayHold := true, wantPlay := false,
      state := "stopped", castBound := true }

/-- A poll keeps the companion held for the resume dialog. -/
def State.poll : State :=
  { s with castBound := true, prePlayHold := !s.wantPlay || s.prePlayHold }

/-- An unsubscription drops the holds when it leaves no subscriber. -/
def State.unsubscribe (noSubscribers : Bool) : State :=
  { s with
    castBound := !noSubscribers && s.castBound,
    prePlayHold := !(noSubscribers && !s.wantPlay) && s.prePlayHold }

/-- A request that names the player binds the cast. -/
def State.touch : State := { s with castBound := true }

/-- A seek target is planted. -/
def State.plant (target durationMs : ℤ) : State :=
  { s with
    scrubTargetMs := target, timeMs := target, durationMs := s.takeDuration durationMs,
    state := "buffering", wantPlay := true }

/-- The size of one relative step: ten seconds, or the size asked for up to two minutes. -/
def stepSize (offset : ℤ) : ℤ := if offset = 0 then 10000 else min (max offset (-offset)) 120000

/-- Where a relative step leads. -/
def State.stepTarget (back : Bool) (offset : ℤ) : ℤ :=
  capTo s.durationMs (max 0 (s.timeMs+if back then -stepSize offset else stepSize offset))

/-- A relative step reads the clock and plants its target in one critical section. -/
def State.stepBy (back : Bool) (offset : ℤ) : State :=
  if s.wantPlay ∧ s.stepTarget back offset ≠ s.timeMs then
    s.plant (s.stepTarget back offset) s.durationMs
  else s

/-- The first element with a property is changed. -/
def updateFirst {α : Type*} (p : α → Bool) (f : α → α) : List α → List α
  | [] => []
  | a::l => if p a then f a::l else a::updateFirst p f l

/-- Where at most one element has the property, changing the first is changing all. -/
theorem updateFirst_eq_map {α : Type*} {p : α → Bool} (f : α → α) {l : List α}
    (h : l.Pairwise fun a b => p a=true → p b=false) :
    updateFirst p f l = l.map fun a => if p a then f a else a := by
  induction l with
  | nil => rfl
  | cons a l ih =>
    rw [List.pairwise_cons] at h
    rw [updateFirst,List.map_cons]
    by_cases hp : p a=true
    · rw [if_pos hp,if_pos hp]
      have hrest : (l.map fun b => if p b then f b else b)=l := by
        calc (l.map fun b => if p b then f b else b)=l.map id := by
              refine List.map_congr_left ?_
              intro b hb
              rw [h.1 b hb hp]
              rfl
          _ = l := List.map_id l
      rw [hrest]
    · rw [if_neg hp,if_neg hp,ih h.2]

/-- A subscriber to pushed timelines. -/
structure TimelineSubscriber where
  /-- The name it is kept under. -/
  id : String
  /-- The host to post to. -/
  host : String
  /-- The protocol to post with. -/
  protocol : String
  /-- Number of the command that the timelines answer. -/
  commandId : String
  /-- The port to post to. -/
  port : ℕ
  /-- Failed posts in a row. -/
  failures : ℕ
  deriving DecidableEq

/-- The newest command of a controller. -/
structure ControllerCommand where
  /-- Name of the controller, empty when it gives none. -/
  id : String
  /-- The controller's host. -/
  host : String
  /-- Its last command number. -/
  commandId : String
  deriving DecidableEq

/-- What the subscriber mutex guards. -/
structure Registry where
  /-- Who is posted to. -/
  subscribers : List TimelineSubscriber
  /-- The last command number of every controller. -/
  controllerCommands : List ControllerCommand
  deriving DecidableEq

/-- No subscriber and no controller. -/
def Registry.empty : Registry := ⟨[],[]⟩

/-- Most subscribers that are kept. -/
def kMaxSubscribers : ℕ := 8

/-- Most controllers that are kept. -/
def kMaxControllers : ℕ := 16

/-- A command number is a decimal numeral. -/
def decimalCommandId (value : String) : Bool := value != "" && value.toList.all Char.isDigit

/-- Decimal command numbers are ordered by value; others count as newer. -/
def commandIsNewerOrEqual (candidate current : String) : Bool :=
  if current = "" then true
  else if !decimalCommandId candidate || !decimalCommandId current then true
  else Decimal.notLess candidate.toList current.toList

/-- The entry of a controller, by name or else by host. -/
def ControllerCommand.answers (id host : String) (current : ControllerCommand) : Bool :=
  if id ≠ "" then current.id == id else current.id == "" && current.host == host

/-- A list behind which a new element may stand: the oldest one makes room. -/
def makeRoom {α : Type*} (most : ℕ) (l : List α) : List α := if most ≤ l.length then l.tail else l

/-- The subscribers that a command of a controller concerns. -/
def TimelineSubscriber.concerns (id host : String) (subscriber : TimelineSubscriber) : Bool :=
  if id ≠ "" then subscriber.id == id else subscriber.host == host

/-- The number that counts once a command has arrived. -/
def Registry.effective (r : Registry) (id host commandId : String) : String :=
  match r.controllerCommands.find? (ControllerCommand.answers id host) with
  | some current =>
    if commandIsNewerOrEqual commandId current.commandId then commandId else current.commandId
  | none => commandId

/-- A command of a controller arrives. -/
def Registry.updateTimelineCommand (r : Registry) (id host commandId : String) : Registry :=
  if commandId = "" then r
  else
    { controllerCommands :=
        match r.controllerCommands.find? (ControllerCommand.answers id host) with
        | some _ =>
          updateFirst (ControllerCommand.answers id host)
            (fun current => { current with commandId := r.effective id host commandId })
            r.controllerCommands
        | none => makeRoom kMaxControllers r.controllerCommands ++ [⟨id,host,commandId⟩],
      subscribers :=
        r.subscribers.map fun subscriber =>
          if subscriber.concerns id host then
            { subscriber with commandId := r.effective id host commandId }
          else subscriber }

/-- A command arrives, and the number to answer with is looked up. -/
def Registry.timelineCommandFor (r : Registry) (id host commandId : String) : String × Registry :=
  let next := r.updateTimelineCommand id host commandId
  (match next.controllerCommands.find? (ControllerCommand.answers id host) with
    | some current => current.commandId
    | none => "0",
    next)

/-- The address of a subscriber as a name. -/
def endpoint (host : String) (port : ℕ) : String := host ++ ":" ++ toString port

/-- The name under which a controller subscribes. -/
def subscriberId (id host : String) (port : ℕ) : String :=
  if id = "" then endpoint host port else id

/-- A subscription is entered, in the place of an older one of the same name. -/
def Registry.subscribeTimeline (r : Registry) (id host protocol : String) (port : ℕ)
    (commandId : String) : Registry :=
  let subscriber : TimelineSubscriber :=
    { id := subscriberId id host port, host := host, protocol := protocol,
      commandId := orElse commandId "0", port := port, failures := 0 }
  { r with
    subscribers :=
      if (r.subscribers.find? fun current => current.id == subscriber.id).isSome then
        updateFirst (fun current => current.id == subscriber.id) (fun _ => subscriber)
          r.subscribers
      else makeRoom kMaxSubscribers r.subscribers ++ [subscriber] }

/-- A subscription ends; returns whether no subscriber remains. -/
def Registry.unsubscribeTimeline (r : Registry) (id host : String) : Bool × Registry :=
  let remaining := r.subscribers.filter fun subscriber => !subscriber.concerns id host
  (remaining.isEmpty,{ r with subscribers := remaining })

/-- The subscriber of a post. -/
def TimelineSubscriber.same (subscriber current : TimelineSubscriber) : Bool :=
  current.id == subscriber.id && current.host == subscriber.host &&
    current.port == subscriber.port

/-- The outcome of a post is noted; the third failure in a row drops the subscriber. -/
def Registry.settlePost (r : Registry) (subscriber : TimelineSubscriber) (ok : Bool) : Registry :=
  match r.subscribers.find? subscriber.same with
  | none => r
  | some current =>
    if ok then
      { r with
        subscribers :=
          updateFirst subscriber.same (fun s => { s with failures := 0 }) r.subscribers }
    else if 3 ≤ current.failures+1 then
      { r with subscribers := r.subscribers.eraseP subscriber.same }
    else
      { r with
        subscribers :=
          updateFirst subscriber.same (fun s => { s with failures := s.failures+1 })
            r.subscribers }

theorem commandIsNewerOrEqual_iff {candidate current : String}
    (hcandidate : decimalCommandId candidate=true) (hcurrent : decimalCommandId current=true) :
    commandIsNewerOrEqual candidate current = true ↔
      Decimal.value current.toList≤Decimal.value candidate.toList := by
  have hparts := Bool.and_eq_true_iff.mp hcurrent
  have hempty : current ≠ "" := bne_iff_ne.mp hparts.1
  unfold commandIsNewerOrEqual
  rw [if_neg hempty,hcandidate,hcurrent,if_neg (by decide)]
  have hdigits := List.all_eq_true.mp (Bool.and_eq_true_iff.mp hcandidate).2
  have hdigits' := List.all_eq_true.mp hparts.2
  exact Decimal.notLess_iff hdigits hdigits'

end Misterplex.Companion
