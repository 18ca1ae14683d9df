import Misterplex.Plex.Address
import Mathlib.Data.Int.Order.Basic

/-!
# Timeline reports to the media server

The reporter keeps the session it reports for. Whether a report is due, and the
request that carries it, are decided in one critical section; the request enters
the queue of the worker in another.
-/

namespace Misterplex.Plex

/-- The session that is reported. -/
structure PmsTimelineSession where
  /-- The server. -/
  baseUrl : String
  /-- The token. -/
  token : String
  /-- The key of the title. -/
  key : String
  /-- Its rating key. -/
  ratingKey : String
  /-- Its id in the queue. -/
  playQueueItemId : String
  /-- The key of the queue. -/
  containerKey : String
  /-- The player's id. -/
  clientIdentifier : String
  /-- The player's product. -/
  product : String
  /-- The player's version. -/
  version : String
  /-- The player's name. -/
  deviceName : String
  deriving DecidableEq

/-- A session with nothing set but its defaults. -/
def PmsTimelineSession.blank : PmsTimelineSession :=
  { baseUrl := "", token := "", key := "", ratingKey := "", playQueueItemId := "",
    containerKey := "", clientIdentifier := "misterplex", product := "Plex Web",
    version := "4.125.0", deviceName := "Chrome" }

/-- A request to the server. -/
structure PmsTimelineHttpRequest where
  /-- The URL. -/
  url : String
  /-- The headers. -/
  headers : List (String × String)
  deriving DecidableEq

/-- A request with the state it reports. -/
structure Pending where
  /-- The request to make. -/
  request : PmsTimelineHttpRequest
  /-- The state it reports. -/
  state : String
  deriving DecidableEq

/-- The states that the server knows. -/
def validState (state : String) : Bool :=
  state == "playing" || state == "paused" || state == "stopped" || state == "buffering"

/-- A reported time within its duration. -/
def reportTime (timeMs durationMs : ℤ) : ℤ :=
  if 0 < max 0 durationMs ∧ max 0 durationMs < max 0 timeMs then max 0 durationMs
  else max 0 timeMs

variable (session : PmsTimelineSession)

/-- The query of a report. -/
def timelineQuery (state : String) (timeMs durationMs : ℤ) : String :=
  let key := if session.key = "" then "/library/metadata/" ++ session.ratingKey else session.key
  "ratingKey=" ++ urlEncodeQuery session.ratingKey ++ "&key=" ++ urlEncodeQuery key ++
    "&state=" ++ urlEncodeQuery state ++ "&time=" ++
    urlEncodeQuery (toString (reportTime timeMs durationMs)) ++ "&duration=" ++
    urlEncodeQuery (toString (max 0 durationMs)) ++
    "&type=video&identifier=com.plexapp.plugins.library" ++
    (if session.playQueueItemId = "" then ""
      else "&playQueueItemID=" ++ urlEncodeQuery session.playQueueItemId) ++
    (if session.containerKey = "" then ""
      else "&containerKey=" ++ urlEncodeQuery session.containerKey)

/-- The headers of a report. -/
def timelineHeaders : List (String × String) :=
  [("X-Plex-Token",session.token),
    ("X-Plex-Client-Identifier",session.clientIdentifier),
    ("X-Plex-Product",session.product),("X-Plex-Version",session.version),
    ("X-Plex-Device-Name",session.deviceName),("X-Plex-Device","Linux"),
    ("X-Plex-Platform","Linux"),("X-Plex-Provides","player"),
    ("Accept","application/xml")]

/-- The request that reports a state, if the session can be reported and the state is known. -/
def buildPmsTimelineHttpRequest (state : String)
    (timeMs durationMs : ℤ) : Option PmsTimelineHttpRequest :=
  if session.token = "" ∨ session.ratingKey = "" ∨ validState state = false then none
  else if normalizePlexBase session.baseUrl = "" then none
  else
    some
      { url := normalizePlexBase session.baseUrl ++ "/:/timeline?" ++
          timelineQuery session state timeMs durationMs,
        headers := timelineHeaders session }

/-- What the reporter keeps besides its queue. -/
structure Reporter where
  /-- A session is open. -/
  active : Bool
  /-- The session. -/
  session : PmsTimelineSession
  /-- The state reported last, empty at the start of a session. -/
  lastSentState : String
  /-- When playing was last reported. -/
  lastPlayingSent : Option ℕ
  deriving DecidableEq

/-- A reporter without a session. -/
def Reporter.idle : Reporter := ⟨false,PmsTimelineSession.blank,"",none⟩

/-- Playing is repeated once a second. -/
def kPlayingCadence : ℕ := 1000

/-- A session begins: what is to be queued, and the reporter. -/
def beginSession (timeMs durationMs : ℤ) : Option Pending × Reporter :=
  match buildPmsTimelineHttpRequest session "buffering" timeMs durationMs with
  | none =>
    (none,
      { active := false, session := session, lastSentState := "", lastPlayingSent := none })
  | some req =>
    (some ⟨req,"buffering"⟩,
      { active := true, session := session, lastSentState := "buffering",
        lastPlayingSent := none })

/-- A report is due. -/
def Reporter.shouldSendLocked (r : Reporter) (state : String) (now : ℕ) : Bool :=
  if state = "stopped" then true
  else if state ≠ r.lastSentState then true
  else if state = "playing" then
    match r.lastPlayingSent with
    | none => true
    | some sent => kPlayingCadence ≤ now-sent
  else false

/-- The session ends: what is to be queued, and the reporter. -/
def Reporter.endSession (r : Reporter) (timeMs durationMs : ℤ) : Option Pending × Reporter :=
  if r.active = false then (none,r)
  else
    match buildPmsTimelineHttpRequest r.session "stopped" timeMs durationMs with
    | none => (none,{ r with active := false })
    | some req => (some ⟨req,"stopped"⟩,{ r with lastSentState := "stopped", active := false })

/-- A state other than the end of the title is reported. -/
def Reporter.reportRunning (r : Reporter) (state : String) (timeMs durationMs : ℤ) (now : ℕ) :
    Option Pending × Reporter :=
  if r.active = false ∨ r.shouldSendLocked state now = false then (none,r)
  else
    match buildPmsTimelineHttpRequest r.session state timeMs durationMs with
    | none => (none,r)
    | some req =>
      (some ⟨req,state⟩,
        { r with
          lastSentState := state,
          lastPlayingSent := if state = "playing" then some now else r.lastPlayingSent })

/-- A state is reported: what is to be queued, and the reporter. The end of the title ends
the session. -/
def Reporter.reportState (r : Reporter) (state : String) (timeMs durationMs : ℤ) (now : ℕ) :
    Option Pending × Reporter :=
  if state = "ended" then r.endSession timeMs durationMs
  else r.reportRunning state timeMs durationMs now

/-- A newer token replaces the one of a live session. -/
def Reporter.updateToken (r : Reporter) (token : String) : Reporter :=
  if token = "" ∨ r.active = false then r
  else { r with session := { r.session with token := token } }

/-- Most reports that wait. -/
def kMaxQueue : ℕ := 4

/-- A full queue loses its first report that is not the end of a session, or else its first. -/
def evict {α : Type*} (stopped : α → Bool) (queue : List α) : List α :=
  if kMaxQueue ≤ queue.length then
    if queue.any fun p => !stopped p then queue.eraseP fun p => !stopped p else queue.tail
  else queue

/-- A report enters the queue. -/
def enqueue {α : Type*} (stopped : α → Bool) (queue : List α) (pending : α) : List α :=
  evict stopped queue ++ [pending]

end Misterplex.Plex
