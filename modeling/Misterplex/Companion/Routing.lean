import Misterplex.Companion.State

/-!
# Reading and routing a request of a controller

Parameters are looked up by searching the whole text of a request for the
name and an equals sign; headers are looked up line by line. The handler of a
request is chosen by searching its whole text for marks, in a fixed order.
Everything the server takes from a request is its handler, the effects of some
marks on the binding and the token, and what the handlers look up.
-/

namespace Misterplex.Companion

/-- What ends the value of a parameter. -/
def valueStops : List Char := [' ','&','\r','\n']

/-- The pattern searched for a parameter. -/
def paramPattern (key : String) : List Char := key.toList ++ ['=']

/-- What follows the first place where a name and an equals sign stand in a
request. -/
def queryParam (req : List Char) (key : String) : List Char :=
  match behind (paramPattern key) req with
  | none => []
  | some rest => upTo valueStops rest

/-- Value of a hexadecimal digit. -/
def hexDigit (c : Char) : Option ℕ :=
  if c.isDigit then some (c.toNat - '0'.toNat)
  else if 'a' ≤ c ∧ c ≤ 'f' then some (c.toNat - 'a'.toNat+10)
  else if 'A' ≤ c ∧ c ≤ 'F' then some (c.toNat - 'A'.toNat+10)
  else none

/-- The character of an escape, by the two digits behind its sign. -/
def escaped : List Char → Option Char
  | a::b::_ => (hexDigit a).bind fun x => (hexDigit b).map fun y => Char.ofNat (16*x+y)
  | _ => none

/-- Decode escapes and plus signs behind some characters that are skipped. -/
def pctDecodeFrom : ℕ → List Char → List Char
  | _,[] => []
  | skip+1,_ :: rest => pctDecodeFrom skip rest
  | 0,c::rest =>
    if c = '%' then
      match escaped rest with
      | some e => e::pctDecodeFrom 2 rest
      | none => c::pctDecodeFrom 0 rest
    else if c = '+' then ' ' :: pctDecodeFrom 0 rest
    else c::pctDecodeFrom 0 rest

variable (text : List Char)

/-- Decode escapes and plus signs. -/
def pctDecode : List Char := pctDecodeFrom 0 text

/-- Lower case of the letters of a text. -/
def asciiLower : List Char := text.map Char.toLower

/-- Blanks around a header value. -/
def isOws (c : Char) : Bool := c == ' ' || c == '\t'

/-- A header value without the blanks around it. -/
def trimOws (value : List Char) : List Char :=
  ((value.dropWhile isOws).reverse.dropWhile isOws).reverse

/-- A text cut at its first line break. -/
def cutLine : List Char → Option (List Char × List Char)
  | [] => none
  | c::rest =>
    if c = '\r' ∧ rest.head?=some '\n' then some ([],rest.tail)
    else (cutLine rest).map fun p => (c::p.1,p.2)

/-- A line cut at its first colon. -/
def cutColon : List Char → Option (List Char × List Char)
  | [] => none
  | c::rest => if c = ':' then some ([],rest) else (cutColon rest).map fun p => (c::p.1,p.2)

theorem cutLine_length {text : List Char} {p : List Char × List Char} (h : cutLine text=some p) :
    p.2.length<text.length := by
  induction text generalizing p with
  | nil => exact absurd h (Option.some_ne_none p).symm
  | cons c rest ih =>
    rw [cutLine] at h
    split at h
    · rw [← Option.some.inj h,List.length_tail,List.length_cons]
      omega
    · obtain ⟨q,hq,hp⟩ := Option.map_eq_some_iff.mp h
      have hlt := ih hq
      rw [← hp,List.length_cons]
      exact Nat.lt_succ_of_lt hlt

/-- The value of the first header line of a name, before the first empty line. -/
def headerScan (wanted : List Char) (text : List Char) : List Char :=
  match _h : cutLine text with
  | none => []
  | some p =>
    if p.1 = [] then []
    else
      match cutColon p.1 with
      | some q => if asciiLower q.1 = wanted then trimOws q.2 else headerScan wanted p.2
      | none => headerScan wanted p.2
termination_by text.length
decreasing_by
  · exact cutLine_length _h
  · exact cutLine_length _h

/-- The value of a header line. -/
def headerValue (req : List Char) (name : String) : List Char :=
  match cutLine req with
  | none => []
  | some p => headerScan (asciiLower name.toList) p.2

/-- Blanks in front of a number. -/
def isSpace (c : Char) : Bool := c == ' ' || ('\t' ≤ c && c ≤ '\r')

/-- The digits at the start of a text as a number. -/
def leadingNat : ℕ :=
  (text.takeWhile Char.isDigit).foldl (fun n c => 10*n+(c.toNat - '0'.toNat)) 0

/-- A sign at the start of a text, and what follows it. -/
def cutSign : List Char → Bool × List Char
  | '-' :: rest => (true,rest)
  | '+' :: rest => (false,rest)
  | text => (false,text)

/-- The number at the start of a text, 0 when there is none. -/
def atoll : ℤ :=
  let signed := cutSign (text.dropWhile isSpace)
  if signed.1 then -(leadingNat signed.2 : ℤ) else leadingNat signed.2

/-- How a request is looked up. -/
structure Lookup where
  /-- Look up a parameter. -/
  queryParam : String → List Char
  /-- Look up a header line. -/
  headerValue : String → List Char

namespace Lookup

variable (req : Lookup)

/-- The first of two texts unless it is empty. -/
def orElse (first second : List Char) : List Char := if first = [] then second else first

/-- The identifier of the controller. -/
def controllerId : List Char :=
  orElse (orElse (pctDecode (req.queryParam "X-Plex-Client-Identifier"))
    (pctDecode (req.queryParam "clientIdentifier")))
    (pctDecode (req.headerValue "X-Plex-Client-Identifier"))

/-- The token of a cast. -/
def token : List Char :=
  orElse (orElse (pctDecode (req.queryParam "token"))
    (pctDecode (req.queryParam "X-Plex-Token"))) (pctDecode (req.headerValue "X-Plex-Token"))

/-- The port of a subscriber, 0 unless it is a decimal port number. -/
def callbackPort : ℕ :=
  let raw := req.queryParam "port"
  let signed := cutSign (raw.dropWhile isSpace)
  let digits := signed.2.takeWhile Char.isDigit
  let value := min (leadingNat signed.2) (2^32-1)
  let parsed := if signed.1 ∧ leadingNat signed.2 < 2^32 then (2^32-value)%2^32 else value
  if digits = [] ∨ digits.length≠signed.2.length ∨ parsed=0 ∨ 65535 < parsed then 0 else parsed

/-- The first position parameter that is there, with whether there is one. -/
def parseOffsetMs : ℤ × Bool :=
  match ["offset","viewOffset","time","startTimeOffset"].find?
      fun name => !(req.queryParam name).isEmpty with
  | some name => (atoll (req.queryParam name),true)
  | none => (0,false)

end Lookup

/-- The rating key in a metadata key. -/
def ratingKeyFromKey (key : List Char) : List Char :=
  match behind "/library/metadata/".toList key with
  | none => []
  | some rest => rest.takeWhile Char.isDigit

/-- The play request read off a request. -/
def parsePlayRequest (req : Lookup) : PlayRequest :=
  let key := pctDecode (req.queryParam "key")
  let containerKey := pctDecode (req.queryParam "containerKey")
  let queued := found "/playQueues/".toList containerKey
  let playQueueId :=
    if queued then upTo ['?'] (containerKey.drop "/playQueues/".toList.length)
    else req.queryParam "playQueueID"
  { key := String.ofList key
    containerKey :=
      if !queued && found "/library/".toList containerKey then "" else String.ofList containerKey
    playQueueId := String.ofList playQueueId
    playQueueItemId := String.ofList (req.queryParam "playQueueItemID")
    playQueueVersion := String.ofList (req.queryParam "playQueueVersion")
    ratingKey := String.ofList (Lookup.orElse (req.queryParam "ratingKey") (ratingKeyFromKey key))
    address := String.ofList (pctDecode (req.queryParam "address"))
    protocol := String.ofList (req.queryParam "protocol")
    port := String.ofList (req.queryParam "port")
    token := String.ofList req.token
    serverMachineId := String.ofList (req.queryParam "machineIdentifier")
    offsetMs := req.parseOffsetMs.1
    offsetPresent := req.parseOffsetMs.2
    dispatchGeneration := 0 }

/-- What is searched for in a request to route it. -/
inductive Mark
  | player
  | resources
  | getResources
  | subscribe
  | unsubscribePath
  | pollPath
  | timeline
  /-- Some end of a subscription. -/
  | unsubscribe
  | mirror
  | playMedia
  | playback
  | pause
  | stop
  | seekTo
  | seek
  | step
  | stepForward
  | stepBack
  | skipNext
  | skipPrevious
  | play
  | timelineSeekTo
  | command
  deriving DecidableEq

/-- The texts of a mark: any of them counts. -/
def Mark.words : Mark → List String
  | .player => ["/player/"]
  | .resources => ["/resources"]
  | .getResources => ["GET /resources","GET /identity"]
  | .subscribe => ["/player/timeline/subscribe"]
  | .unsubscribePath => ["/player/timeline/unsubscribe"]
  | .pollPath => ["/player/timeline/poll","/player/proxy/timeline"]
  | .timeline => ["/timeline"]
  | .unsubscribe => ["unsubscribe"]
  | .mirror => ["mirror"]
  | .playMedia => ["playMedia"]
  | .playback => ["/player/playback/"]
  | .pause => ["/pause","playback/pause"]
  | .stop => ["/stop","playback/stop"]
  | .seekTo => ["seekTo"]
  | .seek => ["/seek"]
  | .step => ["step"]
  | .stepForward => ["stepForward"]
  | .stepBack => ["stepBack"]
  | .skipNext => ["skipNext"]
  | .skipPrevious => ["skipPrevious"]
  | .play => ["/player/playback/play","playback/play?","playback/play "]
  | .timelineSeekTo => ["/player/timeline/seekTo"]
  | .command => ["/player/command"]

/-- A mark stands somewhere in a request. -/
def Mark.inText (m : Mark) (req : List Char) : Bool := m.words.any fun w => found w.toList req

/-- The handlers of the server. -/
inductive Handler
  | options
  | resources
  | subscribe
  | unsubscribe
  | poll
  | mirror
  | playMedia
  | pause
  | resumePlay
  | stop
  | seek
  | step (back : Bool)
  | skipNext
  | skipPrevious
  /-- A playback command that is only acknowledged. -/
  | acknowledge
  | notFound
  deriving DecidableEq

/-- A seek: by its name, or by its path unless it is a step. -/
def isSeek (has : Mark → Bool) : Bool := has .seekTo || (has .seek && !has .seekTo && !has .step)

/-- The handler of a playback command. -/
def playbackHandler (has : Mark → Bool) : Handler :=
  if has .playMedia then .playMedia
  else if has .pause then .pause
  else if !has .stop && !isSeek has && !has .stepForward && !has .stepBack && !has .skipNext &&
      !has .skipPrevious && has .play then .resumePlay
  else if has .stop then .stop
  else if isSeek has then .seek
  else if has .stepForward || has .stepBack then .step (has .stepBack)
  else if has .skipNext then .skipNext
  else if has .skipPrevious then .skipPrevious
  else .acknowledge

/-- The handler of a request by its marks. -/
def handlerOf (preflight : Bool) (has : Mark → Bool) : Handler :=
  if preflight then .options
  else if has .getResources then .resources
  else if has .subscribe then .subscribe
  else if has .unsubscribePath then .unsubscribe
  else if has .pollPath || (has .timeline && !has .playMedia && !has .mirror && !has .unsubscribe)
  then .poll
  else if has .mirror && !has .playMedia then .mirror
  else if has .playMedia || has .playback then playbackHandler has
  else .notFound

/-- A request from which the token of the session is refreshed. -/
def refreshesToken (has : Mark → Bool) : Bool :=
  has .player &&
    (has .playMedia || has .playback || has .timelineSeekTo || has .seekTo || has .command) &&
    !(has .pollPath || has .subscribe || has .unsubscribePath)

/-- A request that binds the player as a cast target. -/
def bindsCast (has : Mark → Bool) : Bool := has .player || has .resources

/-- A preflight, by the start of a request. -/
def isPreflight (req : List Char) : Bool := "OPTIONS".toList.isPrefixOf req

/-- What the handlers look up. -/
structure Parameters where
  /-- The client identifier. -/
  controllerId : List Char
  /-- The command number. -/
  commandID : List Char
  /-- The token of the query. -/
  token : List Char
  /-- The headers that a preflight asks for. -/
  allowHeaders : List Char
  /-- The protocol of a subscription. -/
  protocol : List Char
  /-- The port of a subscription. -/
  port : ℕ
  /-- A poll waits for a change. -/
  wait : Bool
  /-- The title of a cast or a mirror. -/
  play : PlayRequest
  /-- The offset and whether it is given. -/
  offset : ℤ × Bool
  /-- The distance of a step. -/
  stepOffset : List Char
  deriving DecidableEq

/-- Look up everything the handlers use. -/
def readParameters (req : Lookup) : Parameters :=
  { controllerId := req.controllerId
    commandID := req.queryParam "commandID"
    token := req.token
    allowHeaders := req.headerValue "Access-Control-Request-Headers"
    protocol := asciiLower (Lookup.orElse (req.queryParam "protocol") "http".toList)
    port := req.callbackPort
    wait := req.queryParam "wait" == "1".toList
    play := parsePlayRequest req
    offset := req.parseOffsetMs
    stepOffset := req.queryParam "offset" }

/-- Everything the server takes from a request. -/
structure Taken where
  /-- The handler that takes the request. -/
  handler : Handler
  /-- The request's token is stored first. -/
  refreshesToken : Bool
  /-- The player becomes bound. -/
  bindsCast : Bool
  /-- What the handlers look up. -/
  parameters : Parameters
  deriving DecidableEq

/-- What the server takes from the text of a request. -/
def taken (req : List Char) : Taken where
  handler := handlerOf (isPreflight req) fun m => m.inText req
  refreshesToken := refreshesToken fun m => m.inText req
  bindsCast := bindsCast fun m => m.inText req
  parameters := readParameters ⟨queryParam req,headerValue req⟩

end Misterplex.Companion
