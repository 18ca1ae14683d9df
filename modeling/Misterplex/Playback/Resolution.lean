import Misterplex.Companion.State

/-!
# The resolution of a play request

A play request is resolved against the media server before it is committed to the
player, and its play queue is looked up when it names a queue but no item of it.
The media server may answer anything.
-/

namespace Misterplex.Playback

open Misterplex.Companion

/-- An item of a play queue. -/
structure QueueItem where
  /-- The key of the title. -/
  key : String
  /-- Its rating key. -/
  ratingKey : String
  /-- Its id in the queue. -/
  playQueueItemId : String
  deriving DecidableEq

/-- The answer to the look-up of a play queue. -/
structure PlayQueue where
  /-- The look-up succeeded. -/
  ok : Bool
  /-- The id of the queue. -/
  playQueueId : String
  /-- Its version. -/
  playQueueVersion : String
  /-- The key it was fetched by. -/
  containerKey : String
  /-- The items in order. -/
  items : List QueueItem
  /-- The current item's index. -/
  currentIndex : ℤ
  deriving DecidableEq

/-- A look-up that failed. -/
def PlayQueue.failed : PlayQueue :=
  { ok := false, playQueueId := "", playQueueVersion := "", containerKey := "", items := [],
    currentIndex := 0 }

/-- The item at an index, if the index is inside the queue. -/
def PlayQueue.at (queue : PlayQueue) (index : ℤ) : Option QueueItem :=
  if 0 ≤ index then queue.items[index.toNat]? else none

/-- The answer to a resolution. -/
structure ResolveResult where
  /-- The title can be played. -/
  ok : Bool
  /-- The URL to play. -/
  playable : String
  /-- The headers to play it with. -/
  httpHeaders : String
  /-- Its duration. -/
  durationMs : ℤ
  /-- Where the title was left the last time. -/
  viewOffsetMs : ℤ
  /-- Its rating key. -/
  ratingKey : String
  deriving DecidableEq

/-- A resolution that failed. -/
def ResolveResult.failed : ResolveResult :=
  { ok := false, playable := "", httpHeaders := "", durationMs := 0, viewOffsetMs := 0,
    ratingKey := "" }

/-- What a play request is played with. -/
structure Resolved where
  /-- The answer of the media server, or the test pattern in its place. -/
  result : ResolveResult
  /-- Base address of the server that answered. -/
  base : String
  /-- The item of the play queue. -/
  playQueueItemId : String
  /-- The id of the play queue. -/
  playQueueId : String
  /-- The version of the play queue. -/
  playQueueVersion : String
  /-- The key of the play queue. -/
  containerKey : String
  deriving DecidableEq

/-- A failed resolution plays the test pattern for two minutes. -/
def ResolveResult.orTestPattern (result : ResolveResult) : ResolveResult :=
  if result.ok then result
  else { result with playable := "testsrc", ok := true, durationMs := 120000 }

/-- A request as resolved, before its play queue is looked up. -/
def resolve (req : PlayRequest) (result : ResolveResult) (base : String) : Resolved :=
  { result := result.orTestPattern, base := base, playQueueItemId := req.playQueueItemId,
    playQueueId := req.playQueueId, playQueueVersion := req.playQueueVersion,
    containerKey := req.containerKey }

/-- The play queue that a request names. -/
def queueRef (req : PlayRequest) : String :=
  if req.containerKey = "" ∧ req.playQueueId ≠ "" then "/playQueues/" ++ req.playQueueId
  else req.containerKey

/-- The item of a play queue is the title of the request. -/
def QueueItem.matches (item : QueueItem) (req : PlayRequest) (ratingKey : String) : Bool :=
  item.key == req.key ||
    (item.ratingKey != "" && (item.ratingKey == ratingKey || mentions req.key item.ratingKey))

variable (res : Resolved)

/-- The current item of the looked-up queue is taken over when it is the title of the request
and the request names no item itself. -/
def Resolved.bindQueue (req : PlayRequest) (queue : PlayQueue) : Resolved :=
  if req.playQueueItemId = "" ∧ mentions (queueRef req) "/playQueues/" ∧ queue.ok then
    match queue.at queue.currentIndex with
    | none => res
    | some item =>
      if item.matches req res.result.ratingKey ∧ item.playQueueItemId ≠ "" then
        { res with
          playQueueItemId := item.playQueueItemId,
          playQueueId := orElse queue.playQueueId res.playQueueId,
          playQueueVersion := orElse queue.playQueueVersion res.playQueueVersion,
          containerKey :=
            if queue.containerKey = "" then res.containerKey
            else queue.containerKey ++ "?own=1" }
      else res
  else res

/-- Host and port of a base address. -/
def hostPort (base : String) : List Char :=
  ((behind "://".toList base.toList).getD base.toList).takeWhile (· != '/')

/-- The host in front of the last colon. -/
def hostOf (hostport : List Char) : String :=
  if hostport.contains ':' then
    String.ofList ((hostport.reverse.dropWhile (· != ':')).drop 1).reverse
  else String.ofList hostport

/-- The port behind the last colon. -/
def portOf (hostport : List Char) : String :=
  if hostport.contains ':' then String.ofList (hostport.reverse.takeWhile (· != ':')).reverse
  else "32400"

/-- The server of a request that names none is the one that answered. -/
def Resolved.address (req : PlayRequest) : PlayRequest :=
  if req.address = "" ∧ res.base ≠ "" then
    { req with
      address := hostOf (hostPort res.base), port := portOf (hostPort res.base),
      protocol := if "https".toList.isPrefixOf res.base.toList then "https" else "http" }
  else req

/-- The request with what its resolution found. -/
def Resolved.bound (req : PlayRequest) : PlayRequest :=
  { res.address req with
    ratingKey := orElse req.ratingKey res.result.ratingKey,
    playQueueItemId := orElse req.playQueueItemId res.playQueueItemId,
    playQueueId := orElse req.playQueueId res.playQueueId,
    playQueueVersion := orElse req.playQueueVersion res.playQueueVersion,
    containerKey := orElse req.containerKey res.containerKey,
    serverMachineId := orElse req.serverMachineId "plex-server" }

/-- Where the request asks to start, or where the title was left. -/
def Resolved.offset (req : PlayRequest) : ℤ :=
  if !req.offsetPresent ∧ 0 < res.result.viewOffsetMs then res.result.viewOffsetMs
  else req.offsetMs

/-- Where the demuxer starts: a scrub during the resolution wins over the offset. -/
def Resolved.startAt (req : PlayRequest) (timelineTimeMs : ℤ) : ℤ :=
  capTo res.result.durationMs
    (max 0 (if timelineTimeMs ≠ req.offsetMs then timelineTimeMs else res.offset req))

/-- The item of the queue that a step leads to. -/
def PlayQueue.dest (queue : PlayQueue) (delta : ℤ) : Option QueueItem :=
  if queue.ok then queue.at (queue.currentIndex+delta) else none

/-- The request for an item of the queue, made from the current request. -/
def PlayQueue.request (queue : PlayQueue) (item : QueueItem) (cur : PlayRequest) (token : String) :
    PlayRequest :=
  { cur with
    key := item.key, ratingKey := item.ratingKey,
    playQueueItemId := orElse item.playQueueItemId item.ratingKey,
    playQueueId := orElse queue.playQueueId cur.playQueueId,
    playQueueVersion := orElse queue.playQueueVersion cur.playQueueVersion,
    containerKey :=
      if queue.containerKey = "" then cur.containerKey else queue.containerKey ++ "?own=1",
    offsetMs := 0, offsetPresent := true, token := token, dispatchGeneration := 0 }

/-- A request for the same title at another time. -/
def seekRequest (cur : PlayRequest) (offsetMs : ℤ) : PlayRequest :=
  { cur with offsetMs := offsetMs, offsetPresent := true, dispatchGeneration := 0 }

/-- The title is one of the media server's library. -/
def libraryKey (cur : PlayRequest) : Bool :=
  cur.key != "" &&
    ("/library".toList.isPrefixOf cur.key.toList || mentions cur.key "library/metadata")

/-- The first address of a cast, before it is resolved. -/
def provisionalBase (req : PlayRequest) : String :=
  orElse req.protocol "http" ++ "://" ++ req.address ++ ":" ++ orElse req.port "32400"

end Misterplex.Playback
