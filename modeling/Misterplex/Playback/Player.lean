import Misterplex.Companion.Text
import Mathlib.Algebra.Order.Group.Int

/-!
# The session of the media player

The player keeps the address of what it plays until it is stopped. A seek copies
that address and starts the player again with it. Every operation below is one
critical section; what a section reads of the running demuxer is its argument.
-/

namespace Misterplex.Playback

open Misterplex.Companion

/-- Where the media thread stands. -/
inductive Media
  | none
  | running
  /-- It reached the end of a title, after so many commands, at a time and with a duration. -/
  | ended (born : ℕ) (t d : ℤ)
  /-- It reports the end while another queue step is in flight. -/
  | ending (t d : ℤ)
  /-- It keeps the clock alive and starts a queue step. -/
  | advancing (born : ℕ) (t d : ℤ)
  deriving DecidableEq

/-- No callback of the media thread is in flight, so that the thread can be joined. -/
def Media.joins : Media → Bool
  | .none => true
  | .running => true
  | _ => false

/-- What the media player keeps of its session. -/
structure Player where
  /-- The URL of the session. -/
  currentUrl : String
  /-- Its request headers. -/
  currentHeaders : String
  /-- Duration of the title, 0 while unknown. -/
  durationMs : ℤ
  /-- A session plays. -/
  playing : Bool
  /-- The session is paused. -/
  paused : Bool
  /-- The media of the session. -/
  media : Media
  deriving DecidableEq

/-- A player that has played nothing. -/
def Player.initial : Player :=
  { currentUrl := "", currentHeaders := "", durationMs := 0, playing := false, paused := false,
    media := .none }

/-- The session ends, the media thread is joined and the address is dropped. -/
def Player.stop (p : Player) : Player :=
  { p with
    currentUrl := "", currentHeaders := "", durationMs := 0, playing := false, paused := false,
    media := .none }

/-- An address is played from the start of a new media thread; returns whether the presenter
could be set up. -/
def Player.play (p : Player) (urlOrPath httpHeaders : String) (durationMs : ℤ) (present : Bool) :
    Bool × Player :=
  if present then
    (true,
      { currentUrl := urlOrPath, currentHeaders := httpHeaders, durationMs := durationMs,
        playing := true, paused := false, media := .running })
  else (false,{ p with playing := false, media := .none })

/-- The address asks the media server for a transcoded stream. -/
def isUniversalTranscodeUrl (url : String) : Bool :=
  mentions url "transcode/universal" || mentions url "/video/:/transcode/"

/-- A query whose first offset is replaced, if it has one. -/
def replaceOffset (value : List Char) : Bool → List Char → Option (List Char)
  | _,[] => none
  | atKey,c::rest =>
    if atKey && "offset=".toList.isPrefixOf (c::rest) then
      some (value ++ (c::rest).dropWhile (· != '&'))
    else (replaceOffset value (c == '&') rest).map (c :: ·)

/-- The start offset stands in the address of a transcoded stream, in whole seconds. -/
def withUniversalOffset (url : String) (offsetMs : ℤ) : String :=
  if !isUniversalTranscodeUrl url then url
  else
    let offSec := if offsetMs ≤ 0 then 0 else (offsetMs+500)/1000
    let value := ("offset=" ++ toString offSec).toList
    let front := url.toList.takeWhile (· != '#')
    let hash := url.toList.dropWhile (· != '#')
    match behind ['?'] front with
    | none => String.ofList (front ++ '?' :: value ++ hash)
    | some query =>
      match replaceOffset value true query with
      | none => String.ofList (front ++ '&' :: value ++ hash)
      | some new => String.ofList (front.take (front.length-query.length) ++ new ++ hash)

/-- A seek target within the known duration. -/
def Player.clampSeek (p : Player) (ms : ℤ) : ℤ :=
  if 0 < p.durationMs ∧ p.durationMs < max 0 ms then p.durationMs else max 0 ms

/-- A command of the remote control. -/
inductive PlaybackCommand
  | none
  | playPause
  | stop
  | skipForward
  | skipBack
  deriving DecidableEq

/-- What a command of the remote control asks of the player. -/
inductive PlaybackAction
  | none
  | pause
  | resume
  | stop
  | seek (seekTargetMs : ℤ)
  deriving DecidableEq

/-- A seek that leads away from the position. -/
def seekFrom (positionMs seekTargetMs : ℤ) : PlaybackAction :=
  if seekTargetMs = positionMs then .none else .seek seekTargetMs

/-- A command of the remote control, mapped in the state of the player. -/
def mapPlaybackCommand (command : PlaybackCommand) (playing paused : Bool)
    (positionMs durationMs skipForwardMs skipBackMs : ℤ) : PlaybackAction :=
  if !playing then .none
  else
    match command with
    | .playPause => if paused then .resume else .pause
    | .stop => .stop
    | .skipForward =>
      let target := max 0 positionMs+max 0 skipForwardMs
      seekFrom (max 0 positionMs)
        (if 0 < durationMs ∧ durationMs < target then durationMs else target)
    | .skipBack => seekFrom (max 0 positionMs) (max 0 (max 0 positionMs-max 0 skipBackMs))
    | .none => .none

end Misterplex.Playback
