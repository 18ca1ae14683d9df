import Misterplex.Lib.TextSearch
import Misterplex.Lib.UrlText

/-!
# Offsets in universal transcode addresses

The media server starts a universal transcode at the offset, in seconds, that its
address carries. A seek puts the new offset into the address and starts the
players again. A player gets its own start position only where the address
carries no offset.
-/

namespace Misterplex.UniversalOffset

open Search

/-- The first mark of a universal address. -/
def universalMark : List Char := "transcode/universal".toList

/-- The second mark of a universal address. -/
def transcodeMark : List Char := "/video/:/transcode/".toList

/-- The key of an offset parameter. -/
def offsetKey : List Char := "offset=".toList

variable (url : List Char)

/-- The address of a universal transcode. -/
def isUniversalTranscodeUrl : Bool :=
  (find universalMark url 0).isSome || (find transcodeMark url 0).isSome

/-- An offset seems to stand in the query. -/
def urlHasUniversalOffset : Bool :=
  if !isUniversalTranscodeUrl url then false
  else
    match find ['?'] url 0 with
    | none => false
    | some q =>
      let qs := url.drop (q+1)
      (find offsetKey qs 0).isSome

/-- The offset in seconds, rounded. -/
def offSec (offsetMs : ℤ) : ℕ := if offsetMs ≤ 0 then 0 else ((offsetMs+500)/1000).toNat

/-- The offset parameter. -/
def offsetParam (offsetMs : ℤ) : List Char := offsetKey ++ Nat.toDigits 10 (offSec offsetMs)

/-- Where a value that starts at a position ends. -/
def valEnd (endAt pos : ℕ) : ℕ :=
  match find ['&'] url pos with
  | none => endAt
  | some e => if e > endAt then endAt else e

/-- The address with the first offset parameter of the query replaced, looked for from a
position on. -/
def replaceOffset (url value : List Char) (q endAt pos : ℕ) : Option (List Char) :=
  match _h : find offsetKey url pos with
  | none => none
  | some p =>
    if p < endAt then
      let atKey := p=q+1 ∨ url[p-1]?=some '&'
      if atKey then
        some (url.take p ++ value ++ url.drop (valEnd url endAt p))
      else replaceOffset url value q endAt (p+7)
    else none
termination_by url.length-pos
decreasing_by
  have hbounds := find_bounds _h
  have hlen : offsetKey.length=7 := rfl
  omega

/-- What stands behind a sign, if there is one. -/
def fragmentAt : Option ℕ → List Char
  | none => []
  | some hash => url.drop hash

/-- The address with the offset of a seek. -/
def withUniversalOffset (offsetMs : ℤ) : List Char :=
  if !isUniversalTranscodeUrl url then url
  else
    let value := offsetParam offsetMs
    let hash := find ['#'] url 0
    let endAt := hash.getD url.length
    let fragment := fragmentAt url hash
    match find ['?'] url 0 with
    | none => url.take endAt ++ '?' :: value ++ fragment
    | some q =>
      if q > endAt then url.take endAt ++ '?' :: value ++ fragment
      else
        match replaceOffset url value q endAt (q+1) with
        | some replaced => replaced
        | none => url.take endAt ++ '&' :: value ++ fragment

/-- The last three decimal digits. -/
def threeDigits (n : ℕ) : List Char :=
  [Nat.digitChar (n/100%10),Nat.digitChar (n/10%10),Nat.digitChar (n%10)]

/-- Milliseconds written as seconds. -/
def seconds (ms : ℤ) : List Char :=
  Nat.toDigits 10 (ms.toNat/1000) ++ '.' :: threeDigits (ms.toNat%1000)

/-- The option for a start position. -/
def seekOption : List Char := "-ss".toList

/-- The start position a player gets. -/
def seekArgs (startMs : ℤ) : List (List Char) :=
  if startMs > 0 ∧ urlHasUniversalOffset url = false then [seekOption,seconds startMs] else []

/-- What every player starts with, behind the name of the program. -/
def quietArgs : List (List Char) :=
  ["-hide_banner".toList,"-loglevel".toList,"error".toList,"-nostdin".toList]

/-- Header lines end with a line break. -/
def headerBlock (headers : List Char) : List Char :=
  if headers.length < 2 ∨ headers.getLast?≠some '\n' then headers ++ ['\r','\n'] else headers

/-- Header lines and how to connect again. -/
def headerArgs (headers : List Char) (delayMax : Bool) : List (List Char) :=
  if headers.isEmpty then []
  else ["-headers".toList,headerBlock headers,"-reconnect".toList,"1".toList,
    "-reconnect_streamed".toList,"1".toList] ++
    if delayMax then ["-reconnect_delay_max".toList,"5".toList] else []

/-- An elementary stream by its name. -/
def looksElementaryH264 : Bool :=
  if url.isEmpty || "http".toList.isPrefixOf url || "lavfi".toList.isPrefixOf url then false
  else
    let lower := (url.map Char.toLower).takeWhile (· != '?')
    lower.length ≥ 5 && (".h264".toList.isSuffixOf lower || ".264".toList.isSuffixOf lower ||
      ".avc".toList.isSuffixOf lower)

/-- The player that looks for an audio stream. -/
def ffmpegHasAudioStream (url headers : List Char) (startMs : ℤ) : List (List Char) :=
  quietArgs ++ seekArgs url startMs ++ headerArgs headers true ++
    ["-i".toList,url,"-map".toList,"0:a:0".toList,"-frames:a".toList,"1".toList,"-f".toList,
      "null".toList,"-".toList]

/-- The player that takes the elementary stream out. -/
def spawnStreamDemux (url headers : List Char) (startMs : ℤ) : List (List Char) :=
  let elementary := looksElementaryH264 url
  quietArgs ++ seekArgs url startMs ++ headerArgs headers false ++
    (if elementary then ["-f".toList,"h264".toList] else []) ++
    ["-i".toList,url,"-map".toList,"0:v:0".toList,"-an".toList,"-c:v".toList,"copy".toList] ++
    (if elementary then [] else ["-bsf:v".toList,"h264_mp4toannexb".toList]) ++
    ["-f".toList,"h264".toList,"pipe:1".toList]

/-- The player that copies the elementary stream into a named pipe. -/
def spawnHttpRemuxMpegts (url headers : List Char) (startMs : ℤ) : List (List Char) :=
  quietArgs ++ seekArgs url startMs ++ headerArgs headers true ++
    ["-i".toList,url,"-map".toList,"0:v:0".toList,"-an".toList,"-c:v".toList,"copy".toList,
      "-bsf:v".toList,"h264_mp4toannexb".toList,"-f".toList,"h264".toList,"-y".toList,
      "/tmp/mplex-inproc.h264".toList]

/-- The player for the audio alone. -/
def spawnAudioOnly (audioDelayMs : ℕ) (url headers : List Char) (startMs : ℤ) :
    List (List Char) :=
  quietArgs ++ seekArgs url startMs ++ headerArgs headers true ++
    ["-i".toList,url,"-vn".toList,"-map".toList,"0:a:0?".toList,"-af".toList,
      if audioDelayMs > 0 then
        "aresample=48000,adelay=".toList ++ Nat.toDigits 10 audioDelayMs ++ ":all=1".toList
      else "aresample=48000".toList,
      "-f".toList,"s16le".toList,"-ac".toList,"2".toList,"-ar".toList,"48000".toList,
      "pipe:3".toList]

/-- How the player for pictures and audio opens its input. -/
def combinedInput (url headers : List Char) (startMs : ℤ) : List (List Char) :=
  seekArgs url startMs ++ headerArgs headers true ++ ["-i".toList,url]

/-- The players that may be started. -/
inductive Player where
  /-- Looks for an audio stream. -/
  | probe
  /-- Takes the elementary stream out. -/
  | streamDemux
  /-- Copies the elementary stream into a named pipe. -/
  | remux
  | audioOnly (audioDelayMs : ℕ)
  /-- Plays pictures and audio. -/
  | combined

/-- The arguments of a player. -/
def Player.args (player : Player) (url headers : List Char) (startMs : ℤ) : List (List Char) :=
  match player with
  | probe => ffmpegHasAudioStream url headers startMs
  | streamDemux => spawnStreamDemux url headers startMs
  | remux => spawnHttpRemuxMpegts url headers startMs
  | audioOnly audioDelayMs => spawnAudioOnly audioDelayMs url headers startMs
  | combined => combinedInput url headers startMs

/-- What is being played. -/
structure Session where
  /-- The URL that plays. -/
  url : List Char
  /-- Where it starts. -/
  startMs : ℤ
  /-- How long the title is, if that is known. -/
  durationMs : ℤ

/-- A seek and what it finds. -/
structure Seek where
  /-- The target. -/
  ms : ℤ
  /-- Where the player is. -/
  positionMs : ℤ
  /-- The player plays. -/
  live : Bool

/-- The position a seek goes to. -/
def Session.clamped (s : Session) (ms : ℤ) : ℤ :=
  let ms := if ms < 0 then 0 else ms
  if s.durationMs > 0 ∧ ms > s.durationMs then s.durationMs else ms

/-- Restart the stream at the clamped target, unless it plays there. -/
def Session.seekMs (s : Session) (e : Seek) : Session :=
  let ms := s.clamped e.ms
  if s.url.isEmpty then s
  else if e.live ∧ e.positionMs = ms then s
  else { s with url := withUniversalOffset s.url ms, startMs := ms }

end Misterplex.UniversalOffset
