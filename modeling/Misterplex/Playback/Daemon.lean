import Misterplex.Companion.Threads
import Misterplex.Lib.ThreadPool
import Misterplex.Playback.Player
import Misterplex.Playback.Resolution

/-!
# The threads that start and stop playback

Casts, seeks, queue steps and restarts run on threads of their own. They share
the companion, the player, the generation of the newest play request and the
title of the session. A play request is superseded when a newer generation was
taken; it is committed to the player under the mutex of the handoff. Each step
is one critical section; a section whose mutex is held or whose threads to join
are busy does nothing.
-/

namespace Misterplex.Playback

open Misterplex.Companion

/-- Where the commitment of a resolved request stands, under the mutex of the handoff. -/
inductive Commit
  | stopping
  /-- The input and OSD polls are to be joined. -/
  | suspending
  | aspect
  /-- The request is to be checked before it is bound. -/
  | checkBind
  /-- The media identity is to be bound. -/
  | binding
  | reading
  /-- The request is to be checked after it was bound. -/
  | checkSeed (startAt : ℤ)
  | seeding (startAt : ℤ)
  | buffering (startAt : ℤ)
  | checkPlay (startAt : ℤ)
  | committing (startAt : ℤ)
  | starting (startAt : ℤ)
  /-- The failed request is to be reported as stopped. -/
  | closing (timeMs : ℤ)
  | closingSession
  deriving DecidableEq

/-- Where a thread stands. -/
inductive Pc
  /-- A queue step is to copy the title of the session. -/
  | queueCopy (delta : ℤ)
  /-- A queue step looks up the play queue. -/
  | queueFetch (delta : ℤ) (cur : PlayRequest) (token : String)
  | queueStage (n : PlayRequest) (token : String)
  /-- A queue step is to make the item the title of the session. -/
  | queuePlant (n : PlayRequest) (token : String)
  /-- A queue step found no item. -/
  | queueFailed
  | endReport (t d : ℤ)
  /-- A cast is to make its title that of the session. -/
  | castPlant (req : PlayRequest)
  | seekWait (ms : ℤ) (g : ℕ)
  | seekCopy (ms : ℤ)
  | restartCopy
  /-- The address of the player is to be copied. -/
  | seekUrl (ms : ℤ)
  /-- The copied address is to be played from another time, unless that is the position. -/
  | seekCopied (ms : ℤ) (url headers : String) (dur : ℤ)
  /-- Buffering at the other time is to be reported. -/
  | seekReport (ms : ℤ) (url headers : String) (dur : ℤ)
  | seekPlay (ms : ℤ) (url headers : String) (dur : ℤ)
  /-- The remote control pauses or resumes the player. -/
  | remotePause (pause : Bool)
  | remoteReport (pause : Bool)
  | remoteStop
  /-- A play request without generation is to get one. -/
  | begin (req : PlayRequest)
  /-- A play request is to be checked before it is resolved. -/
  | entered (req : PlayRequest) (gen : ℕ)
  | resolving (req : PlayRequest) (gen : ℕ)
  | resolved (req : PlayRequest) (gen : ℕ) (res : Resolved)
  | inside (c : Commit) (req : PlayRequest) (gen : ℕ) (res : Resolved)
  | done
  deriving DecidableEq

/-- What a thread was started for. -/
inductive Task
  | cast
  | skipNext
  /-- The previous title of the queue, asked for at a time. -/
  | skipPrevious (t : ℤ)
  /-- The next title of the queue after the end of one. -/
  | autoNext (t d : ℤ)
  | seek
  /-- A restart in another content resolution. -/
  | restart
  | remote
  deriving DecidableEq

/-- A thread. -/
structure Thread where
  /-- Number of commands handled before the event that started it. -/
  born : ℕ
  /-- What the thread runs. -/
  task : Task
  /-- Where it stands. -/
  pc : Pc
  deriving DecidableEq

/-- Where the thread of the requests stands. -/
inductive Http
  /-- Between two requests. -/
  | idle
  | routed (r : Request)
  /-- A cast has its generation and is to be staged. -/
  | queued (pr : PlayRequest)
  /-- A cast is staged and acknowledged. -/
  | planted (pr : PlayRequest)
  /-- A stop has dropped the media binding. -/
  | stopCallback
  | stopSession
  /-- A pause or a resume has read the clock. -/
  | reporting (pause : Bool) (t d : ℤ) (active : Bool)
  /-- A pause or a resume is to change the player. -/
  | pauseCallback (pause : Bool)
  | pauseReport (pause : Bool)
  | seeking (ms d : ℤ) (active moved : Bool)
  | seekCallback (ms : ℤ)
  /-- A skip to the next title has read whether a session is live. -/
  | skippingNext (active : Bool)
  /-- A skip to the previous title has read the clock. -/
  | skippingPrevious (t d : ℤ) (active : Bool)
  /-- A skip to the previous title is to plant the start of the title. -/
  | plantingStart (t d : ℤ)
  deriving DecidableEq

/-- The commands of the user in the order of their arrival, and who acted on them last. -/
structure Ledger where
  /-- Number of casts and stops received. -/
  received : ℕ
  /-- The number of the last command handled. -/
  handled : ℕ
  /-- Number of the last cast that was received. -/
  castNo : ℕ
  /-- Number of the last stop that was handled. -/
  stopNo : ℕ
  /-- Event of the command or thread that took the newest generation. -/
  taker : ℕ
  /-- Event of the command or thread that staged the pending title. -/
  stager : ℕ
  /-- Event of the thread whose play request started the session of the player. -/
  sounding : Option ℕ
  deriving DecidableEq

/-- What the threads share. -/
structure Shared where
  /-- The next title follows at the end of one. -/
  autoNext : Bool
  /-- Access token of the configured server. -/
  confToken : String
  /-- Size of a step ahead on the remote control. -/
  skipForwardMs : ℤ
  /-- Size of a step back on the remote control. -/
  skipBackMs : ℤ
  /-- The companion's state. -/
  companion : State
  /-- The request being served. -/
  http : Http
  /-- The media player. -/
  player : Player
  /-- Generation of the newest play request. -/
  playGen : ℕ
  /-- The thread that holds the mutex of the handoff. -/
  playHandoffMu : Option ℕ
  /-- The generation of the last seek. -/
  seekGen : ℕ
  /-- The thread that holds the mutex of the seeks. -/
  seekMu : Option ℕ
  /-- The next item is being fetched. -/
  autoNextInFlight : Bool
  /-- The last play request. -/
  lastPlay : PlayRequest
  /-- The server it was played from. -/
  lastBase : String
  /-- The token it was played with. -/
  lastToken : String
  /-- The input and OSD polls run. -/
  workers : Bool
  /-- The input poll carries out a command. -/
  remoteBusy : Bool
  /-- The OSD poll carries out a change of the content resolution. -/
  osdBusy : Bool
  /-- The numbers of the commands. -/
  ledger : Ledger
  deriving DecidableEq

/-- The daemon with its threads. -/
abbrev World := Pool Shared Thread

/-- What the network, the hardware and the running demuxer answer in one step. -/
structure Input where
  /-- The aspect is acknowledged, or the presenter is set up. -/
  ok : Bool
  /-- What the resolver answers. -/
  result : ResolveResult
  /-- Base address of the server that answered. -/
  base : String
  /-- Answer to the look-up of a play queue. -/
  queue : PlayQueue
  /-- The player's position. -/
  positionMs : ℤ

namespace Shared

variable (s : Shared)

/-- A progress report reaches the companion. -/
def report (name : String) (timeMs durationMs : ℤ) : Shared :=
  { s with companion := s.companion.setState name timeMs durationMs }

/-- A new generation is taken. -/
def takeGeneration (born : ℕ) : Shared :=
  { s with playGen := s.playGen+1, ledger := { s.ledger with taker := born } }

/-- The player is stopped and reports it. -/
def stopPlayer (positionMs : ℤ) : Shared :=
  { s with
    companion := s.companion.setState "stopped" positionMs s.player.durationMs,
    player := s.player.stop, ledger := { s.ledger with sounding := none } }

/-- The media thread and the OSD poll can be joined. -/
def joins : Bool := s.player.media.joins && !s.osdBusy

/-- The title of the session is dropped. -/
def dropSession : Shared := { s with lastPlay := PlayRequest.blank, lastBase := "" }

/-- A seek is started on a thread of its own. -/
def seekAsync (born : ℕ) (ms : ℤ) : Shared × List Thread :=
  ({ s with seekGen := s.seekGen+1 },[⟨born,.seek,.seekWait ms (s.seekGen+1)⟩])

/-- The play request has the newest generation and the session is live. -/
def current (gen : ℕ) : Bool := gen == s.playGen && s.companion.wantPlay

/-- The title of the session is committed with the token that belongs to it. -/
def commitSession (req bound : PlayRequest) (base : String) : Shared :=
  { s with
    lastPlay := bound, lastBase := base,
    lastToken :=
      if bound.token ≠ "" then bound.token
      else if req.address = "" ∧ s.confToken ≠ "" then s.confToken else s.lastToken }

end Shared

/-- What a task gives back when its thread ends. -/
def Task.finish (task : Task) (s : Shared) : Shared :=
  match task with
  | .cast => s
  | .skipNext => { s with autoNextInFlight := false }
  | .skipPrevious _ => { s with autoNextInFlight := false }
  | .autoNext _ _ => { s with autoNextInFlight := false }
  | .seek => { s with seekMu := none }
  | .restart => s
  | .remote => { s with remoteBusy := false }

/-- How far two times are apart. -/
def drift (nowT t : ℤ) : ℤ := if t < nowT then nowT-t else t-nowT

namespace Thread

variable (t : Thread)

/-- The thread goes on to another place. -/
def goTo (pc : Pc) (s : Shared) : Outcome Shared Thread := ⟨s,{ t with pc := pc },[]⟩

/-- The thread waits and changes nothing. -/
def wait (s : Shared) : Outcome Shared Thread := ⟨s,t,[]⟩

/-- The thread ends. -/
def finish (s : Shared) : Outcome Shared Thread := t.goTo .done (t.task.finish s)

/-- The thread leaves the handoff, which resumes the polls, and ends. -/
def leave (s : Shared) : Outcome Shared Thread :=
  t.finish { s with playHandoffMu := none, workers := true }

/-- One critical section of the commitment of a resolved request. -/
def commit (c : Commit) (req : PlayRequest) (gen : ℕ) (res : Resolved) (x : Input)
    (s : Shared) : Outcome Shared Thread :=
  match c with
  | .stopping =>
    if s.joins then t.goTo (.inside .suspending req gen res) (s.stopPlayer x.positionMs)
    else t.wait s
  | .suspending =>
    if s.remoteBusy || s.osdBusy then t.wait s
    else t.goTo (.inside .aspect req gen res) { s with workers := false }
  | .aspect =>
    t.goTo (.inside (if x.ok then .checkBind else .closing req.offsetMs) req gen res) s
  | .checkBind => if s.current gen then t.goTo (.inside .binding req gen res) s else t.leave s
  | .binding =>
    if (s.companion.bindMedia (res.bound req) res.result.durationMs).1 then
      t.goTo (.inside .reading req gen res)
        { s with companion := (s.companion.bindMedia (res.bound req) res.result.durationMs).2 }
    else t.leave s
  | .reading => t.goTo (.inside (.checkSeed (res.startAt req s.companion.timeMs)) req gen res) s
  | .checkSeed startAt =>
    if s.current gen then t.goTo (.inside (.seeding startAt) req gen res) s else t.leave s
  | .seeding startAt =>
    t.goTo (.inside (.buffering startAt) req gen res)
      { s with companion := s.companion.seedPlaybackPosition startAt res.result.durationMs }
  | .buffering startAt =>
    t.goTo (.inside (.checkPlay startAt) req gen res)
      (s.report "buffering" startAt res.result.durationMs)
  | .checkPlay startAt =>
    if s.current gen then t.goTo (.inside (.committing startAt) req gen res) s else t.leave s
  | .committing startAt =>
    if s.current gen then
      t.goTo (.inside (.starting startAt) req gen res)
        (s.commitSession req (res.bound req) res.base)
    else t.leave s
  | .starting startAt =>
    if !s.player.media.joins then t.wait s
    else
      match s.player.play res.result.playable res.result.httpHeaders res.result.durationMs x.ok with
      | (true,player) =>
        t.leave { s with player := player, ledger := { s.ledger with sounding := some t.born } }
      | (false,player) => t.goTo (.inside (.closing startAt) req gen res) { s with player := player }
  | .closing timeMs =>
    t.goTo (.inside .closingSession req gen res)
      (s.report "stopped" timeMs res.result.durationMs)
  | .closingSession => t.leave s.dropSession

/-- A queue step that found no item ends; the skip to the previous title goes back to the start
of the current one, unless the time has moved away meanwhile. -/
def queueFailed (s : Shared) : Outcome Shared Thread :=
  match t.task with
  | .autoNext time d => t.goTo (.endReport time d) { s with autoNextInFlight := false }
  | .skipPrevious time =>
    if 0 < time ∧ ¬(3000<drift s.companion.timeMs time ∧ 3000<s.companion.timeMs) then
      ⟨{ (s.seekAsync t.born 0).1 with autoNextInFlight := false },{ t with pc := .done },
        (s.seekAsync t.born 0).2⟩
    else t.finish s
  | _ => t.finish s

/-- One critical section of a thread that has a number in the list of the threads. -/
def advance (i : ℕ) (x : Input) (s : Shared) (t : Thread) : Outcome Shared Thread :=
  match t.pc with
  | .queueCopy delta =>
    if mentions (queueRef s.lastPlay) "/playQueues/" then
      t.goTo (.queueFetch delta s.lastPlay s.lastToken) s
    else t.goTo .queueFailed s
  | .queueFetch delta cur token =>
    match x.queue.dest delta with
    | none => t.goTo .queueFailed s
    | some item => t.goTo (.queueStage (x.queue.request item cur token) token) s
  | .queueStage n token =>
    t.goTo (.queuePlant n token)
      { s with
        companion := s.companion.stagePlay n, ledger := { s.ledger with stager := t.born } }
  | .queuePlant n token =>
    t.goTo (.begin n) { s with lastPlay := n, lastToken := orElse token s.lastToken }
  | .queueFailed => t.queueFailed s
  | .endReport time d => t.goTo .done (s.report "stopped" time d)
  | .castPlant req =>
    t.goTo (.begin req)
      { s with
        lastPlay := req, lastToken := orElse req.token s.lastToken,
        lastBase := if req.address = "" then s.lastBase else provisionalBase req }
  | .seekWait ms g =>
    if s.seekMu ≠ none then t.wait s
    else if g ≠ s.seekGen then t.goTo .done s
    else t.goTo (.seekCopy ms) { s with seekMu := some i }
  | .seekCopy ms =>
    if libraryKey s.lastPlay then t.goTo (.begin (seekRequest s.lastPlay (max 0 ms))) s
    else t.goTo (.seekUrl ms) s
  | .restartCopy =>
    if s.lastPlay.key = "" ∧ s.lastPlay.ratingKey = "" then t.goTo .done { s with osdBusy := false }
    else
      t.goTo
        (.begin (seekRequest s.lastPlay (if 0 < x.positionMs then x.positionMs else s.lastPlay.offsetMs)))
        { s with osdBusy := false }
  | .seekUrl ms =>
    if s.player.currentUrl = "" then t.finish s
    else
      t.goTo (.seekCopied (s.player.clampSeek ms) s.player.currentUrl s.player.currentHeaders
        s.player.durationMs) s
  | .seekCopied ms url headers dur =>
    if s.player.playing ∧ x.positionMs = ms then t.finish s
    else t.goTo (.seekReport ms url headers dur) s
  | .seekReport ms url headers dur =>
    t.goTo (.seekPlay ms url headers dur) (s.report "buffering" ms dur)
  | .seekPlay ms url headers dur =>
    if !s.player.media.joins then t.wait s
    else
      t.finish
        { s with player := (s.player.play (withUniversalOffset url ms) headers dur x.ok).2 }
  | .remotePause pause =>
    t.goTo (.remoteReport pause) { s with player := { s.player with paused := pause } }
  | .remoteReport pause =>
    t.finish (s.report (if pause then "paused" else "playing") x.positionMs s.player.durationMs)
  | .remoteStop => if s.joins then t.finish (s.stopPlayer x.positionMs) else t.wait s
  | .begin req =>
    if req.dispatchGeneration ≠ 0 then t.goTo (.entered req req.dispatchGeneration) s
    else if s.playHandoffMu ≠ none then t.wait s
    else t.goTo (.entered req (s.playGen+1)) (s.takeGeneration t.born)
  | .entered req gen => if gen = s.playGen then t.goTo (.resolving req gen) s else t.finish s
  | .resolving req gen =>
    if gen = s.playGen then t.goTo (.resolved req gen (resolve req x.result x.base)) s
    else t.finish s
  | .resolved req gen res =>
    if s.playHandoffMu ≠ none then t.wait s
    else if gen = s.playGen ∧ s.companion.acceptsPlayRequest req then
      t.goTo (.inside .stopping req gen (res.bindQueue req x.queue)) { s with playHandoffMu := some i }
    else t.finish s
  | .inside c req gen res => t.commit c req gen res x s
  | .done => t.wait s

end Thread

namespace Shared

variable (s : Shared)

/-- A request reaches its handler's first critical section. -/
def serve : Request → Shared
  | .other => { s with http := .idle }
  | .unsubscribe noSubscribers =>
    { s with companion := s.companion.unsubscribe noSubscribers, http := .idle }
  | .poll => { s with companion := s.companion.poll, http := .idle }
  | .mirror pr => { s with companion := s.companion.mirror pr, http := .idle }
  | .playMedia pr =>
    if s.playHandoffMu ≠ none then s
    else
      { s with
        playGen := s.playGen+1,
        http :=
          .queued { pr with
            key := orElse pr.key "(no-key)", dispatchGeneration := s.playGen+1 },
        ledger :=
          { s.ledger with
            received := s.ledger.received+1, handled := s.ledger.received+1,
            castNo := s.ledger.received+1, taker := s.ledger.received+1 } }
  | .stop =>
    { s with
      companion := s.companion.clearMedia, http := .stopCallback,
      ledger := { s.ledger with received := s.ledger.received+1 } }
  | .pause =>
    { s with
      http := .reporting true s.companion.timeMs s.companion.durationMs s.companion.wantPlay }
  | .resume =>
    { s with
      http := .reporting false s.companion.timeMs s.companion.durationMs s.companion.wantPlay }
  | .seek present ms =>
    { s with
      http :=
        .seeking (s.companion.seekTarget ms) s.companion.durationMs s.companion.wantPlay
          (present && s.companion.seekTarget ms != s.companion.timeMs) }
  | .step back offset =>
    { s with
      companion := s.companion.stepBy back offset,
      http :=
        if s.companion.wantPlay ∧ s.companion.stepTarget back offset ≠ s.companion.timeMs then
          .seekCallback (s.companion.stepTarget back offset)
        else .idle }
  | .skipNext => { s with http := .skippingNext s.companion.wantPlay }
  | .skipPrevious =>
    { s with
      http := .skippingPrevious s.companion.timeMs s.companion.durationMs s.companion.wantPlay }

/-- A queue step is started on a thread of its own, unless one is in flight. -/
def queueStep (task : Task) (delta : ℤ) : Shared × List Thread :=
  if s.autoNextInFlight then (s,[])
  else ({ s with autoNextInFlight := true },[⟨s.ledger.handled,task,.queueCopy delta⟩])

/-- The handler of a skip to the previous title: past three seconds the title starts over. -/
def skipPrevious : Shared × List Thread :=
  if 3000 < s.companion.timeMs then s.seekAsync s.ledger.handled 0
  else s.queueStep (.skipPrevious s.companion.timeMs) (-1)

/-- The next critical section of the thread of the requests. -/
def handle (x : Input) : Shared × List Thread :=
  match s.http with
  | .idle => (s,[])
  | .routed r => (s.serve r,[])
  | .queued pr =>
    ({ s with
      companion := s.companion.stagePlay pr,
      http := .planted { pr with containerKey := pr.queueContainer },
      ledger := { s.ledger with stager := s.ledger.castNo } },[])
  | .planted pr => ({ s with http := .idle },[⟨s.ledger.castNo,.cast,.castPlant pr⟩])
  | .stopCallback =>
    if s.playHandoffMu = none ∧ s.joins then
      ({ (s.takeGeneration s.ledger.received).stopPlayer x.positionMs with
        http := .stopSession },[])
    else (s,[])
  | .stopSession =>
    ({ s.dropSession with
      http := .idle,
      ledger :=
        { s.ledger with handled := s.ledger.received, stopNo := s.ledger.received } },[])
  | .reporting pause t d active =>
    if active then
      ({ s.report (if pause then "paused" else "playing") t d with http := .pauseCallback pause },
        [])
    else ({ s with http := .idle },[])
  | .pauseCallback pause =>
    ({ s with player := { s.player with paused := pause }, http := .pauseReport pause },[])
  | .pauseReport pause =>
    ({ s.report (if pause then "paused" else "playing") x.positionMs s.player.durationMs with
      http := .idle },[])
  | .seeking ms d active moved =>
    if active && moved then
      ({ s with companion := s.companion.plant ms d, http := .seekCallback ms },[])
    else ({ s with http := .idle },[])
  | .seekCallback ms => { s with http := .idle }.seekAsync s.ledger.handled ms
  | .skippingNext active =>
    if active then { s with http := .idle }.queueStep .skipNext 1 else ({ s with http := .idle },[])
  | .skippingPrevious t d active =>
    if active then { s with http := .plantingStart t d }.skipPrevious
    else ({ s with http := .idle },[])
  | .plantingStart t d =>
    ({ s with
      companion := if t ≠ 0 then s.companion.plant 0 d else s.companion, http := .idle },[])

/-- The next step of the callback of the media thread at the end of a title. -/
def endTitle : Shared × List Thread :=
  match s.player.media with
  | .ended born t d =>
    if s.autoNextInFlight then ({ s with player := { s.player with media := .ending t d } },[])
    else
      ({ s with
        autoNextInFlight := true, player := { s.player with media := .advancing born t d } },[])
  | .ending t d => ({ s.report "stopped" t d with player := { s.player with media := .none } },[])
  | .advancing born t d =>
    ({ s.report "buffering" t d with player := { s.player with media := .none } },
      [⟨born,.autoNext t d,if s.autoNext then .queueCopy 1 else .queueFailed⟩])
  | _ => (s,[])

/-- The input poll carries out a command of the remote control. -/
def remote (command : PlaybackCommand) (positionMs : ℤ) : Shared × List Thread :=
  if !s.workers || s.remoteBusy then (s,[])
  else
    match mapPlaybackCommand command s.player.playing s.player.paused positionMs
        s.player.durationMs s.skipForwardMs s.skipBackMs with
    | .none => (s,[])
    | .pause => ({ s with remoteBusy := true },[⟨s.ledger.handled,.remote,.remotePause true⟩])
    | .resume => ({ s with remoteBusy := true },[⟨s.ledger.handled,.remote,.remotePause false⟩])
    | .stop => ({ s with remoteBusy := true },[⟨s.ledger.handled,.remote,.remoteStop⟩])
    | .seek ms => ({ s with remoteBusy := true },[⟨s.ledger.handled,.remote,.seekUrl ms⟩])

/-- The OSD poll sees another content resolution. -/
def contentRes : Shared × List Thread :=
  if s.workers && !s.osdBusy && s.player.playing then
    ({ s with osdBusy := true },[⟨s.ledger.handled,.restart,.restartCopy⟩])
  else (s,[])

end Shared

/-- One step of the daemon or of what drives it. -/
inductive Action
  | thread (i : ℕ) (x : Input)
  /-- The thread of the requests goes on. -/
  | http (x : Input)
  /-- A request arrives, with whether it names the player and the token it carries. -/
  | arrive (r : Request) (player : Bool) (token : String)
  /-- The media thread reports progress. -/
  | progress (name : String) (t d : ℤ)
  /-- The media thread ends without content. -/
  | shortRead (t d : ℤ)
  /-- The media thread reaches the end of a title. -/
  | ended (t d : ℤ)
  /-- The callback of the media thread at the end of a title goes on. -/
  | endTitle
  | remote (command : PlaybackCommand) (positionMs : ℤ)
  /-- The content resolution is changed in the OSD. -/
  | contentRes

/-- The request is one for the playback of the player, and so names it. -/
def playback : Request → Bool
  | .pause => true
  | .resume => true
  | .stop => true
  | .seek _ _ => true
  | .step _ _ => true
  | .skipNext => true
  | .skipPrevious => true
  | _ => false

/-- What a step from outside the threads does. -/
def Shared.drive (s : Shared) : Action → Shared × List Thread
  | .thread _ _ => (s,[])
  | .http x => s.handle x
  | .arrive r player token =>
    match s.http with
    | .idle =>
      ({ s with
        companion := if player || playback r then s.companion.touch else s.companion,
        http := .routed r,
        lastToken := orElse token s.lastToken },[])
    | _ => (s,[])
  | .progress name t d => (if s.player.media = .running then s.report name t d else s,[])
  | .shortRead t d =>
    if s.player.media = .running then
      ({ s.report "stopped" t d with player := { s.player with playing := false, media := .none } },
        [])
    else (s,[])
  | .ended t d =>
    if s.player.media = .running then
      ({ s with
        player := { s.player with playing := false, media := .ended s.ledger.handled t d } },[])
    else (s,[])
  | .endTitle => s.endTitle
  | .remote command positionMs => s.remote command positionMs
  | .contentRes => s.contentRes

/-- One step of the daemon. -/
def World.step (w : World) : Action → World
  | .thread i x => w.proceed i (Thread.advance i x)
  | a => w.intervene (w.shared.drive a)

/-- The daemon before its first request, with its configuration. -/
def World.initial (autoNext : Bool) (confToken : String) (skipForwardMs skipBackMs : ℤ) : World :=
  { shared :=
      { autoNext := autoNext, confToken := confToken, skipForwardMs := skipForwardMs,
        skipBackMs := skipBackMs, companion := State.initial, http := .idle,
        player := Player.initial, playGen := 0, playHandoffMu := none, seekGen := 0,
        seekMu := none, autoNextInFlight := false, lastPlay := PlayRequest.blank, lastBase := "",
        lastToken := "", workers := true, remoteBusy := false, osdBusy := false,
        ledger :=
          { received := 0, handled := 0, castNo := 0, stopNo := 0, taker := 0, stager := 0,
            sounding := none } },
    threads := [] }

end Misterplex.Playback
