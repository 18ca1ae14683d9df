import Misterplex.Companion.State
import Misterplex.Lib.Trace

/-!
# The threads around the companion

The media thread and the handlers' threads call the operations of the companion
directly. The requests of the controllers are served one after another by one
thread; a handler may release the mutex between reading the clock and acting on
what it read, so other threads can come between.
-/

namespace Misterplex.Companion

/-- A request of a controller, routed to its handler. -/
inductive Request
  /-- Preflights, resources, subscriptions and unknown requests. -/
  | other
  /-- The end of a subscription, with whether it leaves no subscriber. -/
  | unsubscribe (noSubscribers : Bool)
  | poll
  | mirror (pr : PlayRequest)
  | playMedia (pr : PlayRequest)
  | pause
  | resume
  | stop
  /-- A seek, with the position it names, if any. -/
  | seek (present : Bool) (ms : ℤ)
  /-- A relative step, with the size it names or 0. -/
  | step (back : Bool) (offset : ℤ)
  | skipNext
  | skipPrevious
  deriving DecidableEq

/-- Where the thread of the requests stands. -/
inductive Phase
  /-- Between two requests. -/
  | idle
  /-- A request has arrived and its handler has not yet entered the mutex. -/
  | routed (r : Request)
  /-- A pause or a resume has read the clock. -/
  | reporting (name : String) (t d : ℤ) (active : Bool)
  | seeking (ms d : ℤ) (active moved : Bool)
  /-- A skip to the previous title has read the clock. -/
  | skipping (t d : ℤ) (active : Bool)
  deriving DecidableEq

/-- The companion and the thread that serves its requests. -/
structure World where
  /-- The state behind the mutex. -/
  companion : State
  /-- Where the thread of the requests stands. -/
  phase : Phase
  deriving DecidableEq

/-- Before the first request. -/
def World.initial : World := ⟨State.initial,Phase.idle⟩

/-- One critical section of some thread. -/
inductive Action
  /-- A progress report of the media thread. -/
  | setState (name : String) (timeMs durationMs : ℤ)
  | bindMedia (req : PlayRequest) (durationMs : ℤ)
  /-- The clock is aligned to the demuxer. -/
  | seedPlaybackPosition (timeMs durationMs : ℤ)
  /-- A title of the queue is staged. -/
  | stagePlay (req : PlayRequest)
  | clearMedia
  /-- A request arrives, with whether it names the player. -/
  | arrive (r : Request) (player : Bool)
  /-- The handler's first critical section. -/
  | serve
  /-- The handler's second critical section. -/
  | finish
  deriving DecidableEq

/-- The position a seek asks for, within the known duration. -/
def State.seekTarget (s : State) (ms : ℤ) : ℤ := capTo s.durationMs (max 0 ms)

/-- A handler's first critical section. -/
def serveRequest (s : State) : Request → World
  | .other => ⟨s,.idle⟩
  | .unsubscribe noSubscribers => ⟨s.unsubscribe noSubscribers,.idle⟩
  | .poll => ⟨s.poll,.idle⟩
  | .mirror pr => ⟨s.mirror pr,.idle⟩
  | .playMedia pr => ⟨s.playMedia pr,.idle⟩
  | .pause => ⟨s,.reporting "paused" s.timeMs s.durationMs s.wantPlay⟩
  | .resume => ⟨s,.reporting "playing" s.timeMs s.durationMs s.wantPlay⟩
  | .stop => ⟨s.clearMedia,.idle⟩
  | .seek present ms =>
    ⟨s,.seeking (s.seekTarget ms) s.durationMs s.wantPlay
      (present && s.seekTarget ms != s.timeMs)⟩
  | .step back offset => ⟨s.stepBy back offset,.idle⟩
  | .skipNext => ⟨s,.idle⟩
  | .skipPrevious => ⟨s,.skipping s.timeMs s.durationMs s.wantPlay⟩

/-- What a handler's second critical section does to the companion. -/
def finishRequest (s : State) : Phase → State
  | .idle => s
  | .routed _ => s
  | .reporting name t d active => if active then s.setState name t d else s
  | .seeking ms d active moved => if active && moved then s.plant ms d else s
  | .skipping t d active => if active && t != 0 then s.plant 0 d else s

/-- One critical section of some thread. A section that is not next does nothing. -/
def World.step (w : World) : Action → World
  | .setState name timeMs durationMs =>
    { w with companion := w.companion.setState name timeMs durationMs }
  | .bindMedia req durationMs => { w with companion := (w.companion.bindMedia req durationMs).2 }
  | .seedPlaybackPosition timeMs durationMs =>
    { w with companion := w.companion.seedPlaybackPosition timeMs durationMs }
  | .stagePlay req => { w with companion := w.companion.stagePlay req }
  | .clearMedia => { w with companion := w.companion.clearMedia }
  | .arrive r player =>
    match w.phase with
    | .idle => ⟨if player then w.companion.touch else w.companion,.routed r⟩
    | _ => w
  | .serve =>
    match w.phase with
    | .routed r => serveRequest w.companion r
    | _ => w
  | .finish =>
    match w.phase with
    | .routed _ => w
    | p => ⟨finishRequest w.companion p,.idle⟩

end Misterplex.Companion
