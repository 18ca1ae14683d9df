import Misterplex.Nal.AnnexB
import Misterplex.Nal.Transport

/-!
# The NAL dispatcher

The dispatcher hands NAL units to a producer, retries a push while the ring is
full, drops units while paused and keeps the last parameter sets, which it hands
on again before a slice when they are not marked as delivered.
-/

namespace Misterplex.Dispatch

open Emulation AnnexB Transport

/-- Type of the NAL unit behind the start code, zero if there is none. -/
def annexBNalType (annexb : List Byte) : Byte :=
  let sc := annexBStartLen annexb 0
  if sc = 0 ∨ annexb.length ≤ sc then 0#8 else annexb.getD sc 0#8 &&& 0x1f#8

/-- Types of NAL units that carry a coded slice. -/
def isSlice (type : Byte) : Bool := type=1#8 ∨ type=5#8

/-- Configuration of a dispatcher; the hook sleeps while the producer's other end
goes on. -/
structure DispatchConfig (σ : Type*) where
  /-- The tries of a full ring. -/
  maxFullRetries : ℤ := 50
  /-- Milliseconds between them. -/
  fullRetrySleepMs : ℤ := 2
  /-- The wait between the tries. -/
  sleepMs : Option (ℤ → σ → σ)

/-- Counters of a dispatcher. -/
structure DispatchStats where
  /-- Units handed in a session. -/
  nalSeen : ℕ := 0
  /-- Units that the producer accepted. -/
  nalPushed : ℕ := 0
  /-- Bytes accepted by the ring. -/
  bytesPushed : ℕ := 0
  /-- Units dropped while paused. -/
  nalDroppedPaused : ℕ := 0
  /-- Sequence parameter sets handed on again. -/
  spsReplayed : ℕ := 0
  /-- Picture parameter sets handed on again. -/
  ppsReplayed : ℕ := 0
  /-- Tries against a full ring. -/
  fullRetries : ℕ := 0
  /-- Units given up for that. -/
  fullEscalations : ℕ := 0
  /-- Units that the ring refused for good. -/
  desyncOrFatal : ℕ := 0
  deriving DecidableEq, Repr

/-- The two kinds of parameter sets. -/
inductive ParameterKind where
  | sps
  | pps
  deriving DecidableEq, Repr

/-- NAL unit type of a parameter set. -/
def ParameterKind.nalType : ParameterKind → Byte
  | .sps => 7#8
  | .pps => 8#8

/-- A cached parameter set. -/
structure ParameterSet where
  /-- The last one handed, `sps_` or `pps_`. -/
  nal : List Byte := []
  /-- Whether it is marked as delivered, `sps_delivered_` or `pps_delivered_`. -/
  delivered : Bool := false
  deriving DecidableEq, Repr

/-- State of a dispatcher. -/
structure NalDispatcher where
  /-- Session of the last successful `begin`. -/
  sessionId : SessionId := 0
  /-- Sequence number of the next unit. -/
  seq : BitVec 32 := 0
  /-- A session is open. -/
  active : Bool := false
  /-- The session is paused. -/
  paused : Bool := false
  /-- The sequence parameter set. -/
  sps : ParameterSet := {}
  /-- The picture parameter set. -/
  pps : ParameterSet := {}
  /-- The counters. -/
  stats : DispatchStats := {}
  deriving DecidableEq, Repr

namespace NalDispatcher

/-- The cached parameter set of a kind. -/
def parameter (d : NalDispatcher) : ParameterKind → ParameterSet
  | .sps => d.sps
  | .pps => d.pps

/-- Replace the parameter set of a kind. -/
def setParameter (d : NalDispatcher) (kind : ParameterKind) (set : ParameterSet) : NalDispatcher :=
  match kind with
  | .sps => { d with sps := set }
  | .pps => { d with pps := set }

/-- Mark the parameter set of a kind as delivered. -/
def deliver (d : NalDispatcher) (kind : ParameterKind) : NalDispatcher :=
  d.setParameter kind { d.parameter kind with delivered := true }

/-- Keep a handed parameter set; its delivered mark stays as it is. -/
def cache (d : NalDispatcher) (type : Byte) (annexb : List Byte) : NalDispatcher :=
  if type = 7#8 then { d with sps := { d.sps with nal := annexb } }
  else if type = 8#8 then { d with pps := { d.pps with nal := annexb } }
  else d

/-- Change the counters. -/
def count (d : NalDispatcher) (change : DispatchStats → DispatchStats) : NalDispatcher :=
  { d with stats := change d.stats }

/-- The state after a successful `begin`. -/
def started (sessionId : SessionId) : NalDispatcher := { sessionId := sessionId, active := true }

end NalDispatcher

/-- A dispatcher and its producer. -/
structure System (σ : Type*) where
  /-- The dispatcher. -/
  dispatcher : NalDispatcher
  /-- The ring behind it. -/
  producer : σ

section Calls

variable {σ : Type*} (producer : Producer σ) (cfg : DispatchConfig σ)

/-- Sleep between two attempts. -/
def sleep (s : System σ) : System σ :=
  match cfg.sleepMs with
  | some hook =>
    if 0 < cfg.fullRetrySleepMs then { s with producer := hook cfg.fullRetrySleepMs s.producer } else s
  | none => s

/-- The loop of `pushWithBackpressure` with the number of attempts left. -/
def attemptPush (annexb : List Byte) (type : Byte) : ℕ → System σ → PushResult × System σ
  | 0,s =>
    (.full,{ s with dispatcher := s.dispatcher.count fun n =>
      { n with fullEscalations := n.fullEscalations+1 } })
  | attempts+1,s =>
    let d := s.dispatcher
    match producer.pushNal ⟨d.sessionId,d.seq,type,annexb⟩ s.producer with
    | (.ok,p) =>
      (.ok,⟨{ d with seq := d.seq+1 }.count fun n =>
        { n with nalPushed := n.nalPushed+1, bytesPushed := n.bytesPushed+annexb.length },p⟩)
    | (.full,p) =>
      let s' : System σ := ⟨d.count fun n => { n with fullRetries := n.fullRetries+1 },p⟩
      attemptPush annexb type attempts (if attempts = 0 then s' else sleep cfg s')
    | (r,p) => (r,⟨d.count fun n => { n with desyncOrFatal := n.desyncOrFatal+1 },p⟩)

/-- Push a unit, again and again while the answer is `full`. -/
def pushWithBackpressure (annexb : List Byte) (type : Byte) (s : System σ) :
    PushResult × System σ :=
  attemptPush producer cfg annexb type (cfg.maxFullRetries+1).toNat s

/-- Hand on the parameter set of a kind again unless it is marked as delivered. -/
def replayParameter (kind : ParameterKind) (count : DispatchStats → DispatchStats) (s : System σ) :
    PushResult × System σ :=
  let set := s.dispatcher.parameter kind
  if set.delivered then (.ok,s)
  else if set.nal = [] then (.desync,s)
  else
    match pushWithBackpressure producer cfg set.nal kind.nalType s with
    | (.ok,s') => (.ok,{ s' with dispatcher := (s'.dispatcher.deliver kind).count count })
    | (r,s') => (r,s')

/-- Hand on both parameter sets again where they are not marked as delivered. -/
def replayParametersIfNeeded (s : System σ) : PushResult × System σ :=
  match replayParameter producer cfg .sps
    (fun n => { n with spsReplayed := n.spsReplayed+1 }) s with
  | (.ok,s') =>
    replayParameter producer cfg .pps (fun n => { n with ppsReplayed := n.ppsReplayed+1 }) s'
  | (r,s') => (r,s')

/-- Push a handed unit and mark it as delivered if it is a parameter set. -/
def pushHanded (annexb : List Byte) (type : Byte) (s : System σ) : PushResult × System σ :=
  match pushWithBackpressure producer cfg annexb type s with
  | (.ok,s') =>
    (.ok,{ s' with dispatcher :=
      if type = 7#8 then s'.dispatcher.deliver .sps
      else if type = 8#8 then s'.dispatcher.deliver .pps
      else s'.dispatcher })
  | (r,s') => (r,s')

/-- Take one unit: cache a parameter set, and hand the unit on unless paused. -/
def handleNal (annexb : List Byte) (s : System σ) : PushResult × System σ :=
  if !s.dispatcher.active || annexb.isEmpty then (.fatal,s)
  else
    let type := annexBNalType annexb
    if type = 0#8 then (.fatal,s)
    else
      let d := (s.dispatcher.count fun n => { n with nalSeen := n.nalSeen+1 }).cache type annexb
      if d.paused then
        (.ok,{ s with dispatcher := d.count fun n =>
          { n with nalDroppedPaused := n.nalDroppedPaused+1 } })
      else if isSlice type then
        match replayParametersIfNeeded producer cfg { s with dispatcher := d } with
        | (.ok,s') => pushHanded producer cfg annexb type s'
        | (r,s') => (r,s')
      else pushHanded producer cfg annexb type { s with dispatcher := d }

/-- Begin a session with an empty cache. -/
def beginSession (sessionId : SessionId) (s : System σ) : ControlResult × System σ :=
  match producer.beginSession sessionId s.producer with
  | (.ok,p) => (.ok,⟨NalDispatcher.started sessionId,p⟩)
  | (r,p) => (r,{ s with producer := p })

/-- End the session and begin one under a new id. -/
def flushForSeek (newSessionId : SessionId) (s : System σ) : ControlResult × System σ :=
  if s.dispatcher.active then
    match producer.flushSession s.dispatcher.sessionId s.producer with
    | (.ok,p) =>
      match producer.endSession s.dispatcher.sessionId p with
      | (.ok,q) => beginSession producer newSessionId ⟨{ s.dispatcher with active := false },q⟩
      | (r,q) => (r,{ s with producer := q })
    | (r,p) => (r,{ s with producer := p })
  else beginSession producer newSessionId s

/-- A call that controls an active session and changes the dispatcher if the producer
agrees. -/
def controlSession (ask : SessionId → σ → ControlResult × σ)
    (change : NalDispatcher → NalDispatcher) (s : System σ) : ControlResult × System σ :=
  if s.dispatcher.active then
    match ask s.dispatcher.sessionId s.producer with
    | (.ok,p) => (.ok,⟨change s.dispatcher,p⟩)
    | (r,p) => (r,{ s with producer := p })
  else (.noSession,s)

/-- End the session. -/
def endSession : System σ → ControlResult × System σ :=
  controlSession producer.endSession fun d => { d with active := false }

/-- Pause the session. -/
def pauseSession : System σ → ControlResult × System σ :=
  controlSession producer.pauseSession fun d => { d with paused := true }

/-- Resume; both parameter sets are to be delivered again. -/
def resumeSession : System σ → ControlResult × System σ :=
  controlSession producer.resumeSession fun d =>
    { d with
      paused := false,
      sps := { d.sps with delivered := false },
      pps := { d.pps with delivered := false } }

end Calls

/-- Calls of a dispatcher. -/
inductive Call where
  | begin (sessionId : SessionId)
  | handleNal (annexb : List Byte)
  | pause
  | resume
  | flushForSeek (newSessionId : SessionId)
  | end
  deriving DecidableEq, Repr

section Recorded

variable {σ : Type*} (producer : Producer σ) (cfg : DispatchConfig (Recorded σ))

/-- Record that a unit was handed to the dispatcher. -/
def hand (annexb : List Byte) (s : System (Recorded σ)) : System (Recorded σ) :=
  { s with producer := s.producer.note (.handed annexb) s.producer.state }

/-- Make a call with its effects recorded. -/
def call : Call → System (Recorded σ) → System (Recorded σ)
  | .begin id,s => (beginSession producer.recorded id s).2
  | .handleNal annexb,s => (handleNal producer.recorded cfg annexb (hand annexb s)).2
  | .pause,s => (pauseSession producer.recorded s).2
  | .resume,s => (resumeSession producer.recorded s).2
  | .flushForSeek id,s => (flushForSeek producer.recorded id s).2
  | .end,s => (endSession producer.recorded s).2

/-- Make calls one after the other. -/
def calls (s : System (Recorded σ)) (cs : List Call) : System (Recorded σ) :=
  cs.foldl (fun s c => call producer cfg c s) s

end Recorded

/-- A configuration whose hook leaves no trace in the record. -/
def DispatchConfig.recorded {σ : Type*} (cfg : DispatchConfig σ) : DispatchConfig (Recorded σ) where
  maxFullRetries := cfg.maxFullRetries
  fullRetrySleepMs := cfg.fullRetrySleepMs
  sleepMs := cfg.sleepMs.map fun hook ms r => { r with state := hook ms r.state }

end Misterplex.Dispatch
