import Misterplex.Lib.History
import Misterplex.Rbsp.Emulation

/-!
# The contract of a bitstream producer

A producer takes NAL units for a session and answers every call. Recording a
producer keeps what it was asked, what it answered and the state it was left in,
newest first, and changes nothing else.

The copying ring is a producer that copies pushed units into a bounded ring and checks
session and sequence number of each of them; a consumer takes bytes out of the ring at
any time.
-/

namespace Misterplex.Transport

open Emulation

/-- Answers to a pushed NAL unit. -/
inductive PushResult where
  | ok
  | full
  | desync
  | fatal
  deriving DecidableEq, Repr

/-- Answers to a call that controls the session. -/
inductive ControlResult where
  | ok
  | activeSession
  | noSession
  | desync
  | fatal
  deriving DecidableEq, Repr

/-- Session identifiers. -/
abbrev SessionId := BitVec 64

/-- A NAL unit as it is pushed, with its Annex B start code. -/
structure NalView where
  /-- The session it belongs to. -/
  sessionId : SessionId
  /-- Its number in the session. -/
  seq : BitVec 32
  /-- Its type. -/
  nalType : Byte
  /-- Its bytes with the start code. -/
  annexb : List Byte
  deriving DecidableEq, Repr

/-- The calls of `IBitstreamProducer` on a state of the producer. -/
structure Producer (σ : Type*) where
  beginSession : SessionId → σ → ControlResult × σ
  pushNal : NalView → σ → PushResult × σ
  /-- The other calls of a session. -/
  (flushSession endSession pauseSession resumeSession : SessionId → σ → ControlResult × σ)

/-- What happens between a dispatcher, its producer and the consumer. -/
inductive Event where
  /-- The dispatcher was handed a NAL unit. -/
  | handed (annexb : List Byte)
  | pushed (nal : NalView) (answer : PushResult)
  | begun (session : SessionId) (answer : ControlResult)
  | flushed (session : SessionId) (answer : ControlResult)
  | ended (session : SessionId) (answer : ControlResult)
  | paused (session : SessionId) (answer : ControlResult)
  | resumed (session : SessionId) (answer : ControlResult)
  /-- The consumer took bytes out. -/
  | consumed (bytes : List Byte)
  deriving DecidableEq, Repr

/-- An event and the state of the producer after it. -/
structure Moment (σ : Type*) where
  /-- The call and its answer. -/
  event : Event
  /-- The state after it. -/
  state : σ

/-- A producer with the moments so far, newest first. -/
structure Recorded (σ : Type*) where
  /-- The state. -/
  state : σ
  /-- Every event with the state after it. -/
  history : List (Moment σ)

namespace Recorded

variable {σ : Type*}

/-- A producer of which nothing is recorded yet. -/
def fresh (state : σ) : Recorded σ := ⟨state,[]⟩

/-- Record an event that leaves the producer in a state. -/
def note (r : Recorded σ) (event : Event) (state : σ) : Recorded σ :=
  ⟨state,⟨event,state⟩::r.history⟩

end Recorded

/-- The producer with every call and its answer recorded. -/
def Producer.recorded {σ : Type*} (producer : Producer σ) : Producer (Recorded σ) where
  beginSession id r :=
    let answer := producer.beginSession id r.state
    (answer.1,r.note (.begun id answer.1) answer.2)
  pushNal nal r :=
    let answer := producer.pushNal nal r.state
    (answer.1,r.note (.pushed nal answer.1) answer.2)
  flushSession id r :=
    let answer := producer.flushSession id r.state
    (answer.1,r.note (.flushed id answer.1) answer.2)
  endSession id r :=
    let answer := producer.endSession id r.state
    (answer.1,r.note (.ended id answer.1) answer.2)
  pauseSession id r :=
    let answer := producer.pauseSession id r.state
    (answer.1,r.note (.paused id answer.1) answer.2)
  resumeSession id r :=
    let answer := producer.resumeSession id r.state
    (answer.1,r.note (.resumed id answer.1) answer.2)

theorem Producer.recorded_pushNal {σ : Type*} (producer : Producer σ) {nal : NalView}
    {r : Recorded σ} {answer : PushResult} {p : σ} (h : producer.pushNal nal r.state=(answer,p)) :
    producer.recorded.pushNal nal r=(answer,r.note (.pushed nal answer) p) := by
  dsimp only [Producer.recorded]
  rw [h]

/-- `CopyRingBitstreamProducer`. -/
structure CopyRing where
  /-- Bytes that the ring may hold. -/
  capacity : ℕ
  /-- Bytes in the ring, oldest first. -/
  ring : List Byte := []
  /-- The open session. -/
  sessionId : SessionId := 0
  /-- Sequence number of the next unit. -/
  producerSeq : BitVec 32 := 0
  /-- Sequence number up to which the ring was drained or flushed. -/
  consumerSeq : BitVec 32 := 0
  /-- The bytes copied in. -/
  bytesAccepted : ℕ := 0
  /-- Units accepted so far. -/
  nalAccepted : ℕ := 0
  /-- Drains of an empty ring. -/
  underrunCount : ℕ := 0
  /-- Pushes that did not fit. -/
  overrunCount : ℕ := 0
  /-- Pushes with a wrong sequence number. -/
  desyncCount : ℕ := 0
  /-- The last wrong sequence number. -/
  lastBadSeq : BitVec 32 := 0
  /-- A session is open. -/
  active : Bool := false
  /-- The session is paused. -/
  paused : Bool := false
  deriving DecidableEq, Repr

namespace CopyRing

/-- Begin a session on an empty ring. -/
def beginSession (sessionId : SessionId) (c : CopyRing) : ControlResult × CopyRing :=
  if c.active then (.activeSession,c)
  else (.ok,{ c with
    ring := [], sessionId := sessionId, producerSeq := 0, consumerSeq := 0,
    active := true, paused := false })

/-- Copy one unit into the ring. -/
def pushNal (nal : NalView) (c : CopyRing) : PushResult × CopyRing :=
  if c.active = false ∨ nal.sessionId≠c.sessionId ∨ nal.annexb = [] then (.fatal,c)
  else if nal.seq ≠ c.producerSeq then
    (.desync,{ c with desyncCount := c.desyncCount+1, lastBadSeq := nal.seq })
  else if c.capacity < c.ring.length+nal.annexb.length then
    (.full,{ c with overrunCount := c.overrunCount+1 })
  else (.ok,{ c with
    ring := c.ring ++ nal.annexb, producerSeq := c.producerSeq+1,
    bytesAccepted := c.bytesAccepted+nal.annexb.length, nalAccepted := c.nalAccepted+1 })

/-- A call that controls the active session of the ring. -/
def control (change : CopyRing → CopyRing) (sessionId : SessionId) (c : CopyRing) :
    ControlResult × CopyRing :=
  if c.active = false ∨ sessionId ≠ c.sessionId then (.noSession,c) else (.ok,change c)

/-- Drop what the ring holds. -/
def flushSession : SessionId → CopyRing → ControlResult × CopyRing :=
  control fun c => { c with ring := [], consumerSeq := c.producerSeq }

/-- Drop what the ring holds and close the session. -/
def endSession : SessionId → CopyRing → ControlResult × CopyRing :=
  control fun c => { c with ring := [], active := false, paused := false }

/-- Mark the session paused. -/
def pauseSession : SessionId → CopyRing → ControlResult × CopyRing :=
  control fun c => { c with paused := true }

/-- Mark the session running. -/
def resumeSession : SessionId → CopyRing → ControlResult × CopyRing :=
  control fun c => { c with paused := false }

/-- `consumeBytes`, with the number of bytes taken out. -/
def consumeBytes (n : ℕ) (c : CopyRing) : ℕ × CopyRing :=
  let got := min n c.ring.length
  let ring := c.ring.drop got
  (got,{ c with
    ring := ring,
    underrunCount := if got = 0 then c.underrunCount+1 else c.underrunCount,
    consumerSeq := if got ≠ 0 ∧ ring = [] then c.producerSeq else c.consumerSeq })

/-- The ring as a producer of the dispatcher. -/
def producer : Producer CopyRing where
  beginSession := beginSession
  pushNal := pushNal
  flushSession := flushSession
  endSession := endSession
  pauseSession := pauseSession
  resumeSession := resumeSession

/-- The consumer takes bytes out of a recorded ring. -/
def consume (n : ℕ) (r : Recorded CopyRing) : Recorded CopyRing :=
  let answer := r.state.consumeBytes n
  r.note (.consumed (r.state.ring.take answer.1)) answer.2

/-- Bytes consumed since the last successful `begin` or `flush`. -/
def consumedBytes : List (Moment CopyRing) → List Byte
  | [] => []
  | m::past =>
    match m.event with
    | .consumed bytes => consumedBytes past ++ bytes
    | .begun _ .ok => []
    | .flushed _ .ok => []
    | _ => consumedBytes past

/-- Units accepted since the last successful `begin` or `flush`. -/
def acceptedNals : List (Moment CopyRing) → List (List Byte)
  | [] => []
  | m::past =>
    match m.event with
    | .pushed nal .ok => acceptedNals past ++ [nal.annexb]
    | .begun _ .ok => []
    | .flushed _ .ok => []
    | _ => acceptedNals past

/-- The bytes in the ring after a history that started with an empty one. -/
def ringAfter : List (Moment CopyRing) → List Byte
  | [] => []
  | m::_ => m.state.ring

/-- The bytes consumed and those in the ring are the bytes of the accepted units. -/
def Conserved (history : List (Moment CopyRing)) : Prop :=
  consumedBytes history ++ ringAfter history = (acceptedNals history).flatten

instance (history : List (Moment CopyRing)) : Decidable (Conserved history) :=
  inferInstanceAs (Decidable (_ = _))

/-- What holds at every moment of a ring of some capacity. -/
structure RingLaw (capacity : ℕ) (m : Moment CopyRing) (past : List (Moment CopyRing)) : Prop where
  /-- No push has a wrong sequence number. -/
  inStep : ∀ nal, m.event ≠ .pushed nal .desync
  /-- What the ring holds fits. -/
  within : m.state.ring.length≤capacity
  /-- A push that is not accepted leaves the ring as it was. -/
  untouched : ∀ nal answer, m.event = .pushed nal answer → answer ≠ .ok →
    ringAfter (m::past)=ringAfter past
  /-- In a session no byte is lost, repeated or out of order. -/
  conserved : m.state.active=true → Conserved (m::past)
  /-- Outside, what was left is gone. -/
  cleared : m.state.active=false →
    m.state.ring=[] ∧ consumedBytes (m::past) <+: (acceptedNals (m::past)).flatten

end CopyRing

end Misterplex.Transport
