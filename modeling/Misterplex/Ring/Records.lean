import Misterplex.Ring.Reader

/-!
# Records and the rules of a session

The layout of a record, the rules by which a session accepts NAL records, and what
is delivered of a stream of records when a number of its bytes has been consumed.
The rules speak of whole records and know nothing of beats or bytes.
-/

namespace Misterplex.Ring

open Emulation List

/-- Events of records. -/
inductive RecordEvent where
  | begin
  | nal
  | flush
  | end
  | pause
  | resume
  deriving DecidableEq, Repr

/-- The event's byte. -/
def RecordEvent.code : RecordEvent → Byte
  | .begin => eventBegin
  | .nal => eventNal
  | .flush => eventFlush
  | .end => eventEnd
  | .pause => eventPause
  | .resume => eventResume

/-- A record. -/
structure Record where
  /-- The event. -/
  event : RecordEvent
  /-- The type of a unit. -/
  nalType : Byte := 0#8
  /-- Two bytes that are not read. -/
  reserved : Byte × Byte := (0#8,0#8)
  /-- The session it belongs to. -/
  session : BitVec 64
  /-- Sequence number, of NAL records. -/
  seq : BitVec 32 := 0#32
  /-- The payload. -/
  payload : List Byte := []
  deriving DecidableEq, Repr

/-- The bytes of a word, least significant first. -/
def littleEndian {w : ℕ} (n : ℕ) (v : BitVec w) : List Byte :=
  (List.range n).map fun k => v.extractLsb' (8*k) 8

@[simp] theorem length_littleEndian {w : ℕ} (n : ℕ) (v : BitVec w) :
    (littleEndian n v).length=n := by
  rw [littleEndian,length_map,length_range]

/-- The thirty-two bytes of the header. -/
def Record.header (c : Record) : List Byte :=
  littleEndian 4 magicRec ++ [c.event.code,c.nalType,c.reserved.1,c.reserved.2] ++
    littleEndian 8 c.session ++ littleEndian 4 c.seq ++
    littleEndian 4 (BitVec.ofNat 32 c.payload.length) ++ List.replicate 8 0#8

/-- The bytes of a record. -/
def Record.encode (c : Record) : List Byte := c.header ++ c.payload

/-- The bytes of records, back to back. -/
def encodeAll (cs : List Record) : List Byte := cs.flatMap Record.encode

@[simp] theorem length_header (c : Record) : c.header.length=32 := by
  simp [Record.header]

@[simp] theorem length_encode (c : Record) : c.encode.length=32+c.payload.length := by
  rw [Record.encode,length_append,length_header]

/-- Control records have no payload. -/
def Record.WellFormed (c : Record) : Prop := c.event ≠ .nal → c.payload=[]

instance (c : Record) : Decidable c.WellFormed := inferInstanceAs (Decidable (_ → _))

/-- The state of a session. -/
structure SessionState where
  /-- A session is open. -/
  active : Bool := false
  /-- The session is paused. -/
  paused : Bool := false
  /-- Its id. -/
  id : BitVec 64 := 0#64
  /-- Sequence number of the next NAL record. -/
  nextSeq : BitVec 32 := 0#32
  deriving DecidableEq, Repr

namespace SessionState

variable (s : SessionState)

/-- The session accepts a NAL record: it is active and not paused, the identifier is
its own and the sequence number the next. -/
def accepts (c : Record) : Bool :=
  c.event = .nal ∧ s.active=true ∧ s.paused=false ∧ c.session=s.id ∧ c.seq=s.nextSeq

/-- A control record is for the active session. -/
def owns (c : Record) : Bool := s.active=true ∧ c.session=s.id

/-- The session after one record. -/
def after (c : Record) : SessionState :=
  match c.event with
  | .begin => if s.active then s else ⟨true,false,c.session,0#32⟩
  | .nal => if s.accepts c then { s with nextSeq := s.nextSeq+1 } else s
  | .flush => s
  | .end => if s.owns c then { s with active := false, paused := false } else s
  | .pause => if s.owns c then { s with paused := true } else s
  | .resume => if s.owns c then { s with paused := false } else s

/-- The session after the records. -/
def afterAll (cs : List Record) : SessionState := cs.foldl after s

end SessionState

/-- Bytes with their last flags. -/
def withLast : List Byte → List (Byte × Bool)
  | [] => []
  | [b] => [(b,true)]
  | b::bytes => (b,false)::withLast bytes

variable (s : SessionState)

/-- What a record delivers: the payload of an accepted NAL record. -/
def delivered (c : Record) : List (Byte × Bool) :=
  if s.accepts c then withLast c.payload else []

/-- The bytes that the records deliver. -/
def deliveredAll : SessionState → List Record → List (Byte × Bool)
  | _,[] => []
  | s,c::cs => delivered s c ++ deliveredAll (s.after c) cs

/-- What records deliver when a number of their bytes has been consumed. -/
def deliveredUpTo : SessionState → List Record → ℕ → List (Byte × Bool)
  | _,[],_ => []
  | s,c::cs,n =>
    (delivered s c).take (n-32) ++ deliveredUpTo (s.after c) cs (n-c.encode.length)

/-- No session begins while one is active. -/
def NoBeginInSession : SessionState → List Record → Prop
  | _,[] => True
  | s,c::cs => (c.event = .begin → s.active=false) ∧ NoBeginInSession (s.after c) cs

instance (s : SessionState) (cs : List Record) : Decidable (NoBeginInSession s cs) :=
  match cs with
  | [] => isTrue trivial
  | c::cs =>
    have : Decidable (NoBeginInSession (s.after c) cs) :=
      instDecidableNoBeginInSession (s.after c) cs
    inferInstanceAs (Decidable ((c.event = .begin → s.active=false) ∧
      NoBeginInSession (s.after c) cs))

@[simp] theorem length_withLast (bytes : List Byte) : (withLast bytes).length=bytes.length := by
  induction bytes with
  | nil => rfl
  | cons b bytes ih =>
    cases bytes with
    | nil => rfl
    | cons c bytes => exact congrArg (· + 1) ih

theorem getElem_withLast {bytes : List Byte} {k : ℕ} (h : k<bytes.length) :
    (withLast bytes)[k]?=some (bytes.getD k 0#8,decide (k+1=bytes.length)) := by
  induction bytes generalizing k with
  | nil => exact absurd h (Nat.not_lt_zero k)
  | cons b bytes ih =>
    cases bytes with
    | nil =>
      obtain rfl : k=0 := Nat.lt_one_iff.mp h
      rfl
    | cons c bytes =>
      cases k with
      | zero => simp [withLast]
      | succ k =>
        have hrest := ih (Nat.lt_of_succ_lt_succ h)
        simp only [withLast,getElem?_cons_succ,getD_cons_succ,hrest]
        simp

theorem length_delivered_le (c : Record) : (delivered s c).length≤c.payload.length := by
  unfold delivered
  split_ifs
  · rw [length_withLast]
  · exact Nat.zero_le _

@[simp] theorem deliveredUpTo_zero (cs : List Record) : deliveredUpTo s cs 0=[] := by
  induction cs generalizing s with
  | nil => rfl
  | cons c cs ih => rw [deliveredUpTo,Nat.zero_sub,Nat.zero_sub,ih,take_zero]; rfl

theorem deliveredUpTo_append (cs ds : List Record) (n : ℕ) :
    deliveredUpTo s (cs ++ ds) ((encodeAll cs).length+n) =
      deliveredAll s cs ++ deliveredUpTo (s.afterAll cs) ds n := by
  induction cs generalizing s with
  | nil => rw [nil_append,encodeAll,flatMap_nil,length_nil,Nat.zero_add]; rfl
  | cons c cs ih =>
    have hlen : (encodeAll (c::cs)).length+n =
        c.encode.length+((encodeAll cs).length+n) := by
      rw [encodeAll,flatMap_cons,length_append,encodeAll]
      omega
    have htake : (delivered s c).take (c.encode.length+((encodeAll cs).length+n)-32) =
        delivered s c := by
      refine take_of_length_le ?_
      have hle := length_delivered_le s c
      rw [length_encode]
      omega
    rw [cons_append,deliveredUpTo,hlen,htake,Nat.add_sub_cancel_left,ih,deliveredAll,
      append_assoc]
    rfl

theorem deliveredUpTo_within (c : Record) (cs : List Record) {n : ℕ} (h : n≤c.encode.length) :
    deliveredUpTo s (c::cs) n=(delivered s c).take (n-32) := by
  rw [deliveredUpTo,Nat.sub_eq_zero_of_le h,deliveredUpTo_zero,append_nil]

theorem deliveredUpTo_all (cs : List Record) :
    deliveredUpTo s cs (encodeAll cs).length=deliveredAll s cs := by
  have h := deliveredUpTo_append s cs [] 0
  rw [append_nil,Nat.add_zero,deliveredUpTo,append_nil] at h
  exact h

end Misterplex.Ring
