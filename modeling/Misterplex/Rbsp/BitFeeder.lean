import Misterplex.Lib.BitString
import Misterplex.Lib.RingFifo
import Misterplex.Rbsp.Emulation

/-!
# bitstream_bit_feeder

The counting stripper, a byte queue of eight cells and a bit window. A byte is
accepted while the queue has room, the window is loaded whenever it is empty
and hands out one bit per cycle, most significant first.
-/

namespace Misterplex.BitFeeder

open Trace Emulation CountingStrip BitString List

/-- Registers of the module; `strip` holds zero_count and inhibit_skip, `queue`
the byte skid with its two pointers. -/
structure FeederState where
  /-- Zero counter and inhibit flag. -/
  strip : StripState
  /-- RBSP bytes with their last flags. -/
  queue : RingFifo 3 (Byte × Bool)
  /-- The bit window holds a byte. -/
  haveCur : Bool
  /-- Byte under bit extraction. -/
  curByte : Byte
  curLast : Bool
  /-- Next bit of the window, 0 being the top bit. -/
  bitIdx : BitVec 3
  /-- The last byte of the unit was skipped. -/
  pendingNalLast : Bool
  /-- Pulse after the last bit of a unit. -/
  nalBitLast : Bool
  /-- Saturating count of skipped bytes. -/
  epbRemoved : BitVec 16
  /-- Saturating count of pushed bytes. -/
  rbspBytes : BitVec 16
  /-- Saturating count of bits taken. -/
  bitsOut : BitVec 32

/-- Input wires of one clock cycle. -/
structure FeederInput where
  reset : Bool
  /-- Clear pulse between units. -/
  clear : Bool
  /-- Producer offers a byte. -/
  inValid : Bool
  inByte : Byte
  /-- The byte ends its unit; a bit may be taken. -/
  (inLast bitReady : Bool)
  deriving DecidableEq, Repr

/-- Register values after reset or clear. -/
def cleared : FeederState :=
  { strip := StripState.cleared, queue := ⟨fun _ => (0#8,false),0#4,0#4⟩, haveCur := false,
    curByte := 0#8, curLast := false, bitIdx := 0#3, pendingNalLast := false, nalBitLast := false,
    epbRemoved := 0#16, rbspBytes := 0#16, bitsOut := 0#32 }

/-- The in_ready wire: the byte queue has room. -/
def inReady (s : FeederState) : Bool := !s.queue.isFull

variable (stripEpb : Bool)

/-- The skip_epb wire. -/
def skipEpb (s : FeederState) (i : FeederInput) : Bool :=
  stripEpb && i.inValid && inReady s && s.strip.skipEpb i.inByte

/-- The bit_value wire. -/
def bitValue (s : FeederState) : Bool := s.curByte.getLsbD (7-s.bitIdx.toNat)

/-- The load_cur wire. -/
def loadCur (s : FeederState) : Bool := !s.haveCur && !s.queue.isEmpty

/-- The take_bit wire. -/
def takeBit (s : FeederState) (i : FeederInput) : Bool := s.haveCur && i.bitReady

/-- Saturating increment of a counter. -/
def saturatingInc {w : ℕ} (c : BitVec w) : BitVec w := if c = BitVec.allOnes w then c else c+1

/-- First part of the clocked block: strip one offered byte into the queue. -/
def acceptByte (s : FeederState) (i : FeederInput) : FeederState :=
  if i.inValid && inReady s then
    if skipEpb stripEpb s i then
      { s with epbRemoved := saturatingInc s.epbRemoved, strip := s.strip.next i.inByte,
               pendingNalLast := i.inLast || s.pendingNalLast }
    else
      { s with queue := s.queue.push (i.inByte,i.inLast), rbspBytes := saturatingInc s.rbspBytes,
               strip := if stripEpb then s.strip.next i.inByte else s.strip }
  else s

/-- Second part: load the next byte into an empty window. The cell and the read
pointer are those before the edge, which `acceptByte` leaves alone. -/
def loadByte (s : FeederState) (t : FeederState) : FeederState :=
  if loadCur s then
    { t with curByte := s.queue.head.1, curLast := s.queue.head.2, queue := t.queue.pop,
             haveCur := true, bitIdx := 0#3 }
  else t

/-- Third part: hand out one bit. Its assignments win over those before. -/
def consumeBit (s : FeederState) (i : FeederInput) (t : FeederState) : FeederState :=
  if takeBit s i then
    if s.bitIdx = 7#3 then
      if s.curLast || (s.pendingNalLast && s.queue.isEmpty) then
        { t with bitsOut := saturatingInc s.bitsOut, haveCur := false, bitIdx := 0#3,
                 nalBitLast := true, pendingNalLast := false }
      else { t with bitsOut := saturatingInc s.bitsOut, haveCur := false, bitIdx := 0#3 }
    else { t with bitsOut := saturatingInc s.bitsOut, bitIdx := s.bitIdx+1 }
  else t

/-- One rising clock edge. -/
def step (s : FeederState) (i : FeederInput) : FeederState :=
  if i.reset || i.clear then cleared
  else consumeBit s i (loadByte s (acceptByte stripEpb { s with nalBitLast := false } i))

/-- Byte taken from the producer in a cycle. -/
def accepted (s : FeederState) (i : FeederInput) : List Byte :=
  if i.inValid && inReady s then [i.inByte] else []

/-- Bit handed to the consumer in a cycle. -/
def delivered (s : FeederState) (i : FeederInput) : List Bool :=
  if takeBit s i then [bitValue s] else []

/-- A cycle without reset or clear. -/
def Quiet (i : FeederInput) : Prop := i.reset=false ∧ i.clear=false

instance (i : FeederInput) : Decidable (Quiet i) := inferInstanceAs (Decidable (_ ∧ _))

/-- Unread bits of the window. -/
def window (s : FeederState) : List Bool :=
  if s.haveCur then (byteBits s.curByte).drop s.bitIdx.toNat else []

/-- Bits of the queued bytes. -/
def queued (s : FeederState) : List Bool := bitsOf (s.queue.contents.map Prod.fst)

/-- The stripper followed by the spelling of every pushed byte. -/
def bitStrip : Transducer StripState Byte Bool where
  next t b := if stripEpb then t.next b else t
  emit t b := if stripEpb && t.skipEpb b then [] else byteBits b

open Transducer

theorem bitStrip_run (t : StripState) (bytes : List Byte) :
    (bitStrip true).run t bytes = bitsOf (strip.run t bytes) := by
  induction bytes generalizing t with
  | nil => rfl
  | cons b bytes ih =>
    have ht := ih (t.next b)
    rw [run_cons,run_cons,bitsOf_append]
    refine congrArg₂ (· ++ ·) ?_ ht
    cases hk : t.skipEpb b <;> simp [bitStrip,CountingStrip.strip,hk]

theorem emit_push {stripEpb : Bool} {t : StripState} {b : Byte}
    (h : (stripEpb && t.skipEpb b)=false) : (bitStrip stripEpb).emit t b=byteBits b := by
  simp only [bitStrip,h,Bool.false_eq_true,if_false]

theorem emit_skip {stripEpb : Bool} {t : StripState} {b : Byte}
    (h : (stripEpb && t.skipEpb b)=true) : (bitStrip stripEpb).emit t b=[] := by
  simp only [bitStrip,h,if_true]

/-- What the consumer is shown: a bit it takes, or the mark behind the last bit of a unit. -/
inductive Mark
  | bit (b : Bool)
  | last
  deriving DecidableEq, Repr

/-- Bits of a byte, and the mark behind them when the byte is the last of its unit. -/
def marksOf (c : Byte × Bool) : List Mark :=
  (byteBits c.1).map Mark.bit ++ if c.2 then [Mark.last] else []

/-- Unread bits of the window with the mark of its byte. -/
def windowMarks (s : FeederState) : List Mark :=
  if s.haveCur then
    ((byteBits s.curByte).drop s.bitIdx.toNat).map Mark.bit ++ if s.curLast then [Mark.last] else []
  else []

/-- Bits and marks held in the window and the queue. -/
def body (s : FeederState) : List Mark := windowMarks s ++ s.queue.contents.flatMap marksOf

/-- Byte that enters the queue in a cycle, with its last flag. -/
def pushed (s : FeederState) (i : FeederInput) : List (Byte × Bool) :=
  if (i.inValid && inReady s && !skipEpb stripEpb s i) = true then [(i.inByte,i.inLast)] else []

/-- Bit taken in a cycle. -/
def taken (s : FeederState) (i : FeederInput) : List Mark := (delivered s i).map Mark.bit

/-- The last bit of the window is taken. -/
def finishes (s : FeederState) (i : FeederInput) : Bool := takeBit s i && s.bitIdx == 7#3

open RingFifo

theorem isFull_false_iff (q : RingFifo 3 (Byte × Bool)) :
    q.isFull = false ↔ q.level.toNat<2^3 := by
  simp [isFull]

/-- A byte that stays joins the queue, and the stripper follows every accepted byte. -/
theorem acceptByte_spec (s : FeederState) (i : FeederInput) (hw : s.queue.Wf) :
    (acceptByte stripEpb s i).queue.Wf ∧
      (acceptByte stripEpb s i).queue.contents = s.queue.contents ++ pushed stripEpb s i ∧
      (acceptByte stripEpb s i).strip=(bitStrip stripEpb).after s.strip (accepted s i) ∧
      ((pushed stripEpb s i).map Prod.fst).flatMap byteBits =
        (bitStrip stripEpb).run s.strip (accepted s i) := by
  by_cases ha : (i.inValid && inReady s)=true
  · have hroom : s.queue.level.toNat<2^3 := by
      rw [← isFull_false_iff]
      simpa [inReady] using (Bool.and_eq_true_iff.mp ha).2
    have hskip : skipEpb stripEpb s i=(stripEpb && s.strip.skipEpb i.inByte) := by
      obtain ⟨h1,h2⟩ := Bool.and_eq_true_iff.mp ha
      simp [skipEpb,h1,h2]
    rw [acceptByte,accepted,pushed,if_pos ha,if_pos ha,ha,hskip,after_cons,
      after_nil,run_cons,run_nil,append_nil]
    cases hk : (stripEpb && s.strip.skipEpb i.inByte) with
    | false =>
      refine ⟨wf_push _ _ hroom,contents_push _ _ hroom,rfl,?_⟩
      simp [emit_push hk]
    | true =>
      have hs := (Bool.and_eq_true_iff.mp hk).1
      refine ⟨hw,by simp,?_,?_⟩
      · simp [bitStrip,hs]
      · simp [emit_skip hk]
  · have hnone : pushed stripEpb s i=[] := by rw [pushed,if_neg (by simp [ha])]
    rw [acceptByte,accepted,hnone,if_neg ha,if_neg ha,append_nil]
    exact ⟨hw,rfl,rfl,rfl⟩

theorem acceptByte_frame (s : FeederState) (i : FeederInput) :
    (acceptByte stripEpb s i).haveCur=s.haveCur ∧
      (acceptByte stripEpb s i).curByte=s.curByte ∧
      (acceptByte stripEpb s i).curLast=s.curLast ∧
      (acceptByte stripEpb s i).bitIdx=s.bitIdx ∧
      (acceptByte stripEpb s i).nalBitLast=s.nalBitLast := by
  unfold acceptByte
  split_ifs <;> exact ⟨rfl,rfl,rfl,rfl,rfl⟩

theorem skipEpb_of_not_fed {s : FeederState} {i : FeederInput}
    (ha : ¬(i.inValid && inReady s)=true) : skipEpb stripEpb s i=false := by
  rw [skipEpb,Bool.and_assoc stripEpb,Bool.eq_false_iff.mpr ha,Bool.and_false,Bool.false_and]

theorem acceptByte_pending (s : FeederState) (i : FeederInput) :
    (acceptByte stripEpb s i).pendingNalLast =
      ((skipEpb stripEpb s i && i.inLast) || s.pendingNalLast) := by
  by_cases ha : (i.inValid && inReady s)=true
  · cases hk : skipEpb stripEpb s i <;> simp [acceptByte,ha,hk]
  · rw [acceptByte,if_neg ha,skipEpb_of_not_fed stripEpb ha]
    rfl

theorem head_acceptByte (s : FeederState) (i : FeederInput) (hw : s.queue.Wf)
    (hne : s.queue.level.toNat≠0) :
    (acceptByte stripEpb s i).queue.level.toNat≠0 ∧
      (acceptByte stripEpb s i).queue.contents =
        s.queue.head::(acceptByte stripEpb s i).queue.pop.contents := by
  have hc := (acceptByte_spec stripEpb s i hw).2.1
  have hlevel := congrArg length hc
  rw [length_append,length_contents,length_contents] at hlevel
  have hne' : (acceptByte stripEpb s i).queue.level.toNat≠0 := by omega
  have hcons := contents_eq_head_cons _ hne'
  rw [hcons,contents_eq_head_cons s.queue hne] at hc
  exact ⟨hne',hcons.trans (by rw [(cons.inj hc).1])⟩

theorem drop_byteBits (b : Byte) (k : ℕ) (hk : k<8) :
    (byteBits b).drop k=b.getLsbD (7-k)::(byteBits b).drop (k+1) := by
  have hl : k<(byteBits b).length := by exact hk
  rw [drop_eq_getElem_cons hl]
  simp [byteBits]

/-- A taken bit leaves the window, and the mark of the byte leaves it with the last one. -/
theorem windowMarks_take {s : FeederState} (hcur : s.haveCur=true) :
    windowMarks s=Mark.bit (bitValue s) ::
      (if s.bitIdx = 7#3 then (if s.curLast then [Mark.last] else [])
        else windowMarks { s with bitIdx := s.bitIdx+1 }) := by
  rw [windowMarks,if_pos hcur,drop_byteBits _ _ s.bitIdx.isLt,map_cons,cons_append]
  refine congrArg (_ :: ·) ?_
  by_cases h7 : s.bitIdx=7#3
  · rw [if_pos h7,h7,drop_eq_nil_of_le (by rw [length_byteBits]; decide)]
    rfl
  · have hidx : (s.bitIdx+1).toNat=s.bitIdx.toNat+1 := by
      have h7' : s.bitIdx.toNat≠7 := fun h => h7 (BitVec.eq_of_toNat_eq h)
      exact Nat.mod_eq_of_lt (by simp; omega)
    rw [if_neg h7,windowMarks,if_pos hcur,hidx]

/-- A clock without reset or clear. -/
theorem step_quiet (s : FeederState) {i : FeederInput} (hq : Quiet i) :
    step stripEpb s i =
      consumeBit s i (loadByte s (acceptByte stripEpb { s with nalBitLast := false } i)) := by
  rw [step,hq.1,hq.2]
  rfl

/-- The pulse of a cycle and the end that stays open behind it. -/
theorem step_pulse (s : FeederState) {i : FeederInput} (hq : Quiet i) :
    (step stripEpb s i).nalBitLast =
        (finishes s i && (s.curLast || (s.pendingNalLast && s.queue.isEmpty))) ∧
      (step stripEpb s i).pendingNalLast =
        (!(step stripEpb s i).nalBitLast &&
          ((skipEpb stripEpb s i && i.inLast) || s.pendingNalLast)) := by
  have hpend := acceptByte_pending stripEpb { s with nalBitLast := false } i
  have hlow := (acceptByte_frame stripEpb { s with nalBitLast := false } i).2.2.2.2
  rw [step_quiet stripEpb s hq]
  generalize acceptByte stripEpb { s with nalBitLast := false } i=t at *
  have hload : (loadByte s t).nalBitLast=false ∧
      (loadByte s t).pendingNalLast=((skipEpb stripEpb s i && i.inLast) || s.pendingNalLast) := by
    unfold loadByte
    split_ifs <;> exact ⟨hlow,hpend⟩
  unfold consumeBit finishes
  split_ifs with htake h7 hpulse
  · simp [htake,h7,hpulse]
  · simp [htake,h7,hpulse,hload]
  · simp [htake,h7,hload]
  · simp [htake,hload]

/-- One quiet cycle moves the pushed byte into the held marks and hands out the first held
bit when it is taken; the mark of a byte leaves with its last bit. -/
theorem step_body (s : FeederState) {i : FeederInput} (hq : Quiet i) (hw : s.queue.Wf) :
    (step stripEpb s i).queue.Wf ∧
      (step stripEpb s i).strip=(bitStrip stripEpb).after s.strip (accepted s i) ∧
      taken s i ++ ((if finishes s i && s.curLast then [Mark.last] else []) ++
        body (step stripEpb s i)) = body s ++ (pushed stripEpb s i).flatMap marksOf := by
  obtain ⟨awf,acont,astrip,-⟩ := acceptByte_spec stripEpb { s with nalBitLast := false } i hw
  obtain ⟨ahave,acur,alast,aidx,-⟩ := acceptByte_frame stripEpb { s with nalBitLast := false } i
  have ahead := head_acceptByte stripEpb { s with nalBitLast := false } i hw
  have apush : pushed stripEpb { s with nalBitLast := false } i=pushed stripEpb s i := rfl
  rw [step_quiet stripEpb s hq]
  rw [apush] at acont
  generalize acceptByte stripEpb { s with nalBitLast := false } i=t at *
  have hheld : t.queue.contents.flatMap marksOf =
      s.queue.contents.flatMap marksOf ++ (pushed stripEpb s i).flatMap marksOf := by
    rw [acont,flatMap_append]
  have hwin : windowMarks t=windowMarks s := by
    simp only [windowMarks,ahave,acur,alast,aidx]
  cases hcur : s.haveCur with
  | true =>
    have hload : loadByte s t=t := by rw [loadByte,if_neg (by simp [loadCur,hcur])]
    rw [hload]
    cases hready : i.bitReady with
    | false =>
      have htake : takeBit s i=false := by rw [takeBit,hready,Bool.and_false]
      rw [consumeBit,if_neg (by simp [htake]),taken,delivered,if_neg (by simp [htake]),
        finishes,htake,body,hwin,hheld,body,append_assoc]
      exact ⟨awf,astrip,rfl⟩
    | true =>
      have htake : takeBit s i=true := by rw [takeBit,hcur,hready]; rfl
      have hfirst := windowMarks_take hcur
      rw [consumeBit,if_pos htake,taken,delivered,if_pos htake,finishes,htake]
      by_cases h7 : s.bitIdx=7#3
      · have hdone : ∀ u : FeederState, u.haveCur=false → u.queue=t.queue →
            [Mark.bit (bitValue s)] ++ ((if s.curLast then [Mark.last] else []) ++ body u) =
              body s ++ (pushed stripEpb s i).flatMap marksOf := by
          intro u hu hqu
          have hnone : windowMarks u=[] := by rw [windowMarks,if_neg (by simp [hu])]
          rw [body,hnone,hqu,hheld,body,hfirst,if_pos h7]
          simp
        have hflag : (true && s.bitIdx == 7#3 && s.curLast)=s.curLast := by simp [h7]
        rw [if_pos h7,hflag]
        by_cases hpulse : (s.curLast || (s.pendingNalLast && s.queue.isEmpty))=true
        · rw [if_pos hpulse]
          exact ⟨awf,astrip,hdone _ rfl rfl⟩
        · rw [if_neg hpulse]
          exact ⟨awf,astrip,hdone _ rfl rfl⟩
      · rw [if_neg h7]
        refine ⟨awf,astrip,?_⟩
        have hbody : body { t with bitsOut := saturatingInc s.bitsOut, bitIdx := s.bitIdx+1 } =
            windowMarks { s with bitIdx := s.bitIdx+1 } ++ t.queue.contents.flatMap marksOf := by
          simp only [body,windowMarks,ahave,acur,alast]
        rw [hbody,hheld,body,hfirst,if_neg h7]
        simp [h7]
  | false =>
    have htake : takeBit s i=false := by rw [takeBit,hcur,Bool.false_and]
    have hnone : windowMarks s=[] := by rw [windowMarks,if_neg (by simp [hcur])]
    rw [consumeBit,if_neg (by simp [htake]),taken,delivered,if_neg (by simp [htake]),finishes,
      htake,body,body,hnone,nil_append,← hheld]
    by_cases hempty : s.queue.isEmpty=true
    · have hload : loadByte s t=t := by rw [loadByte,if_neg (by simp [loadCur,hempty])]
      rw [hload,hwin,hnone]
      exact ⟨awf,astrip,rfl⟩
    · have hne : s.queue.level.toNat≠0 := by
        rw [Ne,RingFifo.level_eq_zero_iff]
        simpa [RingFifo.isEmpty] using hempty
      have hload : loadCur s=true := by simp [loadCur,hcur,hempty]
      obtain ⟨hlevel,hcons⟩ := ahead hne
      rw [loadByte,if_pos hload]
      refine ⟨wf_pop _ awf hlevel,astrip,?_⟩
      rw [hcons,flatMap_cons]
      rfl

/-- The bits of a list of marks. -/
def bitsIn : List Mark → List Bool := List.filterMap fun
  | .bit b => some b
  | .last => none

theorem bitsIn_append (xs ys : List Mark) : bitsIn (xs ++ ys) = bitsIn xs ++ bitsIn ys :=
  filterMap_append

theorem bitsIn_map (bits : List Bool) : bitsIn (bits.map Mark.bit)=bits := by
  simp [bitsIn,filterMap_map]

theorem bitsIn_last (c : Bool) : bitsIn (if c then [Mark.last] else [])=[] := by
  cases c <;> rfl

theorem bitsIn_marksOf (cells : List (Byte × Bool)) :
    bitsIn (cells.flatMap marksOf)=bitsOf (cells.map Prod.fst) := by
  induction cells with
  | nil => rfl
  | cons c cells ih =>
    rw [flatMap_cons,bitsIn_append,ih,marksOf,bitsIn_append,bitsIn_map,bitsIn_last,
      append_nil]
    rfl

theorem bitsIn_body (s : FeederState) : bitsIn (body s) = window s ++ queued s := by
  rw [body,bitsIn_append,bitsIn_marksOf,windowMarks,window]
  by_cases hcur : s.haveCur=true
  · rw [if_pos hcur,if_pos hcur,bitsIn_append,bitsIn_map,bitsIn_last,append_nil]
    rfl
  · rw [if_neg hcur,if_neg hcur]
    rfl

/-- One quiet cycle moves the accepted byte into the held bits and hands out
the first held bit when it is taken. -/
theorem step_spec (s : FeederState) {i : FeederInput} (hq : Quiet i) (hw : s.queue.Wf) :
    (step stripEpb s i).queue.Wf ∧
      (step stripEpb s i).strip=(bitStrip stripEpb).after s.strip (accepted s i) ∧
      delivered s i ++ (window (step stripEpb s i) ++ queued (step stripEpb s i)) =
        (window s ++ queued s) ++ (bitStrip stripEpb).run s.strip (accepted s i) := by
  obtain ⟨hwf,hstrip,hbody⟩ := step_body stripEpb s hq hw
  have hbits := congrArg bitsIn hbody
  rw [bitsIn_append,bitsIn_append,bitsIn_append,bitsIn_last,bitsIn_body,bitsIn_body,
    bitsIn_marksOf,taken,bitsIn_map,nil_append,bitsOf,
    (acceptByte_spec stripEpb s i hw).2.2.2] at hbits
  exact ⟨hwf,hstrip,hbits⟩

/-- The feeder is a stage of the stripper whose held bits are the unread bits
of the window followed by those of the queue. -/
def stage : Transducer.Stage (bitStrip stripEpb) (step stripEpb) accepted delivered where
  valid s := s.queue.Wf
  legal := Quiet
  control s := s.strip
  pending s := window s ++ queued s
  valid_step s _ hw hq := (step_spec stripEpb s hq hw).1
  control_step s _ hw hq := (step_spec stripEpb s hq hw).2.1
  conserve s _ hw hq := (step_spec stripEpb s hq hw).2.2

/-- Window and queue are empty. -/
def Drained (s : FeederState) : Prop := s.haveCur=false ∧ s.queue.isEmpty=true

/-- With stripping on, the feeder recovers a payload when every stall pattern
that takes its coded bytes from reset on and drains the module delivers the
bits of the payload. -/
def Recovers (bytes : List Byte) : Prop :=
  ∀ inputs : List FeederInput, (∀ i∈inputs, Quiet i) →
    emitted (step true) accepted cleared inputs=insertEpb bytes →
    Drained (finalState (step true) cleared inputs) →
    emitted (step true) delivered cleared inputs=bitsOf bytes

theorem wf_cleared : cleared.queue.Wf := by
  exact Nat.zero_le _

theorem pending_of_drained {s : FeederState} (h : Drained s) : window s ++ queued s = [] := by
  have hwin : window s=[] := by rw [window,if_neg (by simp [h.1])]
  have hcontents : s.queue.contents=[] := (contents_eq_nil_iff s.queue).mpr h.2
  rw [hwin,queued,hcontents]
  rfl

theorem delivered_eq_strip (inputs : List FeederInput) (hq : ∀ i∈inputs, Quiet i)
    (hdrain : Drained (finalState (step true) cleared inputs)) :
    emitted (step true) delivered cleared inputs =
      bitsOf (strip.run StripState.cleared (emitted (step true) accepted cleared inputs)) := by
  have h := (stage true).conserve_run cleared inputs wf_cleared hq
  have hend : (stage true).pending (finalState (step true) cleared inputs)=[] :=
    pending_of_drained hdrain
  have hstart : (stage true).pending cleared=[] := rfl
  rw [hend,append_nil,hstart,nil_append] at h
  rw [h]
  exact bitStrip_run StripState.cleared _

/-- The consumer takes a bit and the producer offers nothing. -/
def idle : FeederInput := ⟨false,false,false,0#8,false,true⟩

/-- The producer offers a byte and the consumer waits. -/
def offer (b : Byte) : FeederInput := ⟨false,false,true,b,false,false⟩

/-- The schedule that takes each byte into a drained feeder and hands out its
bits before the next. -/
def straightInputs (bytes : List Byte) : List FeederInput :=
  bytes.flatMap fun b => offer b::List.replicate 9 idle

theorem straightInputs_quiet (bytes : List Byte) : ∀ i∈straightInputs bytes, Quiet i := by
  intro i hi
  obtain ⟨b,-,hb⟩ := mem_flatMap.mp hi
  cases mem_cons.mp hb with
  | inl h =>
    rw [h]
    exact ⟨rfl,rfl⟩
  | inr h =>
    rw [eq_of_mem_replicate h]
    exact ⟨rfl,rfl⟩

theorem accepted_idle (s : FeederState) : accepted s idle=[] := rfl

theorem emitted_idle (s : FeederState) (n : ℕ) :
    emitted (step stripEpb) accepted s (List.replicate n idle)=[] := by
  induction n generalizing s with
  | zero => rfl
  | succ n ih => rw [replicate_succ,emitted_cons,accepted_idle,ih,append_nil]

/-- A clock without input. -/
theorem step_idle (s : FeederState) :
    step stripEpb s idle=consumeBit s idle (loadByte s { s with nalBitLast := false }) := rfl

theorem step_idle_window {s : FeederState} (hcur : s.haveCur=true) :
    (step stripEpb s idle).queue=s.queue ∧
      (s.bitIdx=7#3 → (step stripEpb s idle).haveCur=false) ∧
      (s.bitIdx≠7#3 → (step stripEpb s idle).haveCur=true ∧
        (step stripEpb s idle).bitIdx=s.bitIdx+1) := by
  have hload : loadCur s=false := by rw [loadCur,hcur,Bool.not_true,Bool.false_and]
  have htake : takeBit s idle=true := by rw [takeBit,hcur]; rfl
  rw [step_idle,loadByte,if_neg (by simp [hload]),consumeBit,if_pos htake]
  by_cases hlast : s.bitIdx=7#3
  · refine ⟨?_,?_,fun h => absurd hlast h⟩
    · split_ifs <;> rfl
    · intro _
      split_ifs <;> rfl
  · rw [if_neg hlast]
    exact ⟨rfl,fun h => absurd h hlast,fun _ => ⟨hcur,rfl⟩⟩

theorem idle_window (n : ℕ) {s : FeederState} (hcur : s.haveCur=true)
    (hn : s.bitIdx.toNat+n=8) :
    (finalState (step stripEpb) s (List.replicate n idle)).haveCur=false ∧
      (finalState (step stripEpb) s (List.replicate n idle)).queue=s.queue := by
  induction n generalizing s with
  | zero => omega
  | succ n ih =>
    obtain ⟨hqueue,hlast,hmore⟩ := step_idle_window stripEpb hcur
    by_cases h7 : s.bitIdx=7#3
    · have hzero : n=0 := by
        rw [h7,show (7#3).toNat=7 from rfl] at hn
        omega
      rw [hzero]
      exact ⟨hlast h7,hqueue⟩
    · obtain ⟨hcur',hidx⟩ := hmore h7
      have hidx' : (step stripEpb s idle).bitIdx.toNat+n=8 := by
        have h7' : s.bitIdx.toNat≠7 := fun h => h7 (BitVec.eq_of_toNat_eq h)
        rw [hidx,BitVec.toNat_add,show (1 : BitVec 3).toNat=1 from rfl,
          Nat.mod_eq_of_lt (by omega)]
        omega
      rw [← hqueue]
      exact ih hcur' hidx'

theorem idle_stays (n : ℕ) {s : FeederState} (h : Drained s) :
    Drained (finalState (step stripEpb) s (List.replicate n idle)) := by
  induction n generalizing s with
  | zero => exact h
  | succ n ih =>
    have hload : loadCur s=false := by rw [loadCur,h.2,Bool.not_true,Bool.and_false]
    have htake : takeBit s idle=false := by rw [takeBit,h.1,Bool.false_and]
    have hstay : step stripEpb s idle = { s with nalBitLast := false } := by
      rw [step_idle,loadByte,if_neg (by simp [hload]),consumeBit,if_neg (by simp [htake])]
    rw [replicate_succ,finalState_cons,hstay]
    exact ih h

theorem idle_drains {s : FeederState} (hcur : s.haveCur=false)
    (hlevel : s.queue.level.toNat≤1) :
    Drained (finalState (step stripEpb) s (List.replicate 9 idle)) := by
  by_cases hempty : s.queue.isEmpty=true
  · exact idle_stays stripEpb 9 ⟨hcur,hempty⟩
  · have hne : s.queue.level.toNat≠0 := by
      rw [Ne,RingFifo.level_eq_zero_iff]
      simpa [RingFifo.isEmpty] using hempty
    have hload : loadCur s=true := by simp [loadCur,hcur,hempty]
    have htake : takeBit s idle=false := by rw [takeBit,hcur,Bool.false_and]
    have hstep : step stripEpb s idle=loadByte s { s with nalBitLast := false } := by
      rw [step_idle,consumeBit,if_neg (by simp [htake])]
    rw [loadByte,if_pos hload] at hstep
    have hpop := level_pop s.queue hne
    have hcur' : (step stripEpb s idle).haveCur=true := by rw [hstep]
    have hidx : (step stripEpb s idle).bitIdx.toNat+8=8 := by rw [hstep]; rfl
    have hpopped : (step stripEpb s idle).queue=s.queue.pop := by rw [hstep]
    obtain ⟨hdone,hqueue⟩ := idle_window stripEpb 8 hcur' hidx
    rw [replicate_succ,finalState_cons]
    refine ⟨hdone,?_⟩
    rw [hqueue,hpopped,RingFifo.isEmpty,beq_iff_eq,← RingFifo.level_eq_zero_iff]
    omega

theorem step_offer {s : FeederState} (h : Drained s) (b : Byte) :
    accepted s (offer b)=[b] ∧ (step stripEpb s (offer b)).haveCur=false ∧
      (step stripEpb s (offer b)).queue.level.toNat≤1 := by
  have hzero : s.queue.level.toNat=0 := by
    rw [RingFifo.level_eq_zero_iff]
    simpa [RingFifo.isEmpty] using h.2
  have hready : inReady s=true := by
    simp [inReady,isFull,hzero]
  have hload : loadCur s=false := by rw [loadCur,h.2,Bool.not_true,Bool.and_false]
  have htake : takeBit s (offer b)=false := by rw [takeBit,h.1,Bool.false_and]
  have hstep : step stripEpb s (offer b) =
      acceptByte stripEpb { s with nalBitLast := false } (offer b) := by
    have hedge : step stripEpb s (offer b)=consumeBit s (offer b)
        (loadByte s (acceptByte stripEpb { s with nalBitLast := false } (offer b))) := rfl
    rw [hedge,loadByte,if_neg (by simp [hload]),consumeBit,if_neg (by simp [htake])]
  have hpush := level_push s.queue ((offer b).inByte,(offer b).inLast)
    (by rw [hzero]; decide)
  have hready' : ((offer b).inValid && inReady { s with nalBitLast := false })=true := by
    rw [show inReady { s with nalBitLast := false } = inReady s from rfl,hready]
    rfl
  refine ⟨by rw [accepted,hready]; rfl,?_,?_⟩
  · rw [hstep,(acceptByte_frame _ _ _).1]
    exact h.1
  · rw [hstep,acceptByte,if_pos hready']
    by_cases hskip : skipEpb stripEpb { s with nalBitLast := false } (offer b)=true
    · rw [if_pos hskip]
      exact hzero.le.trans (Nat.zero_le 1)
    · rw [if_neg hskip]
      exact (hpush.trans (by rw [hzero])).le

/-- Bytes fed one after the other come out as they are. -/
theorem straightInputs_run {s : FeederState} (h : Drained s) (bytes : List Byte) :
    emitted (step stripEpb) accepted s (straightInputs bytes)=bytes ∧
      Drained (finalState (step stripEpb) s (straightInputs bytes)) := by
  induction bytes generalizing s with
  | nil => exact ⟨rfl,h⟩
  | cons b bytes ih =>
    obtain ⟨hacc,hcur,hlevel⟩ := step_offer stripEpb h b
    have hdrained := idle_drains stripEpb hcur hlevel
    obtain ⟨hrest,hend⟩ := ih hdrained
    have hcons : straightInputs (b::bytes) =
        offer b::(replicate 9 idle ++ straightInputs bytes) := rfl
    rw [hcons,emitted_cons,finalState_cons,emitted_append,finalState_append,hacc,
      emitted_idle,hrest]
    exact ⟨rfl,hend⟩

theorem recovers_iff (bytes : List Byte) :
    Recovers bytes ↔ ¬OddZeroRunBeforeThree bytes := by
  rw [← strip_insertEpb_iff]
  constructor
  · intro h
    have hstart : Drained cleared := ⟨rfl,rfl⟩
    obtain ⟨hacc,hdrain⟩ := straightInputs_run true hstart (insertEpb bytes)
    have hq := straightInputs_quiet (insertEpb bytes)
    have hd := delivered_eq_strip _ hq hdrain
    rw [h _ hq hacc hdrain,hacc] at hd
    exact (bitsOf_injective hd).symm
  · intro h inputs hq hacc hdrain
    rw [delivered_eq_strip inputs hq hdrain,hacc,h]

end Misterplex.BitFeeder
