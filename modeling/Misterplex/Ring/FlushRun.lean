import Misterplex.Ring.Flush
import Misterplex.Ring.Progress

/-!
# Runs with flushes

The reader with the reads that the memory has accepted and not answered. The memory
answers in order, so a read that a flush abandons is answered to a later one. In every
run whose flush edges abandon nothing and are not opposed, no byte that was published
before a flush is presented after it.
-/

namespace Misterplex.Ring

open Emulation Trace BitVec

/-- The reader, the reads in flight and the true counts. All counts go on from epoch to
epoch. -/
structure FlushWorld where
  /-- The reader. -/
  reader : Reader
  /-- Addresses of the reads in flight, oldest first. -/
  inFlight : List (BitVec 29)
  /-- Count at which the epoch of the reader began. -/
  start : ℕ
  /-- Producer count of the last poll. -/
  polled : ℕ
  /-- Count of the next byte to consume. -/
  consumed : ℕ
  /-- What was published at the last flush. -/
  floor : ℕ

/-- A clock cycle with what is behind it. -/
structure FlushCycle where
  /-- The wires. -/
  cycle : Cycle
  /-- Count at which the epoch of the producer began. -/
  start : ℕ
  /-- The bytes published so far. -/
  total : ℕ
  /-- The memory. -/
  memory : BitVec 29 → BitVec 64

/-- An enabled reader hears the answer to its poll. -/
def hears (r : Reader) (i : Cycle) : Bool := i.enable && polls r i

/-- That answer has a new epoch. -/
def hearsEpoch (r : Reader) (i : Cycle) : Bool :=
  hears r i && ctrlReset i.dout != r.counts.resetSeen

/-- The reads in flight after an edge. -/
def inFlightNext (t : FlushWorld) (i : Cycle) : List (BitVec 29) :=
  (if i.doutReady then t.inFlight.tail else t.inFlight) ++
    if t.reader.bus.rd && !i.busy then [t.reader.bus.addr] else []

/-- One clock edge. -/
def FlushWorld.next (bitFeed : Bool) (t : FlushWorld) (l : FlushCycle) : FlushWorld where
  reader := step bitFeed t.reader l.cycle
  inFlight := inFlightNext t l.cycle
  start := if hearsEpoch t.reader l.cycle then l.start else t.start
  polled := if hears t.reader l.cycle then l.total else t.polled
  consumed :=
    if hearsEpoch t.reader l.cycle then l.total
    else if l.cycle.enable && takes bitFeed t.reader l.cycle then t.consumed+1
    else if l.cycle.enable && l.cycle.flush then t.polled
    else t.consumed
  floor := if l.cycle.enable && l.cycle.flush then l.total else t.floor

/-- The reader after a reset, with nothing published. -/
def FlushWorld.initial (r : Reader) : FlushWorld := ⟨resetBranch r,[],0,0,0,0⟩

/-- Reads are answered in order: one of the control word with the count of the epoch,
which in the epoch of the reader is at most a ring ahead, and one of the ring with the
word in memory, where the announced bytes that are not consumed lie. -/
def FlushAnswer (stream : ℕ → Byte) (t : FlushWorld) (l : FlushCycle) : List (BitVec 29) → Prop
  | [] => False
  | addr::_ =>
    if addr = ctrlW then
      ctrlMagicOk l.cycle.dout = true →
        l.cycle.dout=ctrlWord (ctrlReset l.cycle.dout) (l.total-l.start) ∧
        (ctrlReset l.cycle.dout=t.reader.counts.resetSeen →
          l.start=t.start ∧ l.total≤t.consumed+ringBytes)
    else
      l.cycle.dout = l.memory addr ∧
      ∀ n, n<t.polled → t.consumed≤n → ringByte l.memory (n-t.start)=stream n

instance (stream : ℕ → Byte) (t : FlushWorld) (l : FlushCycle) (inFlight : List (BitVec 29)) :
    Decidable (FlushAnswer stream t l inFlight) :=
  match inFlight with
  | [] => isFalse id
  | addr::_ => by
    unfold FlushAnswer
    infer_instance

/-- No reset, what is published never goes back and answers are those of the reads in
flight. -/
def FlushAdmits (stream : ℕ → Byte) (t : FlushWorld) (l : FlushCycle) : Prop :=
  l.cycle.reset=false ∧ t.polled≤l.total ∧ l.start≤l.total ∧
  (l.cycle.doutReady=true → FlushAnswer stream t l t.inFlight)

instance (stream : ℕ → Byte) (t : FlushWorld) (l : FlushCycle) :
    Decidable (FlushAdmits stream t l) := by
  unfold FlushAdmits
  infer_instance

/-- A flush edge is not opposed, leaves no read in flight and comes when everything that
is published is announced. An edge that is not enabled leaves no read in flight. The
count of an epoch stays below 2^31. -/
def Undisturbed (bitFeed : Bool) (t : FlushWorld) (l : FlushCycle) : Prop :=
  (Flushing l.cycle → Unopposed bitFeed t.reader l.cycle ∧ inFlightNext t l.cycle=[] ∧
    l.total=t.polled) ∧
  (l.cycle.enable=false → inFlightNext t l.cycle=[]) ∧
  (hears t.reader l.cycle=true → l.total-l.start<2^31)

instance (bitFeed : Bool) (t : FlushWorld) (l : FlushCycle) :
    Decidable (Undisturbed bitFeed t l) := by
  unfold Undisturbed
  infer_instance

/-- A flush edge leaves the reader fully flushed, and a byte that is presented is the
next one of the stream, which was not published before the last flush. -/
def FlushHolds (bitFeed : Bool) (stream : ℕ → Byte) (t : FlushWorld) (l : FlushCycle) : Prop :=
  (Flushing l.cycle → FullyFlushed t.reader (step bitFeed t.reader l.cycle)) ∧
  ∀ x∈presented (step bitFeed t.reader l.cycle),
    t.floor≤t.consumed ∧ x.1=stream t.consumed

/-- No read is asked for or in flight. -/
def FlushWorld.Silent (t : FlushWorld) : Prop := t.reader.bus.rd=false ∧ t.inFlight=[]

/-- At most a read of this address is asked for or in flight. -/
def FlushWorld.Asks (t : FlushWorld) (addr : BitVec 29) : Prop :=
  (t.reader.bus.rd=true ∧ t.reader.bus.addr=addr ∧ t.inFlight=[]) ∨
  (t.reader.bus.rd=false ∧ (t.inFlight=[] ∨ t.inFlight=[addr]))

/-- The reads in flight are those of the state. -/
def FlushWorld.Matched (t : FlushWorld) : Prop :=
  match t.reader.state with
  | .poll => t.Asks ctrlW
  | .readWait => ∃ addr, t.Asks addr ∧
      (t.consumed<t.polled → addr=dataW+readQwordOffset t.reader.counts ∧
        t.reader.beat.byteIdx=readByteIndex t.reader.counts)
  | _ => t.Silent

/-- The counts are those of the registers, the beat holds the next bytes of the stream
and nothing published before the last flush is to be consumed. -/
structure FlushWorld.Sound (stream : ℕ → Byte) (t : FlushWorld) : Prop where
  /-- The epoch began before. -/
  after : t.start≤t.consumed
  /-- Nothing is consumed before it is polled. -/
  behind : t.consumed≤t.polled
  /-- What is polled fits the ring. -/
  within : t.polled≤t.consumed+ringBytes
  /-- The bytes since the reset fit the counter. -/
  range : t.polled-t.start<2^31
  /-- The write count is the bytes polled. -/
  write : t.reader.counts.writeCount.toNat=t.polled-t.start
  /-- The read count is the bytes consumed. -/
  read : t.reader.counts.readCount.toNat=t.consumed-t.start
  /-- What was published before the last flush is consumed. -/
  floor : t.floor≤t.consumed
  /-- Only a beat under consumption has bytes left. -/
  empty : t.reader.state ≠ .consume → t.reader.beat.beatLeft=0#4
  /-- The bytes at hand have been polled. -/
  announced : t.reader.beat.beatLeft.toNat≤t.polled-t.consumed
  /-- The beat holds the next bytes. -/
  beat : ∀ j, j<t.reader.beat.beatLeft.toNat →
    beatByte t.reader.beat.beatQ (t.reader.beat.byteIdx+BitVec.ofNat 3 j)=stream (t.consumed+j)
  /-- The reader and the memory agree. -/
  matched : t.Matched

theorem FlushWorld.sound_initial (stream : ℕ → Byte) (r : Reader) :
    (FlushWorld.initial r).Sound stream where
  after := Nat.le_refl _
  behind := Nat.le_refl _
  within := Nat.zero_le _
  range := Nat.two_pow_pos 31
  write := rfl
  read := rfl
  floor := Nat.le_refl _
  empty := fun _ => rfl
  announced := Nat.le_refl _
  beat := fun j hj => absurd hj (Nat.not_lt_zero j)
  matched := ⟨rfl,rfl⟩

variable {stream : ℕ → Byte} (bitFeed : Bool) {t : FlushWorld} {l : FlushCycle} {r : Reader} {i : Cycle}

theorem FlushWorld.Sound.avail (h : t.Sound stream) :
    (Ring.avail t.reader.counts).toNat=t.polled-t.consumed := by
  have hafter := h.after
  have hbehind := h.behind
  have hwrite := h.write
  have hread := h.read
  rw [avail_toNat]
  omega

theorem dataW_ne_ctrlW (c : Counts) : dataW+readQwordOffset c≠ctrlW := by
  intro heq
  have hlt : (readQwordOffset c).toNat<2^15 := by
    unfold readQwordOffset readRingIndex
    rw [toNat_setWidth,toNat_ushiftRight,toNat_setWidth,
      Nat.shiftRight_eq_div_pow]
    omega
  have hnat := congrArg BitVec.toNat heq
  have hdata : dataW.toNat=0x06020000 := rfl
  have hctrl : ctrlW.toNat=0x06028000 := rfl
  rw [toNat_add,hdata,hctrl] at hnat
  omega

open ReaderState

theorem arm_rd {n : Reader} (hrd : n.bus.rd=false) (hidle : n.state = .idle ∨ r.state ≠ .idle) :
    (r.state = .idle ∧ (arm bitFeed r i n).bus.rd=true ∧
      ((arm bitFeed r i n).state = .poll ∧ (arm bitFeed r i n).bus.addr=ctrlW ∨
        (arm bitFeed r i n).state = .readWait)) ∨
    ((arm bitFeed r i n).bus.rd=false ∧ (r.state = .idle → (arm bitFeed r i n).state = .idle)) := by
  unfold arm
  cases hstate : r.state with
  | reset => exact Or.inr ⟨hrd,fun hs => noConfusion hs⟩
  | idle =>
    have hn : n.state = .idle := hidle.resolve_right fun hne => hne hstate
    unfold idleArm
    dsimp only
    split_ifs
    · exact Or.inr ⟨hrd,fun _ => hn⟩
    · exact Or.inl ⟨rfl,rfl,Or.inl ⟨rfl,rfl⟩⟩
    · exact Or.inl ⟨rfl,rfl,Or.inr rfl⟩
    · exact Or.inr ⟨hrd,fun _ => hn⟩
  | poll =>
    refine Or.inr ⟨?_,fun hs => noConfusion hs⟩
    unfold pollArm
    split_ifs
    · exact hrd
    · exact hrd
    · exact hrd
    · exact hrd
  | readWait =>
    refine Or.inr ⟨?_,fun hs => noConfusion hs⟩
    unfold readWaitArm
    split_ifs
    · exact hrd
    · exact hrd
  | consume =>
    refine Or.inr ⟨?_,fun hs => noConfusion hs⟩
    unfold consumeArm consumeByte
    obtain ⟨_,_,_,hbus,_⟩ := parseByte_keeps bitFeed r (beatByte r.beat.beatQ r.beat.byteIdx)
      (advance r n)
    split_ifs
    · exact (congrArg Bus.rd hbus).trans hrd
    · exact (congrArg Bus.rd hbus).trans hrd
    · exact hrd
    · exact hrd

/-- A silent bus stays silent. -/
theorem FlushWorld.Silent.next (h : t.Silent) (hadmits : FlushAdmits stream t l) :
    l.cycle.doutReady=false ∧ inFlightNext t l.cycle=[] := by
  obtain ⟨hrd,hnone⟩ := h
  have hready : l.cycle.doutReady=false := by
    by_contra hr
    have hanswer := hadmits.2.2.2 (Bool.not_eq_false _ ▸ hr)
    rw [hnone] at hanswer
    exact hanswer
  refine ⟨hready,?_⟩
  unfold inFlightNext
  rw [hready,hrd,hnone]
  rfl

theorem FlushWorld.Asks.wait {addr : BitVec 29} (h : t.Asks addr) (hready : l.cycle.doutReady=false) :
    inFlightNext t l.cycle=[] ∨ inFlightNext t l.cycle=[addr] := by
  unfold inFlightNext
  rw [hready,if_neg Bool.false_ne_true]
  rcases h with ⟨hrd,haddr,hnone⟩ | ⟨hrd,hsome⟩
  · rw [hrd,haddr,hnone,Bool.true_and]
    cases l.cycle.busy with
    | true => exact Or.inl rfl
    | false => exact Or.inr rfl
  · rw [hrd,Bool.false_and,if_neg Bool.false_ne_true,List.append_nil]
    exact hsome

theorem FlushWorld.Asks.answered {addr : BitVec 29} (h : t.Asks addr)
    (hadmits : FlushAdmits stream t l) (hready : l.cycle.doutReady=true) :
    t.inFlight=[addr] ∧ inFlightNext t l.cycle=[] := by
  have hsome : t.inFlight≠[] := fun hnone => by
    have hanswer := hadmits.2.2.2 hready
    rw [hnone] at hanswer
    exact hanswer
  rcases h with ⟨_,_,hnone⟩ | ⟨hrd,hflight⟩
  · exact absurd hnone hsome
  · have hone := hflight.resolve_left hsome
    refine ⟨hone,?_⟩
    unfold inFlightNext
    rw [hready,hrd,hone]
    rfl

theorem next_quiet (hhears : hears t.reader l.cycle=false)
    (htakes : takes bitFeed t.reader l.cycle=false) (hflush : l.cycle.flush=false) :
    t.next bitFeed l=⟨step bitFeed t.reader l.cycle,inFlightNext t l.cycle,t.start,t.polled,
      t.consumed,t.floor⟩ := by
  unfold FlushWorld.next hearsEpoch
  rw [hhears,htakes,hflush,Bool.and_false]
  rfl

theorem FlushWorld.Sound.held {n : Reader} {inFlight : List (BitVec 29)} (h : t.Sound stream)
    (hcounts : n.counts=t.reader.counts)
    (hempty : n.state ≠ .consume → n.beat.beatLeft=0#4)
    (hbeat : n.beat.beatLeft=0#4 ∨ n.beat=t.reader.beat)
    (hmatched : (⟨n,inFlight,t.start,t.polled,t.consumed,t.floor⟩ : FlushWorld).Matched) :
    (⟨n,inFlight,t.start,t.polled,t.consumed,t.floor⟩ : FlushWorld).Sound stream where
  after := h.after
  behind := h.behind
  within := h.within
  range := h.range
  write := by rw [hcounts]; exact h.write
  read := by rw [hcounts]; exact h.read
  floor := h.floor
  empty := hempty
  announced := by
    rcases hbeat with hzero | hsame
    · rw [hzero]
      exact Nat.zero_le _
    · rw [hsame]
      exact h.announced
  beat := by
    rcases hbeat with hzero | hsame
    · rw [hzero]
      exact fun j hj => absurd hj (Nat.not_lt_zero j)
    · rw [hsame]
      exact h.beat
  matched := hmatched

/-- The clock edge while the reader is disabled. -/
theorem step_disabled (hreset : i.reset=false) (henable : i.enable=false) :
    (step bitFeed r i).counts=r.counts ∧ (step bitFeed r i).beat.beatLeft=0#4 ∧
    (step bitFeed r i).state = .idle ∧ (step bitFeed r i).bus.rd=false ∧
    (step bitFeed r i).out.outValid=false := by
  obtain ⟨out,bus,hpulses,hvalid,_⟩ := pulses_held r i
  have hrd : (pulses r i).bus.rd=false := rfl
  unfold step
  rw [hreset,henable,if_neg Bool.false_ne_true,Bool.not_false,if_pos rfl]
  refine ⟨rfl,rfl,rfl,hrd,?_⟩
  rw [hpulses]
  exact hvalid

theorem FlushWorld.Sound.disabled (h : t.Sound stream) (hadmits : FlushAdmits stream t l)
    (hclean : Undisturbed bitFeed t l) (henable : l.cycle.enable=false) :
    (t.next bitFeed l).Sound stream := by
  obtain ⟨hcounts,hleft,hstate,hrd,_⟩ := step_disabled (r := t.reader) bitFeed hadmits.1 henable
  have hnext : t.next bitFeed l=⟨step bitFeed t.reader l.cycle,inFlightNext t l.cycle,t.start,
      t.polled,t.consumed,t.floor⟩ := by
    unfold FlushWorld.next hearsEpoch hears
    rw [henable]
    rfl
  rw [hnext]
  refine h.held hcounts (fun _ => hleft) (Or.inl hleft) ?_
  unfold FlushWorld.Matched
  rw [hstate]
  exact ⟨hrd,hclean.2.1 henable⟩

/-- A read is asked for only on the way out of the idle state. -/
theorem step_rd (hreset : i.reset=false) (henable : i.enable=true) :
    (r.state = .idle ∧ (step bitFeed r i).bus.rd=true ∧
      ((step bitFeed r i).state = .poll ∧ (step bitFeed r i).bus.addr=ctrlW ∨
        (step bitFeed r i).state = .readWait)) ∨
    ((step bitFeed r i).bus.rd=false ∧ (r.state = .idle → (step bitFeed r i).state = .idle)) := by
  have hstep : step bitFeed r i=arm bitFeed r i (preamble r i) := by
    unfold step
    rw [hreset,henable]
    rfl
  have hrd : (preamble r i).bus.rd=false := by
    unfold preamble
    obtain ⟨t,hchecks,_⟩ := checks_telem r
      (if i.flush then flushBranch r { pulses r i with pollDiv := r.pollDiv+1 }
        else { pulses r i with pollDiv := r.pollDiv+1 })
    rw [hchecks]
    cases i.flush with
    | false => rfl
    | true => rfl
  rw [hstep]
  refine arm_rd bitFeed hrd ?_
  cases hflush : i.flush with
  | false =>
    obtain ⟨_,hstate,_⟩ := preamble_held (r := r) hflush
    rw [hstate]
    exact Decidable.em _
  | true => exact Or.inl (preamble_cleared hflush).state

theorem FlushWorld.Silent.leave {n : FlushWorld} (h : t.Silent) (hadmits : FlushAdmits stream t l)
    (henable : l.cycle.enable=true) (hstate : t.reader.state = .idle)
    (hreader : n.reader=step bitFeed t.reader l.cycle) (hflight : n.inFlight=inFlightNext t l.cycle)
    (hread : n.reader.state = .readWait → n.consumed<n.polled →
      n.reader.bus.addr=dataW+readQwordOffset n.reader.counts ∧
      n.reader.beat.byteIdx=readByteIndex n.reader.counts) : n.Matched := by
  have hnone := hflight.trans (h.next hadmits).2
  have hrd := step_rd (r := t.reader) bitFeed hadmits.1 henable
  rw [← hreader] at hrd
  unfold FlushWorld.Matched
  rcases hrd with ⟨_,hrd,⟨hnew,haddr⟩ | hnew⟩ | ⟨hrd,hidle⟩
  · rw [hnew]
    exact Or.inl ⟨hrd,haddr,hnone⟩
  · rw [hnew]
    exact ⟨n.reader.bus.addr,Or.inl ⟨hrd,rfl,hnone⟩,hread hnew⟩
  · rw [hidle hstate]
    exact ⟨hrd,hnone⟩

/-- Outside the idle state no read is asked for. -/
theorem step_rd_false (hreset : i.reset=false) (henable : i.enable=true)
    (hstate : r.state ≠ .idle) : (step bitFeed r i).bus.rd=false := by
  rcases step_rd (r := r) bitFeed hreset henable with ⟨hidle,_⟩ | ⟨hrd,_⟩
  · exact absurd hidle hstate
  · exact hrd

theorem FlushWorld.Sound.still (h : t.Sound stream) (hsteady : Steady l.cycle)
    (hheld : Held (step bitFeed t.reader l.cycle) t.reader)
    (hhears : hears t.reader l.cycle=false) (htakes : takes bitFeed t.reader l.cycle=false)
    (hempty : (step bitFeed t.reader l.cycle).state ≠ .consume → t.reader.beat.beatLeft=0#4)
    (hidx : t.reader.state = .consume →
      (step bitFeed t.reader l.cycle).beat.byteIdx=t.reader.beat.byteIdx)
    (hmatched : (⟨step bitFeed t.reader l.cycle,inFlightNext t l.cycle,t.start,t.polled,
      t.consumed,t.floor⟩ : FlushWorld).Matched) : (t.next bitFeed l).Sound stream := by
  rw [next_quiet bitFeed hhears htakes hsteady.flush]
  refine h.held hheld.counts (fun hne => hheld.beatLeft.trans (hempty hne)) ?_ hmatched
  by_cases hstate : t.reader.state = .consume
  · refine Or.inr ?_
    have hall : ∀ b c : Beat, b.beatQ=c.beatQ → b.byteIdx=c.byteIdx → b.beatLeft=c.beatLeft →
        b=c := by
      rintro ⟨q,k,m⟩ ⟨q',k',m'⟩ rfl rfl rfl
      rfl
    exact hall _ _ hheld.beatQ (hidx hstate) hheld.beatLeft
  · exact Or.inl (hheld.beatLeft.trans (h.empty hstate))

theorem hears_eq_false (h : r.state ≠ .poll) : hears r i=false := by
  unfold hears polls
  rw [decide_eq_false fun hp => h hp.1,Bool.and_false]

theorem FlushWorld.Sound.reset (h : t.Sound stream) (hadmits : FlushAdmits stream t l)
    (hsteady : Steady l.cycle) (hstate : t.reader.state = .reset) : (t.next bitFeed l).Sound stream := by
  obtain ⟨hheld,hnew⟩ := step_reset bitFeed hsteady hstate
  have hmatched := h.matched
  unfold FlushWorld.Matched at hmatched
  rw [hstate] at hmatched
  have hflight := (FlushWorld.Silent.next hmatched hadmits).2
  have hrd := step_rd_false (r := t.reader) bitFeed hsteady.reset hsteady.enable
    (by rw [hstate]; exact noConfusion)
  have hother : t.reader.state ≠ .consume := by
    rw [hstate]
    exact noConfusion
  refine h.still bitFeed hsteady hheld (hears_eq_false (by rw [hstate]; exact noConfusion))
    (takes_eq_false hother) (fun _ => h.empty hother) (fun hc => absurd hc hother) ?_
  unfold FlushWorld.Matched
  rw [hnew]
  exact ⟨hrd,hflight⟩

theorem FlushWorld.Sound.idle (h : t.Sound stream) (hadmits : FlushAdmits stream t l)
    (hsteady : Steady l.cycle) (hstate : t.reader.state = .idle) : (t.next bitFeed l).Sound stream := by
  obtain ⟨hheld,hnew⟩ := step_idle bitFeed hsteady hstate
  have hmatched := h.matched
  unfold FlushWorld.Matched at hmatched
  rw [hstate] at hmatched
  have hother : t.reader.state ≠ .consume := by
    rw [hstate]
    exact noConfusion
  refine h.still bitFeed hsteady hheld (hears_eq_false (by rw [hstate]; exact noConfusion))
    (takes_eq_false hother) (fun _ => h.empty hother) (fun hc => absurd hc hother) ?_
  refine FlushWorld.Silent.leave bitFeed hmatched hadmits hsteady.enable hstate rfl rfl ?_
  intro hwait _
  rw [hheld.counts]
  rcases hnew with hidle | ⟨hpoll,_⟩ | ⟨_,_,hidx,haddr⟩
  · exact absurd (hidle.symm.trans hwait) noConfusion
  · exact absurd (hpoll.symm.trans hwait) noConfusion
  · exact ⟨haddr,hidx⟩

theorem FlushWorld.Sound.pollNothing (h : t.Sound stream) (hadmits : FlushAdmits stream t l)
    (hsteady : Steady l.cycle) (hstate : t.reader.state = .poll)
    (hnone : ¬(l.cycle.doutReady=true ∧ ctrlMagicOk l.cycle.dout=true)) :
    (t.next bitFeed l).Sound stream := by
  obtain ⟨hheld,hnew⟩ := step_poll_nothing bitFeed hsteady hstate hnone
  have hmatched := h.matched
  unfold FlushWorld.Matched at hmatched
  rw [hstate] at hmatched
  have hrd := step_rd_false (r := t.reader) bitFeed hsteady.reset hsteady.enable
    (by rw [hstate]; exact noConfusion)
  have hother : t.reader.state ≠ .consume := by
    rw [hstate]
    exact noConfusion
  have hhears : hears t.reader l.cycle=false := by
    unfold hears polls
    rw [decide_eq_false fun hp => hnone hp.2,Bool.and_false]
  refine h.still bitFeed hsteady hheld hhears
    (takes_eq_false hother) (fun _ => h.empty hother) (fun hc => absurd hc hother) ?_
  unfold FlushWorld.Matched
  rw [hnew]
  cases hready : l.cycle.doutReady with
  | true => exact ⟨hrd,(FlushWorld.Asks.answered hmatched hadmits hready).2⟩
  | false => exact Or.inr ⟨hrd,FlushWorld.Asks.wait hmatched hready⟩

theorem FlushWorld.Sound.heard (h : t.Sound stream) (hadmits : FlushAdmits stream t l)
    (hclean : Undisturbed bitFeed t l) (hhears : hears t.reader l.cycle=true) :
    inFlightNext t l.cycle=[] ∧ (ctrlWriteCount l.cycle.dout).toNat=l.total-l.start ∧
    l.total-l.start<2^31 ∧
    (ctrlReset l.cycle.dout=t.reader.counts.resetSeen →
      l.start=t.start ∧ l.total≤t.consumed+ringBytes) := by
  obtain ⟨hstate,hready,hmagic⟩ := of_decide_eq_true (Bool.and_eq_true_iff.mp hhears).2
  have hmatched := h.matched
  unfold FlushWorld.Matched at hmatched
  rw [hstate] at hmatched
  obtain ⟨hflight,hnext⟩ := FlushWorld.Asks.answered hmatched hadmits hready
  have hanswer := hadmits.2.2.2 hready
  rw [hflight] at hanswer
  obtain ⟨hword,hsame⟩ := hanswer hmagic
  have hrange := hclean.2.2 hhears
  refine ⟨hnext,?_,hrange,hsame⟩
  rw [hword,ctrlWriteCount_ctrlWord,Nat.mod_eq_of_lt hrange]

theorem FlushWorld.Sound.poll (h : t.Sound stream) (hadmits : FlushAdmits stream t l)
    (hclean : Undisturbed bitFeed t l) (hsteady : Steady l.cycle)
    (hhears : hears t.reader l.cycle=true) : (t.next bitFeed l).Sound stream := by
  obtain ⟨hflight,hwrite,hrange,hsame⟩ := h.heard bitFeed hadmits hclean hhears
  obtain ⟨hstate,hready,hmagic⟩ := of_decide_eq_true (Bool.and_eq_true_iff.mp hhears).2
  have hrd := step_rd_false (r := t.reader) bitFeed hsteady.reset hsteady.enable
    (by rw [hstate]; exact noConfusion)
  have hother : t.reader.state ≠ .consume := by
    rw [hstate]
    exact noConfusion
  have htakes : takes bitFeed t.reader l.cycle=false := takes_eq_false hother
  have hge := hadmits.2.1
  have hstart := hadmits.2.2.1
  by_cases hepoch : ctrlReset l.cycle.dout=t.reader.counts.resetSeen
  · obtain ⟨hheld,hidle,hcounts⟩ := step_poll_same bitFeed hsteady hstate hready hmagic hepoch
    obtain ⟨hbegan,hring⟩ := hsame hepoch
    have hold : hearsEpoch t.reader l.cycle=false := by
      unfold hearsEpoch
      rw [hepoch,bne_self_eq_false,Bool.and_false]
    have hnext : t.next bitFeed l=⟨step bitFeed t.reader l.cycle,inFlightNext t l.cycle,t.start,
        l.total,t.consumed,t.floor⟩ := by
      unfold FlushWorld.next
      rw [hold,hhears,htakes,hsteady.flush,Bool.and_false]
      rfl
    have hleft : (step bitFeed t.reader l.cycle).beat.beatLeft=0#4 :=
      hheld.beatLeft.trans (h.empty hother)
    rw [hnext]
    refine ⟨h.after,Nat.le_trans h.behind hge,hring,hbegan ▸ hrange,?_,?_,h.floor,
      fun _ => hleft,?_,?_,?_⟩
    · rw [hcounts,← hbegan]
      exact hwrite
    · rw [hcounts]
      exact h.read
    · rw [hleft]
      exact Nat.zero_le _
    · rw [hleft]
      exact fun j hj => absurd hj (Nat.not_lt_zero j)
    · unfold FlushWorld.Matched
      rw [hidle]
      exact ⟨hrd,hflight⟩
  · obtain ⟨hidle,hcounts,hleft,_⟩ := step_poll_epoch bitFeed hsteady hstate hready hmagic hepoch
    have hnew : hearsEpoch t.reader l.cycle=true := by
      unfold hearsEpoch
      rw [hhears,Bool.true_and]
      exact bne_iff_ne.mpr hepoch
    have hnext : t.next bitFeed l=⟨step bitFeed t.reader l.cycle,inFlightNext t l.cycle,l.start,
        l.total,l.total,t.floor⟩ := by
      unfold FlushWorld.next
      rw [hnew,hhears,hsteady.flush,Bool.and_false]
      rfl
    rw [hnext]
    refine ⟨hstart,Nat.le_refl _,Nat.le_add_right _ _,hrange,?_,?_,?_,fun _ => hleft,?_,?_,?_⟩
    · rw [hcounts]
      exact hwrite
    · rw [hcounts]
      exact hwrite
    · exact Nat.le_trans h.floor (Nat.le_trans h.behind hge)
    · rw [hleft]
      exact Nat.zero_le _
    · rw [hleft]
      exact fun j hj => absurd hj (Nat.not_lt_zero j)
    · unfold FlushWorld.Matched
      rw [hidle]
      exact ⟨hrd,hflight⟩

theorem FlushWorld.Sound.readNothing (h : t.Sound stream) (hsteady : Steady l.cycle)
    (hstate : t.reader.state = .readWait) (hnone : l.cycle.doutReady=false) : (t.next bitFeed l).Sound stream := by
  obtain ⟨hheld,hnew,hidx,_⟩ := step_readWait_nothing bitFeed hsteady hstate hnone
  have hmatched := h.matched
  unfold FlushWorld.Matched at hmatched
  rw [hstate] at hmatched
  obtain ⟨addr,hasks,hread⟩ := hmatched
  have hrd := step_rd_false (r := t.reader) bitFeed hsteady.reset hsteady.enable
    (by rw [hstate]; exact noConfusion)
  have hother : t.reader.state ≠ .consume := by
    rw [hstate]
    exact noConfusion
  refine h.still bitFeed hsteady hheld (hears_eq_false (by rw [hstate]; exact noConfusion))
    (takes_eq_false hother) (fun _ => h.empty hother) (fun hc => absurd hc hother) ?_
  unfold FlushWorld.Matched
  rw [hnew]
  refine ⟨addr,Or.inr ⟨hrd,FlushWorld.Asks.wait hasks hnone⟩,fun hmore => ?_⟩
  rw [hheld.counts,hidx]
  exact hread hmore

theorem FlushWorld.Sound.answered (h : t.Sound stream) (hadmits : FlushAdmits stream t l)
    (hsteady : Steady l.cycle) (hstate : t.reader.state = .readWait)
    (hready : l.cycle.doutReady=true) : (t.next bitFeed l).Sound stream := by
  obtain ⟨hheld,hnew,hbeat⟩ := step_readWait bitFeed hsteady hstate hready
  have hmatched := h.matched
  unfold FlushWorld.Matched at hmatched
  rw [hstate] at hmatched
  obtain ⟨addr,hasks,hread⟩ := hmatched
  obtain ⟨hflight,hempty⟩ := FlushWorld.Asks.answered hasks hadmits hready
  have hrd := step_rd_false (r := t.reader) bitFeed hsteady.reset hsteady.enable
    (by rw [hstate]; exact noConfusion)
  have hother : t.reader.state ≠ .consume := by
    rw [hstate]
    exact noConfusion
  have hcounts : (step bitFeed t.reader l.cycle).counts=t.reader.counts := hheld.counts
  have hcount := consumeCount_toNat t.reader.counts
  rw [h.avail] at hcount
  rw [next_quiet bitFeed (hears_eq_false (by rw [hstate]; exact noConfusion))
    (takes_eq_false hother) hsteady.flush]
  refine ⟨h.after,h.behind,h.within,h.range,?_,?_,h.floor,fun hne => absurd hnew hne,?_,?_,?_⟩
  · rw [hcounts]
    exact h.write
  · rw [hcounts]
    exact h.read
  · rw [hbeat]
    rw [hcount]
    exact Nat.min_le_left _ _
  · rw [hbeat]
    dsimp only
    intro j hj
    have hafter := h.after
    have hsome : t.consumed+j<t.polled := by
      omega
    obtain ⟨haddr,hidx⟩ := hread (by omega)
    have hanswer := hadmits.2.2.2 hready
    rw [hflight] at hanswer
    unfold FlushAnswer at hanswer
    dsimp only at hanswer
    rw [if_neg (haddr ▸ dataW_ne_ctrlW _)] at hanswer
    rw [hanswer.1,haddr,hidx,ringByte_beat l.memory t.reader.counts hj,h.read,
      ← hanswer.2 (t.consumed+j) hsome (Nat.le_add_right _ _)]
    congr 1
    omega
  · unfold FlushWorld.Matched
    rw [hnew]
    exact ⟨hrd,hempty⟩

theorem FlushWorld.Sound.stall (h : t.Sound stream) (hadmits : FlushAdmits stream t l)
    (hsteady : Steady l.cycle) (hstate : t.reader.state = .consume)
    (hstall : consumes bitFeed t.reader l.cycle=false) : (t.next bitFeed l).Sound stream := by
  obtain ⟨hheld,hnew,hidx⟩ := step_consume_stall bitFeed hsteady hstate hstall
  have hmatched := h.matched
  unfold FlushWorld.Matched at hmatched
  rw [hstate] at hmatched
  have hflight := (FlushWorld.Silent.next hmatched hadmits).2
  have hrd := step_rd_false (r := t.reader) bitFeed hsteady.reset hsteady.enable
    (by rw [hstate]; exact noConfusion)
  refine h.still bitFeed hsteady hheld (hears_eq_false (by rw [hstate]; exact noConfusion))
    (decide_eq_false fun hc => absurd (hstall.symm.trans hc.2) Bool.false_ne_true) ?_ (fun _ => hidx) ?_
  · intro hne
    by_contra hleft
    rw [hnew,if_neg hleft] at hne
    exact hne rfl
  · unfold FlushWorld.Matched
    rw [hnew]
    split_ifs
    · exact ⟨hrd,hflight⟩
    · exact ⟨hrd,hflight⟩

/-- A byte taken is the next one of the stream. -/
theorem FlushWorld.Sound.taken (h : t.Sound stream) (hadmits : FlushAdmits stream t l)
    (hsteady : Steady l.cycle) (hstate : t.reader.state = .consume)
    (hgo : consumes bitFeed t.reader l.cycle=true) : (t.next bitFeed l).Sound stream := by
  obtain ⟨hnew,hbeat,hcounts,_⟩ := step_consume bitFeed hsteady hstate hgo
  have hmatched := h.matched
  unfold FlushWorld.Matched at hmatched
  rw [hstate] at hmatched
  have hflight := (FlushWorld.Silent.next hmatched hadmits).2
  have hrd := step_rd_false (r := t.reader) bitFeed hsteady.reset hsteady.enable
    (by rw [hstate]; exact noConfusion)
  have hhears : hears t.reader l.cycle=false :=
    hears_eq_false (by rw [hstate]; exact noConfusion)
  have htakes : takes bitFeed t.reader l.cycle=true := decide_eq_true ⟨hstate,hgo⟩
  have hnext : t.next bitFeed l=⟨step bitFeed t.reader l.cycle,inFlightNext t l.cycle,t.start,
      t.polled,t.consumed+1,t.floor⟩ := by
    unfold FlushWorld.next hearsEpoch
    rw [hhears,htakes,hsteady.flush,hsteady.enable]
    rfl
  have hne : t.reader.beat.beatLeft≠0#4 := bne_iff_ne.mp (Bool.and_eq_true_iff.mp hgo).1
  have hpos : t.reader.beat.beatLeft.toNat≠0 := fun hzero => hne (eq_of_toNat_eq hzero)
  have hafter := h.after
  have hwithin := h.within
  have hrange := h.range
  have hread := h.read
  have hfloor := h.floor
  have hannounced := h.announced
  have hleft : (t.reader.beat.beatLeft-1).toNat=t.reader.beat.beatLeft.toNat-1 := by
    have hdec : (1 : BitVec 4).toNat=1 := rfl
    rw [toNat_sub,hdec]
    omega
  rw [hnext]
  refine ⟨?_,?_,?_,hrange,?_,?_,?_,?_,?_,?_,?_⟩
  · dsimp only
    omega
  · dsimp only
    omega
  · dsimp only
    omega
  · rw [hcounts]
    exact h.write
  · have hinc : (1 : BitVec 32).toNat=1 := rfl
    dsimp only
    rw [hcounts]
    rw [toNat_add,hinc]
    omega
  · dsimp only
    omega
  · intro hidle
    rw [hnew] at hidle
    rw [hbeat]
    by_cases hone : t.reader.beat.beatLeft=1#4
    · rw [hone]
      rfl
    · rw [if_neg hone] at hidle
      exact absurd rfl hidle
  · rw [hbeat]
    dsimp only
    omega
  · intro j hj
    rw [hbeat] at hj ⊢
    dsimp only at hj ⊢
    have hlater := h.beat (j+1) (by omega)
    rw [Nat.add_assoc,Nat.add_comm 1 j,← hlater]
    congr 1
    apply eq_of_toNat_eq
    have hinc : (1 : BitVec 3).toNat=1 := rfl
    rw [toNat_add,toNat_add,toNat_add,hinc,toNat_ofNat,
      toNat_ofNat]
    omega
  · unfold FlushWorld.Matched
    rw [hnew]
    split_ifs
    · exact ⟨hrd,hflight⟩
    · exact ⟨hrd,hflight⟩

theorem FlushWorld.Sound.steady (h : t.Sound stream) (hadmits : FlushAdmits stream t l)
    (hclean : Undisturbed bitFeed t l) (hsteady : Steady l.cycle) : (t.next bitFeed l).Sound stream := by
  cases hstate : t.reader.state with
  | reset => exact h.reset bitFeed hadmits hsteady hstate
  | idle => exact h.idle bitFeed hadmits hsteady hstate
  | poll =>
    by_cases hanswer : l.cycle.doutReady=true ∧ ctrlMagicOk l.cycle.dout=true
    · have hhears : hears t.reader l.cycle=true := by
        unfold hears polls
        rw [hsteady.enable,decide_eq_true ⟨hstate,hanswer⟩]
        rfl
      exact h.poll bitFeed hadmits hclean hsteady hhears
    · exact h.pollNothing bitFeed hadmits hsteady hstate hanswer
  | readWait =>
    cases hready : l.cycle.doutReady with
    | false => exact h.readNothing bitFeed hsteady hstate hready
    | true => exact h.answered bitFeed hadmits hsteady hstate hready
  | consume =>
    cases hgo : consumes bitFeed t.reader l.cycle with
    | false => exact h.stall bitFeed hadmits hsteady hstate hgo
    | true => exact h.taken bitFeed hadmits hsteady hstate hgo

theorem step_flushing_keeps (h : Flushing i) :
    (step bitFeed r i).counts.writeCount =
      (if polls r i then ctrlWriteCount i.dout else r.counts.writeCount) ∧
    (r.state ≠ .idle → (step bitFeed r i).state = .idle ∨ (step bitFeed r i).state = .consume) := by
  have hn : Cleared (preamble r i) r := preamble_cleared h.flush
  have hwrite : (preamble r i).counts.writeCount=r.counts.writeCount := by
    rw [hn.counts]
  have hother : r.state ≠ .poll →
      (if polls r i then ctrlWriteCount i.dout else r.counts.writeCount)=r.counts.writeCount :=
    fun hne => if_neg fun hp => hne (of_decide_eq_true hp).1
  rw [step_flushing bitFeed h]
  unfold arm
  cases hstate : r.state with
  | reset =>
    rw [hother (by rw [hstate]; exact noConfusion)]
    exact ⟨hwrite,fun _ => Or.inl rfl⟩
  | idle =>
    rw [hother (by rw [hstate]; exact noConfusion)]
    refine ⟨?_,fun hne => absurd rfl hne⟩
    unfold idleArm
    dsimp only
    split_ifs
    · exact hwrite
    · exact hwrite
    · exact hwrite
    · exact hwrite
  | poll =>
    unfold pollArm
    by_cases hready : i.doutReady=true
    · rw [if_pos hready]
      refine ⟨?_,fun _ => Or.inl rfl⟩
      by_cases hmagic : ctrlMagicOk i.dout=true
      · have hpolls : polls r i=true := decide_eq_true ⟨hstate,hready,hmagic⟩
        split_ifs
        · rfl
        · rfl
      · have hpolls : polls r i=false := decide_eq_false fun hp => hmagic hp.2.2
        rw [hpolls,if_neg Bool.false_ne_true,if_neg hmagic]
        exact hwrite
    · have hpolls : polls r i=false := decide_eq_false fun hp => hready hp.2.1
      rw [hpolls,if_neg hready]
      exact ⟨hwrite,fun _ => Or.inl hn.state⟩
  | readWait =>
    rw [hother (by rw [hstate]; exact noConfusion)]
    unfold readWaitArm
    split_ifs
    · exact ⟨hwrite,fun _ => Or.inr rfl⟩
    · exact ⟨hwrite,fun _ => Or.inl hn.state⟩
  | consume =>
    rw [hother (by rw [hstate]; exact noConfusion)]
    unfold consumeArm consumeByte
    obtain ⟨_,hcounts,hkeeps,_⟩ := parseByte_keeps bitFeed r
      (beatByte r.beat.beatQ r.beat.byteIdx) (advance r (preamble r i))
    have hwrite' := (congrArg Counts.writeCount hcounts).trans hwrite
    split_ifs
    · exact ⟨hwrite',fun _ => Or.inl rfl⟩
    · exact ⟨hwrite',fun _ => Or.inl (hkeeps.trans hn.state)⟩
    · exact ⟨hwrite,fun _ => Or.inl rfl⟩
    · exact ⟨hwrite,fun _ => Or.inl hn.state⟩

/-- A flush edge that is not disturbed: everything that is published is consumed. -/
theorem FlushWorld.Sound.flushing (h : t.Sound stream) (hadmits : FlushAdmits stream t l)
    (hclean : Undisturbed bitFeed t l) (hflushing : Flushing l.cycle) :
    (t.next bitFeed l).Sound stream := by
  obtain ⟨hunopposed,hflight,htotal⟩ := hclean.1 hflushing
  have hflushed := (fullyFlushed_iff bitFeed t.reader hflushing).mpr hunopposed
  obtain ⟨hwrite,hstate⟩ := step_flushing_keeps (r := t.reader) bitFeed hflushing
  have hafter := h.after
  have hbehind := h.behind
  have hrange := h.range
  have hstart := hadmits.2.2.1
  have hcounts : (t.next bitFeed l).polled=l.total ∧ (t.next bitFeed l).consumed=l.total ∧
      (t.next bitFeed l).floor=l.total := by
    unfold FlushWorld.next
    dsimp only
    rw [hflushing.enable,hflushing.flush,← htotal]
    refine ⟨ite_self _,?_,rfl⟩
    cases hepoch : hearsEpoch t.reader l.cycle with
    | true => rfl
    | false =>
      rw [if_neg Bool.false_ne_true,Bool.true_and]
      cases htakes : takes bitFeed t.reader l.cycle with
      | false => rfl
      | true =>
        obtain ⟨hconsume,hgo⟩ := of_decide_eq_true htakes
        have hlast := (hunopposed.2.2 hconsume hgo).2.1
        have hnat := congrArg BitVec.toNat hlast
        have hinc : (1 : BitVec 32).toNat=1 := rfl
        rw [toNat_add,hinc,h.write,h.read] at hnat
        rw [if_pos rfl]
        omega
  have hbounds : (t.next bitFeed l).start≤l.total ∧ l.total-(t.next bitFeed l).start<2^31 ∧
      t.reader.counts.writeCount.toNat=l.total-(t.next bitFeed l).start ∧
      (step bitFeed t.reader l.cycle).counts.writeCount.toNat =
        l.total-(t.next bitFeed l).start := by
    have hnext : (t.next bitFeed l).start =
        if hearsEpoch t.reader l.cycle then l.start else t.start := rfl
    cases hhears : hears t.reader l.cycle with
    | false =>
      have hpolls : polls t.reader l.cycle=false := by
        unfold hears at hhears
        rw [hflushing.enable] at hhears
        exact hhears
      have hold : hearsEpoch t.reader l.cycle=false := by
        unfold hearsEpoch
        rw [hhears]
        rfl
      rw [hnext,hold,hwrite,hpolls,if_neg Bool.false_ne_true,if_neg Bool.false_ne_true,htotal]
      exact ⟨Nat.le_trans hafter hbehind,hrange,h.write,h.write⟩
    | true =>
      obtain ⟨_,hcount,hfits,hsame⟩ := h.heard bitFeed hadmits hclean hhears
      have hpolls := (Bool.and_eq_true_iff.mp hhears).2
      obtain ⟨hpoll,hready,hmagic⟩ := of_decide_eq_true hpolls
      rw [hwrite,hpolls,if_pos rfl,hcount]
      cases hepoch : hearsEpoch t.reader l.cycle with
      | true =>
        have hne := bne_iff_ne.mp (Bool.and_eq_true_iff.mp hepoch).2
        have hequal := hunopposed.1 hpoll hready hmagic hne
        rw [hnext,hepoch,if_pos rfl]
        refine ⟨hstart,hfits,?_,rfl⟩
        rw [← hequal]
        exact hcount
      | false =>
        have hsame' : ctrlReset l.cycle.dout=t.reader.counts.resetSeen := by
          unfold hearsEpoch at hepoch
          rw [hhears,Bool.true_and] at hepoch
          exact bne_eq_false_iff_eq.mp hepoch
        obtain ⟨hbegan,_⟩ := hsame hsame'
        rw [hnext,hepoch,if_neg Bool.false_ne_true,← hbegan]
        refine ⟨hstart,hfits,?_,rfl⟩
        rw [h.write,hbegan,htotal]
  have hreader : (t.next bitFeed l).reader=step bitFeed t.reader l.cycle := rfl
  refine ⟨?_,?_,?_,?_,?_,?_,?_,fun _ => hflushed.beat,?_,?_,?_⟩
  · rw [hcounts.2.1]
    exact hbounds.1
  · rw [hcounts.1,hcounts.2.1]
  · rw [hcounts.1,hcounts.2.1]
    exact Nat.le_add_right _ _
  · rw [hcounts.1]
    exact hbounds.2.1
  · rw [hcounts.1]
    exact hbounds.2.2.2
  · rw [hcounts.2.1,hreader,hflushed.read]
    exact hbounds.2.2.1
  · rw [hcounts.2.1,hcounts.2.2]
  · rw [hreader,hflushed.beat]
    exact Nat.zero_le _
  · rw [hreader,hflushed.beat]
    exact fun j hj => absurd hj (Nat.not_lt_zero j)
  · by_cases hidle : t.reader.state = .idle
    · have hmatched := h.matched
      unfold FlushWorld.Matched at hmatched
      rw [hidle] at hmatched
      refine FlushWorld.Silent.leave bitFeed hmatched hadmits hflushing.enable hidle rfl rfl ?_
      intro _ hmore
      rw [hcounts.1,hcounts.2.1] at hmore
      exact absurd hmore (Nat.lt_irrefl _)
    · have hrd := step_rd_false (r := t.reader) bitFeed hflushing.reset hflushing.enable hidle
      unfold FlushWorld.Matched
      rcases hstate hidle with hnew | hnew
      · rw [hreader,hnew]
        exact ⟨hrd,hflight⟩
      · rw [hreader,hnew]
        exact ⟨hrd,hflight⟩

/-- An undisturbed clock keeps the stream. -/
theorem FlushWorld.Sound.next (h : t.Sound stream) (hadmits : FlushAdmits stream t l)
    (hclean : Undisturbed bitFeed t l) : (t.next bitFeed l).Sound stream := by
  cases henable : l.cycle.enable with
  | false => exact h.disabled bitFeed hadmits hclean henable
  | true =>
    cases hflush : l.cycle.flush with
    | false => exact h.steady bitFeed hadmits hclean ⟨hadmits.1,henable,hflush⟩
    | true => exact h.flushing bitFeed hadmits hclean ⟨hadmits.1,henable,hflush⟩

theorem presented_parseByte {old n : Reader} {rx : Byte} {x : Byte × Bool}
    (hquiet : n.out.outValid=false) (hx : x∈presented (parseByte bitFeed old rx n)) :
    x.1=rx := by
  have hnone : (parseByte bitFeed old rx n).out.outValid=true := by
    by_contra hinvalid
    unfold presented at hx
    rw [if_neg hinvalid] at hx
    exact absurd hx List.not_mem_nil
  unfold parseByte at hx hnone
  cases hmode : old.parser.mode with
  | payload =>
    rw [hmode] at hx
    have hx' : x∈[(rx,decide (old.parser.payloadLeft=1#32))] := hx
    rw [List.mem_singleton] at hx'
    rw [hx']
  | drop =>
    rw [hmode] at hnone
    exact absurd (hquiet.symm.trans hnone) Bool.false_ne_true
  | header =>
    rw [hmode] at hnone
    unfold headerByte at hnone
    split_ifs at hnone
    · obtain ⟨_,_,_,_,_,hvalid,_⟩ := record_keeps old
        (setHdr old.parser.hdr old.parser.hdrIdx rx) { n with parser := { n.parser with
          hdr := setHdr old.parser.hdr old.parser.hdrIdx rx, hdrIdx := 0#5 } }
      exact absurd ((hvalid.trans hquiet).symm.trans hnone) Bool.false_ne_true
    · exact absurd (hquiet.symm.trans hnone) Bool.false_ne_true

theorem presented_step {x : Byte × Bool} (hsteady : Steady i)
    (hx : x∈presented (step bitFeed r i)) :
    takes bitFeed r i=true ∧ x.1=beatByte r.beat.beatQ r.beat.byteIdx := by
  have hinvalid : ∀ n : Reader, n.out.outValid=false → presented n=[] := fun n =>
    presented_of_invalid
  have hquiet : (step bitFeed r i).out.outValid=false → False := fun hn => by
    rw [hinvalid _ hn] at hx
    exact absurd hx List.not_mem_nil
  cases hstate : r.state with
  | reset => exact (hquiet (step_reset bitFeed hsteady hstate).1.quiet).elim
  | idle => exact (hquiet (step_idle bitFeed hsteady hstate).1.quiet).elim
  | poll =>
    by_cases hanswer : i.doutReady=true ∧ ctrlMagicOk i.dout=true
    · by_cases hepoch : ctrlReset i.dout=r.counts.resetSeen
      · exact (hquiet (step_poll_same bitFeed hsteady hstate hanswer.1 hanswer.2 hepoch).1.quiet).elim
      · obtain ⟨_,_,_,_,_,hnone,_⟩ :=
          step_poll_epoch bitFeed hsteady hstate hanswer.1 hanswer.2 hepoch
        exact (hquiet hnone).elim
    · exact (hquiet (step_poll_nothing bitFeed hsteady hstate hanswer).1.quiet).elim
  | readWait =>
    cases hready : i.doutReady with
    | false => exact (hquiet (step_readWait_nothing bitFeed hsteady hstate hready).1.quiet).elim
    | true => exact (hquiet (step_readWait bitFeed hsteady hstate hready).1.quiet).elim
  | consume =>
    cases hgo : consumes bitFeed r i with
    | false => exact (hquiet (step_consume_stall bitFeed hsteady hstate hgo).1.quiet).elim
    | true =>
      obtain ⟨_,_,_,hout⟩ := step_consume_parse bitFeed hsteady hstate hgo
      obtain ⟨hheld,_⟩ := preamble_held (r := r) hsteady.flush
      refine ⟨decide_eq_true ⟨hstate,hgo⟩,?_⟩
      have hx' : x∈presented (parseByte bitFeed r (beatByte r.beat.beatQ r.beat.byteIdx)
          (advance r (preamble r i))) := by
        unfold presented at hx ⊢
        rw [hout] at hx
        exact hx
      have hquiet' : (advance r (preamble r i)).out.outValid=false := hheld.quiet
      exact presented_parseByte bitFeed hquiet' hx'

/-- An edge that is not disturbed leaves a flush complete and presents no byte that was
published before one. -/
theorem FlushWorld.Sound.holds (h : t.Sound stream) (hadmits : FlushAdmits stream t l)
    (hclean : Undisturbed bitFeed t l) : FlushHolds bitFeed stream t l := by
  have hflushed : Flushing l.cycle → FullyFlushed t.reader (step bitFeed t.reader l.cycle) :=
    fun hflushing => (fullyFlushed_iff bitFeed t.reader hflushing).mpr (hclean.1 hflushing).1
  refine ⟨hflushed,fun x hx => ⟨h.floor,?_⟩⟩
  cases henable : l.cycle.enable with
  | false =>
    obtain ⟨_,_,_,_,hquiet⟩ := step_disabled (r := t.reader) bitFeed hadmits.1 henable
    rw [presented_of_invalid hquiet] at hx
    exact absurd hx List.not_mem_nil
  | true =>
    cases hflush : l.cycle.flush with
    | true =>
      rw [presented_of_invalid (hflushed ⟨hadmits.1,henable,hflush⟩).quiet] at hx
      exact absurd hx List.not_mem_nil
    | false =>
      obtain ⟨htakes,hbyte⟩ := presented_step bitFeed ⟨hadmits.1,henable,hflush⟩ hx
      obtain ⟨_,hgo⟩ := of_decide_eq_true htakes
      have hne : t.reader.beat.beatLeft≠0#4 := bne_iff_ne.mp (Bool.and_eq_true_iff.mp hgo).1
      have hpos : t.reader.beat.beatLeft.toNat≠0 := fun hzero => hne (eq_of_toNat_eq hzero)
      have hfirst := h.beat 0 (by omega)
      rw [Nat.add_zero] at hfirst
      rw [hbyte,← hfirst]
      congr 1
      exact (BitVec.add_zero _).symm

/-- A flush edge leaves the reader fully flushed if and only if no arm of the case takes
from it what it assigns. In every run whose flush edges are so, abandon no read and come
when everything published is announced, every flush is complete and no byte that was
published before a flush is presented after it. -/
theorem flush_holds (bitFeed : Bool) (stream : ℕ → Byte) :
    (∀ (r : Reader) (i : Cycle), Flushing i →
      (FullyFlushed r (step bitFeed r i) ↔ Unopposed bitFeed r i)) ∧
    ∀ (r : Reader) (ls : List FlushCycle),
      Along (FlushWorld.next bitFeed) (fun t l => FlushAdmits stream t l ∧ Undisturbed bitFeed t l)
        (FlushWorld.initial r) ls →
      Along (FlushWorld.next bitFeed) (FlushHolds bitFeed stream) (FlushWorld.initial r) ls := by
  refine ⟨fun r i h => fullyFlushed_iff bitFeed r h,fun r ls h => ?_⟩
  refine Along.imp (FlushWorld.Sound stream) ?_ ?_ h (FlushWorld.sound_initial stream r)
  · exact fun t l ht hl => ht.next bitFeed hl.1 hl.2
  · exact fun t l ht hl => ht.holds bitFeed hl.1 hl.2

/-- A second session for a stream. -/
def nextSession : List Record :=
  [{ event := .begin, session := 8#64 },
   { event := .nal, session := 8#64, payload := [17#8,34#8] }]

/-- The bytes of two sessions. -/
def twoSessions : List Byte := encodeAll (shortStream ++ nextSession)

/-- A cycle that answers a read in flight at once. -/
def answerCycle (bytes : List Byte) (total : ℕ) (flush : Bool) (t : FlushWorld) : FlushCycle where
  cycle := { Cycle.silent with
    flush := flush, doutReady := !t.inFlight.isEmpty,
    dout := if t.inFlight = [ctrlW] then ctrlWord false total
      else ringImage bytes t.reader.bus.addr }
  start := 0
  total := total
  memory := ringImage bytes

/-- Cycles that answer at once, with given producer counts and flushes. -/
def answerRun (bytes : List Byte) : List (ℕ × Bool) → FlushWorld → List FlushCycle
  | [],_ => []
  | (total,flush)::rest,t => answerCycle bytes total flush t ::
      answerRun bytes rest (t.next false (answerCycle bytes total flush t))

/-- A flush in the middle of a header of the first session, before the second one is
published. -/
def flushBetween : List FlushCycle :=
  answerRun twoSessions
    (List.replicate 205 (99,false) ++ [(99,true)] ++ List.replicate 500 (165,false))
    (FlushWorld.initial Reader.zero)

/-- After that flush only the bytes of the second session are presented. -/
theorem flush_holds_between :
    Along (FlushWorld.next false) (FlushHolds false fun n => twoSessions.getD n 0#8)
      (FlushWorld.initial Reader.zero) flushBetween :=
  (flush_holds false fun n => twoSessions.getD n 0#8).2 Reader.zero flushBetween (by decide +kernel)

/-- A flush at the edge at which the first byte of a payload is consumed does not leave
the reader flushed: the byte is presented and counted from the old consumer count. -/
theorem not_fullyFlushed_payload : ¬ ∀ (cs : List Record) (ls : List RingCycle) (i : Cycle),
    Along (ringStep false) (Truthful (encodeAll cs)) (resetBranch Reader.zero) ls → Flushing i →
    FullyFlushed (finalState (ringStep false) (resetBranch Reader.zero) ls)
      (step false (finalState (ringStep false) (resetBranch Reader.zero) ls) i) := by
  intro h
  have hflushed := h shortStream
    (promptRun false (encodeAll shortStream) 405 (resetBranch Reader.zero))
    { Cycle.silent with flush := true } (by decide +kernel) (by decide)
  have hbyte : (step false (finalState (ringStep false) (resetBranch Reader.zero)
      (promptRun false (encodeAll shortStream) 405 (resetBranch Reader.zero)))
      { Cycle.silent with flush := true }).out.outValid=true := by decide +kernel
  exact absurd (hflushed.quiet.symm.trans hbyte) Bool.false_ne_true

end Misterplex.Ring
