import Misterplex.Ring.ReaderStep

/-!
# What the reader takes for available

The producer publishes its byte count in 31 bits, the reader counts consumed bytes
in 32 bits and subtracts one from the other. That is exact as long as the
producer's count has not passed a multiple of 2^31 since the reader last started
over, and wrong at the first poll after that.
-/

namespace Misterplex.Ring

open Emulation Trace BitVec

/-- The control word of a producer count in an epoch, as publishBitstreamCtrl writes
it. -/
def ctrlWord (epoch : Bool) (count : ℕ) : BitVec 64 :=
  BitVec.ofBool epoch ++ BitVec.ofNat 31 count ++ magicCtrl

theorem ctrlReset_ctrlWord (epoch : Bool) (count : ℕ) : ctrlReset (ctrlWord epoch count)=epoch := by
  unfold ctrlReset ctrlWord
  rw [getLsbD_append,getLsbD_append]
  cases epoch <;> rfl

theorem ctrlWriteCount_ctrlWord (epoch : Bool) (count : ℕ) :
    (ctrlWriteCount (ctrlWord epoch count)).toNat=count%2^31 := by
  unfold ctrlWriteCount ctrlWord
  have h : (BitVec.ofBool epoch ++ BitVec.ofNat 31 count ++ magicCtrl).extractLsb' 32 31=BitVec.ofNat 31 count := by
    apply BitVec.eq_of_getLsbD_eq
    intro k hk
    rw [getLsbD_extractLsb',getLsbD_append,getLsbD_append,
      if_neg (by omega),if_pos (by omega),Nat.add_sub_cancel_left,decide_eq_true hk,Bool.true_and]
  rw [h]
  simp
  omega

theorem avail_toNat (c : Counts) :
    (avail c).toNat=(2^32-c.readCount.toNat+c.writeCount.toNat)%2^32 :=
  toNat_sub c.writeCount c.readCount

theorem consumeCount_toNat (c : Counts) :
    (consumeCount c).toNat=min (avail c).toNat (8-c.readCount.toNat%8) := by
  have hidx : (readByteIndex c).toNat=c.readCount.toNat%8 := by
    unfold readByteIndex readRingIndex
    rw [toNat_setWidth,toNat_setWidth]
    omega
  have hend : (bytesToQwordEnd c).toNat=8-c.readCount.toNat%8 := by
    unfold bytesToQwordEnd
    simp
    omega
  unfold consumeCount
  rw [toNat_setWidth]
  split_ifs with h
  · rw [lt_def,hend] at h
    omega
  · rw [lt_def,hend] at h
    omega
/-- The reader with the true counts, which have no bound. -/
structure Tracked where
  /-- The reader. -/
  reader : Reader
  /-- Producer count at which the reader last started over. -/
  base : ℕ
  /-- Producer count of the last answered poll. -/
  polled : ℕ
  /-- The bytes consumed so far. -/
  consumed : ℕ

/-- A clock cycle with the producer count that an answer to a poll carries. -/
structure PolledCycle where
  cycle : Cycle
  total : ℕ
  deriving DecidableEq

/-- A poll is answered with a control word. -/
def polls (r : Reader) (i : Cycle) : Bool :=
  r.state = .poll ∧ i.doutReady=true ∧ ctrlMagicOk i.dout=true

/-- A poll is answered with a new epoch. -/
def startsOver (r : Reader) (i : Cycle) : Bool := polls r i && ctrlReset i.dout != r.counts.resetSeen

/-- A byte is consumed. -/
def takes (bitFeed : Bool) (r : Reader) (i : Cycle) : Bool := r.state = .consume ∧ consumes bitFeed r i

/-- One clock edge. -/
def Tracked.next (bitFeed : Bool) (t : Tracked) (l : PolledCycle) : Tracked where
  reader := step bitFeed t.reader l.cycle
  base := if startsOver t.reader l.cycle then l.total else t.base
  polled := if polls t.reader l.cycle then l.total else t.polled
  consumed :=
    if startsOver t.reader l.cycle then l.total
    else if takes bitFeed t.reader l.cycle then t.consumed+1
    else t.consumed

/-- The cycle is steady, and an answer to a poll carries a producer count that is not
behind an earlier one of the epoch and at most a ring ahead of the consumer. -/
def Admits (t : Tracked) (l : PolledCycle) : Prop :=
  Steady l.cycle ∧
  (polls t.reader l.cycle=true →
    l.cycle.dout=ctrlWord (ctrlReset l.cycle.dout) l.total ∧
    (startsOver t.reader l.cycle=false →
      t.polled≤l.total ∧ l.total≤t.consumed+ringBytes))

instance (t : Tracked) (l : PolledCycle) : Decidable (Admits t l) := instDecidableAnd

variable {bitFeed : Bool}

theorem takes_eq_false {r : Reader} {i : Cycle} (h : r.state ≠ .consume) :
    takes bitFeed r i=false := decide_eq_false fun htakes => h htakes.1

/-- What the reader takes for available is what was published and not consumed, as of
the last poll, and the overrun flag is not raised. -/
def Exact (t : Tracked) : Prop :=
  ((avail t.reader.counts).toNat : ℤ)=(t.polled : ℤ)-t.consumed ∧
  t.reader.telem.overrunSticky=false

/-- A polled count has not passed a multiple of 2^31 since the reader started over. -/
def InRange (t : Tracked) (l : PolledCycle) : Prop :=
  polls t.reader l.cycle=true → startsOver t.reader l.cycle=false →
    l.total/2^31=t.base/2^31

instance (t : Tracked) (l : PolledCycle) : Decidable (InRange t l) :=
  inferInstanceAs (Decidable (_ → _ → _))

/-- The reader after a reset, with nothing published. -/
def Tracked.start (r : Reader) : Tracked := ⟨resetBranch r,0,0,0⟩

/-- The counters are those of the stream, less a multiple of 2^31. -/
structure Aligned (t : Tracked) : Prop where
  /-- Nothing from before the base is consumed. -/
  after : t.base≤t.consumed
  /-- No more than were polled. -/
  behind : t.consumed≤t.polled
  /-- What is left fits into the ring. -/
  within : t.polled≤t.consumed+ringBytes
  /-- Since the start no multiple of 2^31 was passed. -/
  range : t.polled/2^31=t.base/2^31
  write : t.reader.counts.writeCount.toNat=t.polled%2^31
  read : t.reader.counts.readCount.toNat+t.base/2^31*2^31=t.consumed
  beat : t.reader.beat.beatLeft.toNat≤t.polled-t.consumed
  /-- Only a beat under consumption has bytes left. -/
  empty : t.reader.state ≠ .consume → t.reader.beat.beatLeft=0#4
  noOverrun : t.reader.telem.overrunSticky=false

variable {t : Tracked}

theorem Aligned.avail (h : Aligned t) : (avail t.reader.counts).toNat=t.polled-t.consumed := by
  have hbehind := h.behind
  have hrange := h.range
  have hwrite := h.write
  have hread := h.read
  rw [avail_toNat]
  omega

/-- Aligned counters are read exactly. -/
theorem Aligned.exact (h : Aligned t) : Exact t := by
  refine ⟨?_,h.noOverrun⟩
  rw [h.avail,Nat.cast_sub h.behind]

/-- Aligned counters raise no overrun. -/
theorem Aligned.quiet (h : Aligned t) : (t.reader.telem.overrunSticky ||
      decide (BitVec.ofNat 32 ringBytes<Ring.avail t.reader.counts))=false := by
  have hwithin := h.within
  rw [h.noOverrun,Bool.false_or,decide_eq_false_iff_not,lt_def,h.avail]
  simp only [toNat_ofNat,ringBytes] at hwithin ⊢
  omega

open Tracked

theorem aligned_start (r : Reader) : Aligned (Tracked.start r) :=
  ⟨Nat.le_refl _,Nat.le_refl _,Nat.zero_le _,rfl,rfl,by simp [start,resetBranch],
    Nat.zero_le _,   fun _ => rfl,rfl⟩

variable {l : PolledCycle}

/-- A clock that neither polls nor takes keeps the counters aligned. -/
theorem Aligned.held (h : Aligned t) (hheld : Held (step bitFeed t.reader l.cycle) t.reader)
    (hpolls : polls t.reader l.cycle=false) (htakes : takes bitFeed t.reader l.cycle=false)
    (hempty : (step bitFeed t.reader l.cycle).state ≠ .consume → t.reader.beat.beatLeft=0#4) :
    Aligned (t.next bitFeed l) := by
  have hnext : t.next bitFeed l =
      ⟨step bitFeed t.reader l.cycle,t.base,t.polled,t.consumed⟩ := by
    unfold next startsOver
    rw [hpolls,htakes]
    rfl
  rw [hnext]
  refine ⟨h.after,h.behind,h.within,h.range,?_,?_,?_,?_,?_⟩
  · rw [hheld.counts]
    exact h.write
  · rw [hheld.counts]
    exact h.read
  · rw [hheld.beatLeft]
    exact h.beat
  · rw [hheld.beatLeft]
    exact hempty
  · rw [hheld.overrun]
    exact h.quiet

open ReaderState

theorem Aligned.poll (h : Aligned t)
    (hadmits : Admits t l) (hrange : InRange t l) (hpolls : polls t.reader l.cycle=true) :
    Aligned (t.next bitFeed l) := by
  obtain ⟨hstate,hready,hmagic⟩ := of_decide_eq_true hpolls
  obtain ⟨hword,hcount⟩ := hadmits.2 hpolls
  have hwrite : (ctrlWriteCount l.cycle.dout).toNat=l.total%2^31 := by
    rw [hword]
    exact ctrlWriteCount_ctrlWord _ _
  have hother : t.reader.state ≠ .consume := by
    rw [hstate]
    exact noConfusion
  have htakes : takes bitFeed t.reader l.cycle=false := takes_eq_false hother
  have hempty : t.reader.beat.beatLeft=0#4 := h.empty hother
  by_cases hstarts : startsOver t.reader l.cycle=true
  · have hnew : ctrlReset l.cycle.dout≠t.reader.counts.resetSeen := by
      have := (Bool.and_eq_true_iff.mp hstarts).2
      exact bne_iff_ne.mp this
    obtain ⟨hidle,hcounts,hleft,hover,_⟩ := step_poll_epoch bitFeed hadmits.1 hstate
      hready hmagic hnew
    have hnext : t.next bitFeed l =
        ⟨step bitFeed t.reader l.cycle,l.total,l.total,l.total⟩ := by
      unfold next
      rw [hstarts,hpolls]
      rfl
    rw [hnext]
    refine ⟨Nat.le_refl _,Nat.le_refl _,Nat.le_add_right _ _,rfl,?_,?_,?_,fun _ => hleft,hover⟩
    · rw [hcounts]
      exact hwrite
    · rw [hcounts]
      rw [hwrite]
      exact Nat.mod_add_div' _ _
    · rw [hleft]
      exact Nat.zero_le _
  · have hstarts' : startsOver t.reader l.cycle=false := Bool.not_eq_true _ ▸ hstarts
    have hsame : ctrlReset l.cycle.dout=t.reader.counts.resetSeen := by
      unfold startsOver at hstarts'
      rw [hpolls,Bool.true_and] at hstarts'
      exact bne_eq_false_iff_eq.mp hstarts'
    obtain ⟨hheld,hidle,hcounts⟩ := step_poll_same bitFeed hadmits.1 hstate hready
      hmagic hsame
    obtain ⟨hge,hle⟩ := hcount hstarts'
    have hnext : t.next bitFeed l =
        ⟨step bitFeed t.reader l.cycle,t.base,l.total,t.consumed⟩ := by
      unfold next
      rw [hstarts',hpolls,htakes]
      rfl
    rw [hnext]
    refine ⟨h.after,Nat.le_trans h.behind hge,hle,hrange hpolls hstarts',?_,?_,?_,fun _ => ?_,?_⟩
    · rw [hcounts]
      exact hwrite
    · rw [hcounts]
      exact h.read
    · rw [hheld.beatLeft,hempty]
      exact Nat.zero_le _
    · rw [hheld.beatLeft,hempty]
    · exact hheld.overrun.trans h.quiet

theorem Aligned.wrong (h : Aligned t)
    (hadmits : Admits t l) (hrange : ¬ InRange t l) : ¬ Exact (t.next bitFeed l) := by
  unfold InRange at hrange
  push Not at hrange
  obtain ⟨hpolls,hstarts,hpassed⟩ := hrange
  obtain ⟨hstate,hready,hmagic⟩ := of_decide_eq_true hpolls
  obtain ⟨hword,hcount⟩ := hadmits.2 hpolls
  obtain ⟨hge,hle⟩ := hcount hstarts
  have hwrite : (ctrlWriteCount l.cycle.dout).toNat=l.total%2^31 := by
    rw [hword]
    exact ctrlWriteCount_ctrlWord _ _
  have hsame : ctrlReset l.cycle.dout=t.reader.counts.resetSeen := by
    unfold startsOver at hstarts
    rw [hpolls,Bool.true_and] at hstarts
    exact bne_eq_false_iff_eq.mp hstarts
  have hother : t.reader.state ≠ .consume := by
    rw [hstate]
    exact noConfusion
  have htakes : takes bitFeed t.reader l.cycle=false := takes_eq_false hother
  obtain ⟨_,_,hcounts⟩ := step_poll_same bitFeed hadmits.1 hstate hready hmagic hsame
  have hnext : t.next bitFeed l =
      ⟨step bitFeed t.reader l.cycle,t.base,l.total,t.consumed⟩ := by
    unfold next
    rw [hstarts,hpolls,htakes]
    rfl
  rw [hnext]
  rintro ⟨heq,_⟩
  rw [avail_toNat,hcounts] at heq
  unfold polledCounts at heq
  dsimp only at heq
  have hread := h.read
  have hbehind := h.behind
  have hold := h.range
  unfold ringBytes at hle
  omega

theorem Aligned.answered (h : Aligned t)
    (hadmits : Admits t l) (hstate : t.reader.state = .readWait)
    (hready : l.cycle.doutReady=true) (hpolls : polls t.reader l.cycle=false) :
    Aligned (t.next bitFeed l) := by
  have hother : t.reader.state ≠ .consume := by
    rw [hstate]
    exact noConfusion
  obtain ⟨hheld,hnew,hbeat⟩ := step_readWait bitFeed hadmits.1 hstate hready
  have hnext : t.next bitFeed l =
      ⟨step bitFeed t.reader l.cycle,t.base,t.polled,t.consumed⟩ := by
    unfold next startsOver
    rw [hpolls,takes_eq_false hother]
    rfl
  rw [hnext]
  have hcounts : (step bitFeed t.reader l.cycle).counts=t.reader.counts := hheld.counts
  refine ⟨h.after,h.behind,h.within,h.range,?_,?_,?_,fun hne => absurd hnew hne,
    hheld.overrun.trans h.quiet⟩
  · rw [hcounts]
    exact h.write
  · rw [hcounts]
    exact h.read
  · rw [hbeat]
    rw [consumeCount_toNat,h.avail]
    exact Nat.min_le_left _ _

/-- So does a byte taken. -/
theorem Aligned.taken (h : Aligned t) (hadmits : Admits t l) (hstate : t.reader.state = .consume)
    (hgo : consumes bitFeed t.reader l.cycle=true) (hpolls : polls t.reader l.cycle=false) :
    Aligned (t.next bitFeed l) := by
  obtain ⟨hnew,hbeat,hcounts,hover⟩ := step_consume bitFeed hadmits.1 hstate hgo
  have hnext : t.next bitFeed l =
      ⟨step bitFeed t.reader l.cycle,t.base,t.polled,t.consumed+1⟩ := by
    unfold next startsOver
    rw [hpolls,show takes bitFeed t.reader l.cycle=true from decide_eq_true ⟨hstate,hgo⟩]
    rfl
  rw [hnext]
  have hafter := h.after
  have hwithin := h.within
  have hrange := h.range
  have hread := h.read
  have hleft := h.beat
  have hne : t.reader.beat.beatLeft≠0#4 := bne_iff_ne.mp (Bool.and_eq_true_iff.mp hgo).1
  have hpos : t.reader.beat.beatLeft.toNat≠0 := fun hzero => hne (eq_of_toNat_eq hzero)
  refine ⟨by dsimp only; omega,by dsimp only; omega,by dsimp only; omega,hrange,?_,?_,?_,?_,
    hover.trans h.quiet⟩
  · rw [hcounts]
    exact h.write
  · dsimp only
    rw [hcounts]
    have hinc : (1 : BitVec 32).toNat=1 := rfl
    rw [toNat_add,hinc]
    omega
  · dsimp only
    rw [hbeat]
    have hdec : (1 : BitVec 4).toNat=1 := rfl
    rw [toNat_sub,hdec]
    omega
  · intro hidle
    rw [hnew] at hidle
    rw [hbeat]
    by_cases hone : t.reader.beat.beatLeft=1#4
    · rw [hone]
      rfl
    · rw [if_neg hone] at hidle
      exact absurd rfl hidle

/-- So does every admitted clock in range. -/
theorem Aligned.next (h : Aligned t)
    (hadmits : Admits t l) (hrange : InRange t l) : Aligned (t.next bitFeed l) := by
  by_cases hpolls : polls t.reader l.cycle=true
  · exact h.poll hadmits hrange hpolls
  · have hpolls' : polls t.reader l.cycle=false := Bool.not_eq_true _ ▸ hpolls
    have hother : ∀ {state : ReaderState}, t.reader.state=state → state ≠ .consume →
        Held (step bitFeed t.reader l.cycle) t.reader → Aligned (t.next bitFeed l) := by
      rintro state rfl hne hheld
      exact h.held hheld hpolls' (takes_eq_false hne) fun _ => h.empty hne
    cases hstate : t.reader.state with
    | reset =>
      obtain ⟨hheld,_⟩ := step_reset bitFeed hadmits.1 hstate
      exact hother hstate noConfusion hheld
    | idle =>
      obtain ⟨hheld,_⟩ := step_idle bitFeed hadmits.1 hstate
      exact hother hstate noConfusion hheld
    | poll =>
      have hnone : ¬(l.cycle.doutReady=true ∧ ctrlMagicOk l.cycle.dout=true) := fun hc =>
        of_decide_eq_false hpolls' ⟨hstate,hc.1,hc.2⟩
      obtain ⟨hheld,_⟩ := step_poll_nothing bitFeed hadmits.1 hstate hnone
      exact hother hstate noConfusion hheld
    | readWait =>
      by_cases hready : l.cycle.doutReady=true
      · exact h.answered hadmits hstate hready hpolls'
      · obtain ⟨hheld,_⟩ := step_readWait_nothing bitFeed hadmits.1 hstate
          (Bool.not_eq_true _ ▸ hready)
        exact hother hstate noConfusion hheld
    | consume =>
      by_cases htakes : consumes bitFeed t.reader l.cycle=true
      · exact h.taken hadmits hstate htakes hpolls'
      · have hstall : consumes bitFeed t.reader l.cycle=false := Bool.not_eq_true _ ▸ htakes
        obtain ⟨hheld,hnew,_⟩ := step_consume_stall bitFeed hadmits.1 hstate hstall
        refine h.held hheld hpolls' (decide_eq_false fun hc => htakes hc.2) fun hne => ?_
        by_contra hleft
        rw [hnew,if_neg hleft] at hne
        exact hne rfl

/-- In every run from reset, what the reader takes for available is exact in every
state if and only if no polled count has passed a multiple of 2^31 since the reader
started over. -/
theorem exact_iff_inRange (bitFeed : Bool) (r : Reader) (ls : List PolledCycle)
    (h : Along (Tracked.next bitFeed) Admits (Tracked.start r) ls) :
    Throughout (Tracked.next bitFeed) Exact (Tracked.start r) ls ↔
      Along (Tracked.next bitFeed) InRange (Tracked.start r) ls := by
  have hrun : ∀ t : Tracked, Aligned t → Along (next bitFeed) Admits t ls →
      (Throughout (next bitFeed) Exact t ls ↔ Along (next bitFeed) InRange t ls) := by
    clear h
    induction ls with
    | nil => exact fun t ht _ => ⟨fun _ => trivial,fun _ => ht.exact⟩
    | cons l ls ih =>
      intro t ht hadmits
      by_cases hrange : InRange t l
      · have hrest := ih (t.next bitFeed l) (ht.next hadmits.1 hrange) hadmits.2
        exact ⟨fun hexact => ⟨hrange,hrest.1 hexact.2⟩,fun hall => ⟨ht.exact,hrest.2 hall.2⟩⟩
      · constructor
        · intro hexact
          exact absurd hexact.2.first (ht.wrong hadmits.1 hrange)
        · exact fun hall => absurd hall.1 hrange
  exact hrun (start r) (aligned_start r) h

/-- A first poll, 64 cycles after reset, that sees two headers. -/
theorem exact_first_poll : Throughout (Tracked.next false) Exact (Tracked.start Reader.zero)
    (List.replicate 65 ⟨.silent,0⟩ ++ [⟨.answer (ctrlWord false 64),64⟩]) :=
  (exact_iff_inRange false Reader.zero _ (by decide +kernel)).2 (by decide +kernel)

/-- A core that is reset late in the first epoch with 2^31 - 8 bytes published sees one
more record at its second poll. -/
def latePolls : List PolledCycle :=
  List.replicate 65 ⟨.silent,0⟩ ++ [⟨.answer (ctrlWord true (2^31-8)),2^31-8⟩] ++
    List.replicate 63 ⟨.silent,0⟩ ++ [⟨.answer (ctrlWord true (2^31+24)),2^31+24⟩]

/-- That record makes the reader take 2^31 + 32 bytes for available. -/
theorem not_exact_passed : ¬ ∀ (bitFeed : Bool) (r : Reader) (ls : List PolledCycle),
    Along (Tracked.next bitFeed) Admits (Tracked.start r) ls →
    Throughout (Tracked.next bitFeed) Exact (Tracked.start r) ls := by
  intro h
  have hlast := (h false Reader.zero latePolls (by decide +kernel)).last
  have havail : (avail (finalState (next false) (start Reader.zero)
    latePolls).reader.counts).toNat=2^31+32 := by decide +kernel
  have htrue : (finalState (next false) (start Reader.zero) latePolls).polled=2^31+24 ∧
      (finalState (next false) (start Reader.zero) latePolls).consumed=2^31-8 := by
    decide +kernel
  have hexact := hlast.1
  omega

end Misterplex.Ring
