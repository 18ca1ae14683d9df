import Misterplex.Ring.Counting
import Misterplex.Ring.RecordParser

/-!
# Delivery of a stream of records

The producer lays a stream of records out in the ring and publishes it in pieces of
any size. Whatever the pieces, the polls and the stalls of the sink are, the reader
presents what the session rules deliver, up to the byte it has consumed.
-/

namespace Misterplex.Ring

open Emulation Trace BitVec

/-- The byte of the ring in which a byte of the stream lies. -/
def ringByte (memory : BitVec 29 → BitVec 64) (n : ℕ) : Byte :=
  beatByte (memory (dataW+BitVec.ofNat 29 (n%ringBytes/8))) (BitVec.ofNat 3 (n%8))

theorem ringByte_beat (memory : BitVec 29 → BitVec 64) (c : Counts) {j : ℕ}
    (h : j<(consumeCount c).toNat) :
    beatByte (memory (dataW+readQwordOffset c)) (readByteIndex c+BitVec.ofNat 3 j) =
      ringByte memory (c.readCount.toNat+j) := by
  rw [consumeCount_toNat] at h
  have hword : readQwordOffset c=BitVec.ofNat 29 ((c.readCount.toNat+j)%ringBytes/8) := by
    unfold readQwordOffset readRingIndex ringBytes
    apply eq_of_toNat_eq
    rw [toNat_setWidth,toNat_ushiftRight,toNat_setWidth,toNat_ofNat,
      Nat.shiftRight_eq_div_pow]
    omega
  have hbyte : readByteIndex c+BitVec.ofNat 3 j=BitVec.ofNat 3 ((c.readCount.toNat+j)%8) := by
    unfold readByteIndex readRingIndex
    apply eq_of_toNat_eq
    rw [toNat_add,toNat_setWidth,toNat_setWidth,toNat_ofNat,
      toNat_ofNat]
    omega
  unfold ringByte
  rw [hword,hbyte]

/-- A clock cycle with the producer count and the memory behind it. -/
structure RingCycle where
  /-- The wires. -/
  cycle : Cycle
  /-- The bytes published so far. -/
  total : ℕ
  /-- The memory. -/
  memory : BitVec 29 → BitVec 64

/-- The cycle is steady. An answer to a poll is no control word, or carries a producer
count that is not behind the last one, within the stream and at most a ring ahead of
the consumer, in the epoch that is known. An answer to a read is the word in memory,
where the published bytes that are not consumed lie in the ring. -/
def Truthful (stream : List Byte) (r : Reader) (l : RingCycle) : Prop :=
  Steady l.cycle ∧
  (polls r l.cycle=true →
    l.cycle.dout=ctrlWord r.counts.resetSeen l.total ∧ r.counts.writeCount.toNat≤l.total ∧
    l.total ≤ stream.length ∧ l.total≤r.counts.readCount.toNat+ringBytes) ∧
  (r.state = .readWait ∧ l.cycle.doutReady=true →
    l.cycle.dout=l.memory r.bus.addr ∧
    ∀ n, n<r.counts.writeCount.toNat → r.counts.readCount.toNat≤n →
      ringByte l.memory n=stream.getD n 0#8)

instance (stream : List Byte) (r : Reader) (l : RingCycle) : Decidable (Truthful stream r l) := by
  unfold Truthful
  infer_instance

/-- One clock edge. -/
def ringStep (bitFeed : Bool) (r : Reader) (l : RingCycle) : Reader := step bitFeed r l.cycle

/-- A reader at the start of a stream. -/
structure Fresh (r : Reader) : Prop where
  state : r.state = .reset ∨ r.state = .idle
  beat : r.beat.beatLeft=0#4
  write : r.counts.writeCount=0#32
  read : r.counts.readCount=0#32
  mode : r.parser.mode = .header
  idx : r.parser.hdrIdx=0#5
  fatal : r.telem.fatalSticky=false
  overrun : r.telem.overrunSticky=false
  /-- No last byte without a byte. -/
  last : r.out.outLast=false

theorem fresh_reset (r : Reader) : Fresh (resetBranch r) :=
  ⟨Or.inl rfl,rfl,rfl,rfl,rfl,rfl,rfl,rfl,rfl⟩

/-- The registers are those of a reader that is somewhere in a stream of records. -/
structure Consistent (s₀ : SessionState) (cs : List Record) (r : Reader) : Prop where
  position : Position s₀ cs r.counts.readCount.toNat r.parser r.session
  /-- The consumer has not passed the producer. -/
  behind : r.counts.readCount.toNat≤r.counts.writeCount.toNat
  /-- The producer is within the stream. -/
  total : r.counts.writeCount.toNat≤(encodeAll cs).length
  /-- The producer is at most a ring ahead. -/
  within : r.counts.writeCount.toNat≤r.counts.readCount.toNat+ringBytes
  fatal : r.telem.fatalSticky=false
  overrun : r.telem.overrunSticky=false
  /-- Only a presented byte is a last one. -/
  last : r.out.outLast=true → r.out.outValid=true
  /-- What is published was announced by a control word. -/
  announced : r.counts.readCount.toNat<r.counts.writeCount.toNat → r.counts.haveCtrl=true
  /-- Just a beat under consumption has bytes left. -/
  empty : r.state ≠ .consume ↔ r.beat.beatLeft=0#4
  asked : r.state = .readWait → r.beat.byteIdx=readByteIndex r.counts ∧
    r.bus.addr=dataW+readQwordOffset r.counts ∧
    r.counts.readCount.toNat<r.counts.writeCount.toNat
  published : r.beat.beatLeft.toNat≤r.counts.writeCount.toNat-r.counts.readCount.toNat
  /-- The beat holds the next bytes of the stream. -/
  beat : ∀ j, j<r.beat.beatLeft.toNat →
    beatByte r.beat.beatQ (r.beat.byteIdx+BitVec.ofNat 3 j) =
      (encodeAll cs).getD (r.counts.readCount.toNat+j) 0#8

variable {s₀ : SessionState} {cs : List Record} {bitFeed : Bool} {r : Reader} {l : RingCycle}

open ReaderState

theorem Fresh.consistent (h : Fresh r) (cs : List Record) : Consistent r.session.toState cs r where
  position := by
    rw [h.read]
    have hcs : cs = [] ++ cs := rfl
    exact Position.header hcs (by decide) h.mode (by rw [h.idx]; rfl)
      (fun j hj => absurd hj (Nat.not_lt_zero j)) rfl
  behind := by rw [h.read]; exact Nat.zero_le _
  total := by rw [h.write]; exact Nat.zero_le _
  within := by rw [h.write]; exact Nat.zero_le _
  fatal := h.fatal
  overrun := h.overrun
  last := fun hl => absurd (h.last.symm.trans hl) Bool.false_ne_true
  announced := fun hlt => by rw [h.read,h.write] at hlt; exact absurd hlt (Nat.lt_irrefl _)
  empty := ⟨fun _ => h.beat,fun _ hconsume => by
    rcases h.state with hs | hs
    · exact absurd (hs.symm.trans hconsume) noConfusion
    · exact absurd (hs.symm.trans hconsume) noConfusion⟩
  asked := fun hwait => by
    rcases h.state with hs | hs
    · exact absurd (hs.symm.trans hwait) noConfusion
    · exact absurd (hs.symm.trans hwait) noConfusion
  published := by rw [h.beat]; exact Nat.zero_le _
  beat := fun j hj => by rw [h.beat] at hj; exact absurd hj (Nat.not_lt_zero j)

theorem Consistent.avail (h : Consistent s₀ cs r) :
    (avail r.counts).toNat=r.counts.writeCount.toNat-r.counts.readCount.toNat := by
  have hbehind := h.behind
  rw [avail_toNat]
  omega

/-- A consistent reader raises no overrun. -/
theorem Consistent.quiet (h : Consistent s₀ cs r) :
    (r.telem.overrunSticky || decide (BitVec.ofNat 32 ringBytes<Ring.avail r.counts))=false := by
  have hwithin := h.within
  rw [h.overrun,Bool.false_or,decide_eq_false_iff_not,lt_def,h.avail]
  simp only [toNat_ofNat,ringBytes] at hwithin ⊢
  omega

/-- A clock that takes no byte keeps the place in the stream. -/
theorem Consistent.held {m : Reader} (h : Consistent s₀ cs r) (hheld : Held m r)
    (hconsume : m.state = .consume ↔ r.state = .consume)
    (hidx : r.state = .consume → m.beat.byteIdx=r.beat.byteIdx)
    (hasked : m.state = .readWait → m.beat.byteIdx=readByteIndex r.counts ∧
      m.bus.addr=dataW+readQwordOffset r.counts ∧
      r.counts.readCount.toNat<r.counts.writeCount.toNat) : Consistent s₀ cs m where
  position := by rw [hheld.counts,hheld.parser,hheld.session]; exact h.position
  behind := by rw [hheld.counts]; exact h.behind
  total := by rw [hheld.counts]; exact h.total
  within := by rw [hheld.counts]; exact h.within
  fatal := hheld.fatal.trans h.fatal
  overrun := hheld.overrun.trans h.quiet
  last := fun hl => absurd (hheld.quietLast.symm.trans hl) Bool.false_ne_true
  announced := by rw [hheld.counts]; exact h.announced
  empty := by rw [hheld.beatLeft,Ne,hconsume]; exact h.empty
  asked := by rw [hheld.counts]; exact hasked
  published := by rw [hheld.counts,hheld.beatLeft]; exact h.published
  beat := by
    rw [hheld.counts,hheld.beatLeft,hheld.beatQ]
    by_cases hstate : r.state = .consume
    · rw [hidx hstate]
      exact h.beat
    · rw [h.empty.mp hstate]
      exact fun j hj => absurd hj (Nat.not_lt_zero j)

/-- An edge at which the stream is not read on. -/
structure Quiet (s₀ : SessionState) (cs : List Record) (r m : Reader) : Prop where
  consistent : Consistent s₀ cs m
  read : m.counts.readCount=r.counts.readCount
  presents : presented m=[]

theorem Consistent.poll (h : Consistent s₀ cs r) (htrue : Truthful (encodeAll cs) r l)
    (hlen : (encodeAll cs).length<2^31) (hpolls : polls r l.cycle=true) :
    Quiet s₀ cs r (ringStep bitFeed r l) := by
  obtain ⟨hstate,hready,hmagic⟩ := of_decide_eq_true hpolls
  obtain ⟨hword,hge,hle,hring⟩ := htrue.2.1 hpolls
  have hsame : ctrlReset l.cycle.dout=r.counts.resetSeen := by
    rw [hword]
    exact ctrlReset_ctrlWord _ _
  have hwrite : (ctrlWriteCount l.cycle.dout).toNat=l.total := by
    rw [hword,ctrlWriteCount_ctrlWord,Nat.mod_eq_of_lt (by omega)]
  obtain ⟨hheld,hidle,hcounts⟩ := step_poll_same bitFeed htrue.1 hstate hready hmagic hsame
  have hempty : r.beat.beatLeft=0#4 := h.empty.mp (by rw [hstate]; exact noConfusion)
  have hleft : (ringStep bitFeed r l).beat.beatLeft=0#4 := hheld.beatLeft.trans hempty
  have hread : (ringStep bitFeed r l).counts.readCount=r.counts.readCount := by
    unfold ringStep
    rw [hcounts]
    rfl
  have hnew : (ringStep bitFeed r l).counts.writeCount.toNat=l.total := by
    unfold ringStep
    rw [hcounts]
    exact hwrite
  have hbehind := h.behind
  refine ⟨⟨?_,?_,?_,?_,hheld.fatal.trans h.fatal,hheld.overrun.trans h.quiet,
    fun hl => absurd (hheld.quietLast.symm.trans hl) Bool.false_ne_true,?_,
    ⟨fun _ => hleft,fun _ hc => absurd (hidle.symm.trans hc) noConfusion⟩,?_,?_,?_⟩,
    hread,presented_of_invalid hheld.quiet⟩
  · rw [hread,show (ringStep bitFeed r l).parser=r.parser from hheld.parser,
      show (ringStep bitFeed r l).session=r.session from hheld.session]
    exact h.position
  · rw [hread,hnew]
    exact Nat.le_trans hbehind hge
  · rw [hnew]
    exact hle
  · rw [hread,hnew]
    exact hring
  · intro _
    unfold ringStep
    rw [hcounts]
    rfl
  · exact fun hwait => absurd (hidle.symm.trans hwait) noConfusion
  · rw [hleft]
    exact Nat.zero_le _
  · rw [hleft]
    exact fun j hj => absurd hj (Nat.not_lt_zero j)

theorem Consistent.answered (h : Consistent s₀ cs r) (htrue : Truthful (encodeAll cs) r l)
    (hstate : r.state = .readWait) (hready : l.cycle.doutReady=true) :
    Quiet s₀ cs r (ringStep bitFeed r l) := by
  obtain ⟨hword,hmemory⟩ := htrue.2.2 ⟨hstate,hready⟩
  obtain ⟨hidx,haddr,hsome⟩ := h.asked hstate
  obtain ⟨hheld,hnew,hbeat⟩ := step_readWait bitFeed htrue.1 hstate hready
  have hcounts : (ringStep bitFeed r l).counts=r.counts := hheld.counts
  have hbeat' : (ringStep bitFeed r l).beat=⟨l.cycle.dout,r.beat.byteIdx,consumeCount r.counts⟩ := hbeat
  have hcount := consumeCount_toNat r.counts
  rw [h.avail] at hcount
  refine ⟨⟨?_,?_,?_,?_,hheld.fatal.trans h.fatal,hheld.overrun.trans h.quiet,
    fun hl => absurd (hheld.quietLast.symm.trans hl) Bool.false_ne_true,?_,
    ⟨fun hne => absurd hnew hne,?_⟩,?_,?_,?_⟩,congrArg Counts.readCount hcounts,
    presented_of_invalid hheld.quiet⟩
  · rw [hcounts,show (ringStep bitFeed r l).parser=r.parser from hheld.parser,
      show (ringStep bitFeed r l).session=r.session from hheld.session]
    exact h.position
  · rw [hcounts]
    exact h.behind
  · rw [hcounts]
    exact h.total
  · rw [hcounts]
    exact h.within
  · rw [hcounts]
    exact h.announced
  · intro hzero
    rw [hbeat'] at hzero
    dsimp only at hzero
    rw [hzero] at hcount
    simp at hcount
    omega
  · exact fun hwait => absurd (hnew.symm.trans hwait) noConfusion
  · rw [hcounts,hbeat']
    dsimp only
    rw [hcount]
    exact Nat.min_le_left _ _
  · rw [hcounts,hbeat']
    dsimp only
    intro j hj
    rw [hword,haddr,hidx,ringByte_beat l.memory r.counts hj]
    exact hmemory _ (by omega) (Nat.le_add_right _ _)

/-- A byte taken goes on to the next place in the stream. -/
theorem Consistent.taken (h : Consistent s₀ cs r) (htrue : Truthful (encodeAll cs) r l)
    (hform : ∀ c∈cs, c.WellFormed) (hbegin : NoBeginInSession s₀ cs)
    (hlen : (encodeAll cs).length<2^31) (hstate : r.state = .consume)
    (hgo : consumes bitFeed r l.cycle=true) :
    Consistent s₀ cs (ringStep bitFeed r l) ∧
    deliveredUpTo s₀ cs (ringStep bitFeed r l).counts.readCount.toNat =
      deliveredUpTo s₀ cs r.counts.readCount.toNat ++ presented (ringStep bitFeed r l) := by
  obtain ⟨hheld,_⟩ := preamble_held (r := r) htrue.1.flush
  obtain ⟨hnew,hbeat,hcounts,hover⟩ := step_consume bitFeed htrue.1 hstate hgo
  have hne : r.beat.beatLeft≠0#4 := bne_iff_ne.mp (Bool.and_eq_true_iff.mp hgo).1
  have hpos : r.beat.beatLeft.toNat≠0 := fun hzero => hne (eq_of_toNat_eq hzero)
  have hpublished := h.published
  have htotal := h.total
  have hwithin := h.within
  have hfirst : beatByte r.beat.beatQ r.beat.byteIdx =
      (encodeAll cs).getD r.counts.readCount.toNat 0#8 := by
    have hzero := h.beat 0 (by omega)
    rw [Nat.add_zero] at hzero
    rw [← hzero]
    congr 1
    exact (BitVec.add_zero _).symm
  have hparse : ParseStep s₀ cs r.counts.readCount.toNat (advance r (preamble r l.cycle))
      (parseByte bitFeed r (beatByte r.beat.beatQ r.beat.byteIdx) (advance r (preamble r l.cycle))) :=
    h.position.parse (by omega) hform hbegin hlen hfirst hheld.parser hheld.session hheld.quiet
      hheld.quietLast
  have hread : (ringStep bitFeed r l).counts.readCount.toNat=r.counts.readCount.toNat+1 := by
    have hinc : (1 : BitVec 32).toNat=1 := rfl
    unfold ringStep
    rw [hcounts]
    rw [toNat_add,hinc]
    omega
  have hwrite : (ringStep bitFeed r l).counts.writeCount=r.counts.writeCount := by
    unfold ringStep
    rw [hcounts]
  have hleft : (ringStep bitFeed r l).beat.beatLeft.toNat=r.beat.beatLeft.toNat-1 := by
    have hdec : (1 : BitVec 4).toNat=1 := rfl
    unfold ringStep
    rw [hbeat]
    rw [toNat_sub,hdec]
    omega
  obtain ⟨hp,hs,hf,ho⟩ := step_consume_parse bitFeed htrue.1 hstate hgo
  have hpresented : presented (ringStep bitFeed r l)=presented (parseByte bitFeed r
      (beatByte r.beat.beatQ r.beat.byteIdx) (advance r (preamble r l.cycle))) := by
    unfold presented ringStep
    rw [ho]
  refine ⟨⟨?_,?_,?_,?_,?_,hover.trans h.quiet,?_,?_,?_,?_,?_,?_⟩,?_⟩
  · rw [hread,show (ringStep bitFeed r l).parser=_ from hp,
      show (ringStep bitFeed r l).session=_ from hs]
    exact hparse.position
  · rw [hread,hwrite]
    omega
  · rw [hwrite]
    exact htotal
  · rw [hread,hwrite]
    omega
  · exact hf.trans (hparse.fatal.trans (hheld.fatal.trans h.fatal))
  · intro hl
    have hvalid := hparse.last ((congrArg Outputs.outLast ho).symm.trans hl)
    exact (congrArg Outputs.outValid ho).trans hvalid
  · intro _
    unfold ringStep
    rw [hcounts]
    exact h.announced (by omega)
  · have hdone : (ringStep bitFeed r l).beat.beatLeft=0#4 ↔ r.beat.beatLeft.toNat=1 := by
      rw [← toNat_inj,hleft,toNat_ofNat]
      omega
    rw [show (ringStep bitFeed r l).state=_ from hnew,hdone]
    by_cases hone : r.beat.beatLeft=1#4
    · rw [if_pos hone,hone]
      exact ⟨fun _ => rfl,fun _ => noConfusion⟩
    · rw [if_neg hone]
      exact ⟨fun hne => absurd rfl hne,fun h1 => absurd (eq_of_toNat_eq h1) hone⟩
  · intro hwait
    rw [show (ringStep bitFeed r l).state=_ from hnew] at hwait
    split_ifs at hwait
  · rw [hleft,hread,hwrite]
    omega
  · intro j hj
    have hnext := h.beat (j+1) (by omega)
    rw [hread,Nat.add_assoc,Nat.add_comm 1 j,← hnext]
    unfold ringStep
    rw [hbeat]
    congr 1
    apply eq_of_toNat_eq
    have hinc : (1 : BitVec 3).toNat=1 := rfl
    rw [toNat_add,toNat_add,toNat_add,hinc,toNat_ofNat,
      toNat_ofNat]
    omega
  · rw [hread,hpresented]
    exact hparse.presents

theorem Consistent.other (h : Consistent s₀ cs r) (htrue : Truthful (encodeAll cs) r l)
    (hlen : (encodeAll cs).length<2^31) (htakes : takes bitFeed r l.cycle=false) :
    Quiet s₀ cs r (ringStep bitFeed r l) := by
  by_cases hpolls : polls r l.cycle=true
  · exact h.poll htrue hlen hpolls
  have hquiet : ∀ {m : Reader}, Held m r → Consistent s₀ cs m → Quiet s₀ cs r m :=
    fun hheld hm => ⟨hm,congrArg Counts.readCount hheld.counts,presented_of_invalid hheld.quiet⟩
  cases hstate : r.state with
  | reset =>
    obtain ⟨hheld,hnew⟩ := step_reset bitFeed htrue.1 hstate
    refine hquiet hheld (h.held hheld ?_ ?_ ?_)
    · unfold ringStep
      rw [hnew,hstate]
      exact ⟨noConfusion,noConfusion⟩
    · exact fun hc => absurd (hstate.symm.trans hc) noConfusion
    · exact fun hc => absurd (hnew.symm.trans hc) noConfusion
  | idle =>
    obtain ⟨hheld,hnew⟩ := step_idle bitFeed htrue.1 hstate
    have hother : (ringStep bitFeed r l).state ≠ .consume := by
      rcases hnew with hidle | ⟨hpoll,_⟩ | ⟨hread,_⟩
      · exact fun hc => absurd (hidle.symm.trans hc) noConfusion
      · exact fun hc => absurd (hpoll.symm.trans hc) noConfusion
      · exact fun hc => absurd (hread.symm.trans hc) noConfusion
    refine hquiet hheld (h.held hheld ?_ ?_ ?_)
    · rw [hstate]
      exact ⟨fun hc => absurd hc hother,noConfusion⟩
    · exact fun hc => absurd (hstate.symm.trans hc) noConfusion
    · intro hwait
      rcases hnew with hidle | ⟨hpoll,_⟩ | ⟨_,hwant,hidx,haddr⟩
      · exact absurd (hidle.symm.trans hwait) noConfusion
      · exact absurd (hpoll.symm.trans hwait) noConfusion
      · refine ⟨hidx,haddr,?_⟩
        have havail : Ring.avail r.counts≠0#32 := by
          intro hzero
          unfold wantRead ringHasData at hwant
          rw [hzero] at hwant
          simp at hwant
        have hsome : (Ring.avail r.counts).toNat≠0 := fun hzero =>
          havail (eq_of_toNat_eq hzero)
        rw [h.avail] at hsome
        omega
  | poll =>
    have hnone : ¬(l.cycle.doutReady=true ∧ ctrlMagicOk l.cycle.dout=true) := fun hc =>
      hpolls (decide_eq_true ⟨hstate,hc.1,hc.2⟩)
    obtain ⟨hheld,hnew⟩ := step_poll_nothing bitFeed htrue.1 hstate hnone
    refine hquiet hheld (h.held hheld ?_ ?_ ?_)
    · unfold ringStep
      rw [hnew,hstate]
      cases l.cycle.doutReady with
      | false => exact ⟨noConfusion,noConfusion⟩
      | true => exact ⟨noConfusion,noConfusion⟩
    · exact fun hc => absurd (hstate.symm.trans hc) noConfusion
    · intro hwait
      have hwait' := hnew.symm.trans hwait
      split_ifs at hwait'
  | readWait =>
    by_cases hready : l.cycle.doutReady=true
    · exact h.answered htrue hstate hready
    · obtain ⟨hheld,hnew,hidx,haddr⟩ := step_readWait_nothing bitFeed htrue.1 hstate
        (Bool.not_eq_true _ ▸ hready)
      obtain ⟨hidx',haddr',hsome⟩ := h.asked hstate
      refine hquiet hheld (h.held hheld ?_ ?_ ?_)
      · unfold ringStep
        rw [hnew,hstate]
      · exact fun hc => absurd (hstate.symm.trans hc) noConfusion
      · exact fun _ => ⟨hidx.trans hidx',haddr.trans haddr',hsome⟩
  | consume =>
    have hstall : consumes bitFeed r l.cycle=false := by
      by_contra hgo
      exact of_decide_eq_false htakes ⟨hstate,Bool.not_eq_false _ ▸ hgo⟩
    obtain ⟨hheld,hnew,hidx⟩ := step_consume_stall bitFeed htrue.1 hstate hstall
    have hleft : r.beat.beatLeft≠0#4 := fun hzero => h.empty.mpr hzero hstate
    rw [if_neg hleft] at hnew
    refine hquiet hheld (h.held hheld ?_ ?_ ?_)
    · unfold ringStep
      rw [hnew,hstate]
    · exact fun _ => hidx
    · exact fun hwait => absurd (hnew.symm.trans hwait) noConfusion

/-- Every edge keeps the registers consistent and presents what is delivered next. -/
theorem Consistent.next (h : Consistent s₀ cs r) (htrue : Truthful (encodeAll cs) r l)
    (hform : ∀ c∈cs, c.WellFormed) (hbegin : NoBeginInSession s₀ cs)
    (hlen : (encodeAll cs).length<2^31) :
    Consistent s₀ cs (ringStep bitFeed r l) ∧
    deliveredUpTo s₀ cs (ringStep bitFeed r l).counts.readCount.toNat =
      deliveredUpTo s₀ cs r.counts.readCount.toNat ++ presented (ringStep bitFeed r l) := by
  by_cases htakes : takes bitFeed r l.cycle=true
  · obtain ⟨hstate,hgo⟩ := of_decide_eq_true htakes
    exact h.taken htrue hform hbegin hlen hstate hgo
  · have hquiet := h.other htrue hlen (Bool.not_eq_true _ ▸ htakes)
    rw [hquiet.read,hquiet.presents,List.append_nil]
    exact ⟨hquiet.consistent,rfl⟩

end Misterplex.Ring
