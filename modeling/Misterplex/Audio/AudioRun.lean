import Misterplex.Audio.AudioFifo

/-!
# Samples across a flush

A flush is clean when the read pointer stands at zero and nothing is played
until the read side has seen the write pointer move to zero. Between clean
flushes the samples are played in order from the ones accepted since the last
flush, whatever the two clocks and the sample period do.
-/

namespace Misterplex.AudioFifo

open GrayCode (encode decode flipLeading)
open RingFifo (ofNat_sub_ofNat ofNat_eq_iff)
open Trace List

variable {aw : ℕ}

/-- The FIFO with the samples accepted and played since the last flush. -/
structure World (aw : ℕ) where
  /-- The FIFO. -/
  fifo : Fifo aw
  /-- Samples accepted since the last flush. -/
  accepted : List (BitVec 32)
  /-- Samples played since the last flush. -/
  played : List (BitVec 32)
  /-- Samples played before the last flush. -/
  base : ℕ
  /-- Audio clocks until the read side has seen the last flush. -/
  settle : ℕ
  /-- Audio clocks in a row for which reading has been enabled. -/
  enabled : ℕ

/-- The world after reset, over any memory. -/
def World.start (mem : ℕ → BitVec 32) : World aw where
  fifo := Fifo.start mem
  accepted := []
  played := []
  base := 0
  settle := 0
  enabled := 0

/-- One moment. -/
def World.step (w : World aw) (e : Edge) : World aw where
  fifo := AudioFifo.step w.fifo e
  accepted := if flushes e then [] else w.accepted ++ accepts w.fifo e
  played := if flushes e then [] else w.played ++ plays w.fifo e
  base := if flushes e then w.base+w.played.length+(plays w.fifo e).length else w.base
  settle := if flushes e then 2 else if e.rd.isSome then w.settle-1 else w.settle
  enabled := e.rd.elim w.enabled fun p => if p.enable then w.enabled+1 else 0

/-- What is played since the last flush is a prefix of what was accepted since, and the
pointers are never further apart than the memory is deep. -/
def World.Sound (w : World aw) : Prop :=
  w.played <+: w.accepted ∧ w.fifo.ring.level.toNat≤2^aw

/-- A moment is clean: a flush finds the read pointer at zero and no sample on its way out, and a
sample is played only when the read side has seen the last flush and has been enabled for the
two clocks that load its register. -/
def Clean (w : World aw) (e : Edge) : Prop :=
  (flushes e=true → w.fifo.ring.rd=0 ∧ playing w.fifo e=false) ∧
    (playing w.fifo e=true → w.settle=0 ∧ 2≤w.enabled)

instance (w : World aw) (e : Edge) : Decidable (Clean w e) := by
  rw [Clean]
  infer_instance

/-- Samples played since reset. -/
def World.read (w : World aw) : ℕ := w.base+w.played.length

/-- Samples played before the last flush or accepted since. -/
def World.written (w : World aw) : ℕ := w.base+w.accepted.length

/-- The pointers count samples, the write side sees an earlier read pointer, and after a flush
has been seen the read side sees an earlier write pointer; the register that is played holds
the word under the read pointer when a sample period ends. -/
structure Tracks (w : World aw) (w1 w2 r1 r2 : ℕ) : Prop where
  wrPtr : w.fifo.ring.wr=BitVec.ofNat (aw+1) w.written
  rdPtr : w.fifo.ring.rd=BitVec.ofNat (aw+1) w.read
  wrGray : w.fifo.wrGray=encode w.fifo.ring.wr
  rdGray : w.fifo.rdGray=encode w.fifo.ring.rd
  wrSeen : w.fifo.wrGrayR1=encode (BitVec.ofNat (aw+1) w1) ∧
    w.fifo.wrGrayR2=encode (BitVec.ofNat (aw+1) w2)
  rdSeen : w.fifo.rdGrayW1=encode (BitVec.ofNat (aw+1) r1) ∧
    w.fifo.rdGrayW2=encode (BitVec.ofNat (aw+1) r2)
  /-- What the write side sees is old. -/
  behind : r2≤r1 ∧ r1≤w.read ∧ w.read≤w.written ∧ w.written≤r2+2^aw
  /-- The first register of the read side has seen the last flush. -/
  first : w.settle≤1 → w.read≤w1 ∧ w1≤w.written
  /-- The second register has seen it too. -/
  second : w.settle=0 → w.read≤w2 ∧ w2≤w1
  /-- What was read and what is left is what was written. -/
  inOrder : w.played ++ w.fifo.ring.contents = w.accepted
  address : 1≤w.enabled → w.fifo.sdiv≠1 → w.fifo.rdAddrR=RingFifo.slot w.fifo.ring.rd
  word : 2≤w.enabled → w.fifo.sdiv≠1 → w.fifo.sdiv≠2 → w.settle=0 → w.read<w2 →
    w.fifo.rdData=w.fifo.ring.head

variable {w : World aw} {e : Edge} {w1 w2 r1 r2 : ℕ}

/-- The write side's count and the words read make the words written. -/
theorem Tracks.level (h : Tracks w w1 w2 r1 r2) :
    w.fifo.ring.level.toNat+w.read=w.written := by
  have hlength := congrArg length h.inOrder
  rw [length_append,RingFifo.length_contents] at hlength
  rw [World.read,World.written]
  omega

/-- What is tracked is sound. -/
theorem Tracks.sound (h : Tracks w w1 w2 r1 r2) : w.Sound := by
  have hlevel := h.level
  have hbehind := h.behind
  exact ⟨⟨_,h.inOrder⟩,by omega⟩

theorem Tracks.full_iff (haw : 1≤aw) (h : Tracks w w1 w2 r1 r2) :
    wrFull w.fifo=true ↔ w.written=r2+2^aw := by
  have hbehind := h.behind
  rw [wrFull,beq_iff_eq,h.wrGray,h.rdSeen.2,h.wrPtr]
  exact GrayCode.encode_eq_flipLeading haw (by omega) (by omega)

theorem Tracks.accepts_room (haw : 1≤aw) (h : Tracks w w1 w2 r1 r2)
    (hsome : accepts w.fifo e≠[]) : w.written<r2+2^aw := by
  have hbehind := h.behind
  have hfull := h.full_iff haw
  rcases accepts_cases w.fifo e with hnone | ⟨p,-,haccept,-⟩
  · exact absurd hnone hsome
  · have hnot : wrFull w.fifo=false := by
      rw [wrAccept,Bool.and_eq_true,Bool.not_eq_true'] at haccept
      exact haccept.2
    rw [hnot] at hfull
    have hne : w.written≠r2+2^aw := fun heq => Bool.false_ne_true (hfull.mpr heq)
    omega

theorem Tracks.playing_some (h : Tracks w w1 w2 r1 r2) (hsettle : w.settle=0)
    (hplay : playing w.fifo e=true) : w.read<w2 := by
  have hsecond := h.second hsettle
  have hne : w.read≠w2 := by
    intro heq
    have hempty : rdEmpty w.fifo=true := by
      rw [rdEmpty,beq_iff_eq,h.rdGray,h.wrSeen.2,h.rdPtr,heq]
    rw [(playing_eq_true hplay).2.2] at hempty
    exact Bool.false_ne_true hempty
  omega

theorem Tracks.plays_head (h : Tracks w w1 w2 r1 r2) (hclean : Clean w e) :
    plays w.fifo e = if playing w.fifo e then [w.fifo.ring.head] else [] := by
  rw [plays]
  cases hplay : playing w.fifo e with
  | false => rfl
  | true =>
    obtain ⟨hsettle,hon⟩ := hclean.2 hplay
    have hsdiv := (playing_eq_true hplay).2.1
    rw [if_pos rfl,if_pos rfl,
      h.word hon (by rw [hsdiv]; decide) (by rw [hsdiv]; decide) hsettle (h.playing_some hsettle hplay)]

theorem length_plays (f : Fifo aw) (e : Edge) :
    (plays f e).length = if playing f e then 1 else 0 := by
  rw [plays]
  split
  · rfl
  · rfl

theorem sdiv_ne_of_succ {s : BitVec 9} {k : BitVec 9} (h : s+1≠k+1) : s≠k :=
  fun heq => h (by rw [heq])

/-- A pointer seen through two registers is one that was there before. -/
theorem seen_step {c0 c1 c2 : BitVec (aw+1)} {n0 n1 n2 : ℕ} (b : Bool)
    (h0 : c0=encode (BitVec.ofNat (aw+1) n0)) (h1 : c1=encode (BitVec.ofNat (aw+1) n1))
    (h2 : c2=encode (BitVec.ofNat (aw+1) n2)) :
    (if b then c0 else c1)=encode (BitVec.ofNat (aw+1) (if b then n0 else n1)) ∧
      (if b then c1 else c2)=encode (BitVec.ofNat (aw+1) (if b then n1 else n2)) := by
  cases b with
  | false => exact ⟨h1,h2⟩
  | true => exact ⟨h0,h1⟩

/-- The words read after one edge. -/
theorem read_step : (w.step e).read=w.read+(plays w.fifo e).length := by
  rw [World.read,World.read,World.step]
  cases flushes e with
  | false =>
    dsimp only
    rw [if_neg Bool.false_ne_true,if_neg Bool.false_ne_true,length_append]
    omega
  | true =>
    dsimp only
    rw [if_pos rfl,if_pos rfl,length_nil]
    omega

/-- The words written after one edge. -/
theorem written_step : (w.step e).written =
    if flushes e then (w.step e).read else w.written+(accepts w.fifo e).length := by
  rw [read_step,World.written,World.written,World.read,World.step]
  cases flushes e with
  | false =>
    dsimp only
    rw [if_neg Bool.false_ne_true,if_neg Bool.false_ne_true,if_neg Bool.false_ne_true,
      length_append]
    omega
  | true =>
    dsimp only
    rw [if_pos rfl,if_pos rfl,if_pos rfl,length_nil]
    omega

theorem Tracks.behind_step (haw : 1≤aw) (h : Tracks w w1 w2 r1 r2) (hclean : Clean w e) :
    (if e.wr.isSome then r1 else r2)≤(if e.wr.isSome then w.read else r1) ∧
      (if e.wr.isSome then w.read else r1)≤(w.step e).read ∧
      (w.step e).read≤(w.step e).written ∧
      (w.step e).written≤(if e.wr.isSome then r1 else r2)+2^aw := by
  have hbehind := h.behind
  have hplays := length_plays w.fifo e
  rw [written_step,read_step]
  cases hflush : flushes e with
  | true =>
    rw [(hclean.1 hflush).2,if_neg Bool.false_ne_true] at hplays
    rw [if_pos rfl,hplays]
    split_ifs
    · omega
    · omega
  | false =>
    rw [if_neg Bool.false_ne_true]
    have haccepts : (accepts w.fifo e).length=0 ∨
        (accepts w.fifo e).length=1 ∧ w.written<r2+2^aw := by
      rcases accepts_cases w.fifo e with hnone | ⟨p,-,-,hone⟩
      · exact Or.inl (by rw [hnone,length_nil])
      · refine Or.inr ⟨by rw [hone,length_singleton],?_⟩
        exact h.accepts_room haw (by rw [hone]; exact cons_ne_nil _ _)
    have hread : (plays w.fifo e).length=0 ∨
        (plays w.fifo e).length=1 ∧ w.read<w.written := by
      cases hplay : playing w.fifo e with
      | false => exact Or.inl (by rw [hplays,hplay,if_neg Bool.false_ne_true])
      | true =>
        have hsettle := (hclean.2 hplay).1
        have hsome := h.playing_some hsettle hplay
        have hfirst := h.first (by omega)
        have hsecond := h.second hsettle
        exact Or.inr ⟨by rw [hplays,hplay,if_pos rfl],by omega⟩
    split_ifs
    · omega
    · omega

theorem Tracks.seen_by_read (h : Tracks w w1 w2 r1 r2) (hclean : Clean w e) :
    ((w.step e).settle≤1 →
        (w.step e).read≤(if e.rd.isSome then w.written else w1) ∧
          (if e.rd.isSome then w.written else w1)≤(w.step e).written) ∧
      ((w.step e).settle=0 →
        (w.step e).read≤(if e.rd.isSome then w1 else w2) ∧
          (if e.rd.isSome then w1 else w2) ≤ if e.rd.isSome then w.written else w1) := by
  have hbehind := h.behind
  have hfirst := h.first
  have hsecond := h.second
  have hsettle : (w.step e).settle =
      if flushes e then 2 else if e.rd.isSome then w.settle-1 else w.settle := rfl
  rw [written_step,read_step,hsettle]
  cases hflush : flushes e with
  | true =>
    rw [if_pos rfl]
    constructor
    · omega
    · omega
  | false =>
    rw [if_neg Bool.false_ne_true,if_neg Bool.false_ne_true,length_plays]
    cases hplay : playing w.fifo e with
    | false =>
      rw [if_neg Bool.false_ne_true]
      split_ifs
      · constructor
        · omega
        · omega
      · constructor
        · omega
        · omega
    | true =>
      have hzero := (hclean.2 hplay).1
      have hsome := h.playing_some hzero hplay
      obtain ⟨p,hrd,-⟩ := (playing_eq_true hplay).1
      rw [hrd,Option.isSome_some,if_pos rfl,if_pos rfl,if_pos rfl,if_pos rfl]
      constructor
      · omega
      · omega

theorem Tracks.inOrder_step (haw : 1≤aw) (h : Tracks w w1 w2 r1 r2) (hclean : Clean w e) :
    (w.step e).played ++ (w.step e).fifo.ring.contents = (w.step e).accepted := by
  have hlevel := h.level
  have hbehind := h.behind
  have hfifo : (w.step e).fifo=AudioFifo.step w.fifo e := rfl
  have hplayed : (w.step e).played = if flushes e then [] else w.played ++ plays w.fifo e := rfl
  have haccepted :
      (w.step e).accepted = if flushes e then [] else w.accepted ++ accepts w.fifo e := rfl
  rw [hplayed,haccepted,hfifo]
  cases hflush : flushes e with
  | true =>
    obtain ⟨hrd,hplay⟩ := hclean.1 hflush
    rw [if_pos rfl,if_pos rfl,List.nil_append,RingFifo.contents_eq_nil_iff,RingFifo.isEmpty,
      (wr_step h.wrGray).1,(rd_step h.rdGray).1,hflush,if_pos rfl,hrd,plays,hplay,
      if_neg Bool.false_ne_true,beq_iff_eq]
    exact (BitVec.add_zero _).symm
  | false =>
    have hmove := contents_step hflush
      (fun hsome => by
        have hroom := h.accepts_room haw hsome
        omega)
      (fun hplay => by
        have hsettle := (hclean.2 hplay).1
        have hsome := h.playing_some hsettle hplay
        have hfirst := h.first (by omega)
        have hsecond := h.second hsettle
        omega)
    rw [if_neg Bool.false_ne_true,if_neg Bool.false_ne_true,h.plays_head hclean,
      List.append_assoc,hmove,← List.append_assoc,h.inOrder]

theorem Tracks.address_step (h : Tracks w w1 w2 r1 r2) (hon : 1≤(w.step e).enabled)
    (hsdiv : (w.step e).fifo.sdiv≠1) :
    (w.step e).fifo.rdAddrR=RingFifo.slot (w.step e).fifo.ring.rd := by
  have hfifo : (w.step e).fifo=AudioFifo.step w.fifo e := rfl
  have henabled : (w.step e).enabled =
      e.rd.elim w.enabled fun p => if p.enable then w.enabled+1 else 0 := rfl
  rw [hfifo] at hsdiv ⊢
  rw [henabled] at hon
  cases hrd : e.rd with
  | none =>
    obtain ⟨hsame,haddr,-⟩ := port_step_none (f := w.fifo) hrd
    rw [hrd,Option.elim_none] at hon
    rw [hsame] at hsdiv
    rw [haddr,(rd_step h.rdGray).1,plays,playing,hrd,Option.elim_none,
      if_neg Bool.false_ne_true,h.address hon hsdiv]
    exact congrArg RingFifo.slot (BitVec.add_zero _).symm
  | some p =>
    rw [hrd,Option.elim_some] at hon
    cases hen : p.enable with
    | false =>
      rw [hen,if_neg Bool.false_ne_true] at hon
      omega
    | true =>
      obtain ⟨hnext,haddr,-⟩ := port_step (f := w.fifo) hrd hen
      rw [hnext] at hsdiv
      have hplay : playing w.fifo e=false := by
        cases hplay : playing w.fifo e with
        | false => rfl
        | true =>
          rw [(playing_eq_true hplay).2.1] at hsdiv
          exact absurd rfl hsdiv
      rw [haddr,(rd_step h.rdGray).1,plays,hplay,if_neg Bool.false_ne_true]
      exact congrArg RingFifo.slot (BitVec.add_zero _).symm

theorem Tracks.head_stays (haw : 1≤aw) (h : Tracks w w1 w2 r1 r2) (hflush : flushes e=false)
    (hplay : playing w.fifo e=false) (hsome : w.read<w.written) :
    (AudioFifo.step w.fifo e).ring.head=w.fifo.ring.head := by
  have hlevel := h.level
  have hbehind := h.behind
  refine head_step hflush hplay (fun haccepts => ?_) (by omega)
  have hroom := h.accepts_room haw haccepts
  omega

theorem Tracks.word_step (haw : 1≤aw) (h : Tracks w w1 w2 r1 r2)
    (hon : 2≤(w.step e).enabled) (hone : (w.step e).fifo.sdiv≠1)
    (htwo : (w.step e).fifo.sdiv≠2) (hsettle : (w.step e).settle=0)
    (hsome : (w.step e).read < if e.rd.isSome then w1 else w2) :
    (w.step e).fifo.rdData=(w.step e).fifo.ring.head := by
  have hfifo : (w.step e).fifo=AudioFifo.step w.fifo e := rfl
  have henabled : (w.step e).enabled =
      e.rd.elim w.enabled fun p => if p.enable then w.enabled+1 else 0 := rfl
  have hwait : (w.step e).settle =
      if flushes e then 2 else if e.rd.isSome then w.settle-1 else w.settle := rfl
  have hflush : flushes e=false := by
    cases hflush : flushes e with
    | false => rfl
    | true =>
      rw [hwait,hflush,if_pos rfl] at hsettle
      omega
  rw [hwait,hflush,if_neg Bool.false_ne_true] at hsettle
  rw [hfifo] at hone htwo ⊢
  rw [henabled] at hon
  rw [read_step] at hsome
  cases hrd : e.rd with
  | none =>
    obtain ⟨hsame,-,hdata⟩ := port_step_none (f := w.fifo) hrd
    have hplay : playing w.fifo e=false := by
      rw [playing,hrd,Option.elim_none]
    rw [hrd,Option.isSome_none,if_neg Bool.false_ne_true] at hsettle hsome
    rw [hrd,Option.elim_none] at hon
    rw [hsame] at hone htwo
    have hread : w.read<w2 := by omega
    have hfirst := h.first (by omega)
    have hsecond := h.second hsettle
    rw [hdata,h.word hon hone htwo hsettle hread,
      h.head_stays haw hflush hplay (by omega)]
  | some p =>
    rw [hrd,Option.isSome_some,if_pos rfl] at hsettle hsome
    rw [hrd,Option.elim_some] at hon
    cases hen : p.enable with
    | false =>
      rw [hen,if_neg Bool.false_ne_true] at hon
      omega
    | true =>
      rw [hen,if_pos rfl] at hon
      obtain ⟨hnext,-,hdata⟩ := port_step (f := w.fifo) hrd hen
      rw [hnext] at hone htwo
      have hplay : playing w.fifo e=false := by
        cases hplay : playing w.fifo e with
        | false => rfl
        | true =>
          rw [(playing_eq_true hplay).2.1] at hone
          exact absurd rfl hone
      have hfirst := h.first (by omega)
      have haddr := h.address (by omega) (sdiv_ne_of_succ (k := 1) htwo)
      rw [hdata,haddr,h.head_stays haw hflush hplay (by omega)]
      rfl

/-- A clean moment keeps the pointers, the views of them and the registers of the read port. -/
theorem Tracks.step (haw : 1≤aw) (h : Tracks w w1 w2 r1 r2) (hclean : Clean w e) :
    Tracks (w.step e) (if e.rd.isSome then w.written else w1) (if e.rd.isSome then w1 else w2)
      (if e.wr.isSome then w.read else r1) (if e.wr.isSome then r1 else r2) := by
  have hseen := h.seen_by_read hclean
  have hrd : (w.step e).fifo.ring.rd=BitVec.ofNat (aw+1) (w.step e).read := by
    rw [read_step,BitVec.ofNat_add,← h.rdPtr]
    exact (rd_step h.rdGray).1
  constructor
  · rw [written_step]
    refine (wr_step h.wrGray).1.trans ?_
    cases hflush : flushes e with
    | true =>
      obtain ⟨hzero,hplay⟩ := hclean.1 hflush
      have hread : (w.step e).read=w.read := by
        rw [read_step,length_plays,hplay,if_neg Bool.false_ne_true,Nat.add_zero]
      rw [if_pos rfl,if_pos rfl,hread,← h.rdPtr,hzero]
    | false =>
      rw [if_neg Bool.false_ne_true,if_neg Bool.false_ne_true,BitVec.ofNat_add,← h.wrPtr]
  · exact hrd
  · exact (wr_step h.wrGray).2
  · exact (rd_step h.rdGray).2
  · have hcode : w.fifo.wrGray=encode (BitVec.ofNat (aw+1) w.written) := by
      rw [h.wrGray,h.wrPtr]
    obtain ⟨hone,htwo⟩ := rdSync_step (f := w.fifo) (e := e)
    have hnext := seen_step e.rd.isSome hcode h.wrSeen.1 h.wrSeen.2
    exact ⟨hone.trans hnext.1,htwo.trans hnext.2⟩
  · have hcode : w.fifo.rdGray=encode (BitVec.ofNat (aw+1) w.read) := by
      rw [h.rdGray,h.rdPtr]
    obtain ⟨hone,htwo⟩ := wrSync_step (f := w.fifo) (e := e)
    have hnext := seen_step e.wr.isSome hcode h.rdSeen.1 h.rdSeen.2
    exact ⟨hone.trans hnext.1,htwo.trans hnext.2⟩
  · exact h.behind_step haw hclean
  · exact hseen.1
  · exact hseen.2
  · exact h.inOrder_step haw hclean
  · exact h.address_step
  · exact h.word_step haw

theorem tracks_start (mem : ℕ → BitVec 32) : Tracks (World.start mem : World aw) 0 0 0 0 := by
  have hcode : (0 : BitVec (aw+1))=encode (BitVec.ofNat (aw+1) 0) := by
    simp [encode]
  constructor
  · rfl
  · rfl
  · exact hcode
  · exact hcode
  · exact ⟨hcode,hcode⟩
  · exact ⟨hcode,hcode⟩
  · simp [World.read,World.written,World.start]
  · simp [World.read,World.written,World.start]
  · simp [World.read,World.start]
  · rw [List.append_eq_nil_iff.mpr]
    · rfl
    · constructor
      · rfl
      · rw [RingFifo.contents_eq_nil_iff,RingFifo.isEmpty]
        exact beq_self_eq_true _
  · intro hon
    exact absurd hon (Nat.not_succ_le_zero 0)
  · intro hon
    exact absurd hon (Nat.not_succ_le_zero 1)

/-- In every run whose moments are clean, what is played since the last flush is a prefix of what
was accepted since, and the fill level stays within the depth. -/
theorem samples_sound (haw : 1≤aw) (mem : ℕ → BitVec 32) {edges : List Edge}
    (hclean : Along World.step Clean (World.start mem : World aw) edges) :
    Throughout World.step World.Sound (World.start mem : World aw) edges := by
  have hstep : ∀ (w : World aw) (e : Edge), (∃ w1 w2 r1 r2, Tracks w w1 w2 r1 r2) → Clean w e →
      ∃ w1 w2 r1 r2, Tracks (w.step e) w1 w2 r1 r2 := by
    rintro w e ⟨w1,w2,r1,r2,h⟩ hnow
    exact ⟨_,_,_,_,h.step haw hnow⟩
  refine (hclean.throughout hstep ⟨0,0,0,0,tracks_start mem⟩).mono ?_
  rintro w ⟨w1,w2,r1,r2,h⟩
  exact h.sound

/-- A clock of the enabled read side alone. -/
def rdClock : Edge := ⟨none,some ⟨true⟩⟩

/-- A sample is written between two clocks of the read side. -/
def wrSample (d : BitVec 32) : Edge := ⟨some ⟨true,d,false⟩,none⟩

/-- The FIFO is flushed between two clocks of the read side. -/
def wrFlush : Edge := ⟨some ⟨false,0,true⟩,none⟩

/-- A sample is written and flushed, and one written after the flush is played. -/
def cleanRun : List Edge :=
  [rdClock,wrSample 7,wrFlush,rdClock,rdClock,wrSample 8] ++ List.replicate 510 rdClock

set_option maxRecDepth 4000 in
/-- The run with a flush before the first sample is played is sound. -/
theorem samples_sound_cleanRun :
    Throughout World.step World.Sound (World.start (fun _ => 0) : World 11) cleanRun :=
  samples_sound (by decide) _ (by decide +kernel)

/-- Two samples are written, the first is played, the FIFO is flushed and a sample period ends. -/
def staleRun : List Edge :=
  [rdClock,wrSample 7,wrSample 8] ++ List.replicate 512 rdClock ++ [wrFlush] ++
    List.replicate 512 rdClock

set_option maxRecDepth 4000 in
/-- The second sample is played after the flush. -/
theorem not_samples_sound :
    ¬∀ (aw : ℕ) (mem : ℕ → BitVec 32) (edges : List Edge), 1≤aw →
      Throughout World.step World.Sound (World.start mem : World aw) edges := by
  intro h
  have hplayed : (finalState World.step (World.start (fun _ => 0) : World 11) staleRun).played =
      [8] := by
    decide +kernel
  have haccepted : (finalState World.step (World.start (fun _ => 0) : World 11) staleRun).accepted =
      [] := by
    decide
  have hsound := (h 11 (fun _ => 0) staleRun (by decide)).last
  have hprefix := hsound.1
  rw [hplayed,haccepted] at hprefix
  exact absurd (prefix_nil.mp hprefix) (cons_ne_nil _ _)

end Misterplex.AudioFifo
