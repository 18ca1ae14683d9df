import Misterplex.Bus.AsyncFifo

/-!
# Words across two clocks

The pointers that each side sees are codes of earlier numbers of words, in order. No word
is lost, doubled or overwritten before it is read, however the edges of the two clocks
follow each other.
-/

namespace Misterplex.AsyncFifo

open GrayCode (encode decode flipLeading)
open RingFifo (ofNat_sub_ofNat ofNat_eq_iff)
open Trace List

variable {width aw : ℕ}

/-- The FIFO with the words accepted and the words delivered since its sides were reset. -/
structure FifoWorld (width aw : ℕ) where
  /-- The FIFO. -/
  fifo : Fifo width aw
  /-- The words that entered, in order. -/
  accepted : List (BitVec width)
  /-- The words that were taken, in order. -/
  delivered : List (BitVec width)

/-- One moment. -/
def FifoWorld.step (w : FifoWorld width aw) (e : Edge width) : FifoWorld width aw where
  fifo := AsyncFifo.step w.fifo e
  accepted := if e.wr.elim false WrPort.reset then [] else w.accepted ++ accepts w.fifo e
  delivered := if e.rd.elim false RdPort.reset then [] else w.delivered ++ delivers w.fifo e

/-- Words that have left the memory. -/
def fetched (w : FifoWorld width aw) : ℕ := w.delivered.length+(held w.fifo).length

/-- The pointers are the numbers of words, and each side sees an earlier number of the
other one. -/
structure Synced (w : FifoWorld width aw) (w1 w2 r1 r2 : ℕ) : Prop where
  wrBin : w.fifo.ring.wr=BitVec.ofNat (aw+1) w.accepted.length
  rdBin : w.fifo.ring.rd=BitVec.ofNat (aw+1) (fetched w)
  wrGray : w.fifo.wrGray=encode w.fifo.ring.wr
  rdGray : w.fifo.rdGray=encode w.fifo.ring.rd
  /-- Words that the read side knows of. -/
  wrSeen : w.fifo.wrGrayR1=encode (BitVec.ofNat (aw+1) w1) ∧
    w.fifo.wrGrayR2=encode (BitVec.ofNat (aw+1) w2)
  /-- Words that the write side knows to be fetched. -/
  rdSeen : w.fifo.rdGrayW1=encode (BitVec.ofNat (aw+1) r1) ∧
    w.fifo.rdGrayW2=encode (BitVec.ofNat (aw+1) r2)
  /-- What is seen is old, and no side runs ahead of what it sees. -/
  order : r2≤r1 ∧ r1≤fetched w ∧ fetched w≤w2 ∧ w2≤w1 ∧ w1≤w.accepted.length ∧
    w.accepted.length≤r2+2^aw
  /-- What came out and what is left is what went in. -/
  inOrder : w.delivered ++ held w.fifo ++ w.fifo.ring.contents = w.accepted

variable {w : FifoWorld width aw} {e : Edge width} {w1 w2 r1 r2 : ℕ}

/-- The words in the FIFO and those fetched are the words accepted. -/
theorem Synced.level (h : Synced w w1 w2 r1 r2) :
    w.fifo.ring.level.toNat+fetched w = w.accepted.length := by
  have hlength := congrArg length h.inOrder
  rw [List.length_append,List.length_append,RingFifo.length_contents] at hlength
  unfold fetched
  omega

theorem Synced.room (h : Synced w w1 w2 r1 r2) : w.fifo.ring.level.toNat≤2^aw := by
  have hlevel := h.level
  have horder := h.order
  omega

theorem Synced.full_iff (haw : 1≤aw) (h : Synced w w1 w2 r1 r2) :
    wrFull w.fifo=true ↔ w.accepted.length=r2+2^aw := by
  have horder := h.order
  rw [wrFull,beq_iff_eq,h.wrGray,h.rdSeen.2,h.wrBin]
  exact GrayCode.encode_eq_flipLeading haw (by omega) (by omega)

/-- The read side sees a word just if it has seen one accepted that it has not fetched. -/
theorem Synced.hasEntry_iff (h : Synced w w1 w2 r1 r2) :
    rdHasEntry w.fifo=true ↔ fetched w<w2 := by
  have horder := h.order
  have hpos := Nat.two_pow_pos aw
  have hsame : w.fifo.rdGray=w.fifo.wrGrayR2 ↔ fetched w=w2 := by
    rw [h.rdGray,h.wrSeen.2,GrayCode.encode_inj,h.rdBin]
    exact ofNat_eq_iff (by omega) (by omega)
  rw [rdHasEntry,bne_iff_ne,ne_eq,hsame]
  omega

theorem Synced.wrOcc_eq (h : Synced w w1 w2 r1 r2) :
    (wrOcc w.fifo).toNat=w.accepted.length-r2 := by
  have horder := h.order
  have hpos := Nat.two_pow_pos aw
  rw [wrOcc,h.rdSeen.2,GrayCode.decode_encode,h.wrBin]
  exact ofNat_sub_ofNat (by omega) (by omega)

theorem Synced.warned (h : Synced w w1 w2 r1 r2) {headroom : ℕ} (hdeep : headroom+1<2^aw)
    (hroom : 2^aw≤w.fifo.ring.level.toNat+headroom+1) :
    wrAlmostFull headroom w.fifo=true := by
  have horder := h.order
  have hlevel := h.level
  have hen : afLevelEn aw headroom=true := decide_eq_true hdeep
  have hocc : occAf aw headroom≤wrOcc w.fifo := by
    rw [BitVec.le_def,h.wrOcc_eq,occAf,if_pos hen,BitVec.toNat_ofNat,
      Nat.mod_eq_of_lt (by omega)]
    omega
  rw [wrAlmostFull,hen,decide_eq_true hocc,Bool.and_self,Bool.or_true]

theorem Synced.accepts_room (haw : 1≤aw) (h : Synced w w1 w2 r1 r2)
    (hsome : accepts w.fifo e≠[]) : w.accepted.length<r2+2^aw := by
  have horder := h.order
  have hfull := h.full_iff haw
  by_contra hc
  have hyes : wrFull w.fifo=true := hfull.mpr (by omega)
  refine hsome ?_
  unfold accepts
  cases e.wr with
  | none => rfl
  | some p =>
    have hno : wrAccept w.fifo p=false := by rw [wrAccept,hyes,Bool.not_true,Bool.and_false]
    rw [Option.elim_some,hno]
    rfl

theorem Synced.fetches_some (h : Synced w w1 w2 r1 r2) (hfetch : fetches w.fifo e=true) :
    fetched w<w2 := by
  rw [← h.hasEntry_iff]
  unfold fetches at hfetch
  cases hr : e.rd with
  | none =>
    rw [hr] at hfetch
    exact absurd hfetch Bool.false_ne_true
  | some p =>
    rw [hr] at hfetch
    exact (Bool.and_eq_true_iff.mp hfetch).1

theorem accepts_length (f : Fifo width aw) (e : Edge width) : (accepts f e).length≤1 := by
  unfold accepts
  cases e.wr with
  | none => exact Nat.zero_le 1
  | some p =>
    rw [Option.elim_some]
    split_ifs
    · exact Nat.le_refl 1
    · exact Nat.zero_le 1

/-- A running edge accepts what the write side takes. -/
theorem Running.accepted (h : Running e) :
    (w.step e).accepted = w.accepted ++ accepts w.fifo e := by
  unfold FifoWorld.step
  cases hw : e.wr with
  | none => rfl
  | some p =>
    rw [Option.elim_some,h.1 p hw]
    rfl

/-- A running edge delivers what the read side shows. -/
theorem Running.delivered (h : Running e) :
    (w.step e).delivered = w.delivered ++ delivers w.fifo e := by
  unfold FifoWorld.step
  cases hr : e.rd with
  | none => rfl
  | some p =>
    rw [Option.elim_some,h.2 p hr]
    rfl

theorem Running.fetched (h : Running e) :
    AsyncFifo.fetched (w.step e) = AsyncFifo.fetched w+if fetches w.fifo e then 1 else 0 := by
  have hheld := congrArg length (held_running (f := w.fifo) h)
  rw [List.length_append,List.length_append] at hheld
  have hnext : held (w.step e).fifo=held (step w.fifo e) := rfl
  unfold AsyncFifo.fetched
  rw [h.delivered,List.length_append,hnext]
  cases hf : fetches w.fifo e with
  | false =>
    rw [hf] at hheld
    simp only [Bool.false_eq_true,if_false,length_nil] at hheld ⊢
    omega
  | true =>
    rw [hf] at hheld
    simp only [if_true,length_singleton] at hheld ⊢
    omega

/-- One edge keeps the pointers in step with the words, and moves what each side has seen. -/
theorem Synced.step (haw : 1≤aw) (h : Synced w w1 w2 r1 r2) (hrun : Running e) :
    Synced (w.step e) (if e.rd.isSome then w.accepted.length else w1)
      (if e.rd.isSome then w1 else w2) (if e.wr.isSome then fetched w else r1)
      (if e.wr.isSome then r1 else r2) := by
  have horder := h.order
  have hlevel := h.level
  have hroom : accepts w.fifo e≠[] → w.fifo.ring.level.toNat<2^aw := fun hsome => by
    have hless := h.accepts_room haw hsome
    omega
  have hsome : fetches w.fifo e=true → w.fifo.ring.level.toNat≠0 := fun hfetch => by
    have hless := h.fetches_some hfetch
    omega
  obtain ⟨hwr,hwrGray⟩ := wr_running hrun h.wrGray
  obtain ⟨hrd,hrdGray⟩ := rd_running hrun h.rdGray
  obtain ⟨hw1,hw2⟩ := wrSync_running (f := w.fifo) hrun
  obtain ⟨hr1,hr2⟩ := rdSync_running (f := w.fifo) hrun
  have haccepted := hrun.accepted (w := w)
  have hfetched := hrun.fetched (w := w)
  have hone := accepts_length w.fifo e
  constructor
  · rw [haccepted,List.length_append,BitVec.ofNat_add,← h.wrBin]
    exact hwr
  · rw [hfetched,BitVec.ofNat_add,← h.rdBin]
    exact hrd
  · exact hwrGray
  · exact hrdGray
  · constructor
    · refine hr1.trans ?_
      rw [h.wrGray,h.wrBin,h.wrSeen.1]
      split_ifs
      · rfl
      · rfl
    · refine hr2.trans ?_
      rw [h.wrSeen.1,h.wrSeen.2]
      split_ifs
      · rfl
      · rfl
  · constructor
    · refine hw1.trans ?_
      rw [h.rdGray,h.rdBin,h.rdSeen.1]
      split_ifs
      · rfl
      · rfl
    · refine hw2.trans ?_
      rw [h.rdSeen.1,h.rdSeen.2]
      split_ifs
      · rfl
      · rfl
  · have hgrow : (accepts w.fifo e).length=0 ∨ w.accepted.length<r2+2^aw := by
      by_cases hnone : accepts w.fifo e=[]
      · exact Or.inl (congrArg length hnone)
      · exact Or.inr (h.accepts_room haw hnone)
    have hfetch : (if fetches w.fifo e then 1 else 0)≤w2-fetched w := by
      cases hf : fetches w.fifo e with
      | false => exact Nat.zero_le _
      | true =>
        have hless := h.fetches_some hf
        rw [if_pos rfl]
        omega
    rw [haccepted,List.length_append,hfetched]
    generalize (if fetches w.fifo e then 1 else 0)=more at hfetch ⊢
    split_ifs
    all_goals omega
  · have hmove := contents_running hrun hroom hsome
    have hheld := held_running (f := w.fifo) hrun
    have hfifo : (w.step e).fifo=AsyncFifo.step w.fifo e := rfl
    calc (w.step e).delivered ++ held (w.step e).fifo ++ (w.step e).fifo.ring.contents
        = w.delivered ++ (delivers w.fifo e ++ held (AsyncFifo.step w.fifo e)) ++
            (AsyncFifo.step w.fifo e).ring.contents := by
          rw [hrun.delivered,hfifo,List.append_assoc w.delivered]
      _ = w.delivered ++ held w.fifo ++ ((if fetches w.fifo e then [w.fifo.ring.head] else []) ++
            (AsyncFifo.step w.fifo e).ring.contents) := by
          rw [hheld]
          simp only [List.append_assoc]
      _ = w.accepted ++ accepts w.fifo e := by
          rw [hmove,← List.append_assoc,h.inOrder]
      _ = (w.step e).accepted := haccepted.symm

/-- Both sides are reset at their edges. -/
def Resetting (e : Edge width) : Prop :=
  (∀ p∈e.wr, p.reset=true) ∧ ∀ p∈e.rd, p.reset=true

/-- A reset of both sides: at every edge the reset is held, and each clock rises at least once. -/
structure CommonReset (resets : List (Edge width)) : Prop where
  /-- Both sides are reset throughout. -/
  asserted : ∀ e∈resets, Resetting e
  /-- The write clock rises in it. -/
  wrRises : ∃ e∈resets, e.wr.isSome=true
  /-- The read clock rises in it. -/
  rdRises : ∃ e∈resets, e.rd.isSome=true

/-- The registers of the write side are at zero. -/
def WrCleared (w : FifoWorld width aw) : Prop :=
  w.accepted=[] ∧ w.fifo.ring.wr=0 ∧ w.fifo.wrGray=0 ∧ w.fifo.rdGrayW1=0 ∧ w.fifo.rdGrayW2=0

/-- The registers of the read side are at zero. -/
def RdCleared (w : FifoWorld width aw) : Prop :=
  w.delivered=[] ∧ w.fifo.ring.rd=0 ∧ w.fifo.rdGray=0 ∧ w.fifo.wrGrayR1=0 ∧
    w.fifo.wrGrayR2=0 ∧ w.fifo.rdValid=false

/-- An edge of the write clock under reset clears the write side. -/
theorem wrCleared_step (hreset : Resetting e) (h : e.wr.isSome=true ∨ WrCleared w) :
    WrCleared (w.step e) := by
  unfold WrCleared FifoWorld.step step
  cases hw : e.wr with
  | none =>
    rw [hw] at h
    obtain ⟨haccepted,hregs⟩ := h.resolve_left Bool.false_ne_true
    refine ⟨?_,hregs⟩
    unfold accepts
    rw [hw,haccepted]
    rfl
  | some p =>
    have hp := hreset.1 p hw
    simp [wrEdge,hp]

/-- An edge of the read clock under reset clears the read side. -/
theorem rdCleared_step (hreset : Resetting e) (h : e.rd.isSome=true ∨ RdCleared w) :
    RdCleared (w.step e) := by
  unfold RdCleared FifoWorld.step step
  cases hr : e.rd with
  | none =>
    rw [hr] at h
    obtain ⟨hdelivered,hregs⟩ := h.resolve_left Bool.false_ne_true
    refine ⟨?_,hregs⟩
    unfold delivers takes
    rw [hr,hdelivered]
    rfl
  | some p =>
    have hp := hreset.2 p hr
    simp [rdEdge,hp]

/-- Under reset nothing enters and nothing is taken. -/
theorem step_resetting (h : Resetting e) (f : Fifo width aw) :
    FifoWorld.step ⟨f,[],[]⟩ e=⟨step f e,[],[]⟩ := by
  have haccepted : (FifoWorld.step ⟨f,[],[]⟩ e).accepted=[] := by
    unfold FifoWorld.step accepts
    cases hw : e.wr with
    | none => rfl
    | some p => simp [h.1 p hw]
  have hdelivered : (FifoWorld.step ⟨f,[],[]⟩ e).delivered=[] := by
    unfold FifoWorld.step delivers takes
    cases hr : e.rd with
    | none => rfl
    | some p => simp [h.2 p hr]
  exact congrArg₂ (FifoWorld.mk (step f e)) haccepted hdelivered

theorem encode_zero {n : ℕ} : encode (0 : BitVec n)=0 := by
  simp [encode]

theorem synced_cleared (hw : WrCleared w) (hr : RdCleared w) : Synced w 0 0 0 0 := by
  obtain ⟨haccepted,hwr,hwg,hr1,hr2⟩ := hw
  obtain ⟨hdelivered,hrd,hrg,hw1,hw2,hvalid⟩ := hr
  have hheld : held w.fifo=[] := by
    unfold held
    rw [hvalid]
    rfl
  have hcontents : w.fifo.ring.contents=[] := by
    rw [RingFifo.contents_eq_nil_iff,RingFifo.isEmpty,hwr,hrd]
    exact beq_self_eq_true _
  have hfetched : fetched w=0 := by
    unfold fetched
    rw [hdelivered,hheld]
    rfl
  have hcode : encode (BitVec.ofNat (aw+1) 0)=0 := encode_zero
  constructor
  · rw [hwr,haccepted]
    rfl
  · rw [hrd,hfetched]
    rfl
  · rw [hwg,hwr,encode_zero]
  · rw [hrg,hrd,encode_zero]
  · rw [hw1,hw2,hcode]
    exact ⟨rfl,rfl⟩
  · rw [hr1,hr2,hcode]
    exact ⟨rfl,rfl⟩
  · rw [hfetched,haccepted]
    simp
  · rw [hdelivered,hheld,hcontents,haccepted]
    rfl

theorem synced_reset {resets : List (Edge width)} (h : CommonReset resets) (w : FifoWorld width aw) :
    Synced (finalState FifoWorld.step w resets) 0 0 0 0 :=
  synced_cleared
    (established_run (fun _ _ => wrCleared_step) h.asserted (Or.inl h.wrRises))
    (established_run (fun _ _ => rdCleared_step) h.asserted (Or.inl h.rdRises))

theorem Synced.wr_reset (h : Synced w w1 w2 r1 r2) (hnone : w.accepted=[]) {p : WrPort width}
    (hp : p.reset=true) (rd : Option RdPort) : w.step ⟨some p,rd⟩=w.step ⟨none,rd⟩ := by
  have horder := h.order
  rw [hnone,length_nil] at horder
  have hr1 : r1=0 := by omega
  have hr2 : r2=0 := by omega
  have hzero : BitVec.ofNat (aw+1) 0=0 := rfl
  have hwr : w.fifo.ring.wr=0 := by rw [h.wrBin,hnone]; rfl
  have hgray : w.fifo.wrGray=0 := by rw [h.wrGray,hwr,encode_zero]
  have hseen1 : w.fifo.rdGrayW1=0 := by rw [h.rdSeen.1,hr1,hzero,encode_zero]
  have hseen2 : w.fifo.rdGrayW2=0 := by rw [h.rdSeen.2,hr2,hzero,encode_zero]
  unfold FifoWorld.step AsyncFifo.step wrEdge
  simp [hp,hwr,hgray,hseen1,hseen2,hnone,accepts,delivers,takes]
  rfl

/-- Every word accepted has been delivered, waits in the register or stands in memory, in
order; the memory holds no more words than it has cells; what the read side shows is the
next word; and the write side is warned in time. -/
structure Conserved (headroom : ℕ) (w : FifoWorld width aw) : Prop where
  /-- No word is lost, doubled, moved or overwritten. -/
  inOrder : w.delivered ++ held w.fifo ++ w.fifo.ring.contents = w.accepted
  /-- The unread words fit the memory. -/
  fits : w.fifo.ring.contents.length≤2^aw
  /-- rd_data is the next word accepted whenever rd_empty is low. -/
  shown : rdEmpty w.fifo=false → w.accepted[w.delivered.length]?=some w.fifo.rdDataR
  /-- wr_almost_full is high when few more words fit, counting the register or not. -/
  warned : headroom+1<2^aw → 2^aw≤w.fifo.ring.contents.length+headroom+1 →
    wrAlmostFull headroom w.fifo=true

theorem Synced.conserved (headroom : ℕ) (h : Synced w w1 w2 r1 r2) : Conserved headroom w := by
  constructor
  · exact h.inOrder
  · rw [RingFifo.length_contents]
    exact h.room
  · intro hshown
    have hvalid : w.fifo.rdValid=true := by
      rw [rdEmpty,Bool.not_eq_false'] at hshown
      exact hshown
    rw [← h.inOrder,held,hvalid,if_pos rfl,List.append_assoc,List.getElem?_append_right (Nat.le_refl _),
      Nat.sub_self]
    rfl
  · intro hdeep hroom
    rw [RingFifo.length_contents] at hroom
    exact h.warned hdeep hroom

/-- The read side rises and is ready to take a word. -/
def reads (e : Edge width) : Bool := e.rd.elim false RdPort.en

/-- Edges of the read clock until the read side sees a number of words. -/
def pendingSync (n w1 w2 : ℕ) : ℕ := if n ≤ w2 then 0 else if n ≤ w1 then 1 else 2

/-- Edges at which the read side is ready that are left until a number of words is
delivered: two until it sees them, one to fill the register, and one for each word. -/
def pendingReads (n : ℕ) (w : FifoWorld width aw) (w1 w2 : ℕ) : ℕ :=
  pendingSync n w1 w2+(n-w.delivered.length)+(1-(held w.fifo).length)

theorem pendingSync_step (w1 w2 : ℕ) {n m : ℕ} (hn : n ≤ m) (horder : w2≤w1) :
    pendingSync n m w1+1≤pendingSync n w1 w2 ∨ n≤w2 ∧ pendingSync n m w1=0 := by
  unfold pendingSync
  split_ifs
  all_goals omega

theorem held_length (f : Fifo width aw) : (held f).length = if f.rdValid then 1 else 0 := by
  unfold held
  split_ifs
  · rfl
  · rfl

/-- The read clock rises and the read side takes the word in the register if there is one. -/
def advances (f : Fifo width aw) (e : Edge width) : Bool := e.rd.elim false fun p => p.en || rdEmpty f

/-- Every edge at which a word in the register is taken leaves one less, until all are
delivered. -/
theorem pendingReads_step (h : Synced w w1 w2 r1 r2) (hrun : Running e) {n : ℕ}
    (hn : n≤w.accepted.length) (hnot : ¬n≤(w.step e).delivered.length) :
    pendingReads n (w.step e) (if e.rd.isSome then w.accepted.length else w1)
        (if e.rd.isSome then w1 else w2)+(advances w.fifo e).toNat≤pendingReads n w w1 w2 := by
  have hdelivered := congrArg length (hrun.delivered (w := w))
  have hfetched := hrun.fetched (w := w)
  have hentry := h.hasEntry_iff
  have hsync := pendingSync_step w1 w2 hn h.order.2.2.2.1
  have hheld := held_length w.fifo
  unfold fetched at hfetched hentry
  rw [List.length_append,delivers] at hdelivered
  unfold pendingReads
  cases hr : e.rd with
  | none =>
    have hready : advances w.fifo e=false := by rw [advances,hr]; rfl
    rw [hready]
    simp only [Bool.false_eq_true,if_false,Option.isSome_none,Bool.toNat_false]
      at hfetched hdelivered ⊢
    omega
  | some p =>
    have hfetch : fetches w.fifo e=(rdHasEntry w.fifo && (!w.fifo.rdValid || p.en && w.fifo.rdValid)) := by
      rw [fetches,hr]
      rfl
    have htake : takes w.fifo e=(p.en && w.fifo.rdValid) := by
      rw [takes,hr]
      rfl
    have hready : advances w.fifo e=(p.en || !w.fifo.rdValid) := by
      rw [advances,hr]
      rfl
    rw [hfetch] at hfetched
    rw [htake] at hdelivered
    rw [hready,Option.isSome_some,if_pos rfl,if_pos rfl]
    cases hvalid : w.fifo.rdValid with
    | false =>
      have hone : (p.en || !false).toNat≤1 := Bool.toNat_le _
      rw [hvalid] at hfetched hdelivered hheld
      cases hhas : rdHasEntry w.fifo with
      | false =>
        have hnone : ¬(w.delivered.length+(held w.fifo).length<w2) := fun hc =>
          absurd (hhas.symm.trans (hentry.mpr hc)) Bool.false_ne_true
        simp only [Bool.and_false,Bool.false_eq_true,if_false,length_nil]
          at hfetched hdelivered hheld
        omega
      | true =>
        rw [hhas] at hfetched
        simp only [Bool.true_and,Bool.and_false,Bool.false_eq_true,if_false,length_nil,
          Bool.not_false,Bool.or_false,if_true] at hfetched hdelivered hheld
        omega
    | true =>
      rw [hvalid] at hfetched hdelivered hheld
      cases hen : p.en with
      | false =>
        simp only [Bool.not_true,Bool.or_false,if_true,Bool.toNat_false]
          at hfetched hdelivered hheld ⊢
        omega
      | true =>
        rw [hen] at hfetched hdelivered
        cases hhas : rdHasEntry w.fifo with
        | false =>
          have hnone : ¬(w.delivered.length+(held w.fifo).length<w2) := fun hc =>
            absurd (hhas.symm.trans (hentry.mpr hc)) Bool.false_ne_true
          simp only [Bool.and_self,if_true,Bool.true_or,Bool.toNat_true]
            at hfetched hdelivered hheld ⊢
          omega
        | true =>
          rw [hhas] at hfetched
          simp only [Bool.and_self,Bool.or_true,Bool.true_or,if_true,Bool.toNat_true]
            at hfetched hdelivered hheld ⊢
          omega

/-- Once the read side has been ready often enough, the words have been delivered. -/
theorem delivered_run (haw : 1≤aw) {n : ℕ} {ls : List (Edge width)} (hrun : ∀ e∈ls, Running e)
    (h : Synced w w1 w2 r1 r2) (hn : n≤w.accepted.length)
    (hreads : n≤w.delivered.length ∨ pendingReads n w w1 w2≤ls.countP reads) :
    n≤(finalState FifoWorld.step w ls).delivered.length := by
  induction ls generalizing w w1 w2 r1 r2 with
  | nil =>
    rcases hreads with hdone | hzero
    · exact hdone
    · rw [countP_nil,pendingReads] at hzero
      exact (by omega : n≤w.delivered.length)
  | cons e ls ih =>
    have hnow := hrun e mem_cons_self
    have hgrow : w.delivered.length≤(w.step e).delivered.length := by
      rw [hnow.delivered,List.length_append]
      exact Nat.le_add_right _ _
    have haccepted : w.accepted.length≤(w.step e).accepted.length := by
      rw [hnow.accepted,List.length_append]
      exact Nat.le_add_right _ _
    refine ih (fun d hd => hrun d (mem_cons_of_mem e hd)) (h.step haw hnow) (by omega) ?_
    by_cases hdone : n≤(w.step e).delivered.length
    · exact Or.inl hdone
    · have hless := pendingReads_step h hnow hn hdone
      have hpending := hreads.resolve_left (by omega)
      have hcount : (if reads e = true then 1 else 0)≤(advances w.fifo e).toNat := by
        unfold reads advances
        cases e.rd with
        | none => exact Nat.le_refl 0
        | some p =>
          rw [Option.elim_some,Option.elim_some]
          cases p.en with
          | false => exact Nat.zero_le _
          | true => exact Nat.le_refl 1
      rw [countP_cons] at hpending
      exact Or.inr (by omega)

/-- What has been accepted has been delivered after so many edges at which the read side
was ready, however the run continues. -/
def Drained (w : FifoWorld width aw) (ls : List (Edge width)) : Prop :=
  ∀ before after : List (Edge width), ls = before ++ after → 2^aw+4≤after.countP reads →
    (finalState FifoWorld.step w before).accepted.length ≤
      (finalState FifoWorld.step w ls).delivered.length

/-- A run without reset stays in step. -/
theorem synced_run (haw : 1≤aw) {ls : List (Edge width)} (hrun : ∀ e∈ls, Running e)
    (h : Synced w w1 w2 r1 r2) :
    Throughout FifoWorld.step (fun v => ∃ w1 w2 r1 r2, Synced v w1 w2 r1 r2) w ls :=
  Along.throughout (fun _ _ ⟨_,_,_,_,hsynced⟩ hnow => ⟨_,_,_,_,hsynced.step haw hnow⟩)
    (along_of_forall hrun w) ⟨w1,w2,r1,r2,h⟩

/-- No more edges are pending than the words held and the stages before the register. -/
theorem Synced.pendingReads_le (h : Synced w w1 w2 r1 r2) :
    pendingReads w.accepted.length w w1 w2≤2^aw+4 := by
  have hlevel := h.level
  have hroom := h.room
  have hheld := held_length w.fifo
  have hsync : pendingSync w.accepted.length w1 w2≤2 := by
    unfold pendingSync
    split_ifs
    all_goals omega
  have hone : (held w.fifo).length≤1 := by
    rw [hheld]
    split_ifs
    all_goals omega
  unfold fetched at hlevel
  unfold pendingReads
  omega

/-- After a common reset, for every width, every depth, every headroom and every order of
the edges of the two clocks, no word is lost, doubled, moved or overwritten before it is
read, and every word accepted is delivered. -/
theorem delivers_in_order {width aw : ℕ} (haw : 2≤aw) (headroom : ℕ) (w : FifoWorld width aw)
    {resets ls : List (Edge width)} (hreset : CommonReset resets) (hrun : ∀ e∈ls, Running e) :
    Throughout FifoWorld.step (Conserved headroom) (finalState FifoWorld.step w resets) ls ∧
      Drained (finalState FifoWorld.step w resets) ls := by
  have hstart := synced_reset hreset w
  have haw' : 1≤aw := by omega
  constructor
  · exact (synced_run haw' hrun hstart).mono fun _ ⟨_,_,_,_,h⟩ => h.conserved headroom
  · intro before after hsplit hreads
    subst hsplit
    have hbefore := synced_run haw' (fun e he => hrun e (mem_append_left after he)) hstart
    obtain ⟨w1,w2,r1,r2,hmid⟩ := hbefore.last
    rw [finalState_append]
    exact delivered_run haw' (fun e he => hrun e (mem_append_right before he)) hmid
      (Nat.le_refl _) (Or.inr (hmid.pendingReads_le.trans hreads))

/-- All registers zero. -/
def FifoWorld.zero (width aw : ℕ) : FifoWorld width aw :=
  ⟨⟨⟨fun _ => 0,0,0⟩,0,0,0,0,0,0,0,false⟩,[],[]⟩

/-- Three words written while the read clock rises now and then, the last at the same time. -/
def threeWords : List (Edge 8) :=
  [⟨some ⟨false,true,17#8⟩,none⟩,⟨none,some ⟨false,true⟩⟩,⟨some ⟨false,true,34#8⟩,none⟩,
   ⟨some ⟨false,true,51#8⟩,some ⟨false,true⟩⟩] ++ List.replicate 8 ⟨none,some ⟨false,true⟩⟩

/-- Three words come through a FIFO of four cells in order. -/
theorem delivers_threeWords :
    (finalState FifoWorld.step (FifoWorld.zero 8 2)
        ([⟨some ⟨true,false,0#8⟩,some ⟨true,false⟩⟩] ++ threeWords)).delivered =
      [17#8,34#8,51#8] ∧
    Throughout FifoWorld.step (Conserved 1)
      (finalState FifoWorld.step (FifoWorld.zero 8 2) [⟨some ⟨true,false,0#8⟩,some ⟨true,false⟩⟩])
      threeWords :=
  ⟨by decide,
    (delivers_in_order (by decide) 1 (FifoWorld.zero 8 2)
      ⟨by simp [Resetting],by simp,by simp⟩ (by simp [threeWords,Running])).1⟩

end Misterplex.AsyncFifo
