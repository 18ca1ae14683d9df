import Misterplex.Lib.GrayCode
import Misterplex.Lib.RingFifo
import Misterplex.Lib.Trace

/-!
# async_fifo

The FIFO between two clocks. Each side counts in its own pointer, publishes its Gray code
and reads the code of the other side through two registers, so that it acts on a pointer
that may be old. The first word that has not been taken waits in a register of the read
side.
-/

namespace Misterplex.AsyncFifo

open GrayCode (encode decode flipLeading)

/-- Registers of the module. -/
structure Fifo (width aw : ℕ) where
  /-- mem, wr_bin and rd_bin. -/
  ring : RingFifo aw (BitVec width)
  /-- The write pointer in Gray code. -/
  wrGray : BitVec (aw+1)
  /-- The read pointer in Gray code. -/
  rdGray : BitVec (aw+1)
  /-- The read pointer as the write side first sees it. -/
  rdGrayW1 : BitVec (aw+1)
  /-- The read pointer that the write side uses. -/
  rdGrayW2 : BitVec (aw+1)
  /-- The write pointer as the read side first sees it. -/
  wrGrayR1 : BitVec (aw+1)
  /-- The write pointer that the read side uses. -/
  wrGrayR2 : BitVec (aw+1)
  /-- The word that is shown. -/
  rdDataR : BitVec width
  /-- A word is shown. -/
  rdValid : Bool

/-- Input wires at an edge of the write clock. -/
structure WrPort (width : ℕ) where
  /-- The write side is reset. -/
  reset : Bool
  /-- A word is offered. -/
  en : Bool
  /-- The word. -/
  data : BitVec width
  deriving DecidableEq, Repr

/-- Input wires at an edge of the read clock. -/
structure RdPort where
  /-- The read side is reset. -/
  reset : Bool
  /-- The reader takes a word. -/
  en : Bool
  deriving DecidableEq, Repr

/-- A moment at which one of the clocks rises, or both. -/
structure Edge (width : ℕ) where
  /-- The write clock rises. -/
  wr : Option (WrPort width)
  /-- The read clock rises. -/
  rd : Option RdPort
  deriving DecidableEq, Repr

variable {width aw : ℕ}

/-- The write side sees every cell taken. -/
def wrFull (f : Fifo width aw) : Bool := f.wrGray == flipLeading f.rdGrayW2

/-- The offered word enters the memory. -/
def wrAccept (f : Fifo width aw) (p : WrPort width) : Bool := p.en && !wrFull f

/-- The read side sees a word in the memory. -/
def rdHasEntry (f : Fifo width aw) : Bool := f.rdGray != f.wrGrayR2

/-- The reader takes the word that is shown. -/
def rdConsume (f : Fifo width aw) (p : RdPort) : Bool := p.en && f.rdValid

/-- The next word moves into the output register. -/
def rdPrefetch (f : Fifo width aw) (p : RdPort) : Bool :=
  rdHasEntry f && (!f.rdValid || rdConsume f p)

/-- The output register holds no word. -/
def rdEmpty (f : Fifo width aw) : Bool := !f.rdValid

/-- The occupancy as the write side computes it. -/
def wrOcc (f : Fifo width aw) : BitVec (aw+1) := f.ring.wr-decode f.rdGrayW2

/-- Whether the almost full level is above zero. -/
def afLevelEn (aw headroom : ℕ) : Bool := headroom+1<2^aw

/-- occ_af_w. -/
def occAf (aw headroom : ℕ) : BitVec (aw+1) :=
  BitVec.ofNat (aw+1) (if afLevelEn aw headroom then 2^aw-headroom-1 else 0)

/-- The write side is within the headroom of full. -/
def wrAlmostFull (headroom : ℕ) (f : Fifo width aw) : Bool :=
  wrFull f || (afLevelEn aw headroom && decide (occAf aw headroom≤wrOcc f))

/-- The registers of the write clock at its edge. -/
def wrEdge (f : Fifo width aw) (p : WrPort width) : Fifo width aw :=
  if p.reset then
    { f with ring := { f.ring with wr := 0 }, wrGray := 0, rdGrayW1 := 0, rdGrayW2 := 0 }
  else
    { f with
      ring := if wrAccept f p then f.ring.push p.data else f.ring
      wrGray := if wrAccept f p then encode (f.ring.wr+1) else f.wrGray
      rdGrayW1 := f.rdGray
      rdGrayW2 := f.rdGrayW1 }

/-- The registers of the read clock at its edge. -/
def rdEdge (f : Fifo width aw) (p : RdPort) : Fifo width aw :=
  if p.reset then
    { f with ring := { f.ring with rd := 0 }, rdGray := 0, wrGrayR1 := 0, wrGrayR2 := 0,
             rdDataR := 0, rdValid := false }
  else
    { f with
      ring := if rdPrefetch f p then f.ring.pop else f.ring
      rdGray := if rdPrefetch f p then encode (f.ring.rd+1) else f.rdGray
      wrGrayR1 := f.wrGray
      wrGrayR2 := f.wrGrayR1
      rdDataR := if rdPrefetch f p then f.ring.head else f.rdDataR
      rdValid := if rdPrefetch f p then true else if rdConsume f p then false else f.rdValid }

/-- One moment: the registers of each clock that rises change, all from their old values. -/
def step (f : Fifo width aw) (e : Edge width) : Fifo width aw :=
  let w := e.wr.elim f (wrEdge f)
  let r := e.rd.elim f (rdEdge f)
  { ring := { mem := w.ring.mem, wr := w.ring.wr, rd := r.ring.rd }
    wrGray := w.wrGray
    rdGray := r.rdGray
    rdGrayW1 := w.rdGrayW1
    rdGrayW2 := w.rdGrayW2
    wrGrayR1 := r.wrGrayR1
    wrGrayR2 := r.wrGrayR2
    rdDataR := r.rdDataR
    rdValid := r.rdValid }

/-- The words accepted. -/
def accepts (f : Fifo width aw) (e : Edge width) : List (BitVec width) :=
  e.wr.elim [] fun p => if wrAccept f p then [p.data] else []

/-- A word moves from the memory to the register. -/
def fetches (f : Fifo width aw) (e : Edge width) : Bool := e.rd.elim false (rdPrefetch f)

/-- The word in the register is taken. -/
def takes (f : Fifo width aw) (e : Edge width) : Bool := e.rd.elim false (rdConsume f)

/-- The word in the register. -/
def held (f : Fifo width aw) : List (BitVec width) := if f.rdValid then [f.rdDataR] else []

/-- The words delivered. -/
def delivers (f : Fifo width aw) (e : Edge width) : List (BitVec width) :=
  if takes f e then held f else []

/-- No side is reset. -/
def Running (e : Edge width) : Prop :=
  (∀ p∈e.wr, p.reset=false) ∧ ∀ p∈e.rd, p.reset=false

variable {f : Fifo width aw} {e : Edge width}

theorem wrEdge_running {p : WrPort width} (h : p.reset=false) : wrEdge f p =
    { f with
      ring := if wrAccept f p then f.ring.push p.data else f.ring
      wrGray := if wrAccept f p then encode (f.ring.wr+1) else f.wrGray
      rdGrayW1 := f.rdGray
      rdGrayW2 := f.rdGrayW1 } := by
  unfold wrEdge
  rw [h]
  exact if_neg Bool.false_ne_true

theorem rdEdge_running {p : RdPort} (h : p.reset=false) : rdEdge f p =
    { f with
      ring := if rdPrefetch f p then f.ring.pop else f.ring
      rdGray := if rdPrefetch f p then encode (f.ring.rd+1) else f.rdGray
      wrGrayR1 := f.wrGray
      wrGrayR2 := f.wrGrayR1
      rdDataR := if rdPrefetch f p then f.ring.head else f.rdDataR
      rdValid := if rdPrefetch f p then true else if rdConsume f p then false else f.rdValid } := by
  unfold rdEdge
  rw [h]
  exact if_neg Bool.false_ne_true

theorem ring_running (h : Running e) : (step f e).ring =
    if fetches f e then ((accepts f e).foldl RingFifo.push f.ring).pop
    else (accepts f e).foldl RingFifo.push f.ring := by
  obtain ⟨hwr,hrd⟩ := h
  unfold step fetches accepts
  cases hw : e.wr with
  | none =>
    cases hr : e.rd with
    | none => rfl
    | some p =>
      rw [Option.elim_some,Option.elim_some,rdEdge_running (hrd p hr)]
      cases rdPrefetch f p with
      | false => rfl
      | true => rfl
  | some q =>
    rw [Option.elim_some,Option.elim_some,wrEdge_running (hwr q hw)]
    cases hr : e.rd with
    | none =>
      cases wrAccept f q with
      | false => rfl
      | true => rfl
    | some p =>
      rw [Option.elim_some,Option.elim_some,rdEdge_running (hrd p hr)]
      cases wrAccept f q with
      | false =>
        cases rdPrefetch f p with
        | false => rfl
        | true => rfl
      | true =>
        cases rdPrefetch f p with
        | false => rfl
        | true => rfl

/-- The memory takes the words accepted and gives those that move to the register. -/
theorem contents_running (h : Running e) (hroom : accepts f e≠[] → f.ring.level.toNat<2^aw)
    (hsome : fetches f e=true → f.ring.level.toNat≠0) :
    (if fetches f e then [f.ring.head] else []) ++ (step f e).ring.contents =
      f.ring.contents ++ accepts f e := by
  rw [ring_running h]
  have hone : accepts f e=[] ∨ ∃ a, accepts f e=[a] := by
    unfold accepts
    cases e.wr with
    | none => exact Or.inl rfl
    | some p =>
      rw [Option.elim_some]
      split_ifs
      · exact Or.inr ⟨p.data,rfl⟩
      · exact Or.inl rfl
  cases hf : fetches f e with
  | false =>
    rcases hone with hnone | ⟨a,ha⟩
    · simp [hnone]
    · rw [ha] at hroom ⊢
      exact RingFifo.contents_push f.ring a (hroom (List.cons_ne_nil _ _))
  | true =>
    have hne := hsome hf
    rcases hone with hnone | ⟨a,ha⟩
    · rw [hnone]
      simp [RingFifo.contents_eq_head_cons f.ring hne]
    · rw [ha] at hroom ⊢
      exact RingFifo.contents_push_pop f.ring a (hroom (List.cons_ne_nil _ _)) hne

theorem wr_running (h : Running e) (hcode : f.wrGray=encode f.ring.wr) :
    (step f e).ring.wr=f.ring.wr+BitVec.ofNat (aw+1) (accepts f e).length ∧
      (step f e).wrGray=encode (step f e).ring.wr := by
  unfold step accepts
  cases hw : e.wr with
  | none => exact ⟨(BitVec.add_zero _).symm,hcode⟩
  | some p =>
    rw [Option.elim_some,Option.elim_some,wrEdge_running (h.1 p hw)]
    cases wrAccept f p with
    | false => exact ⟨(BitVec.add_zero _).symm,hcode⟩
    | true => exact ⟨rfl,rfl⟩

theorem rd_running (h : Running e) (hcode : f.rdGray=encode f.ring.rd) :
    (step f e).ring.rd=f.ring.rd+BitVec.ofNat (aw+1) (if fetches f e then 1 else 0) ∧
      (step f e).rdGray=encode (step f e).ring.rd := by
  unfold step fetches
  cases hr : e.rd with
  | none => exact ⟨(BitVec.add_zero _).symm,hcode⟩
  | some p =>
    rw [Option.elim_some,Option.elim_some,rdEdge_running (h.2 p hr)]
    cases rdPrefetch f p with
    | false => exact ⟨(BitVec.add_zero _).symm,hcode⟩
    | true => exact ⟨rfl,rfl⟩

theorem wrSync_running (h : Running e) :
    (step f e).rdGrayW1=(if e.wr.isSome then f.rdGray else f.rdGrayW1) ∧
      (step f e).rdGrayW2=(if e.wr.isSome then f.rdGrayW1 else f.rdGrayW2) := by
  unfold step
  cases hw : e.wr with
  | none => exact ⟨rfl,rfl⟩
  | some p =>
    rw [Option.elim_some,wrEdge_running (h.1 p hw)]
    exact ⟨rfl,rfl⟩

theorem rdSync_running (h : Running e) :
    (step f e).wrGrayR1=(if e.rd.isSome then f.wrGray else f.wrGrayR1) ∧
      (step f e).wrGrayR2=(if e.rd.isSome then f.wrGrayR1 else f.wrGrayR2) := by
  unfold step
  cases hr : e.rd with
  | none => exact ⟨rfl,rfl⟩
  | some p =>
    rw [Option.elim_some,rdEdge_running (h.2 p hr)]
    exact ⟨rfl,rfl⟩

theorem held_running (h : Running e) :
    delivers f e ++ held (step f e) = held f ++ if fetches f e then [f.ring.head] else [] := by
  unfold delivers takes fetches held step
  cases hr : e.rd with
  | none => exact (List.append_nil _).symm
  | some p =>
    rw [Option.elim_some,Option.elim_some,Option.elim_some,rdEdge_running (h.2 p hr)]
    unfold rdPrefetch rdConsume
    cases rdHasEntry f with
    | false =>
      cases p.en with
      | false => simp
      | true =>
        cases f.rdValid with
        | false => simp
        | true => simp
    | true =>
      cases p.en with
      | false =>
        cases f.rdValid with
        | false => simp
        | true => simp
      | true =>
        cases f.rdValid with
        | false => simp
        | true => simp

end Misterplex.AsyncFifo
