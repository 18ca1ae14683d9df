import Misterplex.Lib.GrayCode
import Misterplex.Lib.RingFifo
import Misterplex.Lib.Trace

/-!
# audio_fifo

The sample FIFO between the system clock and the audio clock. Every 512 audio
clocks a sample is played from a register that is loaded with the memory word
under the read pointer two clocks behind. A flush moves the write pointer to
zero and leaves the read pointer where it is.
-/

namespace Misterplex.AudioFifo

open GrayCode (encode decode flipLeading)

/-- Registers of the module. -/
structure Fifo (aw : ℕ) where
  /-- mem, wr_ptr and rd_ptr. -/
  ring : RingFifo aw (BitVec 32)
  /-- The pointers in Gray code. -/
  (wrGray rdGray : BitVec (aw+1))
  /-- A word was written since the last flush. -/
  hasWr : Bool
  /-- The pointers as the other side sees them. -/
  (rdGrayW1 rdGrayW2 wrGrayR1 wrGrayR2 : BitVec (aw+1))
  /-- has_wr as the read side sees it. -/
  (hasWrS1 hasWrS2 : Bool)
  /-- Words as the write side counts them. -/
  wrLevel : BitVec 16
  /-- Divider of the sample clock. -/
  sdiv : BitVec 9
  /-- The word under the read pointer. -/
  rdData : BitVec 32
  /-- rd_addr_r, the low bits of a pointer. -/
  rdAddrR : ℕ
  /-- The sample being played. -/
  (sampleL sampleR : BitVec 16)
  /-- A sample was due and there was none. -/
  underrun : Bool

/-- Input wires at an edge of clk_wr. -/
structure WrPort where
  /-- A word is offered. -/
  en : Bool
  /-- The word. -/
  data : BitVec 32
  /-- The FIFO is flushed. -/
  flush : Bool
  deriving DecidableEq, Repr

/-- Input wires at an edge of clk_rd. -/
structure RdPort where
  enable : Bool
  deriving DecidableEq, Repr

/-- A moment at which one of the clocks rises, or both. -/
structure Edge where
  /-- The write clock rises. -/
  wr : Option WrPort
  /-- The read clock rises. -/
  rd : Option RdPort
  deriving DecidableEq, Repr

variable {aw : ℕ}

/-- The registers after reset, over any memory. -/
def Fifo.start (mem : ℕ → BitVec 32) : Fifo aw where
  ring := { mem, wr := 0, rd := 0 }
  wrGray := 0
  rdGray := 0
  hasWr := false
  rdGrayW1 := 0
  rdGrayW2 := 0
  wrGrayR1 := 0
  wrGrayR2 := 0
  hasWrS1 := false
  hasWrS2 := false
  wrLevel := 0
  sdiv := 0
  rdData := 0
  rdAddrR := 0
  sampleL := 0
  sampleR := 0
  underrun := false

/-- The write side sees every cell taken. -/
def wrFull (f : Fifo aw) : Bool := f.wrGray == flipLeading f.rdGrayW2

/-- The read side sees no entry. -/
def rdEmpty (f : Fifo aw) : Bool := f.rdGray == f.wrGrayR2

/-- A sample is written. -/
def wrAccept (f : Fifo aw) (p : WrPort) : Bool := !p.flush && p.en && !wrFull f

/-- The audio clock that ends a sample period. -/
def tick (f : Fifo aw) (p : RdPort) : Bool := p.enable && f.sdiv == 0

/-- A sample is played. -/
def rdPlay (f : Fifo aw) (p : RdPort) : Bool := tick f p && !rdEmpty f

/-- The registers of clk_wr at its edge. -/
def wrEdge (f : Fifo aw) (p : WrPort) : Fifo aw :=
  { f with
    rdGrayW1 := f.rdGray
    rdGrayW2 := f.rdGrayW1
    ring :=
      if p.flush then { f.ring with wr := 0 }
      else if wrAccept f p then f.ring.push p.data else f.ring
    wrGray := if p.flush then 0 else if wrAccept f p then encode (f.ring.wr+1) else f.wrGray
    hasWr := f.hasWr || wrAccept f p
    wrLevel := if p.flush then 0 else ((f.ring.wr-decode f.rdGrayW2).setWidth aw).setWidth 16 }

/-- The registers of clk_rd at its edge: while disabled the output is silent and the other
registers of the read port stay. -/
def rdEdge (f : Fifo aw) (p : RdPort) : Fifo aw :=
  { f with
    wrGrayR1 := f.wrGray
    wrGrayR2 := f.wrGrayR1
    hasWrS1 := f.hasWr
    hasWrS2 := f.hasWrS1
    sdiv := if p.enable then f.sdiv+1 else f.sdiv
    rdAddrR := if p.enable then RingFifo.slot f.ring.rd else f.rdAddrR
    rdData := if p.enable then f.ring.mem f.rdAddrR else f.rdData
    ring := if rdPlay f p then f.ring.pop else f.ring
    rdGray := if rdPlay f p then encode (f.ring.rd+1) else f.rdGray
    sampleL :=
      if !p.enable then 0
      else if rdPlay f p then f.rdData.setWidth 16
      else if tick f p then 0 else f.sampleL
    sampleR :=
      if !p.enable then 0
      else if rdPlay f p then (f.rdData >>> 16).setWidth 16
      else if tick f p then 0 else f.sampleR
    underrun := f.underrun || (tick f p && rdEmpty f && f.hasWrS2) }

/-- One moment: the registers of each clock that rises change, all from their old values. -/
def step (f : Fifo aw) (e : Edge) : Fifo aw :=
  let w := e.wr.elim f (wrEdge f)
  let r := e.rd.elim f (rdEdge f)
  { r with
    ring := { mem := w.ring.mem, wr := w.ring.wr, rd := r.ring.rd }
    wrGray := w.wrGray
    hasWr := w.hasWr
    rdGrayW1 := w.rdGrayW1
    rdGrayW2 := w.rdGrayW2
    wrLevel := w.wrLevel }

/-- The FIFO is flushed. -/
def flushes (e : Edge) : Bool := e.wr.elim false WrPort.flush

/-- The samples accepted. -/
def accepts (f : Fifo aw) (e : Edge) : List (BitVec 32) :=
  e.wr.elim [] fun p => if wrAccept f p then [p.data] else []

/-- A sample is played. -/
def playing (f : Fifo aw) (e : Edge) : Bool := e.rd.elim false (rdPlay f)

/-- The samples played. -/
def plays (f : Fifo aw) (e : Edge) : List (BitVec 32) := if playing f e then [f.rdData] else []

variable {f : Fifo aw} {e : Edge}

/-- The write pointer goes past an accepted word, or to zero at a flush, and its Gray code goes
with it. -/
theorem wr_step (hcode : f.wrGray=encode f.ring.wr) :
    (step f e).ring.wr =
        (if flushes e then 0 else f.ring.wr+BitVec.ofNat (aw+1) (accepts f e).length) ∧
      (step f e).wrGray=encode (step f e).ring.wr := by
  unfold step accepts flushes
  cases e.wr with
  | none => exact ⟨(BitVec.add_zero _).symm,hcode⟩
  | some p =>
    rw [Option.elim_some,Option.elim_some,Option.elim_some,wrEdge]
    cases p.flush with
    | true =>
      simp [encode]
    | false =>
      cases wrAccept f p with
      | false => exact ⟨(BitVec.add_zero _).symm,hcode⟩
      | true => exact ⟨rfl,rfl⟩

/-- The read pointer goes past a played word, and its Gray code goes with it. -/
theorem rd_step (hcode : f.rdGray=encode f.ring.rd) :
    (step f e).ring.rd=f.ring.rd+BitVec.ofNat (aw+1) (plays f e).length ∧
      (step f e).rdGray=encode (step f e).ring.rd := by
  unfold step plays playing
  cases e.rd with
  | none => exact ⟨(BitVec.add_zero _).symm,hcode⟩
  | some p =>
    rw [Option.elim_some,Option.elim_some,rdEdge]
    cases rdPlay f p with
    | false => exact ⟨(BitVec.add_zero _).symm,hcode⟩
    | true => exact ⟨rfl,rfl⟩

/-- The read pointer moves through the write side's two registers. -/
theorem wrSync_step :
    (step f e).rdGrayW1=(if e.wr.isSome then f.rdGray else f.rdGrayW1) ∧
      (step f e).rdGrayW2=(if e.wr.isSome then f.rdGrayW1 else f.rdGrayW2) := by
  unfold step
  cases e.wr with
  | none => exact ⟨rfl,rfl⟩
  | some p => exact ⟨rfl,rfl⟩

/-- The write pointer moves through the read side's two registers. -/
theorem rdSync_step :
    (step f e).wrGrayR1=(if e.rd.isSome then f.wrGray else f.wrGrayR1) ∧
      (step f e).wrGrayR2=(if e.rd.isSome then f.wrGrayR1 else f.wrGrayR2) := by
  unfold step
  cases e.rd with
  | none => exact ⟨rfl,rfl⟩
  | some p => exact ⟨rfl,rfl⟩

/-- Without a flush the memory takes the samples accepted and gives those that are played. -/
theorem ring_step (hflush : flushes e=false) : (step f e).ring =
    if playing f e then ((accepts f e).foldl RingFifo.push f.ring).pop
    else (accepts f e).foldl RingFifo.push f.ring := by
  unfold flushes at hflush
  unfold step accepts playing
  cases hw : e.wr with
  | none =>
    cases e.rd with
    | none => rfl
    | some p =>
      rw [Option.elim_some,Option.elim_some,rdEdge]
      cases rdPlay f p with
      | false => rfl
      | true => rfl
  | some q =>
    rw [hw,Option.elim_some] at hflush
    rw [Option.elim_some,Option.elim_some,wrEdge,hflush]
    cases e.rd with
    | none =>
      cases wrAccept f q with
      | false => rfl
      | true => rfl
    | some p =>
      rw [Option.elim_some,Option.elim_some,rdEdge]
      cases wrAccept f q with
      | false =>
        cases rdPlay f p with
        | false => rfl
        | true => rfl
      | true =>
        cases rdPlay f p with
        | false => rfl
        | true => rfl

theorem accepts_cases (f : Fifo aw) (e : Edge) :
    accepts f e=[] ∨ ∃ p, e.wr=some p ∧ wrAccept f p=true ∧ accepts f e=[p.data] := by
  unfold accepts
  cases e.wr with
  | none => exact Or.inl rfl
  | some p =>
    rw [Option.elim_some]
    cases haccept : wrAccept f p with
    | false => exact Or.inl rfl
    | true => exact Or.inr ⟨p,rfl,haccept,rfl⟩

/-- What is played and what is left are what was there and what was accepted. -/
theorem contents_step (hflush : flushes e=false)
    (hroom : accepts f e≠[] → f.ring.level.toNat<2^aw)
    (hsome : playing f e=true → f.ring.level.toNat≠0) :
    (if playing f e then [f.ring.head] else []) ++ (step f e).ring.contents =
      f.ring.contents ++ accepts f e := by
  rw [ring_step hflush]
  cases hplay : playing f e with
  | false =>
    rcases accepts_cases f e with hnone | ⟨p,-,-,hone⟩
    · simp [hnone]
    · rw [hone] at hroom ⊢
      exact RingFifo.contents_push f.ring p.data (hroom (List.cons_ne_nil _ _))
  | true =>
    have hne := hsome hplay
    rcases accepts_cases f e with hnone | ⟨p,-,-,hone⟩
    · rw [hnone]
      simp [RingFifo.contents_eq_head_cons f.ring hne]
    · rw [hone] at hroom ⊢
      exact RingFifo.contents_push_pop f.ring p.data (hroom (List.cons_ne_nil _ _)) hne

/-- The head stays while nothing is played. -/
theorem head_step (hflush : flushes e=false) (hplay : playing f e=false)
    (hroom : accepts f e≠[] → f.ring.level.toNat<2^aw) (hsome : f.ring.level.toNat≠0) :
    (step f e).ring.head=f.ring.head := by
  rw [ring_step hflush,hplay,if_neg Bool.false_ne_true]
  rcases accepts_cases f e with hnone | ⟨p,-,-,hone⟩
  · rw [hnone]
    rfl
  · rw [hone] at hroom ⊢
    exact RingFifo.head_push f.ring p.data (hroom (List.cons_ne_nil _ _)) hsome

theorem playing_eq_true (h : playing f e=true) :
    (∃ p, e.rd=some p ∧ p.enable=true) ∧ f.sdiv=0 ∧ rdEmpty f=false := by
  unfold playing at h
  cases hr : e.rd with
  | none =>
    rw [hr] at h
    cases h
  | some p =>
    rw [hr,Option.elim_some,rdPlay,tick] at h
    simp only [Bool.and_eq_true,beq_iff_eq,Bool.not_eq_true'] at h
    exact ⟨⟨p,rfl,h.1.1⟩,h.1.2,h.2⟩

/-- The read port on its clock. -/
theorem port_step {p : RdPort} (hrd : e.rd=some p) (hon : p.enable=true) :
    (step f e).sdiv=f.sdiv+1 ∧ (step f e).rdAddrR=RingFifo.slot f.ring.rd ∧
      (step f e).rdData=f.ring.mem f.rdAddrR := by
  unfold step
  rw [hrd,Option.elim_some,rdEdge,hon]
  exact ⟨rfl,rfl,rfl⟩

theorem port_step_none (hrd : e.rd=none) :
    (step f e).sdiv=f.sdiv ∧ (step f e).rdAddrR=f.rdAddrR ∧ (step f e).rdData=f.rdData := by
  unfold step
  rw [hrd]
  exact ⟨rfl,rfl,rfl⟩

end Misterplex.AudioFifo
