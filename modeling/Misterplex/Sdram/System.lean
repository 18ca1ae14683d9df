import Misterplex.Sdram.FrameStore

/-!
# Reader, frame store and SDRAM

The reader and the frame store as the top level wires them, without an F1
download and without writes of the stub, over a memory of words. One moment is an
edge of clk, of clk_sdram, or of both; each clock that rises changes its registers
from the old values of both. The command FIFO stands with the words it has taken
and given since reset.

Every command that the frame store takes goes into the FIFO, and the state machine of
the SDRAM side meets the commands in that order. The word at its head is there until
the state machine pops it, one edge after it was decided on.
-/

namespace Misterplex.FrameSdram

open AsyncFifo (Fifo FifoWorld Edge WrPort RdPort)

/-- What comes from outside at an edge of clk. -/
structure ClkIn where
  /-- A start, and its bank. -/
  (startReq bankSel : Bool)
  ddramBusy : Bool
  dout : BitVec 64
  doutReady : Bool
  waiting : Mailbox → Bool
  /-- The memory is not ready; a frame begins. -/
  (startupBusy vsyncPulse : Bool)
  rdY : ℕ

/-- A moment at which one of the two clocks rises, or both. -/
structure Moment where
  /-- The system clock rises. -/
  clk : Option ClkIn
  /-- clk_sdram rises, with sdram_ready. -/
  sdram : Option Bool

/-- The registers of both modules, the command FIFO and the memory. -/
structure System (g : Geometry) where
  /-- The frame reader. -/
  reader : Reader
  /-- The registers of clk in the frame store. -/
  video : Video
  /-- The registers of clk_sdram in the frame store. -/
  writer : Writer
  /-- The command FIFO. -/
  cmds : FifoWorld 18 g.cmdFifoAw
  /-- The memory. -/
  mem : ℕ → BitVec 16

/-- The headroom of the command FIFO. -/
def afHeadroom : ℕ := 4

namespace System

variable {g : Geometry} (s : System g)

/-- The command FIFO is almost full. -/
def cmdAlmostFull : Bool := AsyncFifo.wrAlmostFull afHeadroom s.cmds.fifo

/-- accept_cmd, which is wr_ready. -/
def acceptCmd : Bool := s.video.acceptCmd s.cmdAlmostFull

/-- fs_wr_en: the pixels of the reader pass while it is busy. -/
def fsWrEn : Bool := s.reader.busy && s.reader.wrEn

/-- What the reader reads. -/
def readerPort (p : ClkIn) : ReaderPort :=
  ⟨p.startReq,p.bankSel,s.video.swapPending,p.ddramBusy,p.dout,p.doutReady,
    s.acceptCmd && !p.startupBusy,p.waiting⟩

/-- What the registers of clk read. -/
def videoPort (p : ClkIn) : VideoPort :=
  ⟨s.fsWrEn,s.reader.wrPixel,s.reader.wrResetPtr,s.reader.swapReq,s.cmdAlmostFull,
    p.vsyncPulse,p.rdY,s.writer.swapDoneT,s.writer.pendingReady⟩

/-- What the registers of clk_sdram read. -/
def writerPort (ready : Bool) : WriterPort :=
  ⟨s.video.dispBank,s.video.dispBuf,s.video.swapPending,s.video.wantYSys,
    (AsyncFifo.held s.cmds.fifo).head?,ready⟩

/-- What the command FIFO sees. -/
def cmdEdge (m : Moment) : Edge 18 :=
  ⟨m.clk.map fun p =>
      ⟨false,s.video.cmdPush (s.videoPort p),s.video.cmdWdata (s.videoPort p)⟩,
    m.sdram.map fun _ => ⟨false,s.writer.cmdPop⟩⟩

/-- One moment: either clock may have its edge. -/
def step (m : Moment) : System g :=
  { reader := m.clk.elim s.reader fun p => s.reader.step g (s.readerPort p)
    video := m.clk.elim s.video fun p => s.video.step g (s.videoPort p)
    writer := m.sdram.elim s.writer fun ready => s.writer.step g (s.writerPort ready)
    cmds := s.cmds.step (s.cmdEdge m)
    mem :=
      if m.sdram.isSome && s.writer.sdramWr then
        Function.update s.mem s.writer.sdramAddr s.writer.sdramDin
      else s.mem }

/-- A transfer is launched. -/
def launches (m : Moment) : Option Bool :=
  m.clk.bind fun p => s.reader.launch (s.readerPort p)

/-- The finished frame is shown. -/
def flips (m : Moment) : Bool := m.clk.elim false fun p => s.video.flips (s.videoPort p)

/-- Both modules after reset, with anything in memory. -/
def reset (g : Geometry) (mem : ℕ → BitVec 16) : System g :=
  { reader := Reader.reset, video := Video.reset, writer := Writer.reset g,
    cmds := ⟨⟨⟨fun _ => 0,0,0⟩,0,0,0,0,0,0,0,false⟩,[],[]⟩, mem := mem }

end System

/-- The word of a pixel in a bank. -/
def Geometry.wordOf (g : Geometry) (bank : Bool) (y x : ℕ) : ℕ :=
  g.storeBase bank+y*g.frameStride+x

/-- The displayed bank holds the frame. -/
def System.Shows {g : Geometry} (s : System g) (frame : ℕ → BitVec 16) : Prop :=
  ∀ y<g.frameH, ∀ x<g.frameW,
    s.mem (g.wordOf s.video.dispBank y x)=frame (y*g.frameW+x)

open AsyncFifo (Synced Running held)

variable {g : Geometry} {s : System g}

@[simp] theorem commandOf_cmdReset : commandOf cmdReset = .reset := by decide

@[simp] theorem commandOf_cmdSwap : commandOf cmdSwap = .swap := by decide

@[simp] theorem commandOf_cmdPixel (pixel : BitVec 16) : commandOf (cmdPixel pixel) = .pixel := by
  have hcode : (cmdPixel pixel).extractLsb' 16 2=0 := by
    unfold cmdPixel
    ext i hi
    simp only [BitVec.getElem_extractLsb',BitVec.getLsbD_append]
    have hhigh : ¬16+i<16 := by omega
    simp [hhigh]
  unfold commandOf
  rw [hcode]
  rfl

namespace System

/-- The commands that the frame store takes at a moment. -/
def pushed (s : System g) (m : Moment) : List (BitVec 18) :=
  m.clk.elim [] fun p =>
    if s.video.cmdPush (s.videoPort p) then [s.video.cmdWdata (s.videoPort p)] else []

/-- The commands that leave the FIFO at a moment. -/
def popped (s : System g) (m : Moment) : List (BitVec 18) :=
  if m.sdram.isSome && s.writer.cmdPop then held s.cmds.fifo else []

theorem cmdEdge_running (s : System g) (m : Moment) : Running (s.cmdEdge m) := by
  constructor
  · intro p hp
    cases hclk : m.clk with
    | none => simp [cmdEdge,hclk] at hp
    | some q =>
      simp only [cmdEdge,hclk,Option.map_some,Option.mem_def,Option.some.injEq] at hp
      rw [← hp]
  · intro p hp
    cases hsdram : m.sdram with
    | none => simp [cmdEdge,hsdram] at hp
    | some q =>
      simp only [cmdEdge,hsdram,Option.map_some,Option.mem_def,Option.some.injEq] at hp
      rw [← hp]

theorem acceptCmd_of_cmdPush {p : ClkIn} (h : s.video.cmdPush (s.videoPort p)=true) :
    s.acceptCmd=true := by
  simp only [Video.cmdPush,Video.pushReset,Video.pushPixel,Video.pushSwap,Bool.or_eq_true,
    Bool.and_eq_true] at h
  rcases h with (h | h) | h
  · exact h.2
  · exact h.2
  · exact h.2

open AsyncFifo

/-- The words that enter the FIFO. -/
theorem step_accepted (s : System g) (m : Moment) :
    (s.step m).cmds.accepted = s.cmds.accepted ++ s.pushed m := by
  have haccepted := (s.cmdEdge_running m).accepted (w := s.cmds)
  refine haccepted.trans ?_
  unfold accepts pushed cmdEdge
  cases m.clk with
  | none => rfl
  | some p =>
    simp only [Option.map_some,Option.elim_some,wrAccept]
    cases hpush : s.video.cmdPush (s.videoPort p) with
    | false => rfl
    | true =>
      have haccept := acceptCmd_of_cmdPush hpush
      simp only [acceptCmd,Video.acceptCmd,cmdAlmostFull,AsyncFifo.wrAlmostFull,
        Bool.and_eq_true,Bool.not_eq_true',Bool.or_eq_false_iff] at haccept
      have hfull : AsyncFifo.wrFull s.cmds.fifo=false := haccept.1.1.1
      simp only [hfull,Bool.not_false,Bool.and_self]

/-- The words that leave the FIFO. -/
theorem step_delivered (s : System g) (m : Moment) :
    (s.step m).cmds.delivered = s.cmds.delivered ++ s.popped m := by
  have hdelivered := (s.cmdEdge_running m).delivered (w := s.cmds)
  refine hdelivered.trans ?_
  unfold delivers takes popped cmdEdge
  cases m.sdram with
  | none => rfl
  | some ready =>
    simp only [Option.map_some,Option.elim_some,rdConsume,Option.isSome_some,
      Bool.true_and]
    cases hpop : s.writer.cmdPop with
    | false => rfl
    | true =>
      simp only [Bool.true_and,held,if_true]
      split <;> rfl

theorem held_cases (s : System g) : held s.cmds.fifo=[] ∨ ∃ word, held s.cmds.fifo=[word] := by
  unfold held
  split
  · exact Or.inr ⟨_,rfl⟩
  · exact Or.inl rfl

/-- The word that is shown stays until it is taken. -/
theorem step_held {m : Moment} {word : BitVec 18} (hword : held s.cmds.fifo=[word])
    (hpop : s.popped m=[]) : held (s.step m).cmds.fifo=[word] := by
  have hmove := held_running (f := s.cmds.fifo) (s.cmdEdge_running m)
  have hdelivers : delivers s.cmds.fifo (s.cmdEdge m)=[] := by
    have hnext := (s.cmdEdge_running m).delivered (w := s.cmds)
    have hsame := s.step_delivered m
    rw [hpop,List.append_nil] at hsame
    have hboth : s.cmds.delivered = s.cmds.delivered ++
        delivers s.cmds.fifo (s.cmdEdge m) := hsame.symm.trans hnext
    exact List.self_eq_append_right.mp hboth
  rw [hdelivers,List.nil_append,hword] at hmove
  rcases (s.step m).held_cases with hnone | ⟨other,hother⟩
  · have hempty : held (AsyncFifo.step s.cmds.fifo (s.cmdEdge m))=[] := hnone
    rw [hempty] at hmove
    simp at hmove
  · have hsingle : held (AsyncFifo.step s.cmds.fifo (s.cmdEdge m))=[other] := hother
    rw [hsingle] at hmove
    have hsame : other=word := (List.cons.inj hmove).1
    rw [hother,hsame]

end System

theorem Writer.takes_some {w : Writer} {p : WriterPort} {word : BitVec 18}
    (h : w.takes p=some word) :
    w.state = .decide ∧ w.startsFill=none ∧ p.command=some word := by
  unfold Writer.takes at h
  split at h
  · rename_i hcond
    simp only [Bool.and_eq_true,decide_eq_true_eq,Option.isNone_iff_eq_none] at hcond
    exact ⟨hcond.1,hcond.2,h⟩
  · exact absurd h (by simp)

theorem Writer.takes_none {w : Writer} (p : WriterPort) (h : w.state ≠ .decide) :
    w.takes p=none := by
  unfold Writer.takes
  rw [if_neg (by simp [h])]

theorem System.command_some {ready : Bool} {word : BitVec 18}
    (h : (s.writerPort ready).command=some word) : held s.cmds.fifo=[word] := by
  change (held s.cmds.fifo).head?=some word at h
  rcases s.held_cases with hnone | ⟨other,hother⟩
  · rw [hnone] at h
    exact absurd h (by simp)
  · rw [hother] at h ⊢
    rw [Option.some.inj h]

theorem not_almostFull {w1 w2 r1 r2 : ℕ} (h : Synced s.cmds w1 w2 r1 r2) (haw : 1≤g.cmdFifoAw)
    (hseen : r2=s.cmds.accepted.length) : s.cmdAlmostFull=false := by
  have hfull : AsyncFifo.wrFull s.cmds.fifo=false := by
    have hiff := h.full_iff haw
    have hpos := Nat.two_pow_pos g.cmdFifoAw
    cases hf : AsyncFifo.wrFull s.cmds.fifo with
    | false => rfl
    | true =>
      have heq := hiff.mp hf
      omega
  have hocc := h.wrOcc_eq
  unfold System.cmdAlmostFull AsyncFifo.wrAlmostFull
  rw [hfull,Bool.false_or]
  cases hen : AsyncFifo.afLevelEn g.cmdFifoAw afHeadroom with
  | false => rfl
  | true =>
    have hdeep : afHeadroom+1<2^g.cmdFifoAw := of_decide_eq_true hen
    rw [Bool.true_and,decide_eq_false_iff_not,BitVec.le_def,hocc,AsyncFifo.occAf,if_pos hen,
      BitVec.toNat_ofNat,Nat.mod_eq_of_lt (by omega)]
    omega

end Misterplex.FrameSdram
