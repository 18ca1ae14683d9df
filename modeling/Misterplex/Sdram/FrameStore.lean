import Misterplex.Bus.AsyncFifoRun
import Misterplex.Sdram.FrameReader

/-!
# frame_store on SDRAM

The frame store of the build without DDR_FRAME_STORE. On clk, strobes become
commands for the SDRAM side and a finished frame is shown at a vertical sync.
On clk_sdram, a state machine fills the line buffers from memory and carries the
commands out: it resets the write pointer, writes a pixel, or returns a swap as
a toggle.
-/

namespace Misterplex.FrameStore

/-- The tag of a line slot. -/
structure Tag where
  valid : Bool
  bank : Bool
  line : ℕ
  deriving DecidableEq, Repr

/-- The tag after reset_ddr. -/
def Tag.reset : Tag := ⟨false,false,0⟩

/-- The slot holds a line of a bank. -/
def Tag.holds (t : Tag) (bank : Bool) (line : ℕ) : Bool := t.valid && t.bank == bank && t.line == line

/-- The tags of all slots of one kind. -/
abbrev Tags : Type := ℕ → Tag

/-- A line to fetch and the slot it is for. -/
structure Target where
  /-- target_y_cur_c and its like. -/
  line : ℕ
  /-- target_y_idx_cur_c and its like. -/
  idx : ℕ
  deriving DecidableEq, Repr

section Choice

variable (n : ℕ) (tags : Tags) (base : ℕ) (bank : Bool) (desired : ℕ → ℕ)

/-- Some slot of the half holds the line. -/
def inHalf (line : ℕ) : Bool := (List.range n).any fun tj => (tags (base+tj)).holds bank line

/-- The slot holds a line that is wanted. -/
def slotKeep (tj : ℕ) : Bool :=
  (List.range n).any fun tk => (tags (base+tj)).holds bank (desired tk)

/-- The first desired line that the half lacks, and the first slot that keeps none of them. -/
def missingCur : Option Target :=
  ((List.range n).find? fun ti => !inHalf n tags base bank (desired ti)).map fun ti =>
    ⟨desired ti,base+((List.range n).find? fun tj =>
      !(tags (base+tj)).valid || !slotKeep n tags base bank desired tj).getD 0⟩

end Choice

end Misterplex.FrameStore

namespace Misterplex.FrameSdram

open FrameStore (Tag Tags Target missingCur)

/-- The command that writes a pixel. -/
def cmdPixel (pixel : BitVec 16) : BitVec 18 := (0 : BitVec 2) ++ pixel

/-- The command that restarts the write pointer. -/
def cmdReset : BitVec 18 := (1 : BitVec 2) ++ (0 : BitVec 16)

/-- The command that swaps the banks. -/
def cmdSwap : BitVec 18 := (2 : BitVec 2) ++ (0 : BitVec 16)

/-- What a command asks for. -/
inductive Command
  | pixel
  | reset
  | swap
  deriving DecidableEq, Repr

/-- The kind of a command word; any other code is a pixel. -/
def commandOf (word : BitVec 18) : Command :=
  if word.extractLsb' 16 2 = 1 then .reset
  else if word.extractLsb' 16 2 = 2 then .swap
  else .pixel

/-- BANK0_BASE and BANK1_BASE. -/
def Geometry.storeBase (g : Geometry) (bank : Bool) : ℕ :=
  if bank then g.frameStride*g.frameH else 0

/-- A line ahead, at most the last. -/
def Geometry.clampAhead (g : Geometry) (base ahead : ℕ) : ℕ :=
  if g.frameH ≤ base+ahead then g.frameH-1 else base+ahead

/-- MAX_LINES, and the first slot of the second set. -/
def maxLines : ℕ := 8

/-- Registers of clk. -/
structure Video where
  /-- What is shown, and what is to be. -/
  (dispBank dispBuf hasFrame swapPending swapCommitWait : Bool)
  wrCount : ℕ
  /-- Wires of the other clock, synchronised. -/
  (swapDoneS1 swapDoneS2 swapDoneSeen pendingReadyS1 pendingReadyS2 : Bool)
  wantYSys : ℕ
  deriving DecidableEq, Repr

/-- What the registers of clk read. -/
structure VideoPort where
  wrEn : Bool
  wrPixel : BitVec 16
  /-- What the reader asks for. -/
  (wrResetPtr swapBanks : Bool)
  /-- The FIFO is nearly full; a frame begins. -/
  (cmdAlmostFull vsyncPulse : Bool)
  rdY : ℕ
  /-- Wires of the other clock. -/
  (swapDoneT pendingReady : Bool)

namespace Video

variable (g : Geometry) (v : Video) (p : VideoPort)

/-- The store takes a command. -/
def acceptCmd (cmdAlmostFull : Bool) : Bool :=
  !cmdAlmostFull && !v.swapPending && !v.swapCommitWait

/-- A restart enters the command FIFO. -/
def pushReset : Bool := p.wrResetPtr && v.acceptCmd p.cmdAlmostFull

/-- A pixel enters the command FIFO. -/
def pushPixel : Bool := p.wrEn && v.acceptCmd p.cmdAlmostFull

/-- A swap enters the command FIFO. -/
def pushSwap : Bool := p.swapBanks && v.acceptCmd p.cmdAlmostFull

/-- Some command enters the FIFO. -/
def cmdPush : Bool := v.pushReset p || v.pushPixel p || v.pushSwap p

/-- The command that enters the FIFO. -/
def cmdWdata : BitVec 18 :=
  if v.pushReset p then cmdReset else if v.pushSwap p then cmdSwap else cmdPixel p.wrPixel

/-- A swap has come back from the SDRAM side. -/
def swapDone : Bool := v.swapDoneS2 != v.swapDoneSeen

/-- The finished frame is shown. -/
def flips : Bool := p.vsyncPulse && v.swapPending && v.pendingReadyS2

/-- One edge of clk. -/
def step : Video :=
  { dispBank := v.dispBank != v.flips p
    dispBuf := v.dispBuf != v.flips p
    hasFrame := v.hasFrame || v.flips p
    swapPending := !v.flips p && (v.swapDone || v.swapPending)
    swapCommitWait := !v.swapDone && (v.pushSwap p || v.swapCommitWait)
    wrCount :=
      if v.pushReset p then 0
      else if v.pushPixel p && decide (v.wrCount<g.pixels) then v.wrCount+1 else v.wrCount
    swapDoneS1 := p.swapDoneT
    swapDoneS2 := v.swapDoneS1
    swapDoneSeen := if v.swapDone then v.swapDoneS2 else v.swapDoneSeen
    pendingReadyS1 := p.pendingReady
    pendingReadyS2 := v.pendingReadyS1
    wantYSys := p.rdY }

/-- The registers of clk after reset. -/
def reset : Video :=
  ⟨false,false,false,false,false,0,false,false,false,false,false,0⟩

end Video

/-- state_sdram. -/
inductive SdramState
  | idle
  | readIssue
  | readWait
  | writeIssue
  | writeWait
  | swap
  | decide
  deriving DecidableEq, Repr

/-- Registers of clk_sdram. -/
structure Writer where
  /-- Of the memory. -/
  state : SdramState
  /-- Place of the next pixel written. -/
  (wrAddr wrX wrY : ℕ)
  /-- Banks written and read. -/
  (wrBank fillBank : Bool)
  /-- Place of the next pixel read, and its line slot. -/
  (fillX fillY fillIdx : ℕ)
  /-- line_valid, line_bank and line_y. -/
  tags : Tags
  /-- Wires of the other clock, synchronised. -/
  (dispBankS1 dispBankS2 dispBufS1 dispBufS2 swapPendingS1 swapPendingS2 : Bool)
  /-- want_y, synchronised. -/
  wantYS1 : ℕ
  /-- The lines that are wanted. -/
  desiredYR : ℕ → ℕ
  /-- target_y_cur and target_idx_cur, when need_fill_cur. -/
  fillCur : Option Target
  /-- target_y_prep and target_idx_prep, when need_fill_prep. -/
  fillPrep : Option Target
  /-- The pending bank can be shown. -/
  pendingReady : Bool
  /-- The command being carried out. -/
  cmdHold : BitVec 18
  /-- A command is taken; the toggle of a swap. -/
  (cmdPop swapDoneT : Bool)
  sdramAddr : ℕ
  sdramDin : BitVec 16
  /-- What is asked of the memory. -/
  (sdramWr sdramRd : Bool)

/-- What the registers of clk_sdram read. -/
structure WriterPort where
  /-- Registers of the other clock. -/
  (dispBank dispBuf swapPending : Bool)
  wantYSys : ℕ
  /-- cmd_rdata, unless cmd_empty. -/
  command : Option (BitVec 18)
  ready : Bool

namespace Writer

variable (g : Geometry) (w : Writer) (p : WriterPort)

/-- cur_base_idx. -/
def curBase : ℕ := if w.dispBufS2 then maxLines else 0

/-- prep_base_idx. -/
def prepBase : ℕ := if w.dispBufS2 then 0 else maxLines

/-- target_y_cur_c and target_idx_cur_c, when need_fill_cur_c. -/
def fillCurC : Option Target :=
  missingCur g.lineCount w.tags w.curBase w.dispBankS2 w.desiredYR

/-- target_y_prep_c and target_idx_prep_c, when need_fill_prep_c. -/
def fillPrepC : Option Target := missingCur g.lineCount w.tags w.prepBase (!w.dispBankS2) id

/-- The line to fetch and its bank, decided in S_DECIDE. -/
def startsFill : Option (Target × Bool) :=
  if w.state = .decide then
    match w.fillCur,w.fillPrep with
    | some target,_ => some (target,w.dispBankS2)
    | none,some target => if w.swapPendingS2 then some (target,!w.dispBankS2) else none
    | none,none => none
  else none

/-- The command that is carried out, decided in S_DECIDE. -/
def takes : Option (BitVec 18) :=
  if w.state = .decide && (w.startsFill).isNone then p.command else none

/-- The write pointer is reset. -/
def resets : Bool := (w.takes p).map commandOf == some .reset

/-- A pixel is put on the port. -/
def writes : Bool := w.state == .writeIssue && p.ready

/-- A pixel is written. -/
def written : Bool := w.state == .writeWait && p.ready

/-- The base of the bank being written. -/
def wrBase : ℕ := g.storeBase w.wrBank

/-- The memory address of the next fill. -/
def readWordAddr : ℕ := g.storeBase w.fillBank+w.fillY*g.frameStride+w.fillX

/-- The next state of the state machine. -/
def nextState : SdramState :=
  match w.state with
  | .idle => .decide
  | .decide =>
    if (w.startsFill).isSome then .readIssue
    else
      match (w.takes p).map commandOf with
      | none => .idle
      | some .reset => .decide
      | some .swap => .swap
      | some .pixel => .writeIssue
  | .readIssue => if p.ready then .readWait else .readIssue
  | .readWait =>
    if p.ready then (if w.fillX = g.frameW-1 then .idle else .readIssue) else .readWait
  | .writeIssue => if p.ready then .writeWait else .writeIssue
  | .writeWait => if p.ready then .idle else .writeWait
  | .swap => .idle

/-- The last word of a line has been read. -/
def endsFill : Bool := w.state == .readWait && p.ready && w.fillX == g.frameW-1

/-- The tags of the line buffers. -/
def nextTags : Tags :=
  match w.startsFill with
  | some (target,bank) =>
    Function.update w.tags target.idx { w.tags target.idx with valid := false, bank := bank }
  | none =>
    if w.endsFill g p then Function.update w.tags w.fillIdx ⟨true,w.fillBank,w.fillY⟩
    else w.tags

/-- One edge of clk_sdram. -/
def step : Writer :=
  { state := w.nextState g p
    wrAddr :=
      if w.resets p then g.storeBase (!w.dispBankS2)
      else if w.written p then
        if w.wrX = g.frameW-1 then
          if w.wrY = g.frameH-1 then w.wrBase g
          else w.wrBase g+(w.wrY+1)*g.frameStride
        else w.wrAddr+1
      else w.wrAddr
    wrX :=
      if w.resets p then 0
      else if w.written p then (if w.wrX = g.frameW-1 then 0 else w.wrX+1)
      else w.wrX
    wrY :=
      if w.resets p then 0
      else if w.written p && w.wrX == g.frameW-1 then
        if w.wrY = g.frameH-1 then 0 else w.wrY+1
      else w.wrY
    wrBank := if w.resets p then !w.dispBankS2 else w.wrBank
    fillBank := ((w.startsFill).map Prod.snd).getD w.fillBank
    fillX :=
      if (w.startsFill).isSome then 0
      else if w.state == .readWait && p.ready && w.fillX != g.frameW-1 then w.fillX+1
      else w.fillX
    fillY := ((w.startsFill).map fun fill => fill.1.line).getD w.fillY
    fillIdx := ((w.startsFill).map fun fill => fill.1.idx).getD w.fillIdx
    tags := w.nextTags g p
    dispBankS1 := p.dispBank
    dispBankS2 := w.dispBankS1
    dispBufS1 := p.dispBuf
    dispBufS2 := w.dispBufS1
    swapPendingS1 := p.swapPending
    swapPendingS2 := w.swapPendingS1
    wantYS1 := p.wantYSys
    desiredYR := g.clampAhead w.wantYS1
    fillCur := if w.state = .idle then w.fillCurC g else w.fillCur
    fillPrep := if w.state = .idle then w.fillPrepC g else w.fillPrep
    pendingReady := if w.state = .idle then (w.fillPrepC g).isNone else w.pendingReady
    cmdHold := (w.takes p).getD w.cmdHold
    cmdPop := (w.takes p).isSome
    swapDoneT := w.swapDoneT != (w.state == .swap)
    sdramAddr :=
      if w.writes p then w.wrAddr
      else if w.state == .readIssue && p.ready then w.readWordAddr g else w.sdramAddr
    sdramDin := if w.writes p then w.cmdHold.extractLsb' 0 16 else w.sdramDin
    sdramWr := w.writes p
    sdramRd := w.state == .readIssue && p.ready }

/-- The registers of clk_sdram after reset. -/
def reset (g : Geometry) : Writer :=
  { state := .idle, wrAddr := g.storeBase true, wrX := 0, wrY := 0, wrBank := true,
    fillBank := false, fillX := 0, fillY := 0, fillIdx := 0, tags := fun _ => Tag.reset,
    dispBankS1 := false, dispBankS2 := false, dispBufS1 := false, dispBufS2 := false,
    swapPendingS1 := false, swapPendingS2 := false, wantYS1 := 0, desiredYR := fun _ => 0,
    fillCur := none, fillPrep := none, pendingReady := false, cmdHold := 0, cmdPop := false,
    swapDoneT := false, sdramAddr := 0, sdramDin := 0, sdramWr := false, sdramRd := false }

end Writer

end Misterplex.FrameSdram
