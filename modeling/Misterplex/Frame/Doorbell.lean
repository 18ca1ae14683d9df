import Mathlib.Data.Nat.Notation
import Mathlib.Tactic.Basic

/-!
# Doorbells, SPI kicks and swaps

The part of the frame store that takes a request for a swap across its two clocks. On
clk_ddr a doorbell token read from memory, or an edge of start_req, is a kick: it puts a
bank in a register and turns a toggle over. On clk the toggle and the bank pass two
registers each; a toggle that has changed asks for a swap, which the next vertical sync
takes once the lines of the bank are ready.
-/

namespace Misterplex.FrameStore

/-- Parameters of the module that decide which doorbells count. -/
structure BellConfig where
  /-- Only doorbells of the YUV format count. -/
  strictYuvDoorbell : Bool
  /-- A doorbell left from before the reset does not count. -/
  ignoreStaleDoorbellAfterReset : Bool
  /-- The polls after which it counts after all. -/
  staleDoorbellFallbackPolls : ℕ
  deriving DecidableEq, Repr

/-- The parameters as the module declares them. -/
def BellConfig.declared : BellConfig := ⟨true,true,4096⟩

/-- The stale polls after which the reader falls back, at least one. -/
def BellConfig.staleDbPollMax (c : BellConfig) : ℕ :=
  if c.staleDoorbellFallbackPolls < 1 then 1 else c.staleDoorbellFallbackPolls

/-- The mark of a doorbell word. -/
def magic : BitVec 32 := 0x504C584B

/-- The format code of planar YUV. -/
def doorbellFormatYuv420p : BitVec 2 := 1

/-- Registers of clk_ddr that take the kicks. -/
structure Doorbell where
  /-- The word read last. -/
  wordR : BitVec 64
  /-- A word was read; the doorbell was primed then, and is now. -/
  (wordValidR wasPrimedR primed : Bool)
  /-- The last token. -/
  lastSeq : BitVec 32
  /-- A token is known; it may be a stale one. -/
  (haveSeq staleDbRecoveryPending : Bool)
  /-- Polls that found the same token. -/
  staleDbPolls : ℕ
  /-- Verdict on the last token. -/
  (formatError doorbellOk : Bool)
  /-- start_req and bank_sel, synchronised. -/
  (startD1 startD2 startSeen bankSelD1 bankSelD2 : Bool)
  /-- The bank to show, and the toggle that asks for it. -/
  (pendingBankDdr swapReqTDdr : Bool)
  deriving DecidableEq, Repr

/-- The registers that take the kicks, after reset_ddr. -/
def Doorbell.reset : Doorbell :=
  ⟨0,false,false,false,0,false,false,0,false,false,false,false,false,false,false,
    false,false⟩

/-- What the registers that take the kicks read at an edge of clk_ddr. -/
structure BellPort where
  pollPending : Bool
  /-- state_ddr is S_POLL_WAIT. -/
  pollWait : Bool
  dout : BitVec 64
  /-- A word comes; a start is asked for, of a bank. -/
  (doutReady startReq bankSel : Bool)
  deriving DecidableEq, Repr

namespace Doorbell

variable (c : BellConfig) (b : Doorbell)

/-- db_magic_ok. -/
def magicOk : Bool := b.wordValidR && b.wordR.extractLsb' 0 32 == magic

/-- db_token. -/
def token : BitVec 32 := b.wordR.extractLsb' 32 32

/-- The bank that a token names. -/
def tokenBank (t : BitVec 32) : Bool := t.getLsbD 31

/-- db_format. -/
def format : BitVec 2 := b.token.extractLsb' 29 2

/-- db_format_ok. -/
def formatOk : Bool := b.format == doorbellFormatYuv420p || !c.strictYuvDoorbell

/-- db_bad_format. -/
def badFormat : Bool := b.magicOk && !b.formatOk c

/-- db_valid_token. -/
def validToken : Bool := b.magicOk && b.formatOk c

/-- db_token_new. -/
def tokenNew : Bool := b.validToken c && (!b.haveSeq || b.token != b.lastSeq)

/-- db_token_same. -/
def tokenSame : Bool := b.validToken c && b.haveSeq && b.token == b.lastSeq

/-- db_stale_fallback. -/
def staleFallback : Bool :=
  b.tokenSame c && c.ignoreStaleDoorbellAfterReset && b.primed && b.staleDbRecoveryPending &&
    b.staleDbPolls == c.staleDbPollMax

/-- db_new_seq. -/
def newSeq : Bool :=
  (b.tokenNew c && (!c.ignoreStaleDoorbellAfterReset || b.wasPrimedR)) || b.staleFallback c

/-- spi_edge_ddr. -/
def spiEdge : Bool := b.startD2 != b.startSeen

/-- The edge of start_req is taken as a kick. -/
def spiKick : Bool := b.spiEdge && (!c.strictYuvDoorbell || (b.haveSeq && !b.formatError))

/-- A kick is accepted in this cycle. -/
def kick : Bool := b.newSeq c || b.spiKick c

/-- The bank that pending_bank_ddr takes from the kicks of this cycle. -/
def kickBank : Bool := if b.spiKick c then b.bankSelD2 else tokenBank b.token

/-- An edge of clk_ddr. -/
def step (p : BellPort) : Doorbell :=
  { wordR := p.dout
    wordValidR := p.pollPending && p.doutReady
    wasPrimedR := b.primed
    primed := if p.pollWait && p.doutReady then true else b.primed
    lastSeq := if b.tokenNew c then b.token else b.lastSeq
    haveSeq := if b.tokenNew c then true else b.haveSeq
    staleDbRecoveryPending :=
      if b.newSeq c then false
      else if b.tokenNew c then c.ignoreStaleDoorbellAfterReset && !b.wasPrimedR
      else b.staleDbRecoveryPending
    staleDbPolls :=
      if b.newSeq c then 0
      else if b.tokenNew c then 0
      else if b.magicOk && b.primed && b.staleDbPolls != c.staleDbPollMax then b.staleDbPolls+1
      else b.staleDbPolls
    formatError :=
      if b.tokenNew c then false else if b.badFormat c then true else b.formatError
    doorbellOk := if b.newSeq c then true else if b.badFormat c then false else b.doorbellOk
    startD1 := p.startReq
    startD2 := b.startD1
    startSeen := if b.spiEdge then b.startD2 else b.startSeen
    bankSelD1 := p.bankSel
    bankSelD2 := b.bankSelD1
    pendingBankDdr := if b.kick c then b.kickBank c else b.pendingBankDdr
    swapReqTDdr := if b.kick c then !b.swapReqTDdr else b.swapReqTDdr }

end Doorbell

/-- Registers of clk that take the swaps. -/
structure SwapFsm where
  /-- What is shown, and what waits for the next vsync. -/
  (dispBank pendingBank dispBuf hasFrame swapPending : Bool)
  framesDone : BitVec 16
  swapDoneToggle : Bool
  /-- The other clock's wires, synchronised. -/
  (swapReqS1 swapReqS2 swapReqSeen pendingBankS1 pendingBankS2 pendingReadyS1 pendingReadyS2 :
    Bool)
  deriving DecidableEq, Repr

/-- The registers that take the swaps, after reset. -/
def SwapFsm.reset : SwapFsm :=
  ⟨false,false,false,false,false,0,false,false,false,false,false,false,false,false⟩

/-- What the registers that take the swaps read at an edge of clk. -/
structure SwapPort where
  /-- The toggle that requests a swap. -/
  swapReqTDdr : Bool
  /-- The bank to swap to. -/
  pendingBankDdr : Bool
  /-- Its first lines are loaded. -/
  pendingReadyDdr : Bool
  /-- A vertical sync begins. -/
  vsyncPulse : Bool
  deriving DecidableEq, Repr

namespace SwapFsm

variable (f : SwapFsm)

/-- A swap request that has not been seen. -/
def swapReqNew : Bool := f.swapReqS2 != f.swapReqSeen

/-- The pending swap is taken at this vertical sync. -/
def swapComplete (vsyncPulse : Bool) : Bool := vsyncPulse && f.swapPending && f.pendingReadyS2

variable (p : SwapPort)

/-- An edge of clk. -/
def step : SwapFsm :=
  { dispBank := if f.swapComplete p.vsyncPulse then f.pendingBank else f.dispBank
    pendingBank := if f.swapReqNew then f.pendingBankS2 else f.pendingBank
    dispBuf := if f.swapComplete p.vsyncPulse then !f.dispBuf else f.dispBuf
    hasFrame := if f.swapComplete p.vsyncPulse then true else f.hasFrame
    swapPending :=
      if f.swapComplete p.vsyncPulse then f.swapReqNew
      else if f.swapReqNew then true else f.swapPending
    framesDone := if f.swapComplete p.vsyncPulse then f.framesDone+1 else f.framesDone
    swapDoneToggle :=
      if f.swapComplete p.vsyncPulse then !f.swapDoneToggle else f.swapDoneToggle
    swapReqS1 := p.swapReqTDdr
    swapReqS2 := f.swapReqS1
    swapReqSeen := if f.swapReqNew then f.swapReqS2 else f.swapReqSeen
    pendingBankS1 := p.pendingBankDdr
    pendingBankS2 := f.pendingBankS1
    pendingReadyS1 := p.pendingReadyDdr
    pendingReadyS2 := f.pendingReadyS1 }

/-- The request is seen one clock after it arrives. -/
theorem step_swapReqSeen : (f.step p).swapReqSeen=f.swapReqS2 := by
  by_cases h : f.swapReqNew=true
  · exact if_pos h
  · have hsame : f.swapReqS2=f.swapReqSeen := by simpa [swapReqNew] using h
    exact (if_neg h).trans hsame.symm

/-- A new request makes its bank the pending one. -/
theorem step_request (h : f.swapReqS2≠f.swapReqSeen) :
    (f.step p).swapPending=true ∧ (f.step p).pendingBank=f.pendingBankS2 := by
  have hnew : f.swapReqNew=true := by simpa [swapReqNew] using h
  simp [step,hnew]

/-- A pending swap stays until it is complete. -/
theorem step_pending (h : f.swapReqSeen=f.swapReqS2) (hpending : f.swapPending=true) :
    (f.step p).pendingBank=f.pendingBank ∧
      (f.swapComplete p.vsyncPulse=true ∨ (f.step p).swapPending=true) := by
  have hnew : f.swapReqNew=false := by simp [swapReqNew,h]
  constructor
  · simp [step,hnew]
  · cases hdone : f.swapComplete p.vsyncPulse with
    | true => exact Or.inl rfl
    | false =>
      simp [step,hnew,hdone,hpending]

end SwapFsm

end Misterplex.FrameStore
