import Misterplex.Lib.RingFifo

/-!
# ddram_frame_rd

The reader of finished frames. A start comes as an edge of start_req or as a new
number in the doorbell word, which is polled between two frames. A frame is read
in bursts into a FIFO of quadwords and sent out pixel by pixel, after one strobe
that resets the write pointer and with a swap request at the last pixel. A start
that cannot be launched is held.
-/

namespace Misterplex.FrameSdram

/-- Parameters of the frame store and its reader. -/
structure Geometry where
  /-- Size of the frame, and pixels from line to line. -/
  (frameW frameH frameStride : ℕ)
  /-- Lines kept, width of the FIFO and words of a burst. -/
  (lineCount cmdFifoAw burst : ℕ)
  physBase : BitVec 32
  bankStrideBytes : ℕ
  deriving DecidableEq, Repr

/-- The pixels of a frame. -/
def Geometry.pixels (g : Geometry) : ℕ := g.frameW*g.frameH

/-- The words of a frame. -/
def Geometry.qwords (g : Geometry) : ℕ := g.pixels/4

/-- BASE_W0 and BASE_W1. -/
def Geometry.bankBase (g : Geometry) (bank : Bool) : BitVec 29 :=
  let base := g.physBase.extractLsb' 3 29
  if bank then base+BitVec.ofNat 29 (g.bankStrideBytes/8) else base

/-- The word address of the doorbell. -/
def doorbellW : BitVec 29 := (0x3007F000 : BitVec 32).extractLsb' 3 29

/-- The mark of a doorbell word. -/
def magic : BitVec 32 := 0x504C584B

/-- A mailbox word that is published between two frames. -/
inductive Mailbox
  | input
  | status
  /-- The mailbox of the memory test. -/
  | memtest
  | diag
  /-- The mailbox of the frame store. -/
  | underrun
  deriving DecidableEq, Repr

/-- The address of a mailbox. -/
def Mailbox.addr : Mailbox → BitVec 29
  | .input => (0x3007F108 : BitVec 32).extractLsb' 3 29
  | .status => (0x3007F100 : BitVec 32).extractLsb' 3 29
  | .memtest => (0x3007F110 : BitVec 32).extractLsb' 3 29
  | .diag => (0x3007F120 : BitVec 32).extractLsb' 3 29
  | .underrun => (0x3007F118 : BitVec 32).extractLsb' 3 29

/-- The value of the poll divider at which a mailbox is published. -/
def Mailbox.slot : Mailbox → BitVec 8
  | .input => 64
  | .status => 128
  | .memtest => 192
  | .diag => 208
  | .underrun => 224

/-- Registers of the module. -/
structure Reader where
  /-- The transfer, and its bank. -/
  (startD active busy bankR : Bool)
  /-- Next word of the frame. -/
  rdAddr : BitVec 29
  /-- fifo_mem, fifo_wr and fifo_rd. -/
  fifo : RingFifo 5 (BitVec 64)
  /-- How far it is. -/
  (qwordsIssued qwordsWritten inflight pixI : ℕ)
  /-- The word being unpacked. -/
  beatQ : BitVec 64
  /-- A word is held; the pointer is to be reset first. -/
  (haveBeat needReset : Bool)
  /-- The last token, once there was one. -/
  lastSeq : Option (BitVec 31)
  /-- Cycles to the next poll. -/
  pollDiv : BitVec 16
  /-- A poll is under way. -/
  pollPending : Bool
  /-- hold_bank, while hold_start. -/
  hold : Option Bool
  /-- What is asked of the memory. -/
  (ddramRd ddramWe : Bool)
  /-- Address of the request. -/
  ddramAddr : BitVec 29
  /-- Words of the request. -/
  ddramBurstcnt : ℕ
  /-- A pixel is written. -/
  wrEn : Bool
  /-- That pixel. -/
  wrPixel : BitVec 16
  /-- What is asked of the frame store. -/
  (wrResetPtr swapReq : Bool)
  /-- Frames so far. -/
  framesDone : BitVec 16

/-- Input wires at an edge of clk. -/
structure ReaderPort where
  /-- A start, and its bank. -/
  (startReq bankSel : Bool)
  /-- Who has to be waited for. -/
  (swapPending ddramBusy : Bool)
  dout : BitVec 64
  /-- A word comes; a pixel is taken. -/
  (doutReady wrReady : Bool)
  waiting : Mailbox → Bool

namespace Reader

variable (g : Geometry) (r : Reader) (p : ReaderPort)

/-- The SPI start request rises. -/
def spiEdge : Bool := p.startReq && !r.startD

/-- The polled word carries the mark. -/
def dbMagicOk : Bool := r.pollPending && p.doutReady && p.dout.extractLsb' 0 32 == magic

/-- The polled word has a new sequence number. -/
def dbNewSeq : Bool := r.dbMagicOk p && r.lastSeq != some (p.dout.extractLsb' 32 31)

/-- The bank that the polled word names. -/
def dbBank (p : ReaderPort) : Bool := p.dout.getLsbD 63

/-- No frame is being read or swapped. -/
def freeForDma : Bool := !r.active && !p.swapPending

/-- A start over SPI that can launch now. -/
def freshSpi : Bool := r.spiEdge p && r.freeForDma p && !r.pollPending

/-- A start over the doorbell that can launch now. -/
def freshDb : Bool := r.dbNewSeq p && r.freeForDma p

/-- The start that was held can launch now. -/
def heldGo : Bool := r.hold.isSome && r.freeForDma p && !r.pollPending

/-- A start can launch. -/
def canLaunch : Bool := r.freeForDma p && (!r.pollPending || r.dbNewSeq p)

/-- start_bank, when any_start. -/
def launch : Option Bool :=
  if r.freshDb p then some (dbBank p)
  else if r.freshSpi p then some p.bankSel
  else if r.heldGo p then r.hold
  else none

/-- A start that is held from this edge on. -/
def newHold : Option Bool :=
  if r.dbNewSeq p && !r.canLaunch p then some (dbBank p)
  else if r.spiEdge p && !r.canLaunch p then some p.bankSel
  else none

/-- The bus is free for a request. -/
def busFree : Bool := !p.ddramBusy && !r.ddramRd && !r.ddramWe

/-- The doorbell word is asked for. -/
def polls : Bool :=
  !r.active && (r.launch p).isNone && !r.pollPending && r.pollDiv.extractLsb' 0 8 == 0 &&
    r.busFree p

/-- The mailbox word that is published. -/
def publishes : Option Mailbox :=
  if !r.active && (r.launch p).isNone && !r.pollPending && r.busFree p then
    [Mailbox.input,.status,.memtest,.diag,.underrun].find? fun m =>
      p.waiting m && r.pollDiv.extractLsb' 0 8 == m.slot
  else none

/-- The words of the next burst. -/
def thisBurst : ℕ :=
  let remain := g.qwords-r.qwordsIssued
  if g.burst ≤ remain then g.burst%256 else remain%256

/-- The next burst is issued. -/
def doIssue : Bool :=
  r.active && r.busFree p && decide (r.qwordsIssued<g.qwords) && r.inflight == 0 &&
    decide (BitVec.ofNat 6 g.burst≤32-r.fifo.level) && !r.needReset && !r.pollPending

/-- A word of the frame arrives. -/
def doReadyFrame : Bool := p.doutReady && r.active && !r.pollPending

/-- The words still to come after this clock. -/
def infNext : ℕ :=
  let issued := if r.doIssue g p then r.inflight+r.thisBurst g else r.inflight
  if r.doReadyFrame p then issued-1 else issued

/-- A quadword is taken from the FIFO. -/
def takesBeat : Bool :=
  r.active && !r.needReset && p.wrReady && !r.haveBeat && !r.fifo.isEmpty

/-- A pixel is sent. -/
def strobes : Bool := r.active && !r.needReset && p.wrReady && r.haveBeat

/-- The last pixel of a quadword is sent. -/
def endsBeat : Bool := r.strobes p && r.pixI == 3

/-- The last pixel of the frame is sent. -/
def endsFrame : Bool := r.endsBeat p && r.qwordsWritten+1 == g.qwords

/-- The pixel being written. -/
def curPix : BitVec 16 := r.beatQ.extractLsb' (16*r.pixI) 16

/-- One edge of clk. -/
def step : Reader :=
  { startD := p.startReq
    active := if (r.launch p).isSome then true else r.active && !r.endsFrame g p
    busy := if (r.launch p).isSome then true else r.busy && !r.endsFrame g p
    bankR := (r.launch p).getD r.bankR
    rdAddr :=
      match r.launch p with
      | some bank => g.bankBase bank
      | none => if r.doIssue g p then r.rdAddr+BitVec.ofNat 29 (r.thisBurst g) else r.rdAddr
    fifo :=
      if (r.launch p).isSome then r.fifo.clear
      else
        let pushed := if r.doReadyFrame p then r.fifo.push p.dout else r.fifo
        if r.takesBeat p then pushed.pop else pushed
    qwordsIssued :=
      if (r.launch p).isSome then 0
      else if r.doIssue g p then r.qwordsIssued+r.thisBurst g else r.qwordsIssued
    qwordsWritten :=
      if (r.launch p).isSome then 0
      else if r.endsBeat p then r.qwordsWritten+1 else r.qwordsWritten
    inflight :=
      if (r.launch p).isSome then 0 else if r.active then r.infNext g p else r.inflight
    pixI :=
      if (r.launch p).isSome || r.takesBeat p then 0
      else if r.strobes p && r.pixI != 3 then r.pixI+1 else r.pixI
    beatQ := if r.takesBeat p then r.fifo.head else r.beatQ
    haveBeat :=
      if (r.launch p).isSome then false
      else if r.takesBeat p then true else r.haveBeat && !r.endsBeat p
    needReset := if (r.launch p).isSome then true else r.needReset && !r.active
    lastSeq := if r.dbNewSeq p then some (p.dout.extractLsb' 32 31) else r.lastSeq
    pollDiv := if !r.active && (r.launch p).isNone then r.pollDiv+1 else r.pollDiv
    pollPending :=
      if (r.launch p).isSome then false
      else if r.polls p then true
      else r.pollPending && !(p.doutReady && !(r.dbNewSeq p && r.canLaunch p))
    hold := if (r.launch p).isSome then none else (r.newHold p).or r.hold
    ddramRd := if r.polls p || r.doIssue g p then true else r.ddramRd && p.ddramBusy
    ddramWe := if (r.publishes p).isSome then true else r.ddramWe && p.ddramBusy
    ddramAddr :=
      if r.polls p then doorbellW
      else if r.doIssue g p then r.rdAddr
      else ((r.publishes p).map Mailbox.addr).getD r.ddramAddr
    ddramBurstcnt :=
      if r.polls p || (r.publishes p).isSome then 1
      else if r.doIssue g p then r.thisBurst g else r.ddramBurstcnt
    wrEn := r.strobes p
    wrPixel := if r.strobes p then r.curPix else r.wrPixel
    wrResetPtr := r.active && r.needReset
    swapReq := r.endsFrame g p
    framesDone := if r.endsFrame g p then r.framesDone+1 else r.framesDone }

/-- The starts that are accepted at an edge: an edge of start_req and a new number. -/
def accepted : List Bool :=
  (if r.spiEdge p then [p.bankSel] else []) ++ if r.dbNewSeq p then [dbBank p] else []

/-- The module after reset. -/
def reset : Reader :=
  { startD := false, active := false, busy := false, bankR := false, rdAddr := 0,
    fifo := ⟨fun _ => 0,0,0⟩, qwordsIssued := 0, qwordsWritten := 0, inflight := 0, pixI := 0,
    beatQ := 0, haveBeat := false, needReset := false, lastSeq := none, pollDiv := 0,
    pollPending := false, hold := none, ddramRd := false, ddramWe := false, ddramAddr := 0,
    ddramBurstcnt := 1, wrEn := false, wrPixel := 0, wrResetPtr := false, swapReq := false,
    framesDone := 0 }

end Reader

end Misterplex.FrameSdram
