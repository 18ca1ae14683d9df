import Misterplex.Rbsp.BitFeeder

/-!
# ddr_bitstream_reader

The reader polls the control word of the ring, reads the ring beat by beat and
parses records byte by byte. A clock edge is a sequence of assignments to a copy of
the registers, in the order of the source, where every right-hand side reads the
registers before the edge and the last assignment to a register wins.
-/

namespace Misterplex.Ring

open Emulation
open BitFeeder (saturatingInc)

/-- Capacity of the ring in bytes, RING_BYTES. -/
def ringBytes : ℕ := 262144

/-- Word address of the ring, DATA_W. -/
def dataW : BitVec 29 := 0x06020000#29

/-- Word address of the control word, CTRL_W. -/
def ctrlW : BitVec 29 := 0x06028000#29

/-- Word address of a status word: READ_W, ERR_W and STAT0_W to STAT6_W follow the
control word. -/
def statusW (k : ℕ) : BitVec 29 := ctrlW+1#29+BitVec.ofNat 29 k

/-- The mark of the control word. -/
def magicCtrl : BitVec 32 := 0x504C5842#32

/-- The mark of a record. -/
def magicRec : BitVec 32 := 0x504C584E#32

/-- MAGIC_READ, MAGIC_ERR and MAGIC_ST0 to MAGIC_ST6. -/
def statusMagic : ℕ → BitVec 32
  | 0 => 0x504C5852#32
  | 1 => 0x504C5845#32
  | 2 => 0x504C5854#32
  | 3 => 0x504C5855#32
  | 4 => 0x504C5856#32
  | 5 => 0x504C5857#32
  | 6 => 0x504C5859#32
  | 7 => 0x504C585A#32
  | _ => 0x504C5851#32

/-- Codes of the record events. -/
def eventBegin : Byte := 1#8
/-- The event of a NAL unit. -/
def eventNal : Byte := 2#8
/-- The event of a flush. -/
def eventFlush : Byte := 3#8
/-- The event of a session's end. -/
def eventEnd : Byte := 4#8
/-- The event of a pause. -/
def eventPause : Byte := 5#8
/-- The event of a resume. -/
def eventResume : Byte := 6#8

/-- States of the reader. -/
inductive ReaderState where
  | reset
  | idle
  | poll
  | readWait
  | consume
  deriving DecidableEq, Repr

/-- Modes of the parser. -/
inductive Mode where
  | header
  | payload
  | drop
  deriving DecidableEq, Repr

/-- The beat under consumption. -/
structure Beat where
  /-- The word at hand. -/
  beatQ : BitVec 64
  /-- Index of the next byte of the beat. -/
  byteIdx : BitVec 3
  /-- Its bytes still to consume. -/
  beatLeft : BitVec 4

/-- Counters shared with the host. -/
structure Counts where
  /-- Producer count of the last poll. -/
  writeCount : BitVec 32
  /-- The bytes read. -/
  readCount : BitVec 32
  /-- The host's count of bytes written. -/
  hostWriteCount : BitVec 32
  /-- The count shown to the host. -/
  fpgaReadCount : BitVec 32
  /-- A control word was seen. -/
  haveCtrl : Bool
  /-- Epoch bit of the last poll. -/
  resetSeen : Bool

/-- The record parser. -/
structure Parser where
  /-- What the next byte is. -/
  mode : Mode
  /-- Bytes of the record header. -/
  hdr : BitVec 5 → Byte
  /-- Index of the next header byte. -/
  hdrIdx : BitVec 5
  /-- The payload bytes still to come. -/
  payloadLeft : BitVec 32

/-- The session. -/
structure Session where
  /-- A session is open. -/
  active : Bool
  /-- The session is paused. -/
  paused : Bool
  /-- Its id. -/
  currentSession : BitVec 64
  /-- Sequence number of the next NAL record. -/
  expectedSeq : BitVec 32
  /-- Sequence number of the last one. -/
  consumerSeq : BitVec 32
  /-- A payload byte has been delivered. -/
  seenPayload : Bool

/-- Flags and counters for the host. -/
structure Telemetry where
  /-- More was published than the ring holds. -/
  overrunSticky : Bool
  /-- The ring ran empty in a session. -/
  underrunSticky : Bool
  /-- The stream was out of step, for good; the ring was empty. -/
  (desyncSticky fatalSticky emptySeen : Bool)
  /-- Sequence number of the publications. -/
  telemSeq : BitVec 8
  /-- A publication is under way. -/
  publishPending : Bool
  /-- Next word of the publication. -/
  publishStep : BitVec 4
  desyncCount : BitVec 16
  /-- Number of the last record refused. -/
  lastBadSeq : BitVec 32
  /-- Bytes presented so far. -/
  bytesOut : BitVec 32
  /-- How often. -/
  (underrunCount overrunCount : BitVec 16)

/-- Outputs to the decoder and the holding register of the bit feeder. -/
structure Outputs where
  /-- A payload byte is presented. -/
  outValid : Bool
  outByte : Byte
  outLast : Bool
  /-- The session begins, ends or is flushed. -/
  outFlush : Bool
  /-- The holding register is occupied. -/
  bitInValid : Bool
  bitInByte : Byte
  /-- The byte ends its unit; the bit feeder is cleared. -/
  (bitInLast bitFeedSoftClear : Bool)

/-- Outputs to the memory bus. -/
structure Bus where
  /-- The words of the burst. -/
  burstcnt : BitVec 8
  /-- The word address. -/
  addr : BitVec 29
  /-- A read is asked for. -/
  rd : Bool
  /-- The word to write. -/
  din : BitVec 64
  /-- A write is asked for. -/
  we : Bool

/-- Registers of the reader. -/
structure Reader where
  /-- The state. -/
  state : ReaderState
  /-- It counts the clocks to the next poll. -/
  pollDiv : BitVec 6
  /-- The word at hand. -/
  beat : Beat
  /-- The counts. -/
  counts : Counts
  /-- The record parser. -/
  parser : Parser
  /-- The session. -/
  session : Session
  /-- The telemetry. -/
  telem : Telemetry
  /-- The outputs. -/
  out : Outputs
  /-- The wires to the arbiter. -/
  bus : Bus

/-- Input wires of one clock cycle. -/
structure Cycle where
  /-- The reader is reset. -/
  reset : Bool
  /-- The reader is enabled. -/
  enable : Bool
  /-- The ring is flushed. -/
  flush : Bool
  /-- The FIFO behind takes no byte. -/
  outFull : Bool
  /-- The bit feeder accepts a byte. -/
  bitFeedInReady : Bool
  /-- The bus is busy. -/
  busy : Bool
  /-- The word that returns. -/
  dout : BitVec 64
  /-- A word returns. -/
  doutReady : Bool
  deriving DecidableEq, Repr

/-- The control word carries its mark. -/
def ctrlMagicOk (dout : BitVec 64) : Bool := dout.setWidth 32=magicCtrl

/-- The control word asks for a reset. -/
def ctrlReset (dout : BitVec 64) : Bool := dout.getLsbD 63

/-- ctrl_write_count with the zero in front. -/
def ctrlWriteCount (dout : BitVec 64) : BitVec 32 := (dout.extractLsb' 32 31).setWidth 32

/-- The bytes published and not read. -/
def avail (c : Counts) : BitVec 32 := c.writeCount-c.readCount

/-- The bytes published, at most the ring's size. -/
def ringLevel (c : Counts) : BitVec 32 :=
  if BitVec.ofNat 32 ringBytes < avail c then BitVec.ofNat 32 ringBytes else avail c

/-- There is a byte to read and no sticky fault. -/
def ringHasData (r : Reader) : Bool :=
  r.counts.haveCtrl && avail r.counts != 0#32 && !r.telem.overrunSticky && !r.telem.fatalSticky

/-- The ring index of the next byte. -/
def readRingIndex (c : Counts) : BitVec 18 := c.readCount.setWidth 18

/-- The word of the next byte. -/
def readQwordOffset (c : Counts) : BitVec 29 := (readRingIndex c >>> 3).setWidth 29

/-- The next byte's place in its word. -/
def readByteIndex (c : Counts) : BitVec 3 := (readRingIndex c).setWidth 3

/-- The bytes left in the word of the next byte. -/
def bytesToQwordEnd (c : Counts) : BitVec 32 := 8#32-(readByteIndex c).setWidth 32

/-- The bytes to take from the word that is read. -/
def consumeCount (c : Counts) : BitVec 4 :=
  (if avail c < bytesToQwordEnd c then avail c else bytesToQwordEnd c).setWidth 4

/-- It is time to read the control word. -/
def wantPoll (r : Reader) (i : Cycle) : Bool := i.enable && r.pollDiv == 0#6

/-- There is a word to read and the last one is used up. -/
def wantRead (r : Reader) (i : Cycle) : Bool :=
  i.enable && ringHasData r && r.beat.beatLeft == 0#4

/-- Both consumers take a payload byte. -/
def payloadSinkOk (bitFeed : Bool) (r : Reader) (i : Cycle) : Bool :=
  !i.outFull && (!bitFeed || !r.out.bitInValid || i.bitFeedInReady)

/-- The byte at hand can be taken. -/
def canConsume (bitFeed : Bool) (r : Reader) (i : Cycle) : Bool :=
  r.parser.mode != .payload || payloadSinkOk bitFeed r i

/-- The state as the host reads it. -/
def stateFlags (r : Reader) : BitVec 16 :=
  let state : BitVec 4 :=
    match r.state with
    | .reset => 0#4 | .idle => 1#4 | .poll => 2#4 | .readWait => 3#4 | .consume => 4#4
  let mode : BitVec 2 :=
    match r.parser.mode with
    | .header => 0#2 | .payload => 1#2 | .drop => 2#2
  0#4 ++ BitVec.ofBool r.telem.fatalSticky ++ BitVec.ofBool r.telem.desyncSticky ++
    BitVec.ofBool r.session.paused ++ BitVec.ofBool r.session.active ++
    BitVec.ofBool r.telem.overrunSticky ++ BitVec.ofBool r.telem.underrunSticky ++ mode ++ state

/-- One byte of a word. -/
def beatByte (beat : BitVec 64) (idx : BitVec 3) : Byte := beat.extractLsb' (8*idx.toNat) 8

/-- Four header bytes, the lowest first. -/
def hdr32 (hdr : BitVec 5 → Byte) (base : BitVec 5) : BitVec 32 :=
  hdr (base+3) ++ hdr (base+2) ++ hdr (base+1) ++ hdr base

/-- Eight header bytes, the lowest first. -/
def hdr64 (hdr : BitVec 5 → Byte) (base : BitVec 5) : BitVec 64 :=
  hdr (base+7) ++ hdr (base+6) ++ hdr (base+5) ++ hdr (base+4) ++
    hdr (base+3) ++ hdr (base+2) ++ hdr (base+1) ++ hdr base

/-- The parser at the start of a record; reset_parser, without the beat. -/
def Parser.restart (p : Parser) : Parser :=
  { p with mode := .header, hdrIdx := 0#5, payloadLeft := 0#32 }

/-- The record parser at the start of a record, with no byte at hand. -/
def resetParser (n : Reader) : Reader :=
  { n with parser := n.parser.restart, beat := { n.beat with beatLeft := 0#4 } }

/-- mark_desync, without the publication it asks for. -/
def Telemetry.markDesync (t : Telemetry) (old : Telemetry) (badSeq : BitVec 32) : Telemetry :=
  { t with desyncSticky := true, lastBadSeq := badSeq, desyncCount := saturatingInc old.desyncCount,
           publishPending := true }

/-- A session that is over, with no trace of it. -/
def Session.cleared (s : Session) : Session :=
  { s with active := false, paused := false, seenPayload := false, currentSession := 0#64,
           expectedSeq := 0#32, consumerSeq := 0#32 }

/-- Sticky flags cleared and a full publication asked for. -/
def Telemetry.cleared (t : Telemetry) : Telemetry :=
  { t with overrunSticky := false, underrunSticky := false, desyncSticky := false,
           fatalSticky := false, publishPending := true, publishStep := 0#4 }

/-- The holding register emptied. -/
def Outputs.dropHeld (o : Outputs) : Outputs := { o with bitInValid := false, bitInLast := false }

variable (old : Reader)

/-- Pulses that last one cycle. -/
def pulses (i : Cycle) : Reader :=
  let out : Outputs :=
    { old.out with outValid := false, outLast := false, outFlush := false, bitFeedSoftClear := false }
  { old with
    out := if old.out.bitInValid && i.bitFeedInReady then out.dropHeld else out
    bus := { old.bus with rd := false, we := false } }

/-- The clock edge under reset. -/
def resetBranch (n : Reader) : Reader :=
  { n with
    state := .reset, pollDiv := 0#6,
    beat := { n.beat with beatLeft := 0#4, byteIdx := 0#3 },
    counts := ⟨0#32,0#32,0#32,0#32,false,false⟩,
    parser := n.parser.restart,
    session := ⟨false,false,0#64,0#32,0#32,false⟩,
    telem := ⟨false,false,false,false,false,0#8,true,0#4,0#16,0#32,0#32,0#16,0#16⟩,
    out := { n.out with outLast := false, bitInValid := false, bitInByte := 0#8, bitInLast := false,
                        bitFeedSoftClear := true },
    bus := ⟨1#8,0#29,false,0#64,false⟩ }

/-- The branch of a reader that is not enabled. -/
def disabledBranch (n : Reader) : Reader :=
  resetParser { n with
    state := .idle, session := { n.session with active := false, paused := false },
    out := { n.out.dropHeld with bitFeedSoftClear := true } }

/-- The clock edge under flush: everything published is skipped. -/
def flushBranch (n : Reader) : Reader :=
  resetParser { n with
    state := .idle,
    counts := { n.counts with readCount := old.counts.writeCount, fpgaReadCount := old.counts.writeCount },
    session := n.session.cleared, telem := n.telem.cleared,
    out := { n.out.dropHeld with outFlush := true, bitFeedSoftClear := true } }

/-- Detection of an empty ring. -/
def underrunCheck (n : Reader) : Reader :=
  if old.session.active && old.counts.haveCtrl && old.session.seenPayload &&
      avail old.counts == 0#32 && old.beat.beatLeft == 0#4 && !old.telem.emptySeen &&
      !old.session.paused then
    { n with telem := { n.telem with
      emptySeen := true, underrunSticky := true,
      underrunCount := saturatingInc old.telem.underrunCount, publishPending := true } }
  else if avail old.counts ≠ 0#32 then { n with telem := { n.telem with emptySeen := false } }
  else n

/-- Detection of an overrun. -/
def overrunCheck (n : Reader) : Reader :=
  if BitVec.ofNat 32 ringBytes < avail old.counts ∧ old.telem.overrunSticky = false then
    { n with telem := { n.telem with
      overrunSticky := true, overrunCount := saturatingInc old.telem.overrunCount,
      publishPending := true, publishStep := 0#4 } }
  else n

/-- The status word of a publication step. -/
def statusWord (r : Reader) (publishStep : BitVec 4) : BitVec 64 :=
  (match publishStep.toNat with
    | 0 => r.counts.readCount
    | 1 => r.telem.overrunCount.setWidth 8 ++ r.telem.underrunCount.setWidth 8 ++
        BitVec.ofBool r.session.active ++ BitVec.ofBool r.telem.overrunSticky ++
        BitVec.ofBool r.telem.underrunSticky ++ 0#5 ++ (r.telem.telemSeq+1)
    | 2 => ringLevel r.counts
    | 3 => r.session.consumerSeq
    | 4 => r.telem.lastBadSeq
    | 5 => r.session.currentSession.setWidth 32
    | 6 => (r.session.currentSession >>> 32).setWidth 32
    | 7 => r.telem.underrunCount ++ r.telem.overrunCount
    | _ => r.telem.desyncCount ++ stateFlags r) ++
  statusMagic publishStep.toNat

/-- One word of a publication. -/
def publish (n : Reader) : Reader :=
  let last := 8≤old.telem.publishStep.toNat
  { n with
    bus := { n.bus with
      burstcnt := 1#8, addr := statusW (min old.telem.publishStep.toNat 8),
      din := statusWord old old.telem.publishStep, we := true }
    telem := { n.telem with
      telemSeq := if old.telem.publishStep = 1#4 then old.telem.telemSeq+1 else n.telem.telemSeq
      publishStep := if last then 0#4 else old.telem.publishStep+1
      publishPending := if last then false else n.telem.publishPending } }

/-- ST_IDLE. -/
def idleArm (i : Cycle) (n : Reader) : Reader :=
  let free := !i.busy && !old.bus.rd && !old.bus.we
  if old.telem.publishPending && free then publish old n
  else if wantPoll old i && free then
    { n with state := .poll, bus := { n.bus with addr := ctrlW, burstcnt := 1#8, rd := true } }
  else if wantRead old i && free then
    { n with
      state := .readWait, beat := { n.beat with byteIdx := readByteIndex old.counts },
      bus := { n.bus with addr := dataW+readQwordOffset old.counts, burstcnt := 1#8, rd := true } }
  else n

/-- A control word with a new epoch. -/
def newEpoch (dout : BitVec 64) (n : Reader) : Reader :=
  resetParser { n with
    counts := { n.counts with
      resetSeen := ctrlReset dout, readCount := ctrlWriteCount dout,
      fpgaReadCount := ctrlWriteCount dout },
    session := n.session.cleared, telem := n.telem.cleared, out := { n.out with outFlush := true } }

/-- ST_POLL. -/
def pollArm (i : Cycle) (n : Reader) : Reader :=
  if i.doutReady then
    let n' : Reader :=
      if ctrlMagicOk i.dout then
        let seen : Reader := { n with counts := { n.counts with
          haveCtrl := true, writeCount := ctrlWriteCount i.dout,
          hostWriteCount := ctrlWriteCount i.dout } }
        if ctrlReset i.dout ≠ old.counts.resetSeen then newEpoch i.dout seen else seen
      else n
    { n' with state := .idle }
  else n

/-- ST_READ_WAIT. -/
def readWaitArm (i : Cycle) (n : Reader) : Reader :=
  if i.doutReady then
    { n with state := .consume,
             beat := { n.beat with beatQ := i.dout, beatLeft := consumeCount old.counts } }
  else n

/-- A payload byte is presented. -/
def payloadByte (bitFeed : Bool) (old : Reader) (rx : Byte) (n : Reader) : Reader :=
  let last : Bool := old.parser.payloadLeft=1#32
  { n with
    out := { n.out with
      outByte := rx, outValid := true, outLast := last,
      bitInValid := bitFeed, bitInByte := rx, bitInLast := bitFeed && last }
    telem := { n.telem with bytesOut := old.telem.bytesOut+1 }
    session := { n.session with seenPayload := true }
    parser := { n.parser with
      payloadLeft := old.parser.payloadLeft-1,
      mode := if last then .header else n.parser.mode,
      hdrIdx := if last then 0#5 else n.parser.hdrIdx } }

/-- A byte of a rejected payload. -/
def dropByte (n : Reader) : Reader :=
  let last : Bool := old.parser.payloadLeft=1#32
  { n with parser := { n.parser with
      payloadLeft := old.parser.payloadLeft-1,
      mode := if last then .header else n.parser.mode,
      hdrIdx := if last then 0#5 else n.parser.hdrIdx } }

/-- Count a desync and keep the sequence number. -/
def markDesync (badSeq : BitVec 32) (n : Reader) : Reader :=
  { n with telem := n.telem.markDesync old.telem badSeq }

/-- The flush pulses of an accepted BEGIN, FLUSH or END. -/
def flushOut (n : Reader) : Reader :=
  { n with out := { n.out.dropHeld with outFlush := true, bitFeedSoftClear := true } }

/-- The header asks for a payload in some mode. -/
def enterPayload (hdr : BitVec 5 → Byte) (mode : Mode) (n : Reader) : Reader :=
  if hdr32 hdr 20 ≠ 0#32 then
    { n with parser := { n.parser with payloadLeft := hdr32 hdr 20, mode := mode } }
  else n

/-- A control record that does not fit the session. -/
def wrongControl (hdr : BitVec 5 → Byte) : Bool :=
  !old.session.active || hdr64 hdr 8 != old.session.currentSession || hdr32 hdr 20 != 0#32

/-- A NAL record that does not fit the session. -/
def wrongNal (hdr : BitVec 5 → Byte) : Bool :=
  !old.session.active || old.session.paused || hdr64 hdr 8 != old.session.currentSession ||
    hdr32 hdr 16 != old.session.expectedSeq

/-- A complete header. -/
def record (hdr : BitVec 5 → Byte) (n : Reader) : Reader :=
  if hdr32 hdr 0 ≠ magicRec ∨ hdr32 hdr 24 ≠ 0#32 then
    markDesync old (hdr32 hdr 16) { n with
      telem := { n.telem with fatalSticky := true }, session := { n.session with active := false } }
  else if hdr 4 = eventBegin then
    if old.session.active = true ∨ hdr32 hdr 20 ≠ 0#32 then
      markDesync old (hdr32 hdr 16) { n with telem := { n.telem with fatalSticky := true } }
    else
      flushOut { n with session := { n.session with
        active := true, paused := false, currentSession := hdr64 hdr 8, expectedSeq := 0#32,
        consumerSeq := 0#32, seenPayload := false } }
  else if hdr 4 = eventNal then
    if wrongNal old hdr then enterPayload hdr .drop (markDesync old (hdr32 hdr 16) n)
    else
      enterPayload hdr .payload { n with session := { n.session with
        consumerSeq := hdr32 hdr 16, expectedSeq := hdr32 hdr 16+1 } }
  else if hdr 4 = eventFlush then
    if wrongControl old hdr then markDesync old (hdr32 hdr 16) n
    else flushOut { n with session := { n.session with seenPayload := false } }
  else if hdr 4 = eventEnd then
    if wrongControl old hdr then markDesync old (hdr32 hdr 16) n
    else flushOut { n with session := { n.session with active := false, paused := false } }
  else if hdr 4 = eventPause then
    if wrongControl old hdr then markDesync old (hdr32 hdr 16) n
    else { n with session := { n.session with paused := true } }
  else if hdr 4 = eventResume then
    if wrongControl old hdr then markDesync old (hdr32 hdr 16) n
    else { n with session := { n.session with paused := false } }
  else markDesync old (hdr32 hdr 16) n

/-- The header with a byte written at an index. -/
def setHdr (hdr : BitVec 5 → Byte) (idx : BitVec 5) (rx : Byte) : BitVec 5 → Byte :=
  fun k => if k = idx then rx else hdr k

/-- Take one header byte, and the record with the last. -/
def headerByte (rx : Byte) (n : Reader) : Reader :=
  let hdr := setHdr old.parser.hdr old.parser.hdrIdx rx
  if old.parser.hdrIdx = 31#5 then
    record old hdr { n with parser := { n.parser with hdr := hdr, hdrIdx := 0#5 } }
  else { n with parser := { n.parser with hdr := hdr, hdrIdx := old.parser.hdrIdx+1 } }

/-- The parser takes a byte. -/
def parseByte (bitFeed : Bool) (old : Reader) (rx : Byte) (n : Reader) : Reader :=
  match old.parser.mode with
  | .payload => payloadByte bitFeed old rx n
  | .drop => dropByte old n
  | .header => headerByte old rx n

/-- Beat and consumer count move on by a byte. -/
def advance (n : Reader) : Reader :=
  { n with
    beat := { n.beat with byteIdx := old.beat.byteIdx+1, beatLeft := old.beat.beatLeft-1 }
    counts := { n.counts with
      readCount := old.counts.readCount+1, fpgaReadCount := old.counts.readCount+1 }
    telem := { n.telem with publishPending := true } }

/-- A byte of the beat is consumed. -/
def consumeByte (bitFeed : Bool) (old : Reader) (n : Reader) : Reader :=
  let n' : Reader := parseByte bitFeed old (beatByte old.beat.beatQ old.beat.byteIdx) (advance old n)
  if old.beat.beatLeft = 1#4 then { n' with state := .idle } else n'

/-- A byte is consumed at this edge. -/
def consumes (bitFeed : Bool) (old : Reader) (i : Cycle) : Bool :=
  old.beat.beatLeft != 0#4 && canConsume bitFeed old i

/-- ST_CONSUME. -/
def consumeArm (bitFeed : Bool) (old : Reader) (i : Cycle) (n : Reader) : Reader :=
  if consumes bitFeed old i then consumeByte bitFeed old n
  else if old.beat.beatLeft = 0#4 then { n with state := .idle }
  else n

/-- The case on the state. -/
def arm (bitFeed : Bool) (old : Reader) (i : Cycle) (n : Reader) : Reader :=
  match old.state with
  | .reset => { n with state := .idle,
                       telem := { n.telem with publishPending := true, publishStep := 0#4 } }
  | .idle => idleArm old i n
  | .poll => pollArm old i n
  | .readWait => readWaitArm old i n
  | .consume => consumeArm bitFeed old i n

/-- What an enabled reader assigns before the case on the state. -/
def preamble (i : Cycle) : Reader :=
  let n := { pulses old i with pollDiv := old.pollDiv+1 }
  overrunCheck old (underrunCheck old (if i.flush then flushBranch old n else n))

/-- One rising clock edge. -/
def step (bitFeed : Bool) (r : Reader) (i : Cycle) : Reader :=
  if i.reset then resetBranch (pulses r i)
  else if !i.enable then disabledBranch (pulses r i)
  else arm bitFeed r i (preamble r i)

/-- All registers zero. -/
def Reader.zero : Reader where
  state := .reset
  pollDiv := 0#6
  beat := ⟨0#64,0#3,0#4⟩
  counts := ⟨0#32,0#32,0#32,0#32,false,false⟩
  parser := ⟨.header,fun _ => 0#8,0#5,0#32⟩
  session := ⟨false,false,0#64,0#32,0#32,false⟩
  telem := ⟨false,false,false,false,false,0#8,false,0#4,0#16,0#32,0#32,0#16,0#16⟩
  out := ⟨false,0#8,false,false,false,0#8,false,false⟩
  bus := ⟨0#8,0#29,false,0#64,false⟩

/-- A cycle in which nothing is answered and every byte is taken. -/
def Cycle.silent : Cycle := ⟨false,true,false,false,true,false,0#64,false⟩

/-- A cycle with an answer from memory. -/
def Cycle.answer (dout : BitVec 64) : Cycle := { Cycle.silent with dout := dout, doutReady := true }

/-- A byte with its last flag, as presented after an edge. -/
def presented (r : Reader) : List (Byte × Bool) :=
  if r.out.outValid then [(r.out.outByte,r.out.outLast)] else []

end Misterplex.Ring
