import Misterplex.Rbsp.NaluScanner
import Misterplex.Ring.ReaderStep

/-!
# bitstream_fifo

The FIFO between the writers of the stream path and the scanner: a ring memory with a
write port, and a read port whose data register is loaded at every edge.

Behind it the FIFO and the scanner are wired to the two writers of the stream: the bytes
of an F3 download and those of the ring share one write port, where the download goes
first, and the ring reader is held off while the FIFO is full or a byte of the download
is being written.
-/

namespace Misterplex.BitstreamFifo

open Emulation

/-- Registers of the module. -/
structure Fifo (aw : ℕ) where
  /-- mem, wr_ptr and rd_ptr. -/
  ring : RingFifo aw Byte
  /-- A byte was written since the last flush. -/
  everWr : Bool
  /-- The byte read last. -/
  rdData : Byte
  wrLevel : BitVec 16

/-- Input wires of one clock cycle. -/
structure FifoInput where
  reset : Bool
  wrEn : Bool
  wrData : Byte
  wrFlush : Bool
  rdEn : Bool
  deriving DecidableEq, Repr

variable {aw : ℕ}

variable (q : RingFifo aw Byte)

/-- The FIFO has no cell left. -/
def wrFull : Bool :=
  q.wr.setWidth aw == q.rd.setWidth aw && q.wr.msb != q.rd.msb

/-- The FIFO holds nothing. -/
def rdEmpty : Bool := q.isEmpty

/-- The FIFO is cleared. -/
def clr (i : FifoInput) : Bool := i.reset || i.wrFlush

/-- A byte is written into the memory. -/
def writes (i : FifoInput) : Bool := i.wrEn && !wrFull q

/-- A byte is popped. -/
def pops (i : FifoInput) : Bool := i.rdEn && !rdEmpty q

/-- One rising clock edge. -/
def step (f : Fifo aw) (i : FifoInput) : Fifo aw where
  ring :=
    { mem := if writes f.ring i then Function.update f.ring.mem (RingFifo.slot f.ring.wr) i.wrData
             else f.ring.mem
      wr := if clr i then 0 else if writes f.ring i then f.ring.wr+1 else f.ring.wr
      rd := if clr i then 0 else if pops f.ring i then f.ring.rd+1 else f.ring.rd }
  everWr := if clr i then false else if writes f.ring i then true else f.everWr
  rdData := f.ring.mem (RingFifo.slot f.ring.rd)
  wrLevel :=
    if clr i then 0
    else (f.ring.wr.setWidth aw).setWidth 16-(f.ring.rd.setWidth aw).setWidth 16

theorem level_of_wrFull {q : RingFifo aw Byte} (h : wrFull q=true) : q.level.toNat=2^aw := by
  obtain ⟨hlow,hmsb⟩ := Bool.and_eq_true_iff.mp h
  have hmod : q.wr.toNat%2^aw=q.rd.toNat%2^aw := by
    have hnat := congrArg BitVec.toNat (beq_iff_eq.mp hlow)
    rwa [BitVec.toNat_setWidth,BitVec.toNat_setWidth] at hnat
  have hbits : decide (2^aw≤q.wr.toNat)≠decide (2^aw≤q.rd.toNat) := by
    have hne := bne_iff_ne.mp hmsb
    rwa [BitVec.msb_eq_decide,BitVec.msb_eq_decide,Nat.add_sub_cancel] at hne
  have hlevel : q.level.toNat=(2^(aw+1)-q.rd.toNat+q.wr.toNat)%2^(aw+1) :=
    BitVec.toNat_sub q.wr q.rd
  by_cases hge : 2^aw≤q.wr.toNat
  · have hlt : q.rd.toNat<2^aw := by
      by_contra hc
      rw [decide_eq_true hge,decide_eq_true (Nat.le_of_not_lt hc)] at hbits
      exact hbits rfl
    rw [Nat.mod_eq_sub_mod hge,Nat.mod_eq_of_lt (by omega),Nat.mod_eq_of_lt hlt] at hmod
    have hsum : 2^(aw+1)-q.rd.toNat+q.wr.toNat=2^aw+2^(aw+1) := by omega
    rw [hlevel,hsum,Nat.add_mod_right,Nat.mod_eq_of_lt (by omega)]
  · have hge' : 2^aw≤q.rd.toNat := by
      by_contra hc
      rw [decide_eq_false hge,decide_eq_false hc] at hbits
      exact hbits rfl
    rw [Nat.mod_eq_of_lt (Nat.lt_of_not_le hge),Nat.mod_eq_sub_mod hge',
      Nat.mod_eq_of_lt (by omega)] at hmod
    have hsum : 2^(aw+1)-q.rd.toNat+q.wr.toNat=2^aw := by omega
    rw [hlevel,hsum,Nat.mod_eq_of_lt (by omega)]

theorem wrFull_eq_false {q : RingFifo aw Byte} (h : q.level.toNat<2^aw) : wrFull q=false := by
  by_contra hfull
  have hlevel := level_of_wrFull (Bool.not_eq_false _ ▸ hfull)
  omega

theorem rdEmpty_iff : rdEmpty q=true ↔ q.level.toNat=0 := by
  rw [RingFifo.level_eq_zero_iff,rdEmpty,RingFifo.isEmpty,beq_iff_eq]

theorem level_clear {f : Fifo aw} {i : FifoInput} (h : clr i=true) :
    (step f i).ring.level.toNat=0 := by
  rw [RingFifo.level_eq_zero_iff]
  unfold step
  rw [h]
  rfl

/-- The FIFO's ring after one clock. -/
theorem ring_step {f : Fifo aw} {i : FifoInput} (h : clr i=false) :
    (step f i).ring =
      if writes f.ring i then
        if pops f.ring i then (f.ring.push i.wrData).pop else f.ring.push i.wrData
      else if pops f.ring i then f.ring.pop else f.ring := by
  unfold step
  rw [h]
  cases writes f.ring i with
  | true =>
    cases pops f.ring i with
    | true => rfl
    | false => rfl
  | false =>
    cases pops f.ring i with
    | true => rfl
    | false => rfl

/-- What leaves and what is left are what was there and what entered. -/
theorem contents_step {f : Fifo aw} {i : FifoInput} (h : clr i=false)
    (hroom : f.ring.level.toNat<2^aw) :
    (if pops f.ring i then [(step f i).rdData] else []) ++ (step f i).ring.contents =
      f.ring.contents ++ if i.wrEn then [i.wrData] else [] := by
  have hwrites : writes f.ring i=i.wrEn := by
    unfold writes
    rw [wrFull_eq_false hroom,Bool.not_false,Bool.and_true]
  have hhead : (step f i).rdData=f.ring.head := rfl
  have hsome : pops f.ring i=true → f.ring.level.toNat≠0 := fun hp hzero => by
    have hempty := (rdEmpty_iff f.ring).mpr hzero
    unfold pops at hp
    rw [hempty] at hp
    simp at hp
  rw [ring_step h,hwrites,hhead]
  cases hp : pops f.ring i with
  | false =>
    cases i.wrEn with
    | false => simp
    | true =>
      simp only [if_true,Bool.false_eq_true,if_false,List.nil_append]
      exact RingFifo.contents_push f.ring i.wrData hroom
  | true =>
    have hne := hsome hp
    cases i.wrEn with
    | false =>
      simp only [if_true,Bool.false_eq_true,if_false,List.append_nil]
      exact (RingFifo.contents_eq_head_cons f.ring hne).symm
    | true =>
      exact RingFifo.contents_push_pop f.ring i.wrData hroom hne

end Misterplex.BitstreamFifo

namespace Misterplex.Stream

open Emulation Trace
open Misterplex.Ring (Reader Cycle)
open NaluScanner (ScannerState ScannerInput)
open BitstreamFifo (Fifo FifoInput)

/-- Registers of stream_ingest. -/
structure Ingest where
  wrEn : Bool
  wrData : Byte
  /-- The FIFO is flushed; a download is under way. -/
  (wrFlush active : Bool)
  /-- Bytes of the download so far. -/
  bytesIn : BitVec 32
  /-- The download of the last clock. -/
  wasDl : Bool
  deriving DecidableEq, Repr

/-- Registers of the path. -/
structure StreamPath where
  /-- The download. -/
  ingest : Ingest
  /-- The ring reader. -/
  reader : Reader
  /-- The bitstream FIFO. -/
  fifo : Fifo 15
  /-- The scanner. -/
  scan : ScannerState

/-- Input wires of one clock cycle. -/
structure PathInput where
  reset : Bool
  /-- A download, and a byte of it. -/
  (ioctlDownload ioctlWr : Bool)
  ioctlDout : Byte
  /-- What is switched on, and a flush. -/
  (enable flush ddrStreamEnable : Bool)
  /-- The bit feeder takes a byte; the bus is busy. -/
  (bitFeedInReady ddrBusy : Bool)
  ddrDout : BitVec 64
  ddrDoutReady : Bool
  deriving DecidableEq, Repr

/-- stream_ingest takes a byte of the download. -/
def ingests (i : PathInput) : Bool := !i.reset && i.enable && i.ioctlDownload && i.ioctlWr

/-- One rising clock edge of stream_ingest. -/
def Ingest.step (r : Ingest) (i : PathInput) : Ingest where
  wrEn := ingests i
  wrData := if ingests i then i.ioctlDout else r.wrData
  wrFlush := false
  active :=
    if i.reset then false
    else if !i.enable then false
    else if !i.ioctlDownload && r.wasDl then false
    else if i.ioctlDownload && !r.wasDl then true
    else r.active
  bytesIn := if i.reset then 0#32 else if ingests i then r.bytesIn+1 else r.bytesIn
  wasDl := if i.reset then false else i.ioctlDownload

/-- The bitstream FIFO has no cell left. -/
def bfWrFull (s : StreamPath) : Bool := BitstreamFifo.wrFull s.fifo.ring

/-- A byte enters the bitstream FIFO. -/
def bfWrEn (s : StreamPath) : Bool := s.ingest.wrEn || s.reader.out.outValid

/-- The byte that enters: the download's when it has one. -/
def bfWrData (s : StreamPath) : Byte := if s.ingest.wrEn then s.ingest.wrData else s.reader.out.outByte

/-- The bitstream FIFO is flushed. -/
def bfWrFlush (s : StreamPath) (i : PathInput) : Bool :=
  s.ingest.wrFlush || s.reader.out.outFlush || i.flush

/-- The input wires of the reader. -/
def readerCycle (s : StreamPath) (i : PathInput) : Cycle where
  reset := i.reset
  enable := i.ddrStreamEnable
  flush := i.flush
  outFull := bfWrFull s || s.ingest.wrEn
  bitFeedInReady := i.bitFeedInReady
  busy := i.ddrBusy
  dout := i.ddrDout
  doutReady := i.ddrDoutReady

/-- The input wires of the FIFO. -/
def fifoInput (s : StreamPath) (i : PathInput) : FifoInput where
  reset := i.reset
  wrEn := bfWrEn s
  wrData := bfWrData s
  wrFlush := bfWrFlush s i
  rdEn := s.scan.rdEn

/-- The input wires of the scanner. -/
def scanInput (s : StreamPath) (i : PathInput) : ScannerInput where
  reset := i.reset || i.flush
  rdData := s.fifo.rdData
  rdEmpty := BitstreamFifo.rdEmpty s.fifo.ring

/-- One rising clock edge. -/
def step (bitFeed : Bool) (s : StreamPath) (i : PathInput) : StreamPath where
  ingest := s.ingest.step i
  reader := Ring.step bitFeed s.reader (readerCycle s i)
  fifo := BitstreamFifo.step s.fifo (fifoInput s i)
  scan := NaluScanner.step s.scan (scanInput s i)

/-- The byte of the download that stands at the write port. -/
def ingestByte (s : StreamPath) : List Byte := if s.ingest.wrEn then [s.ingest.wrData] else []

/-- The byte of the ring that stands at the write port. -/
def ringByte (s : StreamPath) : List Byte :=
  if s.reader.out.outValid then [s.reader.out.outByte] else []

/-- The byte at the write port. -/
def wireByte (s : StreamPath) : List Byte := if bfWrEn s then [bfWrData s] else []

/-- The byte that the scanner is about to take. -/
def readByte (s : StreamPath) : List Byte := if s.scan.dataValid then [s.fifo.rdData] else []

/-- Bytes that are written or about to be, and not taken by the scanner, oldest first. -/
def inFlight (s : StreamPath) : List Byte := readByte s ++ s.fifo.ring.contents ++ wireByte s

/-- The FIFO holds at most two bytes, and two only while the scanner pops. -/
structure Shallow (s : StreamPath) : Prop where
  /-- At most two bytes. -/
  level : s.fifo.ring.level.toNat≤2
  /-- Two only while the scanner pops. -/
  popped : s.fifo.ring.level.toNat=2 → s.scan.rdEn=true

/-- The FIFO is not cleared at this edge. -/
def Kept (s : StreamPath) (i : PathInput) : Prop := i.reset=false ∧ bfWrFlush s i=false

instance (s : StreamPath) (i : PathInput) : Decidable (Kept s i) := instDecidableAnd

variable (bitFeed : Bool) {s : StreamPath} {i : PathInput}

/-- A byte is popped. -/
def popsByte (s : StreamPath) : Bool := s.scan.rdEn && !BitstreamFifo.rdEmpty s.fifo.ring

theorem Shallow.room (h : Shallow s) : s.fifo.ring.level.toNat<2^15 := by
  have hlevel := h.level
  omega

open BitstreamFifo

theorem clr_of_kept (h : Kept s i) : BitstreamFifo.clr (fifoInput s i)=false := by
  unfold clr fifoInput
  rw [h.1,h.2]
  rfl

theorem fifo_moves (h : Shallow s) (hkept : Kept s i) :
    (if popsByte s then [(step bitFeed s i).fifo.rdData] else []) ++
        (step bitFeed s i).fifo.ring.contents =
      s.fifo.ring.contents ++ wireByte s :=
  contents_step (clr_of_kept hkept) h.room

/-- The byte that the scanner reads. -/
theorem readByte_step (hkept : Kept s i) :
    readByte (step bitFeed s i) = if popsByte s then [(step bitFeed s i).fifo.rdData] else [] := by
  have hreset : (scanInput s i).reset=false := by
    have hflush := hkept.2
    unfold bfWrFlush at hflush
    rw [Bool.or_eq_false_iff] at hflush
    unfold scanInput
    rw [hkept.1,hflush.2]
    rfl
  have hvalid : (step bitFeed s i).scan.dataValid=popsByte s := by
    unfold step NaluScanner.step
    rw [hreset,if_neg Bool.false_ne_true]
    rfl
  unfold readByte
  rw [hvalid]

/-- The bytes in flight after one clock. -/
theorem inFlight_step (h : Shallow s) (hkept : Kept s i) :
    readByte s ++ inFlight (step bitFeed s i) = inFlight s ++ wireByte (step bitFeed s i) := by
  unfold inFlight
  rw [readByte_step bitFeed hkept,fifo_moves bitFeed h hkept]
  simp only [List.append_assoc]

/-- The FIFO stays shallow. -/
theorem Shallow.step (h : Shallow s) (i : PathInput) : Shallow (step bitFeed s i) := by
  have hlevel := h.level
  by_cases hkept : Kept s i
  · have hmoves := congrArg List.length (fifo_moves bitFeed h hkept)
    have hrd : (Stream.step bitFeed s i).scan.rdEn = !rdEmpty s.fifo.ring := by
      have hflush := hkept.2
      unfold bfWrFlush at hflush
      rw [Bool.or_eq_false_iff] at hflush
      unfold Stream.step NaluScanner.step scanInput
      rw [hkept.1,hflush.2]
      rfl
    have hwire : (wireByte s).length≤1 := by
      unfold wireByte
      split_ifs
      · exact Nat.le_refl 1
      · exact Nat.zero_le 1
    rw [List.length_append,List.length_append,RingFifo.length_contents,
      RingFifo.length_contents] at hmoves
    cases hempty : rdEmpty s.fifo.ring with
    | true =>
      have hzero := (rdEmpty_iff _).mp hempty
      exact ⟨by omega,fun htwo => by omega⟩
    | false =>
      have hpops : popsByte s=s.scan.rdEn := by
        unfold popsByte
        rw [hempty,Bool.not_false,Bool.and_true]
      rw [hempty] at hrd
      rw [hpops] at hmoves
      have hpopped := h.popped
      cases hen : s.scan.rdEn with
      | true =>
        rw [hen,if_pos rfl,List.length_singleton] at hmoves
        exact ⟨by omega,fun _ => hrd⟩
      | false =>
        have hone : s.fifo.ring.level.toNat≠2 := fun htwo =>
          absurd (hen.symm.trans (hpopped htwo)) Bool.false_ne_true
        exact ⟨by omega,fun _ => hrd⟩
  · have hclear : clr (fifoInput s i)=true := by
      unfold clr fifoInput
      cases hreset : i.reset with
      | true => rfl
      | false =>
        cases hflush : bfWrFlush s i with
        | true => rfl
        | false => exact absurd ⟨hreset,hflush⟩ hkept
    have hzero : (Stream.step bitFeed s i).fifo.ring.level.toNat=0 :=
      level_clear hclear
    exact ⟨by omega,fun htwo => by omega⟩

end Misterplex.Stream
