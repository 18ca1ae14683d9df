import Misterplex.Rbsp.Emulation

/-!
# nalu_scanner

The scanner pops bytes off the stream FIFO, finds start codes and copies the
payload of parameter sets and slice headers to their parsers, with emulation
prevention removed. Every capture is a clear pulse, one enable pulse per byte
and an end pulse. The zero counter of the stripper restarts after a skipped 03.
-/

namespace Misterplex.NaluScanner

open Trace Emulation

/-- Destination of the unit under capture. -/
inductive CapTarget where
  | none
  /-- Sequence parameter set. -/
  | sps
  /-- Picture parameter set. -/
  | pps
  | slice
  deriving DecidableEq, Repr

/-- Registered capture outputs to one parser. -/
structure CapPort where
  /-- A unit begins; a byte of it comes. -/
  (clear en : Bool)
  data : Byte
  finish : Bool
  deriving DecidableEq, Repr

/-- Registers that a consumed byte reads or assigns. -/
structure ScanRegs where
  /-- Units so far. -/
  naluCount : BitVec 16
  /-- Header of the last one. -/
  lastNalType : Byte
  /-- Some byte has been seen. -/
  hasStream : Bool
  /-- Bytes so far. -/
  bytesSeen : BitVec 32
  /-- Units of type 5. -/
  idrCount : BitVec 8
  /-- Units of types 7 and 8. -/
  (spsCount ppsCount : BitVec 8)
  /-- Units of type 1. -/
  sliceCount : BitVec 8
  /-- A unit of type 5 has been seen. -/
  hasIdr : Bool
  /-- Pulse for a unit of type 1 or 5. -/
  vclPulse : Bool
  /-- Capture outputs for the sequence parameter set. -/
  sps : CapPort
  /-- Capture outputs for the picture parameter set. -/
  pps : CapPort
  /-- Capture outputs for the slice header. -/
  sl : CapPort
  /-- The ended slice header is of type 5. -/
  slIsIdr : Bool
  /-- The ended slice header has a nonzero nal_ref_idc. -/
  slNalRefIdcNonzero : Bool
  /-- Saturating run of zero bytes in the stream. -/
  zrun : BitVec 2
  /-- The next byte is a unit header. -/
  pendType : Bool
  /-- Destination of the current unit. -/
  capTgt : CapTarget
  /-- Zero counter of the stripper. -/
  epbZ : BitVec 2
  /-- Bytes stored of the current unit. -/
  capLen : BitVec 6
  /-- Current slice is of type 5. -/
  slIdrR : Bool
  /-- Current slice has a nonzero nal_ref_idc. -/
  slRefR : Bool
  /-- The slice header has ended before its unit. -/
  slDone : Bool
  deriving DecidableEq, Repr

/-- Registers of the module: the scan and its read pipeline. -/
structure ScannerState where
  /-- Everything a consumed byte touches. -/
  regs : ScanRegs
  /-- Pop request to the FIFO. -/
  rdEn : Bool
  /-- rd_data carries a popped byte. -/
  dataValid : Bool
  deriving DecidableEq, Repr

/-- Input wires of one clock cycle. -/
structure ScannerInput where
  reset : Bool
  rdData : Byte
  rdEmpty : Bool
  deriving DecidableEq, Repr

/-- Capture outputs at rest. -/
def CapPort.idle : CapPort := ⟨false,false,0#8,false⟩

/-- Register values after reset. -/
def ScanRegs.cleared : ScanRegs :=
  { naluCount := 0#16, lastNalType := 0#8, hasStream := false, bytesSeen := 0#32,
    idrCount := 0#8, spsCount := 0#8, ppsCount := 0#8, sliceCount := 0#8, hasIdr := false,
    vclPulse := false, sps := CapPort.idle, pps := CapPort.idle, sl := CapPort.idle,
    slIsIdr := false, slNalRefIdcNonzero := false, zrun := 0#2, pendType := false,
    capTgt := CapTarget.none, epbZ := 0#2, capLen := 0#6, slIdrR := false, slRefR := false,
    slDone := false }

/-- All registers after reset. -/
def cleared : ScannerState := ⟨ScanRegs.cleared,false,false⟩

variable (s : ScanRegs)

/-- The can_store wire. -/
def canStore : Bool :=
  s.capTgt != .none && !s.slDone && !(s.capTgt == .slice && 48 ≤ s.capLen.toNat)

/-- The pulses of a port return to rest. -/
def CapPort.quiet (p : CapPort) : CapPort := { p with clear := false, en := false, finish := false }

/-- Default assignments of the pulses. -/
def clearPulses : ScanRegs :=
  { s with vclPulse := false, sps := s.sps.quiet, pps := s.pps.quiet, sl := s.sl.quiet }

/-- End pulse of a slice header with its two flags. -/
def endSlice : ScanRegs :=
  { s with sl := { s.sl with finish := true }, slIsIdr := s.slIdrR, slNalRefIdcNonzero := s.slRefR }

/-- End pulse to the current destination. -/
def closeCapture : ScanRegs :=
  match s.capTgt with
  | .sps => { s with sps := { s.sps with finish := true } }
  | .pps => { s with pps := { s.pps with finish := true } }
  | .slice => if s.slDone then s else endSlice s
  | .none => s

/-- Enable pulse with a byte to the current destination; the 48th byte ends a
slice header. -/
def storeByte (b : Byte) : ScanRegs :=
  match s.capTgt with
  | .sps => { s with sps := { s.sps with en := true, data := b }, capLen := s.capLen+1 }
  | .pps => { s with pps := { s.pps with en := true, data := b }, capLen := s.capLen+1 }
  | _ =>
    let t := { s with sl := { s.sl with en := true, data := b }, capLen := s.capLen+1 }
    if s.capTgt = .slice ∧ s.capLen = 47#6 then { endSlice t with slDone := true } else t

/-- A unit header: close what is open and select the destination by type. -/
def headerByte (b : Byte) : ScanRegs :=
  let t := { closeCapture s with lastNalType := b, naluCount := s.naluCount+1, pendType := false,
                                 zrun := 0#2, epbZ := 0#2, capLen := 0#6, slDone := false }
  match (b.extractLsb' 0 5).toNat with
  | 7 => { t with spsCount := s.spsCount+1, capTgt := .sps, sps := { t.sps with clear := true } }
  | 8 => { t with ppsCount := s.ppsCount+1, capTgt := .pps, pps := { t.pps with clear := true } }
  | 5 => { t with idrCount := s.idrCount+1, hasIdr := true, vclPulse := true, capTgt := .slice,
                  slIdrR := true, slRefR := b.extractLsb' 5 2 != 0#2,
                  sl := { t.sl with clear := true } }
  | 1 => { t with sliceCount := s.sliceCount+1, vclPulse := true, capTgt := .slice,
                  slIdrR := false, slRefR := b.extractLsb' 5 2 != 0#2,
                  sl := { t.sl with clear := true } }
  | _ => { t with capTgt := .none }

/-- A zero byte is counted and stored. -/
def zeroByte : ScanRegs :=
  let t := { s with zrun := if s.zrun.toNat < 3 then s.zrun+1 else s.zrun }
  if canStore s then
    storeByte { t with epbZ := if s.epbZ.toNat < 2 then s.epbZ+1 else s.epbZ } 0#8
  else t

/-- The 01 of a start code ends the capture. -/
def startCode : ScanRegs :=
  { closeCapture s with capTgt := .none, slDone := false, epbZ := 0#2, capLen := 0#6,
                        pendType := true, zrun := 0#2 }

/-- Any other byte is stored unless it is an emulation prevention byte. -/
def payloadByte (b : Byte) : ScanRegs :=
  let t := { s with zrun := 0#2 }
  if canStore s then
    if b = 3#8 ∧ 2 ≤ s.epbZ.toNat then { t with epbZ := 0#2 }
    else storeByte { t with epbZ := 0#2 } b
  else t

/-- One popped byte. -/
def consumeByte (b : Byte) : ScanRegs :=
  let t := { s with bytesSeen := s.bytesSeen+1, hasStream := true }
  if s.pendType then headerByte t b
  else if b = 0#8 then zeroByte t
  else if b = 1#8 ∧ 2 ≤ s.zrun.toNat then startCode t
  else payloadByte t b

/-- One rising clock edge. -/
def step (s : ScannerState) (i : ScannerInput) : ScannerState :=
  if i.reset then cleared
  else
    { regs := if s.dataValid then consumeByte (clearPulses s.regs) i.rdData
              else clearPulses s.regs,
      rdEn := !i.rdEmpty, dataValid := s.rdEn && !i.rdEmpty }

/-- Byte consumed in a cycle. -/
def consumed (s : ScannerState) (i : ScannerInput) : List Byte :=
  if s.dataValid then [i.rdData] else []

/-- One pulse to a parser. -/
inductive CapEvent where
  | clear (t : CapTarget)
  | byte (t : CapTarget) (b : Byte)
  | finish (t : CapTarget)
  deriving DecidableEq, Repr

/-- Pulses on one port. -/
def CapPort.events (t : CapTarget) (p : CapPort) : List CapEvent :=
  (if p.clear then [.clear t] else []) ++ (if p.en then [.byte t p.data] else []) ++
    (if p.finish then [.finish t] else [])

/-- Pulses the parsers see in a cycle. -/
def events : List CapEvent :=
  s.sps.events .sps ++ s.pps.events .pps ++ s.sl.events .slice

/-- A cycle without reset. -/
def Quiet (i : ScannerInput) : Prop := i.reset=false

/-- The scan as a transducer from consumed bytes to pulses. -/
def scan : Transducer ScanRegs Byte CapEvent where
  next r b := clearPulses (consumeByte r b)
  emit r b := events (consumeByte r b)

/-- No capture is open when a unit header is due. -/
def Valid (r : ScanRegs) : Prop := r.pendType=true → r.capTgt = .none

theorem pendType_storeByte (r : ScanRegs) (b : Byte) : (storeByte r b).pendType=r.pendType := by
  unfold storeByte endSlice
  cases r.capTgt <;> dsimp only <;> split_ifs <;> rfl

theorem pendType_headerByte (r : ScanRegs) (b : Byte) : (headerByte r b).pendType=false := by
  unfold headerByte
  split <;> rfl

theorem pendType_zeroByte (r : ScanRegs) : (zeroByte r).pendType=r.pendType := by
  unfold zeroByte
  by_cases hc : canStore r=true
  · rw [if_pos hc,pendType_storeByte]
  · rw [if_neg hc]

theorem pendType_payloadByte (r : ScanRegs) (b : Byte) :
    (payloadByte r b).pendType=r.pendType := by
  unfold payloadByte
  by_cases hc : canStore r=true
  · rw [if_pos hc]
    by_cases h3 : b=3#8 ∧ 2≤r.epbZ.toNat
    · rw [if_pos h3]
    · rw [if_neg h3,pendType_storeByte]
  · rw [if_neg hc]

theorem bytesSeen_closeCapture (r : ScanRegs) : (closeCapture r).bytesSeen=r.bytesSeen := by
  unfold closeCapture endSlice
  cases r.capTgt <;> dsimp only
  split_ifs <;> rfl

theorem bytesSeen_storeByte (r : ScanRegs) (b : Byte) : (storeByte r b).bytesSeen=r.bytesSeen := by
  unfold storeByte endSlice
  cases r.capTgt <;> dsimp only <;> split_ifs <;> rfl

theorem bytesSeen_consumeByte (r : ScanRegs) (b : Byte) :
    (consumeByte r b).bytesSeen=r.bytesSeen+1 := by
  unfold consumeByte
  dsimp only
  split_ifs
  · unfold headerByte
    split
    all_goals exact bytesSeen_closeCapture _
  · unfold zeroByte
    dsimp only
    split_ifs
    all_goals first
      | exact bytesSeen_storeByte _ _
      | rfl
  · exact bytesSeen_closeCapture _
  · unfold payloadByte
    split_ifs
    all_goals first
      | exact bytesSeen_storeByte _ _
      | rfl

theorem valid_consumeByte (r : ScanRegs) (b : Byte) : Valid (consumeByte r b) := by
  unfold consumeByte Valid
  by_cases hp : r.pendType = true
  · rw [if_pos hp,pendType_headerByte]
    exact fun h => absurd h Bool.false_ne_true
  · rw [if_neg hp]
    by_cases hz : b = 0#8
    · rw [if_pos hz,pendType_zeroByte]
      exact fun h => absurd h hp
    · rw [if_neg hz]
      by_cases h1 : b=1#8 ∧ 2 ≤ r.zrun.toNat
      · rw [if_pos h1]
        exact fun _ => rfl
      · rw [if_neg h1,pendType_payloadByte]
        exact fun h => absurd h hp

/-- The module is a stage of the scan whose registers hold one cycle of pulses. -/
def stage : Transducer.Stage scan step consumed (fun s _ => events s.regs) where
  valid s := Valid s.regs
  legal := Quiet
  control s := clearPulses s.regs
  pending s := events s.regs
  valid_step s i hs hi := by
    rw [step,if_neg (by simp [show i.reset=false from hi])]
    dsimp only
    split_ifs
    · exact valid_consumeByte _ _
    · exact hs
  control_step s i _ hi := by
    rw [step,if_neg (by simp [show i.reset=false from hi]),consumed]
    dsimp only
    split_ifs <;> rfl
  conserve s i _ hi := by
    rw [step,if_neg (by simp [show i.reset=false from hi]),consumed]
    dsimp only
    split_ifs
    · rw [Transducer.run_cons,Transducer.run_nil,List.append_nil]
      rfl
    · rw [Transducer.run_nil]
      rfl

/-- A parameter set is under capture, with a number of zero bytes just passed. -/
structure Capturing (tgt : CapTarget) (zeros : ℕ) (r : ScanRegs) : Prop where
  /-- No slice header is captured. -/
  target : r.capTgt=tgt ∧ (tgt = .sps ∨ tgt = .pps)
  /-- No unit header is due. -/
  payload : r.pendType=false
  /-- The capture has not ended early. -/
  open_ : r.slDone=false
  /-- Zero run of the start-code search. -/
  zrun : r.zrun.toNat=min zeros 3
  epbZ : r.epbZ.toNat=min zeros 2
  rest : clearPulses r=r

theorem toNat_inc_of_lt {c : BitVec 2} (h : c.toNat<3) : (c+1).toNat=c.toNat+1 := by
  rw [BitVec.toNat_add,show (1 : BitVec 2).toNat=1 from rfl,Nat.mod_eq_of_lt (by omega)]

variable {tgt : CapTarget} {r : ScanRegs} {zeros : ℕ}

theorem Capturing.canStore (h : Capturing tgt zeros r) : NaluScanner.canStore r=true := by
  obtain ⟨htgt,hcase⟩ := h.target
  cases hcase with
  | inl hs => simp [NaluScanner.canStore,htgt,hs,h.open_]
  | inr hs => simp [NaluScanner.canStore,htgt,hs,h.open_]

/-- A byte of a parameter set is handed to its parser. -/
theorem storeByte_spec (b : Byte) (htgt : r.capTgt=tgt) (hcase : tgt = .sps ∨ tgt = .pps) :
    events (storeByte (clearPulses r) b)=[CapEvent.byte tgt b] ∧
      (storeByte (clearPulses r) b).capTgt=tgt ∧
      (storeByte (clearPulses r) b).pendType=r.pendType ∧
      (storeByte (clearPulses r) b).slDone=r.slDone ∧
      (storeByte (clearPulses r) b).zrun=r.zrun ∧
      (storeByte (clearPulses r) b).epbZ=r.epbZ := by
  have hkeep : (clearPulses r).capTgt=tgt := htgt
  unfold storeByte
  rw [hkeep]
  cases hcase with
  | inl h =>
    subst h
    exact ⟨rfl,rfl,rfl,rfl,rfl,rfl⟩
  | inr h =>
    subst h
    exact ⟨rfl,rfl,rfl,rfl,rfl,rfl⟩

/-- A zero goes into the capture and is counted. -/
theorem Capturing.zero (h : Capturing tgt zeros r) :
    scan.emit r 0#8=[CapEvent.byte tgt 0#8] ∧ Capturing tgt (zeros+1) (scan.next r 0#8) := by
  obtain ⟨htgt,hcase⟩ := h.target
  let t : ScanRegs :=
    { r with bytesSeen := r.bytesSeen+1, hasStream := true,
             zrun := if r.zrun.toNat < 3 then r.zrun+1 else r.zrun,
             epbZ := if r.epbZ.toNat < 2 then r.epbZ+1 else r.epbZ }
  have hrest : clearPulses t=t := by
    have hr := h.rest
    dsimp only [t]
    rw [← hr]
    rfl
  have hbyte : consumeByte r 0#8=storeByte (clearPulses t) 0#8 := by
    rw [hrest,consumeByte,if_neg (by simp [h.payload]),if_pos rfl,zeroByte]
    exact if_pos h.canStore
  obtain ⟨hev,hcap,hpend,hdone,hz,he⟩ := storeByte_spec 0#8 (show t.capTgt=tgt from htgt) hcase
  dsimp only [scan]
  rw [hbyte]
  refine ⟨hev,⟨⟨hcap,hcase⟩,hpend.trans h.payload,hdone.trans h.open_,?_,?_,rfl⟩⟩
  · have hzr := h.zrun
    rw [show (clearPulses (storeByte (clearPulses t) 0#8)).zrun=t.zrun from hz]
    dsimp only [t]
    by_cases hlt : r.zrun.toNat<3
    · rw [if_pos hlt,toNat_inc_of_lt hlt]
      omega
    · rw [if_neg hlt]
      omega
  · have hep := h.epbZ
    rw [show (clearPulses (storeByte (clearPulses t) 0#8)).epbZ=t.epbZ from he]
    dsimp only [t]
    by_cases hlt : r.epbZ.toNat<2
    · rw [if_pos hlt,toNat_inc_of_lt (by omega)]
      omega
    · rw [if_neg hlt]
      omega

/-- A three behind two zeros is dropped. -/
theorem Capturing.skip (h : Capturing tgt 2 r) :
    scan.emit r 3#8=[] ∧ Capturing tgt 0 (scan.next r 3#8) := by
  have hbyte : consumeByte r 3#8 =
      { r with bytesSeen := r.bytesSeen+1, hasStream := true, zrun := 0#2, epbZ := 0#2 } := by
    have hz : (3#8=3#8 ∧ 2≤r.epbZ.toNat) := ⟨rfl,by rw [h.epbZ]; decide⟩
    rw [consumeByte,if_neg (by simp [h.payload]),if_neg (by decide),
      if_neg (fun hc => absurd hc.1 (by decide)),payloadByte]
    exact (if_pos h.canStore).trans (if_pos hz)
  dsimp only [scan]
  rw [hbyte]
  refine ⟨?_,⟨h.target,h.payload,h.open_,rfl,rfl,rfl⟩⟩
  have hr := h.rest
  rw [← hr]
  rfl

/-- Any other byte that is neither the 01 of a start code nor a 03 to skip is
captured and restarts both counters. -/
theorem Capturing.push (h : Capturing tgt zeros r)
    {b : Byte} (h0 : b≠0#8) (hfree : 2≤zeros → b≠1#8 ∧ b≠3#8) :
    scan.emit r b=[CapEvent.byte tgt b] ∧ Capturing tgt 0 (scan.next r b) := by
  obtain ⟨htgt,hcase⟩ := h.target
  let t : ScanRegs :=
    { r with bytesSeen := r.bytesSeen+1, hasStream := true, zrun := 0#2, epbZ := 0#2 }
  have hrest : clearPulses t=t := by
    have hr := h.rest
    dsimp only [t]
    rw [← hr]
    rfl
  have hone : ¬(b=1#8 ∧ 2≤r.zrun.toNat) := by
    have hzr := h.zrun
    exact fun hc => (hfree (by omega)).1 hc.1
  have hthree : ¬(b=3#8 ∧ 2≤r.epbZ.toNat) := by
    have hep := h.epbZ
    exact fun hc => (hfree (by omega)).2 hc.1
  have hbyte : consumeByte r b=storeByte (clearPulses t) b := by
    rw [hrest,consumeByte,if_neg (by simp [h.payload]),if_neg h0,if_neg hone,payloadByte]
    exact (if_pos h.canStore).trans (if_neg hthree)
  obtain ⟨hev,hcap,hpend,hdone,hz,he⟩ := storeByte_spec b (show t.capTgt=tgt from htgt) hcase
  dsimp only [scan]
  rw [hbyte]
  exact ⟨hev,⟨⟨hcap,hcase⟩,hpend.trans h.payload,hdone.trans h.open_,
    congrArg BitVec.toNat hz,congrArg BitVec.toNat he,rfl⟩⟩

/-- A one behind two zeros ends the capture. -/
theorem Capturing.finish (h : Capturing tgt zeros r)
    (hz : 2≤zeros) : scan.emit r 1#8=[CapEvent.finish tgt] := by
  obtain ⟨htgt,hcase⟩ := h.target
  have hzr := h.zrun
  have hrest := h.rest
  have hbyte : consumeByte r 1#8 =
      startCode { r with bytesSeen := r.bytesSeen+1, hasStream := true } := by
    rw [consumeByte,if_neg (by simp [h.payload]),if_neg (by decide),if_pos ⟨rfl,by omega⟩]
  dsimp only [scan]
  rw [hbyte,startCode,closeCapture]
  rw [htgt,← hrest]
  cases hcase with
  | inl hs => rw [hs]; rfl
  | inr hs => rw [hs]; rfl

/-- The header of a parameter set clears its parser. -/
theorem headerByte_spec (hv : Valid r) (hp : r.pendType=true)
    (hrest : clearPulses r=r) {hdr : Byte} (htype : (hdr.extractLsb' 0 5).toNat=7 ∧ tgt = .sps ∨
      (hdr.extractLsb' 0 5).toNat=8 ∧ tgt = .pps) :
    scan.emit r hdr=[CapEvent.clear tgt] ∧ Capturing tgt 0 (scan.next r hdr) := by
  have hnone := hv hp
  have hbyte : consumeByte r hdr =
      headerByte { r with bytesSeen := r.bytesSeen+1, hasStream := true } hdr := by
    exact if_pos hp
  dsimp only [scan]
  rw [hbyte,headerByte,closeCapture]
  dsimp only
  rw [hnone,← hrest]
  cases htype with
  | inl hs =>
    obtain ⟨h7,rfl⟩ := hs
    rw [h7]
    exact ⟨rfl,⟨⟨rfl,Or.inl rfl⟩,rfl,rfl,rfl,rfl,rfl⟩⟩
  | inr hs =>
    obtain ⟨h8,rfl⟩ := hs
    rw [h8]
    exact ⟨rfl,⟨⟨rfl,Or.inr rfl⟩,rfl,rfl,rfl,rfl,rfl⟩⟩

/-- The scanner recovers a payload when, after any run from reset to a unit
header and under any pattern of FIFO stalls, the coded payload of a parameter
set up to the 01 of the next start code is captured as the payload and the zero
bytes of that start code. -/
def Recovers (bytes : List Byte) : Prop :=
  ∀ before inputs : List ScannerInput, (∀ i ∈ before ++ inputs, i.reset=false) →
    (finalState step cleared before).regs.pendType=true →
    ∀ (hdr : Byte) (tgt : CapTarget),
      ((hdr.extractLsb' 0 5).toNat=7 ∧ tgt = .sps ∨ (hdr.extractLsb' 0 5).toNat=8 ∧ tgt = .pps) →
      ∀ k, 2≤k →
        emitted step consumed (finalState step cleared before) inputs =
          hdr::insertEpb bytes ++ List.replicate k 0#8 ++ [1#8] →
        emitted step (fun s _ => events s.regs) (finalState step cleared before) inputs ++
            events (finalState step cleared (before ++ inputs)).regs =
          events (finalState step cleared before).regs ++ CapEvent.clear tgt ::
            ((bytes ++ List.replicate k 0#8).map (CapEvent.byte tgt) ++ [CapEvent.finish tgt])

open Transducer

theorem Capturing.payload_run (bytes : List Byte) (h : Capturing tgt zeros r) (hz : zeros≤2) :
    scan.run r (insertEpbFrom zeros bytes) = bytes.map (CapEvent.byte tgt) ∧
      ∃ n, Capturing tgt n (scan.after r (insertEpbFrom zeros bytes)) := by
  induction bytes generalizing zeros r with
  | nil => exact ⟨rfl,zeros,h⟩
  | cons b bytes ih =>
    by_cases h0 : b=0#8
    · subst h0
      by_cases h2 : zeros=2
      · subst h2
        obtain ⟨hskip,hcap⟩ := h.skip
        obtain ⟨hzero,hnext⟩ := hcap.zero
        obtain ⟨hrun,hafter⟩ := ih hnext (by omega)
        rw [insertEpbFrom_two_zero,run_cons,run_cons,hskip,hzero,hrun]
        exact ⟨rfl,hafter⟩
      · obtain ⟨hzero,hnext⟩ := h.zero
        obtain ⟨hrun,hafter⟩ := ih hnext (by omega)
        rw [insertEpbFrom_zero h2,run_cons,hzero,hrun]
        exact ⟨rfl,hafter⟩
    · by_cases hle : b≤3#8
      · by_cases h2 : zeros=2
        · subst h2
          obtain ⟨hskip,hcap⟩ := h.skip
          obtain ⟨hpush,hnext⟩ := hcap.push h0 (fun hc => absurd hc (by omega))
          obtain ⟨hrun,hafter⟩ := ih hnext (by omega)
          rw [insertEpbFrom_two_small h0 hle,run_cons,run_cons,hskip,
            hpush,hrun]
          exact ⟨rfl,hafter⟩
        · obtain ⟨hpush,hnext⟩ := h.push h0 (fun hc => absurd hc (by omega))
          obtain ⟨hrun,hafter⟩ := ih hnext (by omega)
          rw [insertEpbFrom_ne h2 h0,run_cons,hpush,hrun]
          exact ⟨rfl,hafter⟩
      · have hfree : 2≤zeros → b≠1#8 ∧ b≠3#8 := by
          intro _
          exact ⟨fun hb => hle (by rw [hb]; decide),fun hb => hle (by rw [hb]; decide)⟩
        obtain ⟨hpush,hnext⟩ := h.push h0 hfree
        obtain ⟨hrun,hafter⟩ := ih hnext (by omega)
        rw [insertEpbFrom_large hle,run_cons,hpush,hrun]
        exact ⟨rfl,hafter⟩

theorem Capturing.zeros_run (k : ℕ) (h : Capturing tgt zeros r) :
    scan.run r (List.replicate k 0#8)=(List.replicate k 0#8).map (CapEvent.byte tgt) ∧
      Capturing tgt (zeros+k) (scan.after r (List.replicate k 0#8)) := by
  induction k generalizing zeros r with
  | zero => exact ⟨rfl,h⟩
  | succ k ih =>
    obtain ⟨hzero,hnext⟩ := h.zero
    obtain ⟨hrun,hafter⟩ := ih hnext
    rw [List.replicate_succ,run_cons,hzero,hrun]
    refine ⟨rfl,?_⟩
    rw [after_cons,show zeros+(k+1)=zeros+1+k by omega]
    exact hafter

/-- The scan captures the payload of a parameter set between its header and the
next start code. -/
theorem scan_unit (hv : Valid r) (hp : r.pendType=true) (hrest : clearPulses r=r) {hdr : Byte}
    (htype : (hdr.extractLsb' 0 5).toNat=7 ∧ tgt = .sps ∨
      (hdr.extractLsb' 0 5).toNat=8 ∧ tgt = .pps) (bytes : List Byte) {k : ℕ} (hk : 2≤k) :
    scan.run r (hdr::insertEpb bytes ++ List.replicate k 0#8 ++ [1#8]) =
      CapEvent.clear tgt ::
        ((bytes ++ List.replicate k 0#8).map (CapEvent.byte tgt) ++ [CapEvent.finish tgt]) := by
  obtain ⟨hclear,hopen⟩ := headerByte_spec hv hp hrest htype
  obtain ⟨hbody,n,hmid⟩ := hopen.payload_run bytes (by omega)
  obtain ⟨hzeros,hend⟩ := hmid.zeros_run k
  have hfinish := hend.finish (by omega)
  rw [List.cons_append,List.cons_append,run_cons,hclear,run_append,
    run_append,insertEpb,hbody,hzeros,after_append,run_cons,
    run_nil,hfinish,List.map_append]
  rfl

theorem recovers (bytes : List Byte) : Recovers bytes := by
  intro before inputs hquiet hpend hdr tgt htype k hk hcons
  have hbefore : ∀ i∈before, Quiet i := fun i hi => hquiet i (List.mem_append_left inputs hi)
  have hinputs : ∀ i∈inputs, Quiet i := fun i hi => hquiet i (List.mem_append_right before hi)
  have hstart : Valid cleared.regs := fun _ => rfl
  have hv := stage.valid_run cleared before hstart hbefore
  have hrun := stage.conserve_run (finalState step cleared before) inputs hv hinputs
  have hunit := scan_unit (show Valid (clearPulses (finalState step cleared before).regs) from hv) hpend
    rfl htype bytes hk
  rw [hcons] at hrun
  rw [finalState_append]
  exact hrun.trans (congrArg _ hunit)

end Misterplex.NaluScanner
