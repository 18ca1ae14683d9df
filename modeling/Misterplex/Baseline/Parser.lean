import Misterplex.Lib.Asking

/-!
# The syntax parser of the Baseline profile

h264_baseline_syntax_parser takes the bytes of one RBSP into a buffer, and with the
last one starts to read it from a given bit: a picture parameter set, a slice
header, or the syntax of one macroblock in front of its residual. Three states
collect bits and codes, one or two clocks of each other state look at what was
collected and start the next element.
-/

namespace Misterplex.Baseline

open BitString

/-- A byte. -/
abbrev Byte := BitVec 8

/-- `MAX_RBSP_BYTES`, the size of the capture memory. -/
def maxRbspBytes : ℕ := 8192

/-- Inputs that are held while an RBSP is parsed. -/
structure Inputs where
  /-- mode: 0 a picture parameter set, 1 a slice header, 2 a macroblock. -/
  mode : BitVec 2
  /-- Where to begin. -/
  startBit : BitVec 16
  /-- Of the unit's header. -/
  nalUnitType : BitVec 5
  /-- Of the unit's header. -/
  nalRefIdc : BitVec 2
  /-- Widths of frame_num and pic_order_cnt_lsb. -/
  (log2MaxFrameNum log2MaxPicOrderCntLsb : BitVec 5)
  /-- Of the sequence parameter set. -/
  pocTypeIn : BitVec 3
  /-- Of the picture parameter set. -/
  ppsPicInitQp : BitVec 8
  /-- Slices carry deblocking control. -/
  ppsDeblockCtrl : Bool
  /-- Slice type and quantiser in force at a macroblock. -/
  (activeSliceType qpIn : BitVec 8)
  numRefIdxL0ActiveMinus1 : BitVec 3
  deriving DecidableEq, Repr

/-- Partition modes. -/
inductive PartitionMode where
  | unknown
  | pSkip
  | p16x16
  | p16x8
  | p8x16
  | p8x8
  | iNxN
  | i16x16
  | iPcm
  deriving DecidableEq, Repr

/-- Outputs for a picture parameter set. -/
structure PpsFields where
  spsId : BitVec 8
  entropyCabac : Bool
  /-- Defaults of its slices. -/
  (numRefIdxL0DefaultMinus1 picInitQp : BitVec 8)
  deblockCtrl : Bool
  deriving DecidableEq, Repr

/-- Outputs for a slice header. -/
structure SliceFields where
  firstMbInSlice : BitVec 16
  sliceType : BitVec 8
  /-- Numbers of the picture. -/
  (frameNum picOrderCntLsb idrPicId : BitVec 16)
  /-- Coded change of the quantiser, and the quantiser. -/
  (sliceQpDelta sliceQp : BitVec 8)
  disableDeblockingIdc : BitVec 2
  /-- Offsets of the deblocking filter. -/
  (sliceAlphaC0OffsetDiv2 sliceBetaOffsetDiv2 : BitVec 8)
  /-- Where the macroblocks begin. -/
  macroblockBitOffset : BitVec 16
  deriving DecidableEq, Repr

/-- Outputs for a macroblock. -/
structure MbFields where
  /-- Macroblocks skipped before it. -/
  mbSkipRun : BitVec 16
  /-- It is skipped itself. -/
  mbSkipped : Bool
  mbType : BitVec 8
  /-- How it is partitioned. -/
  partitionMode : PartitionMode
  /-- Which blocks have the predicted mode. -/
  intra4x4PredModeFlags : Fin 16 → Bool
  /-- The modes of the others. -/
  intra4x4RemModes : Fin 16 → BitVec 3
  intraChromaPredMode : BitVec 3
  /-- Which blocks have coefficients. -/
  codedBlockPattern : BitVec 6
  /-- Coded change of the quantiser, and the quantiser. -/
  (mbQpDelta mbQp : BitVec 8)
  /-- Where these begin. -/
  residualBitOffset : BitVec 16

/-- Registers that only count within a macroblock. -/
structure MbCounters where
  iMbType : BitVec 8
  /-- Modes, vectors and sub-macroblocks being counted. -/
  (i4Idx mvdPairsLeft subIdx : ℕ)
  cbpMapped : BitVec 6
  deriving DecidableEq, Repr

/-- Registers that the states with a meaning set. -/
structure Regs where
  /-- Something was met that is not supported. -/
  unsupported : Bool
  /-- pps_id, of a picture parameter set and of a slice header. -/
  ppsId : BitVec 8
  /-- Picture parameter set. -/
  pps : PpsFields
  slice : SliceFields
  mb : MbFields
  counters : MbCounters

variable (i : Inputs)

/-- The registers behind reset_outputs. -/
def Regs.reset : Regs where
  unsupported := false
  ppsId := 0
  pps := ⟨0,false,0,26,false⟩
  slice := ⟨0,0,0,0,0,0,26,0,0,0,0⟩
  mb := ⟨0,false,0,.unknown,fun _ => false,fun _ => 0,0,0,0,i.qpIn,0⟩
  counters := ⟨0,0,0,0,0⟩

/-- The signed value of an Exp-Golomb code, in eight bits. -/
def se8FromUe (code : ℕ) : BitVec 8 :=
  if code%2 = 1 then BitVec.ofInt 8 ((code/2 : ℕ)+1) else BitVec.ofInt 8 (-(code/2 : ℕ))

/-- cbp_intra_map, as a table. -/
def cbpIntraTable : List (BitVec 6) := [
  47,31,15,0,23,27,29,30,7,11,13,14,39,43,45,46,
  16,3,5,10,12,19,21,26,28,35,37,42,44,1,2,4,
  8,17,18,20,24,6,9,22,25,32,33,34,36,40,38,41]

/-- cbp_inter_map, as a table. -/
def cbpInterTable : List (BitVec 6) := [
  0,16,1,2,4,8,32,3,5,10,12,15,47,7,11,13,
  14,6,9,31,35,37,42,44,33,34,36,40,39,43,45,46,
  17,18,20,24,19,21,26,28,23,27,29,30,22,25,38,41]

/-- `coded_block_pattern` of an intra macroblock. -/
def cbpIntraMap (code : BitVec 6) : BitVec 6 := cbpIntraTable.getD code.toNat 0

/-- `coded_block_pattern` of an inter macroblock. -/
def cbpInterMap (code : BitVec 6) : BitVec 6 := cbpInterTable.getD code.toNat 0

/-- The slice types of an I slice. -/
def isISlice (t : BitVec 8) : Bool := t == 2 || t == 7

/-- The slice types of a P slice. -/
def isPSlice (t : BitVec 8) : Bool := t == 0 || t == 5

/-- The motion vector differences that a sub-macroblock type carries. -/
def subMbMvdPairs (subType : ℕ) : ℕ :=
  if subType%4 = 0 then 1 else if subType%4 = 1 then 2 else if subType%4 = 2 then 2 else 4

/-- The coded block pattern inside an Intra16x16 type. -/
def i16CbpFromType (t : BitVec 8) : BitVec 6 :=
  let x := t-1
  let c := x/4%3
  let luma : BitVec 6 := if 12 ≤ x then 15 else 0
  let chroma : BitVec 6 := (c.setWidth 2).setWidth 6
  luma ||| (chroma <<< 4)

/-- States in which what was collected is looked at. -/
inductive Own where
  | idle
  | dispatch
  | finish
  | fail
  | ppsId
  | ppsSps
  | ppsEntropy
  | ppsBottom
  | ppsGroups
  | ppsRef0
  | ppsRef1
  | ppsWeighted
  | ppsWeightedBi
  | ppsQp
  | ppsQs
  | ppsChroma
  | ppsDeblock
  | ppsConstrained
  | ppsRedundant
  | slFirst
  | slType
  | slPps
  | slFrame
  | slIdr
  | slPoc
  | slIdrMark0
  | slIdrMark1
  | slRefMark
  | slQpDelta
  | slDeblockIdc
  | slAlpha
  | slBeta
  | mbStart
  /-- ST_MB_P_SKIP. -/
  | mbPSkip
  | mbType
  | mbI4Flag
  | mbI4Rem
  | mbChroma
  | mbCbpIntra
  | mbCbpInter
  | mbQpDelta
  | mbSubType
  | mbMvdX
  | mbMvdY
  | mbMvdPairDone
  deriving DecidableEq, Repr

/-- The clock of a state that reports what is not supported. -/
def refuse (r : Regs) : Regs × Ask Own := ({ r with unsupported := true },.fail)

/-- ST_PPS_ID to ST_PPS_REDUNDANT. -/
def ppsState (s : Own) (h : Heard) (r : Regs) : Regs × Ask Own :=
  match s with
  | .ppsId => ({ r with ppsId := .ofNat 8 h.ueValue },.ue .ppsSps)
  | .ppsSps => ({ r with pps := { r.pps with spsId := .ofNat 8 h.ueValue } },.bits 1 .ppsEntropy)
  | .ppsEntropy =>
    ({ r with pps := { r.pps with entropyCabac := h.acc.testBit 0 } },.bits 1 .ppsBottom)
  | .ppsBottom => (r,.ue .ppsGroups)
  | .ppsGroups => if h.ueValue ≠ 0 then refuse r else (r,.ue .ppsRef0)
  | .ppsRef0 =>
    ({ r with pps := { r.pps with numRefIdxL0DefaultMinus1 := .ofNat 8 h.ueValue } },.ue .ppsRef1)
  | .ppsRef1 => (r,.bits 1 .ppsWeighted)
  | .ppsWeighted => (r,.bits 2 .ppsWeightedBi)
  | .ppsWeightedBi => (r,.ue .ppsQp)
  | .ppsQp => ({ r with pps := { r.pps with picInitQp := 26+se8FromUe h.ueValue } },.ue .ppsQs)
  | .ppsQs => (r,.ue .ppsChroma)
  | .ppsChroma => (r,.bits 1 .ppsDeblock)
  | .ppsDeblock =>
    ({ r with pps := { r.pps with deblockCtrl := h.acc.testBit 0 } },.bits 1 .ppsConstrained)
  | .ppsConstrained => (r,.bits 1 .ppsRedundant)
  | .ppsRedundant => if r.pps.entropyCabac then refuse r else (r,.go .finish)
  | _ => (r,.fail)

/-- The slice header ends at the position that was heard. -/
def sliceDone (h : Heard) (s : SliceFields) : SliceFields :=
  { s with macroblockBitOffset := .ofNat 16 h.position }

/-- ST_SL_FIRST to ST_SL_BETA. -/
def slState (s : Own) (h : Heard) (r : Regs) : Regs × Ask Own :=
  match s with
  | .slFirst =>
    ({ r with slice := { r.slice with firstMbInSlice := .ofNat 16 h.ueValue } },.ue .slType)
  | .slType => ({ r with slice := { r.slice with sliceType := .ofNat 8 h.ueValue } },.ue .slPps)
  | .slPps => ({ r with ppsId := .ofNat 8 h.ueValue },.bits i.log2MaxFrameNum.toNat .slFrame)
  | .slFrame =>
    ({ r with slice := { r.slice with frameNum := .ofNat 16 h.acc } },
      if i.nalUnitType = 5 then .ue .slIdr
      else if i.pocTypeIn = 0 then .bits i.log2MaxPicOrderCntLsb.toNat .slPoc
      else if i.nalRefIdc ≠ 0 then .bits 1 .slRefMark
      else .ue .slQpDelta)
  | .slIdr =>
    ({ r with slice := { r.slice with idrPicId := .ofNat 16 h.ueValue } },.bits 1 .slIdrMark0)
  | .slPoc =>
    ({ r with slice := { r.slice with picOrderCntLsb := .ofNat 16 h.acc } },
      if i.nalRefIdc ≠ 0 then .bits 1 .slRefMark else .ue .slQpDelta)
  | .slIdrMark0 => (r,.bits 1 .slIdrMark1)
  | .slIdrMark1 => (r,.ue .slQpDelta)
  | .slRefMark => if h.acc.testBit 0 then refuse r else (r,.ue .slQpDelta)
  | .slQpDelta =>
    let slice := { r.slice with
      sliceQpDelta := se8FromUe h.ueValue
      sliceQp := i.ppsPicInitQp+se8FromUe h.ueValue }
    if i.ppsDeblockCtrl then ({ r with slice := slice },.ue .slDeblockIdc)
    else ({ r with slice := sliceDone h slice },.go .finish)
  | .slDeblockIdc =>
    let slice := { r.slice with disableDeblockingIdc := .ofNat 2 h.ueValue }
    if h.ueValue ≠ 1 then ({ r with slice := slice },.ue .slAlpha)
    else ({ r with slice := sliceDone h slice },.go .finish)
  | .slAlpha =>
    ({ r with slice := { r.slice with sliceAlphaC0OffsetDiv2 := se8FromUe h.ueValue } },
      .ue .slBeta)
  | .slBeta =>
    ({ r with slice := sliceDone h { r.slice with sliceBetaOffsetDiv2 := se8FromUe h.ueValue } },
      .go .finish)
  | _ => (r,.fail)

/-- The residual begins at the position that was heard. -/
def mbDone (h : Heard) (m : MbFields) : MbFields :=
  { m with residualBitOffset := .ofNat 16 h.position }

/-- A macroblock of a P slice with motion. -/
def mbInterType (h : Heard) (r : Regs) : Regs × Ask Own :=
  if h.ueValue%8 = 0 then
    ({ r with
      mb := { r.mb with partitionMode := .p16x16 }
      counters := { r.counters with mvdPairsLeft := 1 } },.go .mbMvdX)
  else if h.ueValue%8 = 1 then
    ({ r with
      mb := { r.mb with partitionMode := .p16x8 }
      counters := { r.counters with mvdPairsLeft := 2 } },.go .mbMvdX)
  else if h.ueValue%8 = 2 then
    ({ r with
      mb := { r.mb with partitionMode := .p8x16 }
      counters := { r.counters with mvdPairsLeft := 2 } },.go .mbMvdX)
  else
    ({ r with
      mb := { r.mb with partitionMode := .p8x8 }
      counters := { r.counters with subIdx := 0, mvdPairsLeft := 0 } },.ue .mbSubType)

/-- An intra macroblock of a type as counted in I slices. -/
def mbIntraType (t : BitVec 8) (h : Heard) (r : Regs) : Regs × Ask Own :=
  if t = 25 then
    ({ r with
      unsupported := true
      mb := mbDone h { r.mb with partitionMode := .iPcm } },.go .finish)
  else if t = 0 then
    ({ r with
      mb := { r.mb with partitionMode := .iNxN }
      counters := { r.counters with i4Idx := 0 } },.bits 1 .mbI4Flag)
  else
    ({ r with mb := { r.mb with
      partitionMode := .i16x16
      codedBlockPattern := i16CbpFromType t } },.ue .mbChroma)

/-- ST_MB_TYPE. -/
def mbTypeState (h : Heard) (r : Regs) : Regs × Ask Own :=
  let p := isPSlice i.activeSliceType
  let t : BitVec 8 := if p then .ofNat 8 h.ueValue-5 else .ofNat 8 h.ueValue
  let r := { r with mb := { r.mb with mbType := .ofNat 8 h.ueValue, mbQp := i.qpIn } }
  if p ∧ h.ueValue ≤ 4 then
    if i.numRefIdxL0ActiveMinus1 ≠ 0 then refuse r else mbInterType h r
  else
    let r := { r with counters := { r.counters with iMbType := t } }
    if (p ∧ 30<h.ueValue) ∨ (¬p ∧ 25<h.ueValue) then refuse r else mbIntraType t h r

/-- The next prediction flag, or what follows the last one. -/
def nextI4 (r : Regs) : Regs × Ask Own :=
  if r.counters.i4Idx = 15 then (r,.ue .mbChroma)
  else
    ({ r with counters := { r.counters with i4Idx := r.counters.i4Idx+1 } },.bits 1 .mbI4Flag)

/-- Block that a 5-bit index addresses. -/
def blockAt (n : ℕ) : Fin 16 := ⟨n%16,Nat.mod_lt _ (by decide)⟩

/-- A coded block pattern was read, and a quantiser follows unless it is 0. -/
def cbpDone (cbp : BitVec 6) (h : Heard) (r : Regs) : Regs × Ask Own :=
  let mb := { r.mb with codedBlockPattern := cbp }
  if cbp ≠ 0 then ({ r with mb := mb },.ue .mbQpDelta)
  else ({ r with mb := mbDone h mb },.go .finish)

/-- ST_MB_START to ST_MB_MVD_PAIR_DONE. -/
def mbState (s : Own) (h : Heard) (r : Regs) : Regs × Ask Own :=
  match s with
  | .mbStart =>
    if isPSlice i.activeSliceType then (r,.ue .mbPSkip)
    else if isISlice i.activeSliceType then (r,.ue .mbType)
    else refuse r
  | .mbPSkip =>
    let mb := { r.mb with mbSkipRun := .ofNat 16 h.ueValue }
    if h.ueValue ≠ 0 then
      ({ r with mb := mbDone h { mb with
        mbSkipped := true
        partitionMode := .pSkip
        mbQp := i.qpIn } },.go .finish)
    else ({ r with mb := mb },.ue .mbType)
  | .mbType => mbTypeState i h r
  | .mbI4Flag =>
    if h.acc.testBit 0 then
      nextI4 { r with mb := { r.mb with
        intra4x4PredModeFlags :=
          Function.update r.mb.intra4x4PredModeFlags (blockAt r.counters.i4Idx) true } }
    else (r,.bits 3 .mbI4Rem)
  | .mbI4Rem =>
    nextI4 { r with mb := { r.mb with
      intra4x4RemModes :=
        Function.update r.mb.intra4x4RemModes (blockAt r.counters.i4Idx) (.ofNat 3 h.acc) } }
  | .mbChroma =>
    ({ r with mb := { r.mb with intraChromaPredMode := .ofNat 3 h.ueValue } },
      if r.mb.partitionMode = .i16x16 then .ue .mbQpDelta else .ue .mbCbpIntra)
  | .mbCbpIntra =>
    if 48 ≤ h.ueValue then refuse r
    else
      let cbp := cbpIntraMap (.ofNat 6 h.ueValue)
      cbpDone cbp h { r with counters := { r.counters with cbpMapped := cbp } }
  | .mbCbpInter =>
    if 48 ≤ h.ueValue then refuse r else cbpDone (cbpInterMap (.ofNat 6 h.ueValue)) h r
  | .mbQpDelta =>
    ({ r with mb := mbDone h { r.mb with
      mbQpDelta := se8FromUe h.ueValue
      mbQp := i.qpIn+se8FromUe h.ueValue } },.go .finish)
  | .mbSubType =>
    if 3 < h.ueValue then refuse r
    else
      let pairs := (r.counters.mvdPairsLeft+subMbMvdPairs h.ueValue)%256
      let r := { r with counters := { r.counters with mvdPairsLeft := pairs } }
      if r.counters.subIdx = 3 then (r,.go .mbMvdX)
      else
        ({ r with counters := { r.counters with subIdx := (r.counters.subIdx+1)%8 } },
          .ue .mbSubType)
  | .mbMvdX => (r,if r.counters.mvdPairsLeft = 0 then .ue .mbCbpInter else .ue .mbMvdY)
  | .mbMvdY => (r,.ue .mbMvdPairDone)
  | .mbMvdPairDone =>
    ({ r with counters := { r.counters with
      mvdPairsLeft := (r.counters.mvdPairsLeft+255)%256 } },.go .mbMvdX)
  | _ => (r,.fail)

/-- One clock in a state with a meaning, ST_FAIL apart. -/
def ownState : Controller Own Regs := fun s h r =>
  match s with
  | .idle | .fail => (r,.fail)
  | .dispatch =>
    (r,if i.mode = 0 then .ue .ppsId else if i.mode = 1 then .ue .slFirst
      else if i.mode = 2 then .go .mbStart else .fail)
  | .finish => (r,.done)
  | .ppsId | .ppsSps | .ppsEntropy | .ppsBottom | .ppsGroups | .ppsRef0 | .ppsRef1 | .ppsWeighted
  | .ppsWeightedBi | .ppsQp | .ppsQs | .ppsChroma | .ppsDeblock | .ppsConstrained
  | .ppsRedundant => ppsState s h r
  | .slFirst | .slType | .slPps | .slFrame | .slIdr | .slPoc | .slIdrMark0 | .slIdrMark1
  | .slRefMark | .slQpDelta | .slDeblockIdc | .slAlpha | .slBeta => slState i s h r
  | .mbStart | .mbPSkip | .mbType | .mbI4Flag | .mbI4Rem | .mbChroma | .mbCbpIntra | .mbCbpInter
  | .mbQpDelta | .mbSubType | .mbMvdX | .mbMvdY | .mbMvdPairDone => mbState i s h r

/-- States. -/
inductive St where
  | bits
  | ueZero
  | ueSuffix
  | own (s : Own)
  deriving DecidableEq, Repr

/-- Registers of the parser. -/
structure Parser where
  /-- rbsp_bits up to rbsp_len. -/
  rbsp : List Byte
  /-- The next bit. -/
  bitPos : ℕ
  /-- What is being read. -/
  st : St
  /-- The state that gets it. -/
  retSt : Own
  /-- The field being read. -/
  (fixedLeft fixedAcc : ℕ)
  /-- The Exp-Golomb code being read. -/
  (ueZero ueSuffixLeft ueSuffix ueValue : ℕ)
  /-- How the request stands. -/
  (busy valid error : Bool)
  /-- Bits read when it ended. -/
  rbspBitsConsumed : BitVec 16
  /-- What was read. -/
  regs : Regs

namespace Parser

/-- The registers behind reset or clear. -/
def cleared (i : Inputs) : Parser where
  rbsp := []
  bitPos := 0
  st := .own .idle
  retSt := .idle
  fixedLeft := 0
  fixedAcc := 0
  ueZero := 0
  ueSuffixLeft := 0
  ueSuffix := 0
  ueValue := 0
  busy := false
  valid := false
  error := false
  rbspBitsConsumed := 0
  regs := Regs.reset i

variable (p : Parser)

/-- The parser takes another byte. -/
def inReady : Bool := !p.busy && decide (p.rbsp.length < maxRbspBytes)

/-- bit_pos >= rbsp_len * 8, in 16 bits. -/
def atEnd : Bool := decide (p.rbsp.length*8%65536≤p.bitPos)

/-- The bit under the cursor, zero past the captured bytes. -/
def bitAt : Bool := (p.rbsp.getD (p.bitPos/8) 0).getLsbD (7-p.bitPos%8)

/-- bit_pos moves on. -/
def advance : Parser := { p with bitPos := (p.bitPos+1)%65536 }

/-- The parser gives up on the unit. -/
def failed : Parser :=
  { p with error := true, valid := false, busy := false, st := .own .fail }

/-- What the states with a meaning look at. -/
def heard : Heard := ⟨p.ueValue,p.fixedAcc,p.bitPos⟩

/-- start_bits, start_ue, another state, finish_ok or fail. -/
def ask : Ask Own → Parser
  | .bits n next =>
    { p with fixedLeft := n%256, fixedAcc := 0, retSt := next, st := .bits }
  | .ue next =>
    { p with
      ueZero := 0
      ueSuffixLeft := 0
      ueSuffix := 0
      ueValue := 0
      retSt := next
      st := .ueZero }
  | .go next => { p with st := .own next }
  | .done =>
    { p with
      rbspBitsConsumed := .ofNat 16 p.bitPos
      valid := true
      busy := false
      st := .own .idle }
  | .fail => p.failed

/-- ST_BITS. -/
def collect : Parser :=
  if p.fixedLeft = 0 then { p with st := .own p.retSt }
  else if p.atEnd then p.failed
  else
    { p.advance with
      fixedAcc := (2*p.fixedAcc+p.bitAt.toNat)%2^32
      fixedLeft := p.fixedLeft-1
      st := if p.fixedLeft = 1 then .own p.retSt else .bits }

/-- ST_UE_ZERO. -/
def countZero : Parser :=
  if p.atEnd then p.failed
  else if !p.bitAt then
    if 24 ≤ p.ueZero then p.advance.failed else { p.advance with ueZero := p.ueZero+1 }
  else if p.ueZero = 0 then { p.advance with ueValue := 0, st := .own p.retSt }
  else { p.advance with ueSuffixLeft := p.ueZero, ueSuffix := 0, st := .ueSuffix }

/-- ST_UE_SUFFIX. -/
def collectSuffix : Parser :=
  if p.atEnd then p.failed
  else
    let suffix := (2*p.ueSuffix+p.bitAt.toNat)%2^32
    let t := { p.advance with ueSuffix := suffix, ueSuffixLeft := (p.ueSuffixLeft+255)%256 }
    if p.ueSuffixLeft = 1 then
      { t with ueValue := (2^p.ueZero-1+suffix)%2^32, st := .own p.retSt }
    else t

/-- One clock while busy. -/
def parse (i : Inputs) (p : Parser) : Parser :=
  match p.st with
  | .bits => p.collect
  | .ueZero => p.countZero
  | .ueSuffix => p.collectSuffix
  | .own .fail => { p with busy := false }
  | .own s =>
    let said := ownState i s p.heard p.regs
    { p with regs := said.1 }.ask said.2

/-- A byte is taken; the last one starts the parser. -/
def take (i : Inputs) (b : Byte) (last : Bool) (p : Parser) : Parser :=
  let t := { p with rbsp := p.rbsp ++ [b] }
  if last then
    { t with
      valid := false
      error := false
      rbspBitsConsumed := 0
      regs := Regs.reset i
      busy := true
      bitPos := i.startBit.toNat
      st := .own .dispatch }
  else t

/-- One clock, with the byte that is offered and in_last. -/
def clock (i : Inputs) (p : Parser) : Option (Byte × Bool) → Parser
  | some (b,last) =>
    if p.inReady then p.take i b last else if p.busy then p.parse i else p
  | none => if p.busy then p.parse i else p

end Parser

end Misterplex.Baseline
