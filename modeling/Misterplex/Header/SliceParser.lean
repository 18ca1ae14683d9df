import Misterplex.Header.SliceHost
import Misterplex.Header.SpsParser

/-!
# slice_hdr_parser

The hardware parser of slice headers. It captures up to 48 bytes without
emulation prevention, walks over the slice header, goes on to the first
macroblock and, in an I slice, to the first residual block, which it decodes for
a few of the code words of a coeff_token and puts in place. The header fields
are written on the way; the header is valid when the walk ends without an error.
-/

namespace Misterplex.Header

open BitString BitGrammar Cavlc Emulation

/-- Own states of the parser. -/
inductive SliceSt where
  | idle | first | type | pps | fn | idr | refmark | refidxFlag | refidxL0 | nidrRefmark | qpd | didc
  | alpha | beta | mbt | pMbt | i4mode | chrpred | cbp | mbqp | tokBit | tokChk | signs | lvlPre
  | lvlSuf | lvlNxt | tzBit | tzChk | runBit | runChk | place | done | fail
  deriving DecidableEq, Repr

/-- What the parser keeps of its inputs when a walk starts. -/
structure SliceLat where
  /-- IDR slice, reference picture, deblocking control. -/
  (idr nalRef db : Bool)
  log2 : ℕ
  initQp : ℤ
  deriving DecidableEq, Repr

/-- Outputs of the slice header. -/
structure SliceOut where
  /-- The ids of the header. -/
  (firstMb sliceType ppsId frameNum idrPicId : ℕ)
  isISlice : Bool
  /-- Coded change of the quantiser, and the quantiser. -/
  (sliceQpDelta sliceQp : ℤ)
  disableDeblockingFilterIdc : ℕ
  /-- Offsets of the deblocking filter, as coded. -/
  (alphaDiv2 betaDiv2 : ℤ)
  /-- The offsets. -/
  (alpha beta : ℤ)
  deriving DecidableEq, Repr

/-- Outputs of the first macroblock. -/
structure FirstMb where
  type : ℕ
  /-- Its type was read; it is skipped. -/
  (hasType pSkip : Bool)
  /-- Skipped macroblocks, and partitions of one that is not. -/
  (pSkipRun partMode partCount : ℕ)
  /-- Kind of the type. -/
  (usesSubMb intra : Bool)
  deriving DecidableEq, Repr

/-- Outputs of the first residual block. -/
structure ResidualOut where
  /-- Coefficients, and trailing ones of them. -/
  (tc t1 : ℕ)
  ok : Bool
  /-- The first coefficient. -/
  dc : ℤ
  /-- Checksum of the coefficients. -/
  csum : Byte
  coeff : List ℤ
  deriving DecidableEq, Repr

/-- Outputs that are written when a residual block is put in place. -/
structure PlaceOut where
  /-- A block is announced; it was read. -/
  (pulse ok : Bool)
  /-- Coefficients, and trailing ones of them. -/
  (tc t1 : ℕ)
  /-- Its first coefficient and its quantiser. -/
  (dc qp : ℤ)
  coeff : List ℤ
  deriving DecidableEq, Repr

/-- Registers of the residual block that is decoded. -/
structure ResidualWork where
  /-- The coeff_token being read. -/
  (tcode tbits : ℕ)
  /-- Coefficients, trailing ones and signs still to read. -/
  (rTc rT1 signLeft : ℕ)
  /-- Place among the prediction modes. -/
  (i4I i4Sub : ℕ)
  /-- Levels so far. -/
  lev : List ℤ
  /-- The level being read. -/
  (levI sufLen pref sufAcc : ℕ)
  firstNonT1 : Bool
  /-- The run being read. -/
  (zerosLeft runI : ℕ)
  /-- Runs so far. -/
  runv : List ℕ
  /-- The codes of zeros being read. -/
  (tzcode tzbits runcode runbits : ℕ)
  deriving DecidableEq, Repr

/-- Own registers and outputs of the parser. -/
structure SliceRegs where
  /-- A header was read; one is being read. -/
  (valid busy : Bool)
  /-- What was latched at the end of the capture. -/
  lat : SliceLat
  /-- The header. -/
  out : SliceOut
  /-- The first macroblock. -/
  mb : FirstMb
  /-- Its first block. -/
  res : ResidualOut
  /-- The block as it is announced. -/
  place : PlaceOut
  /-- What is being read. -/
  work : ResidualWork
  deriving DecidableEq, Repr

/-- The parser. -/
abbrev SliceParser := Parser SliceSt SliceRegs

/-- Sixteen zeros. -/
def zeros16 : List ℤ := List.replicate 16 0

/-- se_of: the signed value of an unsigned code in eight bits. -/
def seOf (k : ℕ) : ℤ := if k%2 = 0 then -((k%256/2 : ℕ) : ℤ) else int8 ((k%256/2 : ℕ)+1)

/-- The low five bits of a value with their sign. -/
def low5 (x : ℤ) : ℤ := Int.bmod x 32

/-- A filter offset from its coded half, in five bits. -/
def filterOffsetOfDiv2 (x : ℤ) : ℤ := low5 (low5 x*2)

/-- The slice types of a P slice. -/
def isPSliceType (t : ℕ) : Bool := t == 0 || t == 5

/-- The partition mode of a P macroblock type. -/
def pPartModeOf (skipped : Bool) (mt : ℕ) : ℕ :=
  if skipped ∨ mt = 0 then 0
  else if mt = 1 then 1
  else if mt = 2 then 2
  else if mt = 3 ∨ mt = 4 then 3
  else 7

/-- The partitions of a P macroblock type. -/
def pPartCountOf (skipped : Bool) (mt : ℕ) : ℕ :=
  if skipped ∨ mt = 0 then 1
  else if mt = 1 ∨ mt = 2 then 2
  else if mt = 3 ∨ mt = 4 then 4
  else 0

/-- Input wires of one clock cycle. -/
structure SlicePort where
  cap : CapPort
  /-- Of the unit's header. -/
  (isIdrNal nalRefIdcNonzero : Bool)
  /-- Of the sequence parameter set. -/
  (log2MaxFrameNum pocType : ℕ)
  /-- The sets are there; slices carry deblocking control. -/
  (spsReady ppsReady deblockCtrl : Bool)
  picInitQp : ℤ
  deriving DecidableEq, Repr

variable (p : SliceParser)

/-- The walk goes on to the quantiser. -/
def SliceParser.toQpd : SliceParser := { p with walk := p.walk.startUe .qpd }

/-- The walk goes on to the marking of references, if the picture is one. -/
def SliceParser.toMarking : SliceParser :=
  if p.regs.lat.nalRef then { p with walk := p.walk.startBits 1 .nidrRefmark } else p.toQpd

/-- The header outputs are written. -/
def SliceRegs.withOut (r : SliceRegs) (out : SliceOut) : SliceRegs := { r with out }

/-- Quantiser of the slice. -/
def SliceOut.setQp (o : SliceOut) (initQp delta : ℤ) : SliceOut :=
  { o with sliceQpDelta := delta, sliceQp := clampQp (initQp+delta) }

/-- One clock in a state of the slice header. -/
def headerOwn (s : SliceSt) (p : SliceParser) : SliceParser :=
  let w := p.walk
  let r := p.regs
  match s with
  | .first => { walk := w.startUe .type, regs := r.withOut { r.out with firstMb := w.ueVal } }
  | .type =>
    { walk := w.startUe .pps
      regs := r.withOut { r.out with
        sliceType := w.ueVal%256, isISlice := isISliceType (w.ueVal%256) } }
  | .pps =>
    { walk := w.startBits r.lat.log2 .fn, regs := r.withOut { r.out with ppsId := w.ueVal%256 } }
  | .fn =>
    let q : SliceParser := { walk := w, regs := r.withOut { r.out with frameNum := w.acc } }
    if r.lat.idr then { q with walk := w.startUe .idr }
    else if isPSliceType r.out.sliceType then { q with walk := w.startBits 1 .refidxFlag }
    else q.toMarking
  | .idr => { walk := w.startBits 2 .refmark, regs := r.withOut { r.out with idrPicId := w.ueVal } }
  | .refmark => p.toQpd
  | .refidxFlag => if w.acc%2 = 1 then { p with walk := w.startUe .refidxL0 } else p.toMarking
  | .refidxL0 => p.toMarking
  | .nidrRefmark => if w.acc%2 = 1 then { p with walk := { w with st := .own .done } } else p.toQpd
  | .qpd =>
    { walk := if r.lat.db then w.startUe .didc else w.startUe .mbt
      regs := r.withOut (r.out.setQp r.lat.initQp (seOf w.ueVal)) }
  | .didc =>
    { walk := if w.ueVal ≠ 1 then w.startUe .alpha else w.startUe .mbt
      regs := r.withOut { r.out with disableDeblockingFilterIdc := w.ueVal%4 } }
  | .alpha =>
    { walk := w.startUe .beta
      regs := r.withOut { r.out with
        alphaDiv2 := low5 (seOf w.ueVal), alpha := filterOffsetOfDiv2 (seOf w.ueVal) } }
  | .beta =>
    { walk := w.startUe .mbt
      regs := r.withOut { r.out with
        betaDiv2 := low5 (seOf w.ueVal), beta := filterOffsetOfDiv2 (seOf w.ueVal) } }
  | _ => p

/-- The outputs of the first macroblock are written. -/
def SliceRegs.withMb (r : SliceRegs) (mb : FirstMb) : SliceRegs := { r with mb }

/-- The registers of the residual block are written. -/
def SliceRegs.withWork (r : SliceRegs) (work : ResidualWork) : SliceRegs := { r with work }

/-- The walk goes to an own state. -/
def Walk.goto (w : Walk SliceSt) (s : SliceSt) : Walk SliceSt := { w with st := .own s }

/-- ST_MBT. -/
def mbtOwn : SliceParser :=
  let w := p.walk
  let r := p.regs
  if isPSliceType r.out.sliceType then
    if w.ueVal ≠ 0 then
      { walk := w.goto .done
        regs := r.withMb
          { type := 0, hasType := true, pSkip := true, pSkipRun := w.ueVal%256,
            partMode := pPartModeOf true 0, partCount := pPartCountOf true 0, usesSubMb := false,
            intra := false } }
    else
      { walk := w.startUe .pMbt
        regs := r.withMb { r.mb with pSkip := false, pSkipRun := w.ueVal%256 } }
  else
    let q : SliceRegs := r.withMb { r.mb with
      type := w.ueVal%256, hasType := decide (w.ueVal≤25), pSkip := false, partMode := 7,
      partCount := 0, usesSubMb := false, intra := decide (w.ueVal≤25) }
    if 1 ≤ w.ueVal ∧ w.ueVal ≤ 24 then { walk := w.startUe .chrpred, regs := q }
    else if w.ueVal = 0 then
      { walk := w.goto .i4mode, regs := q.withWork { q.work with i4I := 0, i4Sub := 0 } }
    else { walk := w.goto .done, regs := q }

/-- ST_P_MBT. -/
def pMbtOwn : SliceParser :=
  let v := p.walk.ueVal
  { walk := p.walk.goto .done
    regs := p.regs.withMb { p.regs.mb with
      type := v%256, hasType := decide (v≤30), partMode := pPartModeOf false (v%256),
      partCount := pPartCountOf false (v%256), usesSubMb := v == 3 || v == 4,
      intra := decide (5≤v ∧ v≤30) } }

/-- The walk goes on to the next prediction mode, or behind the last one. -/
def nextMode (w : Walk SliceSt) (r : SliceRegs) : SliceParser :=
  if 15 ≤ r.work.i4I then { walk := w.startUe .chrpred, regs := r.withWork { r.work with i4Sub := 0 } }
  else { walk := w, regs := r.withWork { r.work with i4I := r.work.i4I+1, i4Sub := 0 } }

/-- ST_I4MODE. -/
def i4modeOwn : SliceParser :=
  let r := p.regs
  if p.walk.oob then { p with walk := p.walk.goto .fail }
  else if r.work.i4Sub = 0 then
    if p.walk.bitv then nextMode p.walk.advance r
    else { walk := p.walk.advance, regs := r.withWork { r.work with i4Sub := 1 } }
  else if 3 ≤ r.work.i4Sub then nextMode p.walk.advance r
  else { walk := p.walk.advance, regs := r.withWork { r.work with i4Sub := r.work.i4Sub+1 } }

/-- The walk goes on to the coeff_token. -/
def SliceParser.toToken : SliceParser where
  walk := p.walk.goto .tokBit
  regs := p.regs.withWork { p.regs.work with tcode := 0, tbits := 0 }

/-- One clock in a state of the first macroblock. -/
def mbOwn (s : SliceSt) (p : SliceParser) : SliceParser :=
  let w := p.walk
  match s with
  | .mbt => mbtOwn p
  | .pMbt => pMbtOwn p
  | .i4mode => i4modeOwn p
  | .chrpred => { p with walk := if p.regs.mb.type = 0 then w.startUe .cbp else w.startUe .mbqp }
  | .cbp => if w.ueVal = 3 then p.toToken else { p with walk := w.startUe .mbqp }
  | .mbqp => p.toToken
  | _ => p

/-- The eight-bit value of a level. -/
def sat8 (v : ℤ) : ℤ := if 127 < v then 127 else if v < -128 then -128 else v

/-- A value wrapped to sixteen bits with a sign. -/
def wrap16 (v : ℤ) : ℤ := Int.bmod v 65536

/-- lev_of: the level of a level code. -/
def levOf (code : ℕ) : ℤ :=
  let t := wrap16 ((code+2)/2 : ℕ)
  if code%2 = 1 then wrap16 (-t) else t

/-- The code words of a coeff_token that are known: length, value, r_tc and r_t1. -/
def tokens : List (ℕ × ℕ × ℕ × ℕ) :=
  [(1,1,0,0),(2,1,1,1),(3,1,2,2),(5,3,3,3),(6,5,1,0),(6,4,2,1),(10,4,8,3),
    (9,4,8,2)]

/-- The known code word that the collected bits are. -/
def tokenOf (tbits tcode : ℕ) : Option (ℕ × ℕ) :=
  (tokens.find? fun t => tbits == t.1 && tcode%2^t.1 == t.2.1).map fun t => t.2.2

/-- The code words of total_zeros: length and value by the number of zeros. -/
def tzTable (rTc : ℕ) : List (ℕ × ℕ) :=
  if rTc = 1 then
    [(1,1),(3,3),(3,2),(4,3),(4,2),(5,3),(5,2),(6,3),(6,2),(7,3),(7,2),(8,3),
      (8,2),(9,3),(9,2),(9,1)]
  else if rTc = 8 then
    [(6,1),(4,1),(5,1),(3,3),(2,3),(2,2),(3,2),(3,1),(6,0)]
  else if rTc = 2 then
    [(3,7),(3,6),(3,5),(3,4),(3,3),(4,5),(4,4),(4,3),(4,2),(5,3),(5,2),(6,3),
      (6,2),(6,1),(6,0)]
  else
    [(4,5),(3,7),(3,6),(3,5),(4,4),(4,3),(3,4),(3,3),(4,2),(5,3),(5,2),(6,1),
      (5,1),(6,0)]

/-- The code words of run_before: length and value by the run, up to six zeros left. -/
def runTable (zerosLeft : ℕ) : List (ℕ × ℕ) :=
  if zerosLeft = 1 then [(1,1),(1,0)]
  else if zerosLeft = 2 then [(1,1),(2,1),(2,0)]
  else if zerosLeft = 3 then [(2,3),(2,2),(2,1),(2,0)]
  else if zerosLeft = 4 then [(2,3),(2,2),(2,1),(3,1),(3,0)]
  else if zerosLeft = 5 then [(2,3),(2,2),(3,3),(3,2),(3,1),(3,0)]
  else if zerosLeft = 6 then [(2,3),(3,0),(3,1),(3,3),(3,2),(3,5),(3,4)]
  else []

/-- The index of the code word that the collected bits are. -/
def codeOf (table : List (ℕ × ℕ)) (len code : ℕ) : Option ℕ :=
  table.findIdx? fun t => len == t.1 && code%2^t.1 == t.2

/-- The number of zeros that the collected bits stand for. For other counts than one, two, three
and eight nine bits stand for none. -/
def tzOf (rTc tzbits tzcode : ℕ) : Option ℕ :=
  if rTc = 1 ∨ rTc=2 ∨ rTc=3 ∨ rTc = 8 then codeOf (tzTable rTc) tzbits tzcode
  else if 9 ≤ tzbits then some 0
  else none

/-- ST_TOK_BIT. -/
def tokBitOwn : SliceParser :=
  let k := p.regs.work
  if p.walk.oob then { p with walk := p.walk.goto .fail }
  else
    { walk := p.walk.advance.goto .tokChk
      regs := p.regs.withWork { k with
        tcode := (2*k.tcode+p.walk.bitv.toNat)%65536, tbits := (k.tbits+1)%32 } }

/-- The registers behind a known coeff_token. -/
def tokenRegs (r : SliceRegs) (tc t1 : ℕ) : SliceRegs :=
  let k := r.work
  if tc = 0 then
    { r with
      res := { r.res with tc := 0, t1 := 0, ok := true, dc := 0, csum := 0#8, coeff := zeros16 }
      work := { k with rTc := 0, rT1 := 0 } }
  else if t1 = 0 then
    { r with
      res := { r.res with tc, t1 }
      work := { k with rTc := tc, rT1 := t1, levI := 0, firstNonT1 := true, sufLen := 0, pref := 0 } }
  else if tc = 8 then
    { r with
      res := { r.res with tc, t1, ok := decide (t1=3) || r.res.ok, dc := 0 }
      work := { k with
        rTc := tc, rT1 := t1, signLeft := t1, levI := 0, lev := zeros16
        runv := List.replicate 16 0 } }
  else
    { r with
      res := { r.res with tc, t1 }
      work := { k with rTc := tc, rT1 := t1, signLeft := t1, levI := 0 } }

/-- ST_TOK_CHK. -/
def tokChkOwn : SliceParser :=
  let k := p.regs.work
  match tokenOf k.tbits k.tcode with
  | some (tc,t1) =>
    { walk := p.walk.goto (if tc = 0 then .done else if t1 = 0 then .lvlPre else .signs)
      regs := tokenRegs p.regs tc t1 }
  | none =>
    if 16 ≤ k.tbits then { p with walk := p.walk.goto .done }
    else { p with walk := p.walk.goto .tokBit }

/-- ST_SIGNS. -/
def signsOwn : SliceParser :=
  let k := p.regs.work
  if p.walk.oob then { p with walk := p.walk.goto .fail }
  else
    let lev := k.lev.set k.levI (if p.walk.bitv then -1 else 1)
    if k.signLeft ≤ 1 then
      if k.rT1 < k.rTc then
        { walk := p.walk.advance.goto .lvlPre
          regs := p.regs.withWork { k with
            lev
            levI := k.rT1%16
            firstNonT1 := true
            sufLen := if 10 < k.rTc ∧ k.rT1 < 3 then 1 else 0
            pref := 0 } }
      else
        { walk := p.walk.advance.goto .tzBit
          regs := p.regs.withWork { k with lev, tzcode := 0, tzbits := 0 } }
    else
      { walk := p.walk.advance
        regs := p.regs.withWork { k with
          lev, signLeft := k.signLeft-1, levI := (k.levI+1)%16 } }

/-- Bits of the suffix of a level, behind its prefix. -/
def suffixBits (first : Bool) (pref sufLen : ℕ) : ℕ :=
  if first then
    if pref < 14 then sufLen
    else if pref = 14 then (if sufLen ≠ 0 then sufLen else 4)
    else (pref+29)%32
  else if pref < 15 then sufLen
  else (pref+29)%32

/-- ST_LVL_PRE. -/
def lvlPreOwn : SliceParser :=
  let k := p.regs.work
  if p.walk.oob then { p with walk := p.walk.goto .fail }
  else if p.walk.bitv = false then
    if 31 ≤ k.pref then { p with walk := p.walk.goto .fail }
    else { walk := p.walk.advance, regs := p.regs.withWork { k with pref := k.pref+1 } }
  else if suffixBits k.firstNonT1 k.pref k.sufLen = 0 then
    { walk := p.walk.advance.goto .lvlNxt, regs := p.regs.withWork { k with sufAcc := k.pref } }
  else { p with walk := p.walk.advance.startBits (suffixBits k.firstNonT1 k.pref k.sufLen) .lvlSuf }

/-- Extra offset of the escapes from a prefix of sixteen on, in sixteen bits. -/
def escape16 (pref : ℕ) : ℕ := if 16 ≤ pref then (2^(pref-3)%65536+61440)%65536 else 0

/-- The level code in sixteen bits. -/
def lvlCode (k : ResidualWork) : ℕ :=
  if k.firstNonT1 then
    let lc :=
      if k.pref < 14 then (if k.sufLen ≠ 0 then k.pref*2^k.sufLen+k.sufAcc else k.pref)
      else if k.pref = 14 then
        (if k.sufLen ≠ 0 then k.pref*2^k.sufLen+k.sufAcc else k.pref+k.sufAcc)
      else 30+escape16 k.pref+k.sufAcc
    (if k.rT1 < 3 then lc+2 else lc)%65536
  else if k.pref < 15 then (k.pref*2^k.sufLen+k.sufAcc)%65536
  else (15*2^k.sufLen+escape16 k.pref+k.sufAcc)%65536

/-- lim: bounds on the levels of each suffix length. -/
def limOf (sufLen : ℕ) : ℕ := [0,3,6,12,24,48].getD sufLen 65535

/-- The suffix length behind a level. -/
def nextSufLen (k : ResidualWork) (lv : ℤ) : ℕ :=
  if k.firstNonT1 then
    if 14 < k.pref ∨ (k.pref=14 ∧ k.sufLen=0) then 2
    else if 6 < wrap16 (lv+3) then 2
    else 1
  else if k.sufLen < 6 then
    if limOf k.sufLen*2%65536 < (limOf k.sufLen+(lv%65536).toNat)%65536 then k.sufLen+1
    else k.sufLen
  else k.sufLen

/-- ST_LVL_NXT. -/
def lvlNxtOwn : SliceParser :=
  let k := p.regs.work
  let lv := levOf (lvlCode k)
  let k' := { k with
    lev := k.lev.set k.levI lv, firstNonT1 := false, sufLen := nextSufLen k lv }
  if k.rTc%16 ≤ (k.levI+1)%16 ∧ k.rTc < 16 then
    { walk := p.walk.goto .tzBit
      regs := { p.regs with
        res := { p.regs.res with dc := sat8 lv }
        work := { k' with tzcode := 0, tzbits := 0 } } }
  else
    { walk := p.walk.goto .lvlPre
      regs := p.regs.withWork { k' with levI := (k.levI+1)%16, pref := 0 } }

/-- ST_TZ_BIT. -/
def tzBitOwn : SliceParser :=
  let k := p.regs.work
  if 16 ≤ k.rTc then
    { walk := p.walk.goto .place, regs := p.regs.withWork { k with zerosLeft := 0, runI := 0 } }
  else if p.walk.oob then { p with walk := p.walk.goto .fail }
  else
    { walk := p.walk.advance.goto .tzChk
      regs := p.regs.withWork { k with
        tzcode := (2*k.tzcode+p.walk.bitv.toNat)%512, tzbits := (k.tzbits+1)%16 } }

/-- ST_TZ_CHK. -/
def tzChkOwn : SliceParser :=
  let k := p.regs.work
  match tzOf k.rTc k.tzbits k.tzcode with
  | some z =>
    let k' := { k with zerosLeft := z, runI := 0, runv := List.replicate 16 0 }
    if k.rTc ≤ 1 then
      { walk := p.walk.goto .place, regs := p.regs.withWork { k' with runv := k'.runv.set 0 z } }
    else if z = 0 then { walk := p.walk.goto .place, regs := p.regs.withWork k' }
    else
      { walk := p.walk.goto .runBit
        regs := p.regs.withWork { k' with runcode := 0, runbits := 0 } }
  | none =>
    if 9 ≤ k.tzbits then { p with walk := p.walk.goto .done }
    else { p with walk := p.walk.goto .tzBit }

/-- ST_RUN_BIT. -/
def runBitOwn : SliceParser :=
  let k := p.regs.work
  if p.walk.oob then { p with walk := p.walk.goto .fail }
  else if k.zerosLeft = 0 then { p with walk := p.walk.goto .place }
  else if 7 ≤ k.zerosLeft then
    { walk := p.walk.startBits 3 .runChk, regs := p.regs.withWork { k with runbits := 3 } }
  else
    { walk := p.walk.advance.goto .runChk
      regs := p.regs.withWork { k with
        runcode := (2*k.runcode+p.walk.bitv.toNat)%32, runbits := (k.runbits+1)%16 } }

/-- The run that the collected bits stand for. Above six zeros left, three zeros stand for a run
of seven. -/
def runOf (k : ResidualWork) (acc : ℕ) : Option ℕ :=
  if 7 ≤ k.zerosLeft then some (7-acc%8)
  else codeOf (runTable k.zerosLeft) k.runbits k.runcode

/-- ST_RUN_CHK. -/
def runChkOwn : SliceParser :=
  let k := p.regs.work
  match runOf k p.walk.acc with
  | some rval =>
    let left := (k.zerosLeft+16-rval)%16
    let k' := { k with runv := k.runv.set k.runI rval, zerosLeft := left }
    if (k.rTc%16+15)%16 ≤ (k.runI+1)%16 then
      { walk := p.walk.goto .place
        regs := p.regs.withWork { k' with runv := k'.runv.set ((k.rTc%16+15)%16) left } }
    else if left = 0 then
      { walk := p.walk.goto .place
        regs := p.regs.withWork { k' with
          runI := (k.runI+1)%16, runcode := 0, runbits := 0
          runv := k'.runv.set ((k.rTc%16+15)%16) 0 } }
    else
      { walk := p.walk.goto .runBit
        regs := p.regs.withWork { k' with runI := (k.runI+1)%16, runcode := 0, runbits := 0 } }
  | none =>
    if 8 ≤ k.runbits then { p with walk := p.walk.goto .done }
    else { p with walk := p.walk.goto .runBit }

/-- The loop of ST_PLACE over the coefficients from the last one, with the position behind the
one placed before. -/
def placeLoop (k : ResidualWork) : ℕ → ℕ → List ℤ → List ℤ
  | 0,_,coeff => coeff
  | i+1,next,coeff =>
    let cn := next+k.runv.getD i 0
    placeLoop k i (cn+1) (if cn ≤ 15 then coeff.set cn (k.lev.getD i 0) else coeff)

/-- The coefficients in place. -/
def placed (k : ResidualWork) : List ℤ := placeLoop k k.rTc 0 zeros16

/-- The checksum of coefficients. -/
def csumOf (coeff : List ℤ) : Byte := coeff.foldl (fun cs v => cs ^^^ BitVec.ofInt 8 (sat8 v)) 0#8

/-- ST_PLACE. -/
def placeOwn : SliceParser :=
  let r := p.regs
  let coeff := placed r.work
  let dc := sat8 (coeff.getD 0 0)
  { walk := p.walk.goto .done
    regs := { r with
      res := { r.res with ok := true, dc, csum := csumOf coeff, coeff }
      place :=
        { pulse := true, ok := true, tc := r.work.rTc, t1 := r.work.rT1%4, dc, qp := r.out.sliceQp,
          coeff } } }

/-- One clock in a state of the residual block. -/
def residualOwn (s : SliceSt) (p : SliceParser) : SliceParser :=
  match s with
  | .tokBit => tokBitOwn p
  | .tokChk => tokChkOwn p
  | .signs => signsOwn p
  | .lvlPre => lvlPreOwn p
  | .lvlSuf =>
    { walk := p.walk.goto .lvlNxt
      regs := p.regs.withWork { p.regs.work with sufAcc := p.walk.acc } }
  | .lvlNxt => lvlNxtOwn p
  | .tzBit => tzBitOwn p
  | .tzChk => tzChkOwn p
  | .runBit => runBitOwn p
  | .runChk => runChkOwn p
  | .place => placeOwn p
  | _ => p

/-- The part of the parser that a state belongs to. -/
inductive SlicePart where
  | header
  | macroblock
  | residual
  | ends
  deriving DecidableEq, Repr

/-- The part of each state. -/
def SliceSt.part : SliceSt → SlicePart
  | .idle | .done | .fail => .ends
  | .mbt | .pMbt | .i4mode | .chrpred | .cbp | .mbqp => .macroblock
  | .tokBit | .tokChk | .signs | .lvlPre | .lvlSuf | .lvlNxt | .tzBit | .tzChk | .runBit | .runChk
  | .place => .residual
  | _ => .header

/-- One clock in an own state, without the end of a capture. -/
def sliceOwn (s : SliceSt) (p : SliceParser) : SliceParser :=
  match s.part with
  | .header => headerOwn s p
  | .macroblock => mbOwn s p
  | .residual => residualOwn s p
  | .ends =>
    if s = .done then
      { walk := p.walk.goto .idle, regs := { p.regs with valid := true, busy := false } }
    else { walk := p.walk.goto .idle, regs := { p.regs with busy := false } }

/-- The pulse lasts one clock. -/
def sliceTick (r : SliceRegs) : SliceRegs := { r with place := { r.place with pulse := false } }

/-- The slice header as a text of the bit walk. -/
def sliceText : ParserText SliceSt SliceRegs where
  small := zeros_small
  fail := .fail
  tick := sliceTick
  own := sliceOwn

/-- The parser after reset. The arrays of levels and runs are not reset. -/
def SliceParser.reset : SliceParser where
  walk :=
    { mem := [], bbyte := 0, bpos := 7, st := .own .idle, cont := .own .idle, ueCont := .idle,
      zcnt := 0, nleft := 0, acc := 0, ueVal := 0 }
  regs :=
    { valid := false
      busy := false
      lat := { idr := false, nalRef := false, db := false, log2 := 4, initQp := 26 }
      out :=
        { firstMb := 0, sliceType := 0, ppsId := 0, frameNum := 0, idrPicId := 0, isISlice := false,
          sliceQpDelta := 0, sliceQp := 0, disableDeblockingFilterIdc := 0, alphaDiv2 := 0,
          betaDiv2 := 0, alpha := 0, beta := 0 }
      mb :=
        { type := 0, hasType := false, pSkip := false, pSkipRun := 0, partMode := 7, partCount := 0,
          usesSubMb := false, intra := false }
      res := { tc := 0, t1 := 0, ok := false, dc := 0, csum := 0#8, coeff := zeros16 }
      place := { pulse := false, ok := false, tc := 0, t1 := 0, dc := 0, qp := 0, coeff := zeros16 }
      work :=
        { tcode := 0, tbits := 0, rTc := 0, rT1 := 0, signLeft := 0, i4I := 0, i4Sub := 0,
          lev := zeros16, levI := 0, sufLen := 0, pref := 0, sufAcc := 0, firstNonT1 := false,
          zerosLeft := 0, runI := 0, runv := List.replicate 16 0, tzcode := 0, tzbits := 0,
          runcode := 0, runbits := 0 } }

/-- The outputs of the first macroblock before it is known. -/
def FirstMb.unknown (mb : FirstMb) : FirstMb :=
  { type := mb.type, hasType := false, pSkip := false, pSkipRun := 0, partMode := 7, partCount := 0,
    usesSubMb := false, intra := false }

/-- The outputs of the residual block before it is known. -/
def ResidualOut.unknown (res : ResidualOut) : ResidualOut :=
  { tc := 0, t1 := 0, ok := false, dc := 0, csum := res.csum, coeff := zeros16 }

/-- What is latched when a walk starts. -/
def SlicePort.latched (i : SlicePort) : SliceLat where
  idr := i.isIdrNal
  nalRef := i.nalRefIdcNonzero
  db := i.deblockCtrl
  log2 := if i.log2MaxFrameNum = 0 then 4 else i.log2MaxFrameNum
  initQp := i.picInitQp

/-- The walk starts at the first bit with the address of the first macroblock. -/
def SliceParser.start (i : SlicePort) : SliceParser where
  walk := { p.walk with bbyte := 0, bpos := 7, zcnt := 0, ueCont := .first, st := .ueZ }
  regs := { sliceTick p.regs with
    busy := true
    lat := i.latched
    out := { p.regs.out with
      disableDeblockingFilterIdc := 0, alphaDiv2 := 0, betaDiv2 := 0, alpha := 0, beta := 0 }
    mb := p.regs.mb.unknown
    res := p.regs.res.unknown }

/-- The parser when a capture is cleared. -/
def SliceParser.cleared : SliceParser where
  walk := p.walk.goto .idle
  regs := { sliceTick p.regs with
    busy := false, valid := false, mb := p.regs.mb.unknown, res := p.regs.res.unknown }

/-- A walk starts at the end of a capture. -/
def SlicePort.starts (i : SlicePort) (p : SliceParser) : Prop :=
  p.walk.st = .own .idle ∧ i.cap.last=true ∧ 2≤p.walk.mem.length ∧ i.spsReady=true ∧
    i.ppsReady=true ∧ i.pocType≠1

instance (i : SlicePort) (p : SliceParser) : Decidable (i.starts p) := by
  rw [SlicePort.starts]
  infer_instance

/-- The registers of the walk and of the parser after a clock. -/
def SliceParser.walkStep (i : SlicePort) : SliceParser :=
  if i.cap.clear then p.cleared
  else if i.starts p then p.start i
  else sliceText.step p

/-- One clock. -/
def SliceParser.step (i : SlicePort) : SliceParser :=
  let q := p.walkStep i
  { q with walk := { q.walk with mem := capture p.walk.mem i.cap } }

end Misterplex.Header
