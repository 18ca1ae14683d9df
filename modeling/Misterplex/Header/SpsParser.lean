import Misterplex.Header.BitWalk

/-!
# sps_parser

The hardware parser of sequence parameter sets. It captures up to 48 bytes
without emulation prevention and walks over them when the capture ends. Sets of
some profiles are refused. What a set reports is put on the outputs when the
walk ends; a refused set leaves the outputs of the last one in place.
-/

namespace Misterplex.Header

open BitString BitGrammar Cavlc Emulation

/-- Own states of the parser. -/
inductive SpsSt where
  | idle | prof | cons | level | spsId | log2 | poc | poc0 | refs | gaps | w | h | fmo | mbaff | d8
  | crop | cl | cr | ct | cb | finish | fail
  deriving DecidableEq, Repr

/-- Own registers and outputs of the parser. -/
structure SpsRegs where
  valid : Bool
  /-- The outputs. -/
  (profileIdc levelIdc width height log2MaxFrameNum pocType mbWidth mbHeight : ℕ)
  busy : Bool
  /-- What was read so far. -/
  (wMbs hMap frameMbsOnly cropFlag cl cr ct cb prof log2Fn pocT : ℕ)
  deriving DecidableEq, Repr

/-- The parser. -/
abbrev SpsParser := Parser SpsSt SpsRegs

/-- The profiles with the High syntax, which the parser refuses. -/
def refusedProfiles : List ℕ := [100,110,122,244,44,83,86,118,128]

namespace SpsRegs

variable (r : SpsRegs)

/-- Width in samples, in 16 bits. -/
def codedWidth : ℕ := r.wMbs*16%65536

/-- Height in samples, in 16 bits. -/
def codedHeight : ℕ :=
  r.hMap*16*(if r.frameMbsOnly ≠ 0 then 1 else 2)%65536

/-- Columns cropped, in 16 bits. -/
def cropX : ℕ := (r.cl+r.cr)*2%65536

/-- Rows cropped, in 16 bits. -/
def cropY : ℕ := (r.ct+r.cb)*2%65536

/-- The outputs that do not depend on the cropping. -/
def publish : SpsRegs :=
  { r with
    busy := false
    log2MaxFrameNum := r.log2Fn
    pocType := r.pocT
    mbWidth := r.wMbs%256
    mbHeight := if r.frameMbsOnly ≠ 0 then r.hMap%256 else r.hMap%128*2 }

/-- ST_FINISH. -/
def finish : SpsRegs :=
  if r.cropFlag ≠ 0 then
    if r.cropX < r.codedWidth ∧ r.cropY < r.codedHeight then
      { r.publish with
        width := r.codedWidth-r.cropX
        height := r.codedHeight-r.cropY
        valid := true }
    else r.publish
  else { r.publish with width := r.codedWidth, height := r.codedHeight, valid := true }

end SpsRegs

/-- One clock in an own state, without the end of a capture. -/
def spsOwn (s : SpsSt) (p : SpsParser) : SpsParser :=
  let w := p.walk
  let r := p.regs
  match s with
  | .idle => { p with regs := { r with busy := false } }
  | .prof =>
    { walk := w.startBits 8 .cons, regs := { r with prof := w.acc%256, profileIdc := w.acc%256 } }
  | .cons => { p with walk := w.startBits 8 .level }
  | .level => { walk := w.startUe .spsId, regs := { r with levelIdc := w.acc%256 } }
  | .spsId =>
    if r.prof ∈ refusedProfiles then { p with walk := { w with st := .own .fail } }
    else { p with walk := w.startUe .log2 }
  | .log2 => { walk := w.startUe .poc, regs := { r with log2Fn := (w.ueVal%32+4)%32 } }
  | .poc =>
    if w.ueVal = 0 then { walk := w.startUe .poc0, regs := { r with pocT := w.ueVal%8 } }
    else if w.ueVal = 1 then
      { walk := { w with st := .own .fail }, regs := { r with pocT := w.ueVal%8 } }
    else { walk := w.startUe .refs, regs := { r with pocT := w.ueVal%8 } }
  | .poc0 => { p with walk := w.startUe .refs }
  | .refs => { p with walk := w.startBits 1 .gaps }
  | .gaps => { p with walk := w.startUe .w }
  | .w => { walk := w.startUe .h, regs := { r with wMbs := (w.ueVal+1)%65536 } }
  | .h => { walk := w.startBits 1 .fmo, regs := { r with hMap := (w.ueVal+1)%65536 } }
  | .fmo =>
    if w.acc%2 = 0 then
      { walk := w.startBits 1 .mbaff, regs := { r with frameMbsOnly := w.acc%2 } }
    else { walk := w.startBits 1 .d8, regs := { r with frameMbsOnly := w.acc%2 } }
  | .mbaff => { p with walk := w.startBits 1 .d8 }
  | .d8 => { p with walk := w.startBits 1 .crop }
  | .crop =>
    if w.acc%2 ≠ 0 then { walk := w.startUe .cl, regs := { r with cropFlag := w.acc%2 } }
    else { walk := { w with st := .own .finish }, regs := { r with cropFlag := w.acc%2 } }
  | .cl => { walk := w.startUe .cr, regs := { r with cl := w.ueVal } }
  | .cr => { walk := w.startUe .ct, regs := { r with cr := w.ueVal } }
  | .ct => { walk := w.startUe .cb, regs := { r with ct := w.ueVal } }
  | .cb => { walk := { w with st := .own .finish }, regs := { r with cb := w.ueVal } }
  | .finish => { walk := { w with st := .own .idle }, regs := r.finish }
  | .fail => { walk := { w with st := .own .idle }, regs := { r with busy := false } }

/-- The sequence parameter set as a text of the bit walk. -/
def spsText : ParserText SpsSt SpsRegs where
  fail := .fail
  tick := id
  own := spsOwn

/-- Input wires of one clock cycle. -/
structure CapPort where
  /-- A unit begins; a byte of it comes. -/
  (clear en : Bool)
  data : Byte
  last : Bool
  deriving DecidableEq, Repr

/-- A capture buffer of a size after a clock. -/
def captureUpTo (size : ℕ) (mem : List Byte) (i : CapPort) : List Byte :=
  if i.clear then [] else if i.en && decide (mem.length<size) then mem ++ [i.data] else mem

/-- The capture buffer after a clock. -/
def capture (mem : List Byte) (i : CapPort) : List Byte := captureUpTo maxB mem i

/-- The walk starts at the first bit with the profile. -/
def SpsParser.start (p : SpsParser) : SpsParser where
  walk := { p.walk with bbyte := 0, bpos := 7, nleft := 8, acc := 0, cont := .own .prof, st := .getBits }
  regs := { p.regs with busy := true }

/-- The registers of the walk and of the parser after a clock. -/
def SpsParser.walkStep (p : SpsParser) (i : CapPort) : SpsParser :=
  if p.walk.st = .own .idle ∧ i.last=true ∧ 4 ≤ p.walk.mem.length then SpsParser.start p
  else spsText.step p

/-- One clock. -/
def SpsParser.step (p : SpsParser) (i : CapPort) : SpsParser :=
  let q := p.walkStep i
  { q with walk := { q.walk with mem := capture p.walk.mem i } }

/-- The parser after reset. -/
def SpsParser.reset : SpsParser where
  walk :=
    { mem := [], bbyte := 0, bpos := 7, st := .own .idle, cont := .own .idle, ueCont := .idle,
      zcnt := 0, nleft := 0, acc := 0, ueVal := 0 }
  regs :=
    { valid := false, profileIdc := 0, levelIdc := 0, width := 0, height := 0,
      log2MaxFrameNum := 4, pocType := 0, mbWidth := 0, mbHeight := 0, busy := false, wMbs := 0,
      hMap := 0, frameMbsOnly := 1, cropFlag := 0, cl := 0, cr := 0, ct := 0, cb := 0, prof := 0,
      log2Fn := 4, pocT := 0 }

variable (r : SpsRegs)

/-- Behind ST_CB. -/
def afterCb (v : ℕ) : Grammar SpsRegs := pure { r with cb := v }

/-- Behind ST_CT. -/
def afterCt (v : ℕ) : Grammar SpsRegs := walkUe >>= afterCb { r with ct := v }

/-- Behind ST_CR. -/
def afterCr (v : ℕ) : Grammar SpsRegs := walkUe >>= afterCt { r with cr := v }

/-- Behind ST_CL. -/
def afterCl (v : ℕ) : Grammar SpsRegs := walkUe >>= afterCr { r with cl := v }

/-- Behind ST_CROP. -/
def afterCrop (v : ℕ) : Grammar SpsRegs :=
  if v ≠ 0 then walkUe >>= afterCl { r with cropFlag := v } else pure { r with cropFlag := v }

/-- Behind ST_D8. -/
def afterD8 (_ : ℕ) : Grammar SpsRegs := Grammar.field 1 >>= afterCrop r

/-- Behind ST_MBAFF. -/
def afterMbaff (_ : ℕ) : Grammar SpsRegs := Grammar.field 1 >>= afterD8 r

/-- Behind ST_FMO. -/
def afterFmo (v : ℕ) : Grammar SpsRegs :=
  if v = 0 then Grammar.field 1 >>= afterMbaff { r with frameMbsOnly := v }
  else Grammar.field 1 >>= afterD8 { r with frameMbsOnly := v }

/-- Behind ST_H. -/
def afterH (v : ℕ) : Grammar SpsRegs :=
  Grammar.field 1 >>= afterFmo { r with hMap := (v+1)%65536 }

/-- Behind ST_W. -/
def afterW (v : ℕ) : Grammar SpsRegs :=
  walkUe >>= afterH { r with wMbs := (v+1)%65536 }

/-- Behind ST_GAPS. -/
def afterGaps (_ : ℕ) : Grammar SpsRegs := walkUe >>= afterW r

/-- Behind ST_REFS. -/
def afterRefs (_ : ℕ) : Grammar SpsRegs := Grammar.field 1 >>= afterGaps r

/-- Behind ST_POC0. -/
def afterPoc0 (_ : ℕ) : Grammar SpsRegs := walkUe >>= afterRefs r

/-- Behind ST_POC. -/
def afterPoc (v : ℕ) : Grammar SpsRegs :=
  if v = 0 then walkUe >>= afterPoc0 { r with pocT := v%8 }
  else if v = 1 then Grammar.stop
  else walkUe >>= afterRefs { r with pocT := v%8 }

/-- Behind ST_LOG2. -/
def afterLog2 (v : ℕ) : Grammar SpsRegs :=
  walkUe >>= afterPoc { r with log2Fn := (v%32+4)%32 }

/-- Behind ST_SPSID. -/
def afterSpsId (_ : ℕ) : Grammar SpsRegs :=
  if r.prof ∈ refusedProfiles then Grammar.stop else walkUe >>= afterLog2 r

/-- Behind ST_LEVEL. -/
def afterLevel (v : ℕ) : Grammar SpsRegs :=
  walkUe >>= afterSpsId { r with levelIdc := v%256 }

/-- Behind ST_CONS. -/
def afterCons (_ : ℕ) : Grammar SpsRegs := Grammar.field 8 >>= afterLevel r

/-- Behind ST_PROF. -/
def afterProf (v : ℕ) : Grammar SpsRegs :=
  Grammar.field 8 >>= afterCons { r with prof := v%256, profileIdc := v%256 }

/-- The syntax of a set, with the registers that hold what was read. -/
def walkSps : Grammar SpsRegs := Grammar.field 8 >>= afterProf { r with busy := true }

/-- The outputs are the ones shown before. -/
def Shows (shown r : SpsRegs) : Prop :=
  r.valid=shown.valid ∧ r.width=shown.width ∧ r.height=shown.height

/-- The parser is idle again and shows what was read, or what it showed before. -/
def SpsEnd (shown : SpsRegs) (result : Option (SpsRegs × List Bool)) (q : SpsParser) : Prop :=
  q.walk.st = .own .idle ∧
    match result with
    | some (r,_) => q.regs=r.finish
    | none => Shows shown q.regs

end Misterplex.Header
