import Misterplex.Cavlc.EngineTables
import Misterplex.Rbsp.Emulation

/-!
# The residual block engine

One clock edge of the hardware decoder. Codes are searched in parallel over
their lengths, up to three levels and up to two runs are taken in a cycle, and a
level too long for the 32-bit window goes through two states of its own.
Registers are numbers with their wrap written out; words of 32 bits are lists
of bits, first bit most significant.
-/

namespace Misterplex.Cavlc.Engine

open BitString PrefixCode Emulation

/-- Inputs held while a block is decoded. -/
structure Inputs where
  /-- 0 to 3 for the classes of nC, 4 for chroma DC. -/
  coeffTokenTable : ℕ
  /-- Coefficients of the block: 16, 15 or 4. -/
  maxCoeff : ℕ
  /-- First bit of the block, and end of the data. -/
  (bitOffsetStart bitLen : ℕ)
  /-- The buffer of 64 bytes. -/
  rbsp : ℕ → Byte

/-- States of the engine. -/
inductive State where
  | idle | tokenBit | tokenChk | sign | lvlPre | lvlSuf | lvlStore | tzBit | tzChk | runBit | runChk
  | placeInit | placeStep | done | fail
  deriving DecidableEq, Repr

/-- Registers and registered outputs. -/
structure Regs where
  st : State
  /-- A block is being decoded. -/
  busy : Bool
  /-- Pulse at the end of a block, and whether it was read. -/
  (done ok : Bool)
  /-- Next bit, and the bit behind the block. -/
  (bitPos bitOffsetEnd : ℕ)
  /-- What the codes of the block gave. -/
  (totalCoeff trailingOnes totalZeros : ℕ)
  /-- Coefficients in scan order. -/
  coeff : List ℤ
  /-- Levels from the highest frequency down. -/
  level : List ℤ
  /-- Runs from the highest frequency down. -/
  run : List ℕ
  /-- Working copy of the total coefficients. -/
  tcR : ℕ
  /-- Working copy of the trailing ones. -/
  t1R : ℕ
  /-- Index of the next level or run. -/
  idx : ℕ
  /-- Of the level being read. -/
  (suffixLength levelPrefix : ℕ)
  /-- Suffix bits still to read, and those read. -/
  (suffixLeft suffixAcc : ℕ)
  /-- The next level is the first behind the trailing ones. -/
  firstNonT1 : Bool
  zerosLeft : ℕ
  deriving DecidableEq, Repr

/-- Bit of the buffer at a position. -/
def Inputs.bitAt (i : Inputs) (p : ℕ) : Bool := (i.rbsp (p/8%64)).getLsbD (7-p%8)

/-- The next 32 bits from a position, zero past the end. -/
def peek32 (i : Inputs) (pos : ℕ) : List Bool :=
  (List.range 32).map fun k =>
    let p := (pos+k)%1024
    if p < i.bitLen then i.bitAt p else false

/-- Zeros before the first one of a word, all of them if it has none. -/
def clz32 (w : List Bool) : ℕ := (w.takeWhile fun b => !b).length

/-- Value of the first bits of a word. -/
def takeMsb (w : List Bool) (n : ℕ) : ℕ := value (w.take n)

/-- A word shifted left. -/
def shiftLeft (w : List Bool) (n : ℕ) : List Bool :=
  w.drop n ++ List.replicate (min n w.length) false

/-- The parallel search: the first of some lengths, none above a maximum nor
past the end, whose bits are found, with the value found and the length. -/
def search (i : Inputs) (pos tries maxLen : ℕ) (look : ℕ → ℕ → Option ℕ) : Option (ℕ × ℕ) :=
  let win := peek32 i pos
  (List.range' 1 tries).findSome? fun len =>
    if len ≤ maxLen ∧ (pos+len)%1024 ≤ i.bitLen then
      (look len (takeMsb win len)).map fun found => (found,len)
    else none

variable (first : Bool)

/-- Number of suffix bits behind a prefix. -/
def suffixSize (pfx sl : ℕ) : ℕ :=
  if first then
    if pfx < 14 then sl
    else if pfx = 14 then if sl ≠ 0 then sl else 4
    else pfx-3
  else if pfx < 15 then sl
  else pfx-3

/-- Extra offset of the escapes from a prefix of sixteen on. -/
def escapeOffset (pfx : ℕ) : ℕ := if 16 ≤ pfx then 2^(pfx-3)-4096 else 0

/-- Level code of a prefix and a suffix. It stays below 32 bits. -/
def levelCodeOf (pfx sl sfx t1 : ℕ) : ℕ :=
  if first then
    let lc :=
      if pfx < 14 then (pfx <<< sl)+sfx
      else if pfx = 14 then if sl ≠ 0 then ((14 : ℕ) <<< sl)+sfx else 14+sfx
      else 30+escapeOffset pfx+sfx
    if t1 < 3 then lc+2 else lc
  else if pfx < 15 then (pfx <<< sl)+sfx
  else ((15 : ℕ) <<< sl)+escapeOffset pfx+sfx

/-- A value wrapped to sixteen signed bits. -/
def signed16 (v : ℤ) : ℤ := v.bmod 65536

/-- Bit pattern of a sixteen-bit value as an unsigned number. -/
def unsigned16 (v : ℤ) : ℕ := (v%65536).toNat

/-- Level of a level code: half of the code lifted by two, negated when odd. -/
def levelFromCode (code : ℕ) : ℤ :=
  let t := signed16 ((code+2)/2 : ℕ)
  if code%2 = 1 then signed16 (-t) else t

/-- Suffix length after the first level. -/
def suffixNextFirst (pfx sl : ℕ) (lvl : ℤ) : ℕ :=
  if 14 < pfx ∨ (pfx=14 ∧ sl=0) then 2
  else 1+if 6 < unsigned16 (lvl+3) then 1 else 0

/-- Limit of a suffix length. -/
def suffixLimit (sl : ℕ) : ℕ :=
  match sl with
  | 0 => 0
  | 1 => 3
  | 2 => 6
  | 3 => 12
  | 4 => 24
  | _ => 48

/-- Suffix length after every later level. -/
def suffixNext (sl : ℕ) (lvl : ℤ) : ℕ :=
  if sl < 6 ∧ 2*suffixLimit sl < unsigned16 (suffixLimit sl+lvl) then sl+1 else sl

/-- Suffix length after the first or a later level. -/
def suffixAfter (pfx sl : ℕ) (lvl : ℤ) : ℕ :=
  if first then suffixNextFirst pfx sl lvl else suffixNext sl lvl

/-- A level taken in one cycle. -/
structure Taken where
  /-- Prefix and suffix of its code. -/
  (pfx sfx : ℕ)
  level : ℤ
  /-- Suffix length after it, and bits of its code. -/
  (sl cons : ℕ)
  deriving DecidableEq, Repr

/-- How an attempt at a level ends. -/
inductive Attempt where
  /-- The code does not end within the stream. -/
  | short
  /-- The code is longer than the window. -/
  | long (pfx left : ℕ)
  /-- The level has no index or its code is too large. -/
  | bad
  | taken (t : Taken)
  deriving DecidableEq, Repr

/-- The level with an index, a prefix and a suffix, unless it is bad. -/
def takeLevel (idx pfx sl t1 cons sfx : ℕ) : Attempt :=
  let lc := levelCodeOf first pfx sl sfx t1
  if 16 ≤ idx ∨ 65535 < lc then .bad
  else
    let lvl := levelFromCode lc
    .taken ⟨pfx,sfx,lvl,suffixAfter first pfx sl lvl,cons⟩

/-- One attempt at the level with an index at a position inside the stream. -/
def tryLevel (i : Inputs) (first : Bool) (idx sl t1 pos : ℕ) : Attempt :=
  let win := peek32 i pos
  let pfx := clz32 win
  if 32 ≤ pfx ∨ (i.bitLen+1024-pos)%1024≤pfx ∨ 31 < pfx then .short
  else
    let sleft := suffixSize first pfx sl
    let cons := pfx+1+sleft
    if i.bitLen < (pos+cons)%1024 then .short
    else if 32 < pfx+1+sleft then .long pfx sleft
    else takeLevel first idx pfx sl t1 cons (takeMsb (shiftLeft win (pfx+1)) sleft)

/-- A further level of a cycle is given up when its code is longer than the window. -/
def Attempt.inWindow : Attempt → Attempt
  | .long _ _ => .short
  | attempt => attempt

/-- The attempt at a further level of the same cycle, given up when no level is
left or its code does not end within the stream or the window. -/
def tryNext (i : Inputs) (r : Regs) (n sl pos : ℕ) : Attempt :=
  if (r.idx+n)%32 < r.tcR ∧ pos < i.bitLen then
    (tryLevel i false ((r.idx+n)%32) sl r.t1R pos).inWindow
  else .short

/-- Registers after a number of levels, ready for total_zeros or more levels. -/
def Regs.advance (r : Regs) (n : ℕ) : Regs :=
  if r.tcR ≤ (r.idx+n)%32 then { r with st := .tzBit }
  else { r with idx := (r.idx+n)%32, st := .lvlPre }

/-- Store the levels of a cycle. The last one sets the prefix and the suffix. -/
def storeLevels (r : Regs) (last : Taken) (level : List ℤ) (n pos : ℕ) : Regs :=
  Regs.advance { r with
    firstNonT1 := false, level := level, levelPrefix := last.pfx, suffixAcc := last.sfx,
    suffixLength := last.sl, bitPos := pos } n

/-- Up to three levels in one cycle. -/
def lvlPre (i : Inputs) (r : Regs) : Regs :=
  if i.bitLen ≤ r.bitPos then { r with st := .fail }
  else
    match tryLevel i r.firstNonT1 r.idx r.suffixLength r.t1R r.bitPos with
    | .short => { r with st := .fail }
    | .long pfx sleft =>
      { r with
        levelPrefix := pfx, bitPos := (r.bitPos+pfx+1)%1024, suffixLeft := sleft,
        suffixAcc := 0, st := .lvlSuf }
    | .bad => { r with st := .fail }
    | .taken a =>
      let posB := (r.bitPos+a.cons)%1024
      let levelA := r.level.set (r.idx%16) a.level
      match tryNext i r 1 a.sl posB with
      | .bad => { r with st := .fail }
      | .taken b =>
        let posC := (r.bitPos+a.cons+b.cons)%1024
        let levelB := levelA.set ((r.idx+1)%16) b.level
        match tryNext i r 2 b.sl posC with
        | .bad => { r with st := .fail }
        | .taken c =>
          storeLevels r c (levelB.set ((r.idx+2)%16) c.level) 3
            ((r.bitPos+a.cons+b.cons+c.cons)%1024)
        | _ => storeLevels r b levelB 2 posC
      | _ => storeLevels r a levelA 1 posB

/-- The suffix of a long level. -/
def lvlSuf (i : Inputs) (r : Regs) : Regs :=
  if r.suffixLeft = 0 then { r with st := .lvlStore }
  else if i.bitLen < (r.bitPos+r.suffixLeft)%1024 then { r with st := .fail }
  else
    { r with
      suffixAcc := takeMsb (peek32 i r.bitPos) r.suffixLeft,
      bitPos := (r.bitPos+r.suffixLeft)%1024, suffixLeft := 0, st := .lvlStore }

/-- Complete a long level. -/
def lvlStore (r : Regs) : Regs :=
  let lc := levelCodeOf r.firstNonT1 r.levelPrefix r.suffixLength r.suffixAcc r.t1R
  if 16 ≤ r.idx ∨ 65535 < lc then { r with st := .fail }
  else
    let lvl := levelFromCode lc
    Regs.advance { r with
      level := r.level.set (r.idx%16) lvl,
      suffixLength := suffixAfter r.firstNonT1 r.levelPrefix r.suffixLength lvl,
      firstNonT1 := false } 1

/-- The coeff_token. -/
def tokenBit (i : Inputs) (r : Regs) : Regs :=
  let tab := i.coeffTokenTable
  if i.bitLen ≤ r.bitPos then { r with st := .fail }
  else
    match search i r.bitPos 16 (tokenMax tab)
      (fun len bits => coeffTokenLookup tab len (bits%2^16)) with
    | none => { r with st := .fail }
    | some (tok,len) =>
      let tc := tok/4
      let t1 := tok%4
      let pos := (r.bitPos+len)%1024
      let r := { r with bitPos := pos, tcR := tc, t1R := t1, totalCoeff := tc, trailingOnes := t1 }
      if i.maxCoeff < tc ∨ tc < t1 then { r with st := .fail }
      else if tc = 0 then { r with ok := true, bitOffsetEnd := pos, st := .done }
      else if t1 ≠ 0 then { r with idx := 0, st := .sign }
      else
        { r with
          idx := 0, suffixLength := if 10 < tc then 1 else 0, firstNonT1 := true, levelPrefix := 0,
          st := .lvlPre }

/-- Level of a sign bit. -/
def signLevel (b : Bool) : ℤ := if b then -1 else 1

/-- Store the levels of up to three trailing ones. -/
def storeSigns (t1 : ℕ) (sw : List Bool) (level : List ℤ) : List ℤ :=
  let level := if 1 ≤ t1 then level.set 0 (signLevel (sw.getD 0 false)) else level
  let level := if 2 ≤ t1 then level.set 1 (signLevel (sw.getD 1 false)) else level
  if 3 ≤ t1 then level.set 2 (signLevel (sw.getD 2 false)) else level

/-- The signs of the trailing ones. -/
def sign (i : Inputs) (r : Regs) : Regs :=
  if i.bitLen < (r.bitPos+r.t1R)%1024 then { r with st := .fail }
  else
    let r := { r with
      level := storeSigns r.t1R (peek32 i r.bitPos) r.level,
      bitPos := (r.bitPos+r.t1R)%1024, idx := r.t1R }
    if r.tcR = r.t1R then { r with st := .tzBit }
    else
      { r with
        suffixLength := if 10 < r.tcR ∧ r.t1R < 3 then 1 else 0, firstNonT1 := true,
        levelPrefix := 0, st := .lvlPre }

/-- Index of the last coefficient, tc_r - 1 in five bits. -/
def Regs.lastIdx (r : Regs) : ℕ := (r.tcR+31)%32

/-- Give the zeros left to the last coefficient and place. -/
def Regs.closeRuns (r : Regs) : Regs :=
  { r with run := r.run.set (r.lastIdx%16) r.zerosLeft, st := .placeInit }

/-- The total_zeros. -/
def tzBit (i : Inputs) (r : Regs) : Regs :=
  let tzIsChroma := decide (i.maxCoeff=4)
  if i.maxCoeff ≤ r.tcR then { r with totalZeros := 0, zerosLeft := 0, idx := 0, st := .placeInit }
  else if i.bitLen ≤ r.bitPos then { r with st := .fail }
  else
    match search i r.bitPos 9 (if tzIsChroma then 3 else 9)
      (fun len bits => totalZerosLookup tzIsChroma r.tcR len (bits%2^9)) with
    | none => { r with st := .fail }
    | some (zeros,len) =>
      let r := { r with
        bitPos := (r.bitPos+len)%1024, totalZeros := zeros, zerosLeft := zeros, idx := 0 }
      if r.tcR ≤ 1 ∨ zeros = 0 then r.closeRuns else { r with st := .runBit }

/-- The search for one run_before. -/
def runSearch (i : Inputs) (pos zeros : ℕ) : Option (ℕ × ℕ) :=
  search i pos 11 (if zeros < 7 then 3 else 11)
    fun len bits => runBeforeLookup zeros len (bits%2^5)

/-- Registers after a number of runs, ready for placement or more runs. -/
def Regs.advanceRuns (r : Regs) (n : ℕ) : Regs :=
  if r.lastIdx ≤ (r.idx+n)%32 ∨ r.zerosLeft = 0 then r.closeRuns
  else { r with idx := (r.idx+n)%32, st := .runBit }

/-- The second run of a cycle, if coefficients, zeros and bits remain and it fits
the zeros. -/
def secondRun (i : Inputs) (r : Regs) (zeros pos : ℕ) : Option (ℕ × ℕ) :=
  if (r.idx+1)%32 < r.lastIdx ∧ zeros≠0 ∧ pos < i.bitLen then
    (runSearch i pos zeros).filter fun p => decide (p.1≤zeros)
  else none

/-- Up to two runs in one cycle. -/
def runBit (i : Inputs) (r : Regs) : Regs :=
  if r.lastIdx ≤ r.idx ∨ r.zerosLeft = 0 then r.closeRuns
  else if i.bitLen ≤ r.bitPos then { r with st := .fail }
  else
    match runSearch i r.bitPos r.zerosLeft with
    | none => { r with st := .fail }
    | some (runA,lenA) =>
      if r.zerosLeft < runA then { r with st := .fail }
      else
        let zlA := r.zerosLeft-runA
        let posA := (r.bitPos+lenA)%1024
        match secondRun i r zlA posA with
        | some (runB,lenB) =>
          Regs.advanceRuns { r with
            run := (r.run.set (r.idx%16) runA).set ((r.idx+1)%16) runB,
            zerosLeft := zlA-runB, bitPos := (posA+lenB)%1024 } 2
        | none =>
          Regs.advanceRuns { r with
            run := r.run.set (r.idx%16) runA, zerosLeft := zlA, bitPos := posA } 1

/-- The placement loop from sixteen down, with the position behind the last
coefficient placed. It returns whether all fit. -/
def placeFrom (r : Regs) : ℕ → ℕ → List ℤ → Bool × List ℤ
  | 0,_,coeff => (true,coeff)
  | pi+1,next,coeff =>
    if pi+1 ≤ r.tcR then
      let cnum := next+r.run.getD pi 0
      if cnum < 16 then placeFrom r pi (cnum+1) (coeff.set cnum (r.level.getD pi 0))
      else (false,coeff)
    else placeFrom r pi next coeff

/-- Place all coefficients in one cycle. -/
def placeInit (r : Regs) : Regs :=
  let placed := placeFrom r 16 0 (List.replicate 16 0)
  if placed.1 then
    { r with coeff := placed.2, ok := true, bitOffsetEnd := r.bitPos, st := .done }
  else { r with coeff := placed.2, st := .fail }

/-- The coefficient, level and run arrays at zero. -/
def Regs.clearArrays (r : Regs) : Regs :=
  { r with coeff := List.replicate 16 0, level := List.replicate 16 0, run := List.replicate 16 0 }

/-- Registers under reset. -/
def Regs.reset (r : Regs) : Regs :=
  Regs.clearArrays { r with
    st := .idle, busy := false, ok := false, done := false, bitPos := 0, bitOffsetEnd := 0,
    totalCoeff := 0, trailingOnes := 0, totalZeros := 0 }

/-- Registers with every value zero, as after a reset. -/
def Regs.zero : Regs :=
  Regs.reset ⟨.idle,false,false,false,0,0,0,0,0,[],[],[],0,0,0,0,0,0,0,false,0⟩

/-- Accept a block. -/
def Regs.begin (i : Inputs) (r : Regs) : Regs :=
  Regs.clearArrays { r with
    busy := true, ok := false, bitPos := i.bitOffsetStart, bitOffsetEnd := i.bitOffsetStart,
    totalCoeff := 0, trailingOnes := 0, totalZeros := 0, tcR := 0, t1R := 0, idx := 0,
    st := .tokenBit }

/-- One clock edge. -/
def step (i : Inputs) (reset start : Bool) (r : Regs) : Regs :=
  let r := { r with done := false }
  if reset then r.reset
  else
    match r.st with
    | .idle => if start then r.begin i else { r with busy := false }
    | .tokenBit => tokenBit i r
    | .sign => sign i r
    | .lvlPre => lvlPre i r
    | .lvlSuf => lvlSuf i r
    | .lvlStore => lvlStore r
    | .tzBit => tzBit i r
    | .runBit => runBit i r
    | .placeInit => placeInit r
    | .tokenChk | .tzChk | .runChk | .placeStep => { r with st := .fail }
    | .done => { r with busy := false, done := true, st := .idle }
    | .fail =>
      { r with busy := false, ok := false, bitOffsetEnd := r.bitPos, done := true, st := .idle }

/-- The registers after a number of clock edges without reset. -/
def clocks (i : Inputs) (start : ℕ → Bool) (r : Regs) : ℕ → Regs
  | 0 => r
  | t+1 => step i false (start t) (clocks i start r t)

end Misterplex.Cavlc.Engine
