import Misterplex.Lib.PrefixCode

/-!
# The code tables of CAVLC

The codewords of coeff_token, total_zeros and run_before as the standard
prints them. A literal carries a leading one in front of the codeword, so that
leading zeros count; zero stands for an index without a codeword.

A residual block is parsed from a list of bits: coeff_token, trailing-one signs, levels
with their adaptive suffix length, total_zeros and run_before. Reading stops when the
bits are no code or when a level_prefix is longer than fifteen zeros. Both decoders of
the repository are compared with this reading.
-/

namespace Misterplex.Cavlc

open BitString PrefixCode List

/-- The bits behind the leading one. -/
def codeword (c : ℕ) : List Bool := ofNat c.log2 c

/-- The code whose words are spelled by the literals. -/
def codewords (literals : List ℕ) : Code := literals.map codeword

/-- A literal with a codeword starts another one. -/
def literalStarts (c d : ℕ) : Bool := 1 < c && d >>> (d.log2-c.log2) == c

/-- No literal of a list starts another one. -/
def literalsPrefixFree (literals : List ℕ) : Bool :=
  literals.zipIdx.all fun p => literals.zipIdx.all fun q => !literalStarts p.1 q.1 || p == q

theorem value_codeword {c : ℕ} (hc : c≠0) : value (codeword c)+2^c.log2=c := by
  have hle : 2^c.log2≤c := Nat.log2_self_le hc
  have hlt : c<2^(c.log2+1) := Nat.lt_log2_self
  rw [codeword,value_ofNat_mod,Nat.mod_eq_sub_mod hle,Nat.mod_eq_of_lt (by omega)]
  omega

/-- A literal with a leading one in front of given bits has them as its codeword. -/
theorem codeword_of_value {w : List Bool} {c : ℕ} (h : c=2^w.length+value w) :
    codeword c=w := by
  have hlt := value_lt w
  have hlog : c.log2=w.length := by
    refine (Nat.log2_eq_iff (by omega)).mpr ⟨by omega,?_⟩
    omega
  rw [codeword,hlog]
  refine ofNat_of_mod ?_
  rw [h,Nat.add_mod_left,Nat.mod_eq_of_lt hlt]

theorem literalStarts_of_starts {c d : ℕ} (h : starts (codeword c) (codeword d)=true) :
    literalStarts c d=true := by
  obtain ⟨hne,tail,htail⟩ := (starts_iff _ _).mp h
  have hlenc : (codeword c).length=c.log2 := length_ofNat _ _
  have hlend : (codeword d).length=d.log2 := length_ofNat _ _
  have hpos : 0<c.log2 := hlenc ▸ length_pos_iff.mpr hne
  have hlen : d.log2=c.log2+tail.length := by
    rw [← hlend,← htail,length_append,hlenc]
  have hc : 1<c := by
    by_contra hsmall
    have hzero : c.log2=0 := by
      rcases (show c=0 ∨ c=1 by omega) with rfl | rfl <;> rfl
    omega
  have hd : d≠0 := by
    rintro rfl
    rw [show Nat.log2 0=0 from rfl] at hlen
    omega
  have hvc := value_codeword (show c≠0 by omega)
  have hvd := value_codeword hd
  rw [← htail,value_append,hlen,pow_add] at hvd
  have hlt := value_lt tail
  have hdiv : d=2^tail.length*c+value tail := by
    calc d=2^tail.length*(value (codeword c)+2^c.log2)+value tail := by
            rw [← hvd]
            ring
      _ = 2^tail.length*c+value tail := by rw [hvc]
  have hshift : d >>> (d.log2-c.log2) = c := by
    rw [hlen,Nat.add_sub_cancel_left,Nat.shiftRight_eq_div_pow,hdiv,
      Nat.mul_add_div (Nat.two_pow_pos _),Nat.div_eq_of_lt hlt,Nat.add_zero]
  rw [literalStarts,hshift,beq_self_eq_true,Bool.and_true,decide_eq_true hc]

theorem prefixFree_codewords {literals : List ℕ} (h : literalsPrefixFree literals=true) :
    PrefixFree (codewords literals) := by
  intro p hp q hq hstart
  rw [codewords,zipIdx_map] at hp hq
  obtain ⟨c,hc,rfl⟩ := mem_map.mp hp
  obtain ⟨d,hd,rfl⟩ := mem_map.mp hq
  have hpair := all_eq_true.mp (all_eq_true.mp h c hc) d hd
  have hlit : literalStarts c.1 d.1=true := literalStarts_of_starts hstart
  rw [hlit,Bool.not_true,Bool.false_or,beq_iff_eq] at hpair
  rw [hpair]

/-- coeff_token for 0 ≤ nC < 2, at index 4 * TotalCoeff + TrailingOnes. -/
def coeffToken0 : List ℕ := [
    0b1_1,0,0,0,0b1_000101,0b1_01,0,0,0b1_00000111,0b1_000100,0b1_001,0,0b1_000000111,
    0b1_00000110,0b1_0000101,0b1_00011,0b1_0000000111,0b1_000000110,0b1_00000101,0b1_000011,
    0b1_00000000111,0b1_0000000110,0b1_000000101,0b1_0000100,0b1_0000000001111,
    0b1_00000000110,0b1_0000000101,0b1_00000100,0b1_0000000001011,0b1_0000000001110,
    0b1_00000000101,0b1_000000100,0b1_0000000001000,0b1_0000000001010,0b1_0000000001101,
    0b1_0000000100,0b1_00000000001111,0b1_00000000001110,0b1_0000000001001,0b1_00000000100,
    0b1_00000000001011,0b1_00000000001010,0b1_00000000001101,0b1_0000000001100,
    0b1_000000000001111,0b1_000000000001110,0b1_00000000001001,0b1_00000000001100,
    0b1_000000000001011,0b1_000000000001010,0b1_000000000001101,0b1_00000000001000,
    0b1_0000000000001111,0b1_000000000000001,0b1_000000000001001,0b1_000000000001100,
    0b1_0000000000001011,0b1_0000000000001110,0b1_0000000000001101,0b1_000000000001000,
    0b1_0000000000000111,0b1_0000000000001010,0b1_0000000000001001,0b1_0000000000001100,
    0b1_0000000000000100,0b1_0000000000000110,0b1_0000000000000101,0b1_0000000000001000]

/-- coeff_token for 2 ≤ nC < 4. -/
def coeffToken2 : List ℕ := [
    0b1_11,0,0,0,0b1_001011,0b1_10,0,0,0b1_000111,0b1_00111,0b1_011,0,0b1_0000111,
    0b1_001010,0b1_001001,0b1_0101,0b1_00000111,0b1_000110,0b1_000101,0b1_0100,0b1_00000100,
    0b1_0000110,0b1_0000101,0b1_00110,0b1_000000111,0b1_00000110,0b1_00000101,0b1_001000,
    0b1_00000001111,0b1_000000110,0b1_000000101,0b1_000100,0b1_00000001011,0b1_00000001110,
    0b1_00000001101,0b1_0000100,0b1_000000001111,0b1_00000001010,0b1_00000001001,
    0b1_000000100,0b1_000000001011,0b1_000000001110,0b1_000000001101,0b1_00000001100,
    0b1_000000001000,0b1_000000001010,0b1_000000001001,0b1_00000001000,0b1_0000000001111,
    0b1_0000000001110,0b1_0000000001101,0b1_000000001100,0b1_0000000001011,0b1_0000000001010,
    0b1_0000000001001,0b1_0000000001100,0b1_0000000000111,0b1_00000000001011,0b1_0000000000110,
    0b1_0000000001000,0b1_00000000001001,0b1_00000000001000,0b1_00000000001010,
    0b1_0000000000001,0b1_00000000000111,0b1_00000000000110,0b1_00000000000101,
    0b1_00000000000100]

/-- coeff_token for 4 ≤ nC < 8. -/
def coeffToken4 : List ℕ := [
    0b1_1111,0,0,0,0b1_001111,0b1_1110,0,0,0b1_001011,0b1_01111,0b1_1101,0,0b1_001000,
    0b1_01100,0b1_01110,0b1_1100,0b1_0001111,0b1_01010,0b1_01011,0b1_1011,0b1_0001011,
    0b1_01000,0b1_01001,0b1_1010,0b1_0001001,0b1_001110,0b1_001101,0b1_1001,0b1_0001000,
    0b1_001010,0b1_001001,0b1_1000,0b1_00001111,0b1_0001110,0b1_0001101,0b1_01101,
    0b1_00001011,0b1_00001110,0b1_0001010,0b1_001100,0b1_000001111,0b1_00001010,0b1_00001101,
    0b1_0001100,0b1_000001011,0b1_000001110,0b1_00001001,0b1_00001100,0b1_000001000,
    0b1_000001010,0b1_000001101,0b1_00001000,0b1_0000001101,0b1_000000111,0b1_000001001,
    0b1_000001100,0b1_0000001001,0b1_0000001100,0b1_0000001011,0b1_0000001010,0b1_0000000101,
    0b1_0000001000,0b1_0000000111,0b1_0000000110,0b1_0000000001,0b1_0000000100,0b1_0000000011,
    0b1_0000000010]

/-- coeff_token for 8 ≤ nC. -/
def coeffToken8 : List ℕ := [
    0b1_000011,0,0,0,0b1_000000,0b1_000001,0,0,0b1_000100,0b1_000101,0b1_000110,0,
    0b1_001000,0b1_001001,0b1_001010,0b1_001011,0b1_001100,0b1_001101,0b1_001110,0b1_001111,
    0b1_010000,0b1_010001,0b1_010010,0b1_010011,0b1_010100,0b1_010101,0b1_010110,0b1_010111,
    0b1_011000,0b1_011001,0b1_011010,0b1_011011,0b1_011100,0b1_011101,0b1_011110,0b1_011111,
    0b1_100000,0b1_100001,0b1_100010,0b1_100011,0b1_100100,0b1_100101,0b1_100110,0b1_100111,
    0b1_101000,0b1_101001,0b1_101010,0b1_101011,0b1_101100,0b1_101101,0b1_101110,0b1_101111,
    0b1_110000,0b1_110001,0b1_110010,0b1_110011,0b1_110100,0b1_110101,0b1_110110,0b1_110111,
    0b1_111000,0b1_111001,0b1_111010,0b1_111011,0b1_111100,0b1_111101,0b1_111110,0b1_111111]

/-- coeff_token for nC = -1. -/
def coeffTokenChromaDc : List ℕ := [
    0b1_01,0,0,0,0b1_000111,0b1_1,0,0,0b1_000100,0b1_000110,0b1_001,0,0b1_000011,
    0b1_0000011,0b1_0000010,0b1_000101,0b1_000010,0b1_00000011,0b1_00000010,0b1_0000000]

/-- total_zeros for blocks of more than four coefficients, by TotalCoeff from one on. -/
def totalZerosRows : List (List ℕ) := [
  [0b1_1,0b1_011,0b1_010,0b1_0011,0b1_0010,0b1_00011,0b1_00010,0b1_000011,0b1_000010,
    0b1_0000011,0b1_0000010,0b1_00000011,0b1_00000010,0b1_000000011,0b1_000000010,
    0b1_000000001],
  [0b1_111,0b1_110,0b1_101,0b1_100,0b1_011,0b1_0101,0b1_0100,0b1_0011,0b1_0010,0b1_00011,
    0b1_00010,0b1_000011,0b1_000010,0b1_000001,0b1_000000],
  [0b1_0101,0b1_111,0b1_110,0b1_101,0b1_0100,0b1_0011,0b1_100,0b1_011,0b1_0010,0b1_00011,
    0b1_00010,0b1_000001,0b1_00001,0b1_000000],
  [0b1_00011,0b1_111,0b1_0101,0b1_0100,0b1_110,0b1_101,0b1_100,0b1_0011,0b1_011,0b1_0010,
    0b1_00010,0b1_00001,0b1_00000],
  [0b1_0101,0b1_0100,0b1_0011,0b1_111,0b1_110,0b1_101,0b1_100,0b1_011,0b1_0010,0b1_00001,
    0b1_0001,0b1_00000],
  [0b1_000001,0b1_00001,0b1_111,0b1_110,0b1_101,0b1_100,0b1_011,0b1_010,0b1_0001,0b1_001,
    0b1_000000],
  [0b1_000001,0b1_00001,0b1_101,0b1_100,0b1_011,0b1_11,0b1_010,0b1_0001,0b1_001,
    0b1_000000],
  [0b1_000001,0b1_0001,0b1_00001,0b1_011,0b1_11,0b1_10,0b1_010,0b1_001,0b1_000000],
  [0b1_000001,0b1_000000,0b1_0001,0b1_11,0b1_10,0b1_001,0b1_01,0b1_00001],
  [0b1_00001,0b1_00000,0b1_001,0b1_11,0b1_10,0b1_01,0b1_0001],
  [0b1_0000,0b1_0001,0b1_001,0b1_010,0b1_1,0b1_011],
  [0b1_0000,0b1_0001,0b1_01,0b1_1,0b1_001],
  [0b1_000,0b1_001,0b1_1,0b1_01],
  [0b1_00,0b1_01,0b1_1],
  [0b1_0,0b1_1]]

/-- total_zeros for the DC coefficients of chroma, by TotalCoeff from one on. -/
def totalZerosChromaRows : List (List ℕ) := [
  [0b1_1,0b1_01,0b1_001,0b1_000],
  [0b1_1,0b1_01,0b1_00],
  [0b1_1,0b1_0]]

/-- run_before by zerosLeft from one on, the last row for all above six. -/
def runBeforeRows : List (List ℕ) := [
  [0b1_1,0b1_0],
  [0b1_1,0b1_01,0b1_00],
  [0b1_11,0b1_10,0b1_01,0b1_00],
  [0b1_11,0b1_10,0b1_01,0b1_001,0b1_000],
  [0b1_11,0b1_10,0b1_011,0b1_010,0b1_001,0b1_000],
  [0b1_11,0b1_000,0b1_001,0b1_011,0b1_010,0b1_101,0b1_100],
  [0b1_111,0b1_110,0b1_101,0b1_100,0b1_011,0b1_010,0b1_001,0b1_0001,0b1_00001,0b1_000001,
    0b1_0000001,0b1_00000001,0b1_000000001,0b1_0000000001,0b1_00000000001]]

/-- Classes of nC that select a coeff_token table. -/
inductive TokenTable where
  /-- 0 ≤ nC < 2. -/
  | nc0
  /-- 2 ≤ nC < 4. -/
  | nc2
  /-- 4 ≤ nC < 8. -/
  | nc4
  | nc8
  /-- nC = -1. -/
  | chromaDc
  deriving DecidableEq, Repr

/-- The coeff_token literals of a class. -/
def TokenTable.literals : TokenTable → List ℕ
  | .nc0 => coeffToken0
  | .nc2 => coeffToken2
  | .nc4 => coeffToken4
  | .nc8 => coeffToken8
  | .chromaDc => coeffTokenChromaDc

/-- The coeff_token code of a class. -/
def TokenTable.code (t : TokenTable) : Code := codewords t.literals

variable (maxNumCoeff tc : ℕ)

/-- The total_zeros literals of a block size and a number of coefficients. -/
def totalZerosLiterals : List ℕ :=
  if maxNumCoeff = 4 then totalZerosChromaRows.getD (tc-1) [] else totalZerosRows.getD (tc-1) []

/-- The total_zeros code of a block size and a number of coefficients. -/
def totalZerosCode : Code := codewords (totalZerosLiterals maxNumCoeff tc)

/-- The run_before code of a number of zeros left. -/
def runBeforeCode (zerosLeft : ℕ) : Code :=
  codewords (runBeforeRows.getD (min zerosLeft 7-1) [])

theorem literalsPrefixFree_token (t : TokenTable) : literalsPrefixFree t.literals=true := by
  cases t <;> decide +kernel

theorem prefixFree_code (t : TokenTable) : PrefixFree t.code :=
  prefixFree_codewords (literalsPrefixFree_token t)

theorem literalsPrefixFree_getD {rows : List (List ℕ)} (h : rows.all literalsPrefixFree=true)
    (i : ℕ) : literalsPrefixFree (rows.getD i [])=true := by
  rw [getD_eq_getElem?_getD]
  cases hi : rows[i]? with
  | none => rfl
  | some row => exact all_eq_true.mp h row (mem_of_getElem? hi)

theorem prefixFree_totalZerosCode : PrefixFree (totalZerosCode maxNumCoeff tc) := by
  refine prefixFree_codewords ?_
  unfold totalZerosLiterals
  split_ifs
  · exact literalsPrefixFree_getD (by decide +kernel) _
  · exact literalsPrefixFree_getD (by decide +kernel) _

theorem prefixFree_runBeforeCode (zerosLeft : ℕ) : PrefixFree (runBeforeCode zerosLeft) :=
  prefixFree_codewords (literalsPrefixFree_getD (by decide) _)

theorem runBeforeCode_of_le {zerosLeft : ℕ} (h : 7≤zerosLeft) :
    runBeforeCode zerosLeft=runBeforeCode 7 := by
  rw [runBeforeCode,Nat.min_eq_right h]
  rfl

theorem longRunCode :
    ∀ i<15, (runBeforeCode 7)[i]? =
      some (if i < 7 then ofNat 3 (7-i) else List.replicate (i-4) false ++ [true]) := by
  decide

theorem longRunCode_one : ∀ w∈runBeforeCode 7, true∈w ∧ w.length≤11 := by
  decide

/-- Why reading a block stops early. -/
inductive Stop where
  /-- The bits are no code of a block. -/
  | invalid
  /-- A level_prefix has more than fifteen zeros. -/
  | longPrefix
  deriving DecidableEq, Repr

/-- One symbol of a code, or an invalid block. -/
def readSymbol (T : Code) (bits : List Bool) : Except Stop (ℕ × List Bool) :=
  match symbol T bits with
  | some r => .ok r
  | none => .error .invalid

/-- Read an unsigned field of a number of bits. -/
def readField (n : ℕ) (bits : List Bool) : Except Stop (ℕ × List Bool) :=
  if n ≤ bits.length then .ok (value (bits.take n),bits.drop n) else .error .invalid

/-- Count zeros up to the next one, and the bits behind it. -/
def zerosBeforeOne : List Bool → Option (ℕ × List Bool)
  | [] => none
  | true::bits => some (0,bits)
  | false::bits => (zerosBeforeOne bits).map fun p => (p.1+1,p.2)

theorem zerosBeforeOne_eq_some {bits : List Bool} {n : ℕ} {rest : List Bool}
    (h : zerosBeforeOne bits=some (n,rest)) :
    bits = List.replicate n false ++ true::rest := by
  induction bits generalizing n with
  | nil => cases h
  | cons b bits ih =>
    cases b with
    | true =>
      obtain ⟨rfl,rfl⟩ := Prod.mk.inj (Option.some.inj h)
      rfl
    | false =>
      obtain ⟨p,hp,heq⟩ := Option.map_eq_some_iff.mp h
      obtain ⟨rfl,rfl⟩ := Prod.mk.inj heq
      rw [ih hp,replicate_succ,cons_append]

theorem zerosBeforeOne_eq_none {bits : List Bool} (h : zerosBeforeOne bits=none) :
    bits=List.replicate bits.length false := by
  induction bits with
  | nil => rfl
  | cons b bits ih =>
    cases b with
    | true => cases h
    | false =>
      have hrest := ih (Option.map_eq_none_iff.mp h)
      rw [length_cons,replicate_succ,← hrest]

/-- The zeros before the first one, at most fifteen. -/
def readLevelPrefix (bits : List Bool) : Except Stop (ℕ × List Bool) :=
  match zerosBeforeOne bits with
  | some p => if 15 < p.1 then .error .longPrefix else .ok p
  | none => .error .invalid

/-- Number of bits of level_suffix. -/
def levelSuffixSize (levelPrefix suffixLength : ℕ) : ℕ :=
  if levelPrefix = 14 ∧ suffixLength = 0 then 4
  else if levelPrefix = 15 then 12
  else suffixLength

/-- The level code of a prefix and a suffix. The first level after fewer than
three trailing ones is lifted by two. -/
def levelCode (levelPrefix levelSuffix suffixLength : ℕ) (lift : Bool) : ℕ :=
  (min 15 levelPrefix*2^suffixLength+levelSuffix) +
    (if 15 ≤ levelPrefix ∧ suffixLength = 0 then 15 else 0)+(if lift then 2 else 0)

/-- The level of a level code: even codes are positive, odd ones negative. -/
def levelOfCode (code : ℕ) : ℤ :=
  if code%2 = 0 then ((code : ℤ)+2)/2 else (-(code : ℤ)-1)/2

/-- Suffix length after a level. -/
def nextSuffixLength (suffixLength : ℕ) (level : ℤ) : ℕ :=
  if 3*2^(max suffixLength 1-1) < level.natAbs ∧ max suffixLength 1 < 6 then
    max suffixLength 1+1
  else max suffixLength 1

/-- One level: its prefix, its suffix, its value. -/
def readLevel (suffixLength : ℕ) (lift : Bool) (bits : List Bool) :
    Except Stop (ℤ × List Bool) := do
  let (levelPrefix,bits) ← readLevelPrefix bits
  let (levelSuffix,bits) ← readField (levelSuffixSize levelPrefix suffixLength) bits
  return (levelOfCode (levelCode levelPrefix levelSuffix suffixLength lift),bits)

/-- Read a number of levels, adapting the suffix length. -/
def readLevels : ℕ → ℕ → Bool → List Bool → Except Stop (List ℤ × List Bool)
  | 0,_,_,bits => .ok ([],bits)
  | n+1,suffixLength,lift,bits => do
    let (level,bits) ← readLevel suffixLength lift bits
    let (levels,bits) ← readLevels n (nextSuffixLength suffixLength level) false bits
    return (level::levels,bits)

/-- Read the signs of the trailing ones. -/
def readSigns : ℕ → List Bool → Except Stop (List ℤ × List Bool)
  | 0,bits => .ok ([],bits)
  | n+1,bits => do
    let (sign,bits) ← readField 1 bits
    let (levels,bits) ← readSigns n bits
    return ((if sign = 1 then -1 else 1)::levels,bits)

/-- Read the runs of zeros before a number of coefficients. -/
def readRuns : ℕ → ℕ → List Bool → Except Stop (List ℕ × List Bool)
  | 0,_,bits => .ok ([],bits)
  | 1,zerosLeft,bits => .ok ([zerosLeft],bits)
  | n+2,zerosLeft,bits =>
    if zerosLeft = 0 then do
      let (runs,bits) ← readRuns (n+1) 0 bits
      return (0::runs,bits)
    else do
      let (run,bits) ← readSymbol (runBeforeCode zerosLeft) bits
      if zerosLeft < run then .error .invalid
      else do
        let (runs,bits) ← readRuns (n+1) (zerosLeft-run) bits
        return (run::runs,bits)

/-- Read total_zeros, absent when every coefficient is nonzero. -/
def readTotalZeros (bits : List Bool) : Except Stop (ℕ × List Bool) :=
  if tc < maxNumCoeff then readSymbol (totalZerosCode maxNumCoeff tc) bits else .ok (0,bits)

/-- A block as it is read: levels and runs from the highest frequency down. -/
structure Block where
  trailingOnes : ℕ
  levels : List ℤ
  /-- Zeros before each of them. -/
  runs : List ℕ
  deriving DecidableEq, Repr

/-- The nonzero coefficients of the block. -/
def Block.totalCoeff (b : Block) : ℕ := b.levels.length

/-- Coefficients in scan order, up to the last nonzero one. -/
def Block.scan (b : Block) : List ℤ :=
  (b.levels.zip b.runs).reverse.flatMap fun p => List.replicate p.2 0 ++ [p.1]

/-- The sixteen coefficients in scan order. -/
def Block.coeff (b : Block) : List ℤ := b.scan ++ List.replicate (16-b.scan.length) 0

/-- Suffix length before the first level. -/
def firstSuffixLength (tc t1 : ℕ) : ℕ := if 10 < tc ∧ t1 < 3 then 1 else 0

/-- Read what follows the coeff_token of a nonempty block. -/
def readCoefficients (maxNumCoeff tc t1 : ℕ) (bits : List Bool) :
    Except Stop (Block × List Bool) := do
  let (ones,bits) ← readSigns t1 bits
  let (levels,bits) ← readLevels (tc-t1) (firstSuffixLength tc t1) (decide (t1<3)) bits
  let (zeros,bits) ← readTotalZeros maxNumCoeff tc bits
  let (runs,bits) ← readRuns tc zeros bits
  return (⟨t1,ones ++ levels,runs⟩,bits)

/-- Read a residual block. -/
def readBlock (table : TokenTable) (maxNumCoeff : ℕ) (bits : List Bool) :
    Except Stop (Block × List Bool) := do
  let (token,bits) ← readSymbol table.code bits
  if maxNumCoeff < token/4 ∨ token/4 < token%4 then .error .invalid
  else if token/4 = 0 then return (⟨0,[],[]⟩,bits)
  else readCoefficients maxNumCoeff (token/4) (token%4) bits

end Misterplex.Cavlc
