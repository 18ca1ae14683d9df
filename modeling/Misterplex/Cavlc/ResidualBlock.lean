import Misterplex.Lib.BitString
import Misterplex.Rbsp.Emulation

/-!
# The host bit reader

A byte buffer with a bit position and a sticky error flag. Reading past the end
yields zero bits and clears the flag for good. A healthy reader is described by
the bits that are left, which also determine its position.

The residual block decoder follows the host's tables and control flow: table search by
growing code length, the separate formulas for the first and the later levels, the run
loop with its own code above six zeros, and the early returns that leave a partial
result with its flag down.
-/

namespace Misterplex.Cavlc

open BitString Emulation List

/-- The reader over a byte buffer. -/
structure BitReader where
  d : List Byte
  bit : ℕ
  /-- No read has passed the end. -/
  ok : Bool
  deriving DecidableEq, Repr

namespace BitReader

/-- Read one bit, zero past the end. -/
def u1 (br : BitReader) : ℕ × BitReader :=
  if !br.ok || br.d.length ≤ br.bit/8 then (0,{ br with ok := false })
  else
    (((br.d.getD (br.bit/8) 0#8).toNat >>> (7-br.bit%8))%2,{ br with bit := br.bit+1 })

/-- The accumulating loop of `u`. -/
def uFrom : ℕ → ℕ → BitReader → ℕ × BitReader
  | 0,v,br => (v,br)
  | n+1,v,br => uFrom n ((2*v+br.u1.1)%2^32) br.u1.2

/-- Read an unsigned field of a number of bits into 32 bits. -/
def u (nbits : ℕ) (br : BitReader) : ℕ × BitReader := uFrom nbits 0 br

/-- Bits that have not been read. -/
def rest (br : BitReader) : List Bool := (bitsOf br.d).drop br.bit

/-- A healthy reader over a buffer with given bits left. -/
structure At (d : List Byte) (bits : List Bool) (br : BitReader) : Prop where
  buffer : br.d=d
  /-- No read has passed the end. -/
  healthy : br.ok=true
  /-- The position and the bits left make up the buffer. -/
  position : br.bit+bits.length=8*d.length
  left : br.rest=bits

variable {br : BitReader}

theorem at_rest (hok : br.ok=true) (hbit : br.bit≤8*br.d.length) : At br.d br.rest br := by
  refine ⟨rfl,hok,?_,rfl⟩
  rw [rest,length_drop,length_bitsOf]
  omega

theorem shiftRight_mod_two (b : Byte) (k : ℕ) : (b.toNat >>> k)%2=(b.getLsbD k).toNat := by
  rw [BitVec.getLsbD,Nat.testBit_eq_decide_div_mod_eq,Nat.shiftRight_eq_div_pow]
  rcases Nat.mod_two_eq_zero_or_one (b.toNat/2^k) with h | h <;> rw [h] <;> rfl

variable {d : List Byte} {bits : List Bool}

/-- The buffer and the bits left determine a healthy reader. -/
theorem At.unique {br' : BitReader} (h : At d bits br) (h' : At d bits br') : br=br' := by
  obtain ⟨buffer,bit,ok⟩ := br
  obtain ⟨buffer',bit',ok'⟩ := br'
  obtain ⟨rfl,rfl,hposition,-⟩ := h
  obtain ⟨rfl,rfl,hposition',-⟩ := h'
  have hbit : bit=bit' := Nat.add_right_cancel (hposition.trans hposition'.symm)
  rw [hbit]

theorem At.u1 {b : Bool} (h : At d (b::bits) br) : br.u1.1=b.toNat ∧ At d bits br.u1.2 := by
  have hpos := h.position
  rw [length_cons] at hpos
  have hin : br.bit/8<br.d.length := by
    rw [h.buffer]
    omega
  have hrest : (bitsOf br.d).drop br.bit=b::bits := h.left
  have hbit : (bitsOf br.d)[br.bit]?=some b := by
    rw [← head?_drop,hrest]
    rfl
  rw [getElem?_bitsOf,getElem?_eq_getElem hin,Option.map_some,Option.some.injEq] at hbit
  have hcond : ¬(!br.ok || decide (br.d.length≤br.bit/8))=true := by
    rw [h.healthy]
    simp only [Bool.not_true,Bool.false_or,decide_eq_true_eq,not_le]
    exact hin
  rw [BitReader.u1,if_neg hcond]
  refine ⟨?_,h.buffer,h.healthy,by dsimp only; omega,?_⟩
  · rw [shiftRight_mod_two,getD_eq_getElem _ _ hin,hbit]
  · rw [rest,drop_add_one_eq_tail_drop,hrest]
    rfl

theorem At.u1_nil (h : At d [] br) : br.u1=(0,{ br with ok := false }) := by
  have hpos := h.position
  have hout : br.d.length≤br.bit/8 := by
    rw [h.buffer]
    rw [length_nil] at hpos
    omega
  rw [BitReader.u1,if_pos (by simp [hout])]

theorem u1_failed (h : br.ok=false) : br.u1=(0,br) := by
  rw [BitReader.u1,if_pos (by simp [h])]
  exact congrArg (Prod.mk 0) (by rw [← h])

theorem u_one_of_failing (h : br.ok=true) (hfail : (br.u 1).2.ok=false) : (br.u 1).1=0 := by
  by_cases hout : (!br.ok || decide (br.d.length≤br.bit/8))=true
  · rw [u,uFrom,BitReader.u1,if_pos hout]
    rfl
  · rw [u,uFrom,BitReader.u1,if_neg hout] at hfail
    exact absurd (h.symm.trans hfail) Bool.noConfusion

theorem uFrom_failed (h : br.ok=false) (n v : ℕ) : (uFrom n v br).2=br := by
  induction n generalizing v with
  | zero => rfl
  | succ n ih =>
    rw [uFrom,u1_failed h]
    exact ih _

theorem u_failed (h : br.ok=false) (n : ℕ) : (br.u n).2=br :=
  uFrom_failed h n 0

theorem At.uFrom (field : List Bool)
    (pre : List Bool) (h : At d (field ++ bits) br) (hlen : pre.length+field.length≤32) :
    (uFrom field.length (value pre) br).1=value (pre ++ field) ∧
      At d bits (BitReader.uFrom field.length (value pre) br).2 := by
  induction field generalizing pre br with
  | nil => exact ⟨by rw [append_nil]; rfl,h⟩
  | cons b field ih =>
    obtain ⟨hb,hnext⟩ := At.u1 (show At d (b::(field ++ bits)) br from h)
    have hval : 2*value pre+b.toNat=value (pre ++ [b]) := by
      rw [value_append,value_cons,value_nil,length_singleton,length_nil]
      omega
    have hlt : value (pre ++ [b])<2^32 := by
      refine lt_of_lt_of_le (value_lt _) (Nat.pow_le_pow_right (by omega) ?_)
      exact le_trans (by simp) hlen
    rw [length_cons,BitReader.uFrom,hb,hval,Nat.mod_eq_of_lt hlt]
    have hrec := ih (pre ++ [b]) hnext (by
      rw [length_append,length_singleton]
      rw [length_cons] at hlen
      omega)
    rw [append_assoc] at hrec
    exact hrec

/-- A field before the reader is read as its value. -/
theorem At.u (field : List Bool) (h : At d (field ++ bits) br) (hlen : field.length≤32) :
    (br.u field.length).1=value field ∧ At d bits (br.u field.length).2 := by
  have hfrom := At.uFrom field [] h (by rw [length_nil]; omega)
  exact hfrom

theorem At.u_one {b : Bool}
    (h : At d (b::bits) br) : (br.u 1).1=b.toNat ∧ At d bits (br.u 1).2 := by
  have hone : value [b]=b.toNat := by
    rw [value_cons,value_nil,length_nil,pow_zero,Nat.mul_one,Nat.add_zero]
  have hfield := At.u [b] (show At d ([b] ++ bits) br from h) (by rw [length_singleton]; omega)
  rw [hone] at hfield
  exact hfield

theorem At.uFrom_short (h : At d bits br)
    {n : ℕ} (v : ℕ) (hn : bits.length<n) : (BitReader.uFrom n v br).2.ok=false := by
  induction n generalizing v bits br with
  | zero => omega
  | succ n ih =>
    cases bits with
    | nil =>
      rw [BitReader.uFrom,At.u1_nil h,uFrom_failed rfl]
    | cons b bits =>
      obtain ⟨_,hnext⟩ := At.u1 h
      rw [length_cons] at hn
      exact ih hnext _ (by omega)

theorem At.u_short (h : At d bits br) {n : ℕ} (hn : bits.length<n) : (br.u n).2.ok=false :=
  h.uFrom_short 0 hn

end BitReader

end Misterplex.Cavlc

namespace Misterplex.Cavlc.Host

/-- Code lengths of coeff_token for four classes of nC, index 4 * TotalCoeff + TrailingOnes. -/
def coeffTokenLen : List (List ℕ) := [
  [1,0,0,0,6,2,0,0,8,6,3,0,9,8,7,5,10,9,8,6,11,10,9,7,13,11,10,8,13,
   13,11,9,13,13,13,10,14,14,13,11,14,14,14,13,15,15,14,14,15,15,15,14,16,
   15,15,15,16,16,16,15,16,16,16,16,16,16,16,16],
  [2,0,0,0,6,2,0,0,6,5,3,0,7,6,6,4,8,6,6,4,8,7,7,5,9,8,8,6,11,9,9,
   6,11,11,11,7,12,11,11,9,12,12,12,11,12,12,12,11,13,13,13,12,13,13,13,
   13,13,14,13,13,14,14,14,13,14,14,14,14],
  [4,0,0,0,6,4,0,0,6,5,4,0,6,5,5,4,7,5,5,4,7,5,5,4,7,6,6,4,7,6,6,
   4,8,7,7,5,8,8,7,6,9,8,8,7,9,9,8,8,9,9,9,8,10,9,9,9,10,10,10,10,
   10,10,10,10,10,10,10,10],
  [6,0,0,0,6,6,0,0,6,6,6,0,6,6,6,6,6,6,6,6,6,6,6,6,6,6,6,6,6,6,6,
   6,6,6,6,6,6,6,6,6,6,6,6,6,6,6,6,6,6,6,6,6,6,6,6,6,6,6,6,6,6,6,
   6,6,6,6,6,6]]

/-- Code values of coeff_token. -/
def coeffTokenBits : List (List ℕ) := [
  [1,0,0,0,5,1,0,0,7,4,1,0,7,6,5,3,7,6,5,3,7,6,5,4,15,6,5,4,11,14,
   5,4,8,10,13,4,15,14,9,4,11,10,13,12,15,14,9,12,11,10,13,8,15,1,9,12,
   11,14,13,8,7,10,9,12,4,6,5,8],
  [3,0,0,0,11,2,0,0,7,7,3,0,7,10,9,5,7,6,5,4,4,6,5,6,7,6,5,8,15,6,
   5,4,11,14,13,4,15,10,9,4,11,14,13,12,8,10,9,8,15,14,13,12,11,10,9,12,
   7,11,6,8,9,8,10,1,7,6,5,4],
  [15,0,0,0,15,14,0,0,11,15,13,0,8,12,14,12,15,10,11,11,11,8,9,10,9,14,
   13,9,8,10,9,8,15,14,13,13,11,14,10,12,15,10,13,12,11,14,9,12,8,10,13,
   8,13,7,9,12,9,12,11,10,5,8,7,6,1,4,3,2],
  [3,0,0,0,0,1,0,0,4,5,6,0,8,9,10,11,12,13,14,15,16,17,18,19,20,21,22,
   23,24,25,26,27,28,29,30,31,32,33,34,35,36,37,38,39,40,41,42,43,44,45,
   46,47,48,49,50,51,52,53,54,55,56,57,58,59,60,61,62,63]]

/-- Code lengths of coeff_token for the DC coefficients of chroma. -/
def chromaDcLen : List ℕ :=
  [2,0,0,0,6,1,0,0,6,6,3,0,6,7,7,6,6,8,8,7]

/-- Code values of coeff_token for the DC coefficients of chroma. -/
def chromaDcBits : List ℕ :=
  [1,0,0,0,7,1,0,0,4,6,1,0,3,3,2,5,2,3,2,0]

/-- Code lengths of total_zeros by TotalCoeff. -/
def totalZerosLen : List (List ℕ) := [
  [1,3,3,4,4,5,5,6,6,7,7,8,8,9,9,9],
  [3,3,3,3,3,4,4,4,4,5,5,6,6,6,6],
  [4,3,3,3,4,4,3,3,4,5,5,6,5,6],
  [5,3,4,4,3,3,3,4,3,4,5,5,5],
  [4,4,4,3,3,3,3,3,4,5,4,5],
  [6,5,3,3,3,3,3,3,4,3,6],
  [6,5,3,3,3,2,3,4,3,6],
  [6,4,5,3,2,2,3,3,6],
  [6,6,4,2,2,3,2,5],
  [5,5,3,2,2,2,4],
  [4,4,3,3,1,3],
  [4,4,2,1,3],
  [3,3,1,2],
  [2,2,1],
  [1,1]]

/-- Code values of total_zeros. -/
def totalZerosBits : List (List ℕ) := [
  [1,3,2,3,2,3,2,3,2,3,2,3,2,3,2,1],
  [7,6,5,4,3,5,4,3,2,3,2,3,2,1,0],
  [5,7,6,5,4,3,4,3,2,3,2,1,1,0],
  [3,7,5,4,6,5,4,3,3,2,2,1,0],
  [5,4,3,7,6,5,4,3,2,1,1,0],
  [1,1,7,6,5,4,3,2,1,1,0],
  [1,1,5,4,3,3,2,1,1,0],
  [1,1,1,3,3,2,2,1,0],
  [1,0,1,3,2,1,1,1],
  [1,0,1,3,2,1,1],
  [0,1,1,2,1,3],
  [0,1,1,1,1],
  [0,1,1,1],
  [0,1,1],
  [0,1]]

/-- Code lengths of total_zeros for the DC coefficients of chroma. -/
def chromaTzLen : List (List ℕ) := [
  [1,2,3,3],
  [1,2,2,0],
  [1,1,0,0]]

/-- Code values of total_zeros for the DC coefficients of chroma. -/
def chromaTzBits : List (List ℕ) := [
  [1,1,1,0],
  [1,1,0,0],
  [1,0,0,0]]

/-- Code lengths of run_before by zerosLeft. -/
def runLen : List (List ℕ) := [
  [1,1],
  [1,2,2],
  [2,2,2,2],
  [2,2,2,3,3],
  [2,2,3,3,3,3],
  [2,3,3,3,3,3,3],
  [3,3,3,3,3,3,3,4,5,6,7,8,9,10,11]]

/-- Code values of run_before. -/
def runBits : List (List ℕ) := [
  [1,0],
  [1,1,0],
  [3,2,1,0],
  [3,2,1,1,0],
  [3,2,3,2,1,0],
  [3,0,1,3,2,5,4],
  [7,6,5,4,3,2,1,1,1,1,1,1,1,1,1]]

/-- First index of a table with a given code length and value. -/
def lookup (lens bits : List ℕ) (n len code : ℕ) : Option ℕ :=
  (List.range n).find? fun i => lens.getD i 0 == len && bits.getD i 0 == code

/-- The loop of `matchMap` over the code lengths still to try. -/
def matchFrom (lens bits : List ℕ) (n : ℕ) : ℕ → ℕ → ℕ → BitReader → Option ℕ × BitReader
  | 0,_,_,br => (none,br)
  | fuel+1,len,code,br =>
    if br.ok then
      let r := br.u 1
      match lookup lens bits n (len+1) (2*code+r.1) with
      | some i => (some i,r.2)
      | none => matchFrom lens bits n fuel (len+1) (2*code+r.1) r.2
    else (none,br)

variable (br : BitReader)

/-- Match up to sixteen bits against a table of n codes. -/
def matchMap (lens bits : List ℕ) (n : ℕ) : Option ℕ × BitReader :=
  matchFrom lens bits n 16 0 0 br

/-- What the decoder returns. -/
structure ResidualResult where
  ok : Bool
  /-- Nonzero coefficients, and trailing ones of them. -/
  (totalCoeff trailingOnes : ℕ)
  /-- Levels from the highest frequency down. -/
  level : List ℤ
  /-- Coefficients in scan order. -/
  coeff : List ℤ
  deriving DecidableEq, Repr

/-- Sixteen values starting with those of a list. -/
def pad16 (xs : List ℤ) : List ℤ := xs ++ List.replicate (16-xs.length) 0

/-- The result at entry. -/
def ResidualResult.empty : ResidualResult := ⟨false,0,0,pad16 [],pad16 []⟩

/-- Read coeff_token as a table index. -/
def token (nC : ℤ) : Option ℕ × BitReader :=
  if nC = -1 then matchMap br chromaDcLen chromaDcBits 20
  else
    let tab := if nC < 2 then 0 else if nC < 4 then 1 else if nC < 8 then 2 else 3
    matchMap br (coeffTokenLen.getD tab []) (coeffTokenBits.getD tab []) (4*17)

/-- Read the signs of the trailing ones. -/
def signs : ℕ → BitReader → List ℤ × BitReader
  | 0,br => ([],br)
  | n+1,br =>
    let r := br.u 1
    let rest := signs n r.2
    ((if r.1 ≠ 0 then -1 else 1)::rest.1,rest.2)

/-- Count the zeros of a level prefix; more than 31 of them end the block. The
first argument bounds the iterations and is 32 at entry. -/
def levelPrefix : ℕ → ℕ → BitReader → Option ℕ × BitReader
  | 0,_,br => (none,br)
  | fuel+1,zeros,br =>
    if br.ok then
      let r := br.u 1
      if r.1 = 0 then
        if 31 < zeros+1 then (none,r.2) else levelPrefix fuel (zeros+1) r.2
      else (some zeros,r.2)
    else (some zeros,br)

/-- A value wrapped to sixteen bits. -/
def int16 (v : ℤ) : ℤ := v.bmod 65536

/-- Level of a level code: half of it rounded up past zero, negated when odd. -/
def toSigned (code : ℕ) : ℤ :=
  int16 (if code%2 = 1 then -(((2+code)/2 : ℕ) : ℤ) else ((2+code)/2 : ℕ))

/-- Extra offset of the escapes from a prefix of sixteen on. -/
def escapeOffset (zeros : ℕ) : ℕ := if 16 ≤ zeros then 2^(zeros-3)-4096 else 0

/-- Level code of the first level behind the trailing ones. -/
def firstLevelCode (zeros suffixLength t1 : ℕ) (br : BitReader) : ℕ × BitReader :=
  let r :=
    if zeros < 14 then
      if suffixLength ≠ 0 then
        ((zeros <<< suffixLength)+(br.u suffixLength).1,(br.u suffixLength).2)
      else (zeros,br)
    else if zeros = 14 then
      if suffixLength ≠ 0 then
        ((zeros <<< suffixLength)+(br.u suffixLength).1,(br.u suffixLength).2)
      else (zeros+(br.u 4).1,(br.u 4).2)
    else (30+escapeOffset zeros+(br.u (zeros-3)).1,(br.u (zeros-3)).2)
  (if t1 < 3 then r.1+2 else r.1,r.2)

/-- Level code of every later level. -/
def nextLevelCode (zeros suffixLength : ℕ) (br : BitReader) : ℕ × BitReader :=
  if zeros < 15 then
    ((zeros <<< suffixLength)+(br.u suffixLength).1,(br.u suffixLength).2)
  else
    (((15 : ℕ) <<< suffixLength)+escapeOffset zeros+(br.u (zeros-3)).1,(br.u (zeros-3)).2)

/-- A value as an unsigned 32-bit number. -/
def uint32 (v : ℤ) : ℕ := (v%2^32).toNat

/-- The suffix length after the first level. -/
def suffixAfterFirst (zeros suffixLength : ℕ) (level : ℤ) : ℕ :=
  if 14 < zeros ∨ (zeros=14 ∧ suffixLength=0) then 2
  else 1+if 6 < uint32 (level+3) then 1 else 0

/-- Limits of the suffix lengths. -/
def kLim : List ℕ := [0,3,6,12,24,48,0xffffffff]

/-- Suffix length after every later level. -/
def suffixAfterNext (suffixLength : ℕ) (level : ℤ) : ℕ :=
  if suffixLength < 6 then
    suffixLength +
      if 2*kLim.getD suffixLength 0 < uint32 (kLim.getD suffixLength 0+level) then 1 else 0
  else suffixLength

/-- The loop over the levels behind the trailing ones. It returns whether the
block goes on, the levels so far and the reader. -/
def levelsFrom (t1 : ℕ) : ℕ → Bool → ℕ → List ℤ → BitReader → Bool × List ℤ × BitReader
  | 0,_,_,level,br => (true,level,br)
  | n+1,first,suffixLength,level,br =>
    if br.ok then
      match levelPrefix 32 0 br with
      | (none,br) => (false,level,br)
      | (some zeros,br) =>
        let r := if first then firstLevelCode zeros suffixLength t1 br
                 else nextLevelCode zeros suffixLength br
        let l := toSigned r.1
        levelsFrom t1 n false
          (if first then suffixAfterFirst zeros suffixLength l else suffixAfterNext suffixLength l)
          (level ++ [l]) r.2
    else (true,level,br)

/-- Read total_zeros of an incomplete block. -/
def totalZeros (maxNumCoeff tc : ℕ) : Option ℕ × BitReader :=
  if tc < maxNumCoeff then
    if maxNumCoeff = 4 then
      matchMap br (chromaTzLen.getD (tc-1) []) (chromaTzBits.getD (tc-1) []) 4
    else
      matchMap br (totalZerosLen.getD (tc-1) []) (totalZerosBits.getD (tc-1) [])
        (16-tc+1)
  else (some 0,br)

/-- Count the zeros of a long run. The first argument bounds the iterations by
the bits of the buffer. -/
def longRun : ℕ → ℕ → BitReader → ℕ × BitReader
  | 0,r,br => (r,br)
  | fuel+1,r,br =>
    if br.ok then
      let b := br.u 1
      if b.1 = 0 then longRun fuel (r+1) b.2 else (r,b.2)
    else (r,br)

/-- Read one run_before. -/
def runBefore (zerosLeft : ℕ) : Option ℕ × BitReader :=
  if zerosLeft < 7 then
    matchMap br (runLen.getD (zerosLeft-1) []) (runBits.getD (zerosLeft-1) []) (zerosLeft+1)
  else
    let v := br.u 3
    if 0 < v.1 then (some (7-v.1),v.2)
    else
      let r := longRun (8*br.d.length+2) 7 v.2
      (some r.1,r.2)

/-- The loop over the runs before all coefficients but the last. It returns the
runs and the zeros left, or nothing when the block ends early. -/
def runsFrom : ℕ → ℕ → BitReader → Option (List ℕ × ℕ) × BitReader
  | 0,zerosLeft,br => (some ([],zerosLeft),br)
  | n+1,zerosLeft,br =>
    if 0 < zerosLeft then
      match runBefore br zerosLeft with
      | (none,br) => (none,br)
      | (some r,br) =>
        if zerosLeft < r then (none,br)
        else
          let rest := runsFrom n (zerosLeft-r) br
          (rest.1.map fun p => (r::p.1,p.2),rest.2)
    else
      let rest := runsFrom n zerosLeft br
      (rest.1.map fun p => (0::p.1,p.2),rest.2)

/-- The placement loop over levels and runs from the lowest frequency up, with
the position behind the last coefficient. It returns whether all fit. -/
def placeFrom : List (ℤ × ℕ) → ℕ → List ℤ → Bool × List ℤ
  | [],_,coeff => (true,coeff)
  | p::ps,next,coeff =>
    if 16 ≤ next+p.2 then (false,coeff)
    else placeFrom ps (next+p.2+1) (coeff.set (next+p.2) p.1)

/-- What follows the coeff_token of a nonempty block. -/
def coefficients (out : ResidualResult) (br : BitReader) (maxNumCoeff : ℕ) :
    ResidualResult × BitReader :=
  let tc := out.totalCoeff
  let t1 := out.trailingOnes
  let ones := signs t1 br
  match levelsFrom t1 (tc-t1) true (if 10 < tc ∧ t1 < 3 then 1 else 0) ones.1 ones.2 with
  | (false,level,br) => ({ out with level := pad16 level },br)
  | (true,level,br) =>
    let out := { out with level := pad16 level }
    match totalZeros br maxNumCoeff tc with
    | (none,br) => (out,br)
    | (some zeros,br) =>
      match runsFrom (tc-1) zeros br with
      | (none,br) => (out,br)
      | (some (runs,left),br) =>
        let run := runs ++ [left]
        let pairs := (List.range tc).reverse.map fun i => (level.getD i 0,run.getD i 0)
        let placed := placeFrom pairs 0 out.coeff
        ({ out with coeff := placed.2, ok := placed.1 && br.ok },br)

/-- Decode one residual block. -/
def residualBlock (nC : ℤ) (maxNumCoeff : ℕ) : ResidualResult × BitReader :=
  let out := ResidualResult.empty
  if !br.ok || maxNumCoeff = 0 || 16 < maxNumCoeff then (out,br)
  else
    match token br nC with
    | (none,br) => (out,br)
    | (some idx,br) =>
      let tc := idx/4
      let t1 := idx%4
      if (nC = -1 ∧ 4<tc) ∨ maxNumCoeff<tc ∨ tc<t1 ∨ 3 < t1 then (out,br)
      else
        let out := { out with totalCoeff := tc, trailingOnes := t1 }
        if tc = 0 then ({ out with ok := true },br) else coefficients out br maxNumCoeff

end Misterplex.Cavlc.Host
