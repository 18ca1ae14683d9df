import Mathlib.Data.List.Range
import Misterplex.Lib.RingFifo

/-!
# Reflected Gray codes

The code of a counter that two clocks exchange. Encoding is linear over the exclusive or
of bits, so that distinct counters have distinct codes and a counter half a turn away
differs in the two leading bits of the code only.
-/

namespace Misterplex.GrayCode

open BitVec

variable {w : ℕ}

/-- The code of a counter. -/
def encode (b : BitVec w) : BitVec w := (b >>> 1) ^^^ b

/-- A bit of the counter, given by its distance from the leading bit: the exclusive or of
the code's bits from the leading one down to it. -/
def decodeBit (g : BitVec (w+1)) : ℕ → Bool
  | 0 => g.getLsbD w
  | k+1 => decodeBit g k ^^ g.getLsbD (w-(k+1))

/-- The counter of a code. -/
def decode (g : BitVec (w+1)) : BitVec (w+1) :=
  (BitVec.ofBoolListLE ((List.range (w+1)).map fun i => decodeBit g (w-i))).setWidth (w+1)

theorem getLsbD_encode (b : BitVec w) (i : ℕ) :
    (encode b).getLsbD i=(b.getLsbD (i+1) ^^ b.getLsbD i) := by
  rw [encode,getLsbD_xor,getLsbD_ushiftRight,Nat.add_comm]

variable (b : BitVec (w+1))

/-- The bits of the counter come back one by one. -/
theorem decodeBit_encode {k : ℕ} (hk : k≤w) : decodeBit (encode b) k=b.getLsbD (w-k) := by
  induction k with
  | zero =>
    have htop : b.getLsbD (w+1)=false := getLsbD_of_ge b (w+1) (Nat.le_refl _)
    rw [decodeBit,getLsbD_encode,htop,Bool.false_xor,Nat.sub_zero]
  | succ k ih =>
    have hnext : w-(k+1)+1=w-k := by omega
    rw [decodeBit,ih (by omega),getLsbD_encode,hnext,← Bool.xor_assoc,Bool.xor_self,
      Bool.false_xor]

/-- Decoding undoes encoding. -/
theorem decode_encode : decode (encode b)=b := by
  refine eq_of_getLsbD_eq fun i hi => ?_
  have hback : w-(w-i)=i := by omega
  have hbit : decodeBit (encode b) (w-i)=b.getLsbD i := by
    rw [decodeBit_encode b (by omega),hback]
  rw [decode,getLsbD_setWidth,getLsbD_ofBoolListLE,decide_eq_true hi,Bool.true_and]
  simp [hi,hbit]

/-- Distinct counters have distinct codes. -/
theorem encode_inj {a b : BitVec (w+1)} : encode a=encode b ↔ a=b := by
  constructor
  · intro h
    rw [← decode_encode a,h,decode_encode]
  · intro h
    rw [h]

/-- Encoding is linear. -/
theorem encode_xor (a b : BitVec w) : encode (a ^^^ b) = encode a ^^^ encode b := by
  refine eq_of_getLsbD_eq fun i _ => ?_
  simp only [getLsbD_encode,getLsbD_xor]
  cases a.getLsbD i
  · cases a.getLsbD (i+1) <;> simp
  · cases a.getLsbD (i+1) <;> simp

/-- Half a turn flips the leading bit of the counter. -/
theorem add_half : b+BitVec.twoPow (w+1) w = b ^^^ BitVec.twoPow (w+1) w := by
  refine eq_of_getLsbD_eq fun i hi => ?_
  have hdvd : 2^w%2^i=0 := Nat.mod_eq_zero_of_dvd (Nat.pow_dvd_pow 2 (by omega))
  have hlow : b.toNat%2^i<2^i := Nat.mod_lt _ (Nat.two_pow_pos i)
  have hcarry : carry i b (twoPow (w+1) w) false=false := by
    rw [carry,toNat_twoPow_of_lt (Nat.lt_succ_self w),hdvd]
    exact decide_eq_false (by simpa using hlow)
  rw [getLsbD_add hi,getLsbD_xor,hcarry,Bool.xor_false]

/-- A code with its two leading bits complemented. -/
def flipLeading (g : BitVec (w+1)) : BitVec (w+1) :=
  (~~~(g.extractLsb' (w-1) 2) ++ g.extractLsb' 0 (w-1)).setWidth (w+1)

theorem getLsbD_flipLeading (hw : 1≤w) (g : BitVec (w+1)) {i : ℕ} (hi : i<w+1) :
    (flipLeading g).getLsbD i=(g.getLsbD i ^^ decide (w ≤ i+1)) := by
  rw [flipLeading,getLsbD_setWidth,getLsbD_append,decide_eq_true hi,Bool.true_and]
  by_cases hlow : i<w-1
  · have hno : ¬w ≤ i+1 := by omega
    rw [if_pos hlow,decide_eq_false hno,getLsbD_extractLsb',Nat.zero_add,
      decide_eq_true hlow,Bool.true_and,Bool.xor_false]
  · have hyes : w ≤ i+1 := by omega
    have hpos : i-(w-1)<2 := by omega
    have hback : w-1+(i-(w-1))=i := by omega
    rw [if_neg hlow,decide_eq_true hyes,getLsbD_not,
      getLsbD_extractLsb',hback,decide_eq_true hpos,Bool.true_and,Bool.true_and,
      Bool.xor_true]

/-- Half a turn complements the two leading bits of the code. -/
theorem encode_add_half (hw : 1≤w) (b : BitVec (w+1)) :
    encode (b+BitVec.twoPow (w+1) w)=flipLeading (encode b) := by
  refine eq_of_getLsbD_eq fun i hi => ?_
  rw [add_half,encode_xor,getLsbD_xor,getLsbD_flipLeading hw _ hi,getLsbD_encode (twoPow _ _),
    getLsbD_twoPow,getLsbD_twoPow]
  have hbit : (w=i+1) ↔ ¬w=i ∧ w ≤ i+1 := by omega
  by_cases htop : w=i
  · subst htop
    simp
  · simp [htop,hbit]

/-- The codes of two pointers differ just in the leading bits when the pointers are a whole ring
apart. -/
theorem encode_eq_flipLeading {n r : ℕ} (hw : 1≤w) (hle : r≤n) (hroom : n≤r+2^w) :
    encode (BitVec.ofNat (w+1) n)=flipLeading (encode (BitVec.ofNat (w+1) r)) ↔ n=r+2^w := by
  have htop : BitVec.ofNat (w+1) r+twoPow (w+1) w=BitVec.ofNat (w+1) (r+2^w) := by
    have hhalf : twoPow (w+1) w=BitVec.ofNat (w+1) (2^w) :=
      eq_of_toNat_eq ((toNat_twoPow _ _).trans (toNat_ofNat _ _).symm)
    rw [BitVec.ofNat_add,hhalf]
  have hpos := Nat.two_pow_pos w
  rw [← encode_add_half hw,encode_inj,htop]
  exact RingFifo.ofNat_eq_iff hroom (by omega)

end Misterplex.GrayCode
