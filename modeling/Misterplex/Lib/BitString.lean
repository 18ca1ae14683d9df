import Mathlib.Data.List.Basic
import Mathlib.Data.List.GetD
import Mathlib.Tactic.Linarith
import Mathlib.Tactic.Ring
import Mathlib.Data.Nat.Log

/-!
# Bit strings read most significant bit first

Bytes are spelled as eight bits with the top bit first, and a run of bits has
a value as a binary number. Fixed-width words written this way are read back
to their value.

In Exp-Golomb codes a number is written as the binary digits of its successor, behind
as many zeros as there are digits behind the leading one. Signed numbers are written by
their place in the order 0, 1, -1, 2, -2 and so on.
-/

namespace Misterplex.BitString

open List

/-- The eight bits of a byte, top bit first. -/
def byteBits (b : BitVec 8) : List Bool := (List.range 8).map fun k => b.getLsbD (7-k)

variable (bytes : List (BitVec 8))

/-- The bits of a list of bytes, in reading order. -/
def bitsOf : List Bool := bytes.flatMap byteBits

@[simp] theorem length_byteBits (b : BitVec 8) : (byteBits b).length=8 := by
  simp [byteBits]

@[simp] theorem bitsOf_nil : bitsOf []=[] := rfl

@[simp] theorem bitsOf_cons (b : BitVec 8) (bytes : List (BitVec 8)) :
    bitsOf (b::bytes) = byteBits b ++ bitsOf bytes := rfl

theorem bitsOf_append (xs ys : List (BitVec 8)) : bitsOf (xs ++ ys) = bitsOf xs ++ bitsOf ys :=
  flatMap_append

@[simp] theorem length_bitsOf : (bitsOf bytes).length=8*bytes.length := by
  induction bytes with
  | nil => rfl
  | cons b bytes ih =>
    rw [bitsOf_cons,List.length_append,length_byteBits,ih,List.length_cons]
    omega

/-- A byte is determined by its bits. -/
theorem byteBits_injective : Function.Injective byteBits := by
  intro a b h
  refine BitVec.eq_of_getLsbD_eq fun i hi => ?_
  have hk := congrArg (fun l : List Bool => l[7-i]?) h
  simp only [byteBits,getElem?_map,getElem?_range (show 7-i<8 by omega),
    Option.map_some,Option.some.injEq] at hk
  rwa [show 7-(7-i)=i by omega] at hk

/-- Bytes are determined by their bits. -/
theorem bitsOf_injective : Function.Injective bitsOf := by
  intro xs
  induction xs with
  | nil =>
    intro ys h
    have hl := congrArg length h
    rw [bitsOf_nil,length_nil,length_bitsOf] at hl
    exact (eq_nil_of_length_eq_zero (by omega)).symm
  | cons x xs ih =>
    intro ys h
    cases ys with
    | nil =>
      have hl := congrArg length h
      rw [length_bitsOf,bitsOf_nil,List.length_cons,length_nil] at hl
      omega
    | cons y ys =>
      obtain ⟨h1,h2⟩ := append_inj h (by simp)
      rw [byteBits_injective h1,ih h2]

/-- Bit `n` of a byte list is in byte `n / 8`, counted from its top. -/
theorem getElem?_bitsOf (n : ℕ) :
    (bitsOf bytes)[n]? = bytes[n/8]?.map fun b => b.getLsbD (7-n%8) := by
  induction bytes generalizing n with
  | nil => simp
  | cons b bytes ih =>
    rcases Nat.lt_or_ge n 8 with hn | hn
    · rw [bitsOf_cons,getElem?_append_left (by simpa using hn),Nat.div_eq_of_lt hn,
        Nat.mod_eq_of_lt hn,byteBits,getElem?_map,getElem?_range hn]
      rfl
    · obtain ⟨m,rfl⟩ : ∃ m, n=m+8 := ⟨n-8,by omega⟩
      rw [bitsOf_cons,getElem?_append_right (by simp),length_byteBits,
        Nat.add_sub_cancel,ih,show (m+8)/8=m/8+1 by omega,Nat.add_mod_right,
        getElem?_cons_succ]

/-- Value of a run of bits, first bit most significant. -/
def value (bits : List Bool) : ℕ := bits.foldl (fun v b => 2*v+b.toNat) 0

@[simp] theorem value_nil : value []=0 := rfl

theorem foldl_value (v : ℕ) (bits : List Bool) :
    bits.foldl (fun v b => 2*v+b.toNat) v=v*2^bits.length+value bits := by
  induction bits generalizing v with
  | nil => simp
  | cons b bits ih =>
    have hb := ih b.toNat
    rw [value,foldl_cons,foldl_cons,ih,Nat.mul_zero,Nat.zero_add,hb,
      List.length_cons,pow_succ]
    ring

theorem value_cons (b : Bool) (bits : List Bool) :
    value (b::bits)=b.toNat*2^bits.length+value bits := by
  rw [value,foldl_cons,Nat.mul_zero,Nat.zero_add,foldl_value]

theorem value_append (xs ys : List Bool) :
    value (xs ++ ys)=value xs*2^ys.length+value ys := by
  rw [value,foldl_append,foldl_value]
  rfl

theorem value_lt (bits : List Bool) : value bits<2^bits.length := by
  induction bits with
  | nil => simp
  | cons b bits ih =>
    rw [value_cons,List.length_cons,pow_succ]
    have hb : b.toNat≤1 := Bool.toNat_le b
    nlinarith

/-- Bit strings of one length are determined by their values. -/
theorem eq_of_value_eq {xs ys : List Bool} (hlen : xs.length=ys.length)
    (hval : value xs=value ys) : xs=ys := by
  induction xs generalizing ys with
  | nil => exact (eq_nil_of_length_eq_zero hlen.symm).symm
  | cons x xs ih =>
    cases ys with
    | nil => cases hlen
    | cons y ys =>
      have hl : xs.length=ys.length := Nat.succ.inj hlen
      have hx := value_lt xs
      have hy := value_lt ys
      rw [value_cons,value_cons,hl] at hval
      rw [hl] at hx
      cases x <;> cases y <;>
        simp only [Bool.toNat_false,Bool.toNat_true,Nat.zero_mul,Nat.one_mul,Nat.zero_add]
          at hval
      · rw [ih hl hval]
      · omega
      · omega
      · rw [ih hl (Nat.add_left_cancel hval)]

/-- Zeros have the value zero. -/
theorem value_replicate_false (n : ℕ) : value (List.replicate n false)=0 := by
  induction n with
  | zero => rfl
  | succ n ih => rw [replicate_succ,value_cons,ih,Bool.toNat_false,Nat.zero_mul]

/-- Ones have the greatest value. -/
theorem value_replicate_true (n : ℕ) : value (List.replicate n true)+1=2^n := by
  induction n with
  | zero => rfl
  | succ n ih =>
    rw [replicate_succ,value_cons,List.length_replicate,Bool.toNat_true,Nat.one_mul,
      Nat.add_assoc,ih,pow_succ,Nat.mul_two]

/-- A one makes the value positive. -/
theorem value_pos {bits : List Bool} (h : true∈bits) : 0<value bits := by
  by_contra hzero
  have hlen : bits.length=(replicate bits.length false).length :=
    List.length_replicate.symm
  have heq := eq_of_value_eq hlen (by rw [value_replicate_false]; omega)
  rw [heq] at h
  exact Bool.noConfusion (eq_of_mem_replicate h)

/-- The `n` low bits of a number, most significant first. -/
def ofNat (n v : ℕ) : List Bool := (List.range n).map fun k => v.testBit (n-1-k)

@[simp] theorem length_ofNat (n v : ℕ) : (ofNat n v).length=n := by simp [ofNat]

theorem ofNat_succ (n v : ℕ) : ofNat (n+1) v=v.testBit n::ofNat n v := by
  rw [ofNat,range_succ_eq_map,map_cons,map_map]
  refine congrArg₂ cons rfl (map_congr_left fun k _ => ?_)
  exact congrArg v.testBit (by omega)

/-- Zero is written with zeros. -/
theorem ofNat_zero (n : ℕ) : ofNat n 0=List.replicate n false := by
  induction n with
  | zero => rfl
  | succ n ih => rw [ofNat_succ,Nat.zero_testBit,ih,replicate_succ]

/-- A written number is read back when it fits its width. -/
theorem value_ofNat_mod (n v : ℕ) : value (ofNat n v)=v%2^n := by
  induction n with
  | zero => simp [ofNat,Nat.mod_one]
  | succ n ih =>
    rw [ofNat_succ,value_cons,length_ofNat,ih,Nat.testBit_eq_decide_div_mod_eq,
      Nat.mod_pow_succ]
    rcases Nat.mod_two_eq_zero_or_one (v/2^n) with h | h <;> rw [h] <;> simp [Nat.add_comm]

theorem value_ofNat {n v : ℕ} (h : v<2^n) : value (ofNat n v)=v := by
  rw [value_ofNat_mod,Nat.mod_eq_of_lt h]

/-- Writing the value of a bit string gives the string. -/
theorem ofNat_of_mod {w : List Bool} {c : ℕ} (h : c%2^w.length=value w) :
    ofNat w.length c=w := by
  refine eq_of_value_eq (length_ofNat _ _) ?_
  rw [value_ofNat_mod,h]

/-- Eight bits are those of a byte. -/
theorem byteBits_ofNat {bits : List Bool} (h : bits.length=8) :
    byteBits (BitVec.ofNat 8 (value bits))=bits := by
  have hbyte : byteBits (BitVec.ofNat 8 (value bits))=ofNat bits.length (value bits) := by
    rw [byteBits,ofNat,h]
    refine map_congr_left fun k hk => ?_
    rw [BitVec.getLsbD_ofNat,decide_eq_true (by omega),Bool.true_and,
      show 8-1-k=7-k by omega]
  rw [hbyte,ofNat_of_mod (Nat.mod_eq_of_lt (value_lt bits))]

/-- Bits in a multiple of eight are those of some bytes. -/
theorem exists_bytes {n : ℕ} {bits : List Bool} (h : bits.length=8*n) :
    ∃ bytes : List (BitVec 8), bytes.length=n ∧ bitsOf bytes=bits := by
  induction n generalizing bits with
  | zero => exact ⟨[],rfl,(eq_nil_of_length_eq_zero h).symm⟩
  | succ n ih =>
    have hfront : (bits.take 8).length=8 := length_take_of_le (by omega)
    have hback : (bits.drop 8).length=8*n := by
      rw [length_drop]
      omega
    obtain ⟨bytes,hlen,hbits⟩ := ih hback
    refine ⟨BitVec.ofNat 8 (value (bits.take 8))::bytes,congrArg Nat.succ hlen,?_⟩
    rw [bitsOf_cons,byteBits_ofNat hfront,hbits,take_append_drop]

end Misterplex.BitString

namespace Misterplex.ExpGolomb

open BitString

variable (v : ℕ)

/-- Leading zeros of the code of a number. -/
def zerosOf : ℕ := Nat.log 2 (v+1)

/-- The code of a number. -/
def ueCode : List Bool :=
  List.replicate (zerosOf v) false ++ true::ofNat (zerosOf v) (v+1)

/-- The successor has its leading digit behind the zeros. -/
theorem pow_zerosOf_le : 2^zerosOf v≤v+1 :=
  Nat.pow_log_le_self 2 (Nat.succ_ne_zero v)

/-- The successor has no more digits. -/
theorem lt_pow_zerosOf : v+1<2^(zerosOf v+1) :=
  Nat.lt_pow_succ_log_self Nat.one_lt_two (v+1)

/-- A code has two digits for each leading zero, and the one between them. -/
theorem length_ueCode : (ueCode v).length=2*zerosOf v+1 := by
  rw [ueCode,List.length_append,List.length_replicate,List.length_cons,length_ofNat]
  omega

/-- Bounded numbers have bounded codes. -/
theorem zerosOf_le {v k : ℕ} (h : v+1<2^(k+1)) : zerosOf v≤k := by
  have hlt : 2^zerosOf v<2^(k+1) := lt_of_le_of_lt (pow_zerosOf_le v) h
  have hexp := (Nat.pow_lt_pow_iff_right Nat.one_lt_two).mp hlt
  omega

/-- The zeros of a number between two powers. -/
theorem zerosOf_eq {v k : ℕ} (hle : 2^k≤v+1) (hlt : v+1<2^(k+1)) :
    zerosOf v=k :=
  Nat.log_eq_of_pow_le_of_lt_pow hle hlt

/-- The digits behind the leading one make up what the successor is above its power. -/
theorem value_suffix : 2^zerosOf v+value (ofNat (zerosOf v) (v+1))=v+1 := by
  have hle := pow_zerosOf_le v
  have hlt := lt_pow_zerosOf v
  have hmod : (v+1)%2^zerosOf v=v+1-2^zerosOf v := by
    rw [Nat.mod_eq_sub_mod hle,Nat.mod_eq_of_lt (by omega)]
  rw [value_ofNat_mod,hmod]
  omega

/-- Zeros, a one and as many digits are the code of a number. -/
theorem ueCode_of_digits (digits : List Bool) :
    List.replicate digits.length false ++ true::digits =
      ueCode (2^digits.length+value digits-1) := by
  have hlt := value_lt digits
  have hsucc : 2^digits.length+value digits-1+1=2^digits.length+value digits := by
    omega
  have hzeros : zerosOf (2^digits.length+value digits-1)=digits.length :=
    zerosOf_eq (by omega) (by omega)
  have hmod : (2^digits.length+value digits)%2^digits.length=value digits := by
    rw [Nat.add_mod_left,Nat.mod_eq_of_lt hlt]
  rw [ueCode,hzeros,hsucc,ofNat_of_mod hmod]

/-- Place of a signed number in the order of its codes. -/
def seIndex (k : ℤ) : ℕ := if 0 < k then 2*k.toNat-1 else 2*(-k).toNat

/-- The code of a signed number. -/
def seCode (k : ℤ) : List Bool := ueCode (seIndex k)

/-- The signed number at a place. -/
def seValue (c : ℕ) : ℤ := if c%2 = 1 then (c/2 : ℕ)+1 else -(c/2 : ℕ)

/-- A signed number is the one at its place. -/
theorem seValue_seIndex (k : ℤ) : seValue (seIndex k)=k := by
  rw [seValue,seIndex]
  by_cases hpos : 0<k
  · rw [if_pos hpos,if_pos (by omega)]
    omega
  · rw [if_neg hpos,if_neg (by omega)]
    omega

/-- Bounded signed numbers have bounded places. -/
theorem seIndex_le {k : ℤ} {b : ℕ} (hlow : -(b : ℤ)≤k) (hhigh : k≤b) :
    seIndex k≤2*b := by
  rw [seIndex]
  split <;> omega

end Misterplex.ExpGolomb
