import Mathlib.Data.List.Basic
import Mathlib.Tactic.Ring
import Mathlib.Tactic.NormNum

/-!
# Decimal numerals compared as texts

Numerals of any length have a value. Without leading zeros, the longer of two
numerals is the larger, and numerals of one length are ordered as texts.
-/

namespace Misterplex.Decimal

open List

/-- The value of a decimal digit. -/
def digitValue (c : Char) : ℕ := c.toNat - '0'.toNat

variable (ds : List Char)

/-- The value of a numeral, most significant digit first. -/
def value : ℕ := ds.foldl (fun n c => 10*n+digitValue c) 0

/-- All characters are digits. -/
def Digits : Prop := ∀ c∈ds, c.isDigit=true

/-- A digit is less than ten. -/
theorem digitValue_lt {c : Char} (h : c.isDigit=true) : digitValue c<10 := by
  have hle := (Bool.and_eq_true_iff.mp h).2
  rw [decide_eq_true_eq] at hle
  have hnat : c.toNat≤57 := hle
  unfold digitValue
  have hzero : '0'.toNat=48 := rfl
  omega

/-- Digits are ordered as characters. -/
theorem digitValue_lt_iff {c d : Char} (hc : c.isDigit=true) (hd : d.isDigit=true) :
    digitValue c<digitValue d ↔ c<d := by
  have hc' := (Bool.and_eq_true_iff.mp hc).1
  have hd' := (Bool.and_eq_true_iff.mp hd).1
  rw [decide_eq_true_eq] at hc' hd'
  have hcnat : 48≤c.toNat := hc'
  have hzero : '0'.toNat=48 := rfl
  have horder : c<d ↔ c.toNat<d.toNat := Iff.rfl
  rw [horder]
  unfold digitValue
  omega

/-- Digits of one value are one digit. -/
theorem digitValue_inj {c d : Char} (hc : c.isDigit=true) (hd : d.isDigit=true) :
    digitValue c=digitValue d ↔ c=d := by
  constructor
  · intro h
    have hcd := mt (digitValue_lt_iff hc hd).mpr (by omega)
    have hdc := mt (digitValue_lt_iff hd hc).mpr (by omega)
    exact Char.le_antisymm (Char.not_lt.mp hdc) (Char.not_lt.mp hcd)
  · rintro rfl
    rfl

/-- A numeral behind a prefix of a known value. -/
theorem foldl_value (n : ℕ) (ds : List Char) :
    ds.foldl (fun n c => 10*n+digitValue c) n=n*10^ds.length+value ds := by
  unfold value
  induction ds generalizing n with
  | nil => simp
  | cons d ds ih =>
    rw [foldl_cons,foldl_cons,ih (10*n+digitValue d),ih (10*0+digitValue d),
      length_cons]
    ring

/-- The first digit counts the powers of its place. -/
theorem value_cons (d : Char) (ds : List Char) :
    value (d::ds)=digitValue d*10^ds.length+value ds := by
  have h := foldl_value (digitValue d) ds
  rw [← h]
  unfold value
  rw [foldl_cons,Nat.mul_zero,Nat.zero_add]

/-- A numeral is less than the power of its length. -/
theorem value_lt {ds : List Char} (h : Digits ds) : value ds<10^ds.length := by
  induction ds with
  | nil => simp [value]
  | cons d ds ih =>
    have hrest := ih (fun c hc => h c (mem_cons_of_mem d hc))
    have hdigit := digitValue_lt (h d mem_cons_self)
    rw [value_cons,length_cons,pow_succ]
    calc digitValue d*10^ds.length+value ds
        < digitValue d*10^ds.length+10^ds.length := by omega
      _ = (digitValue d+1)*10^ds.length := by ring
      _ ≤ 10*10^ds.length := Nat.mul_le_mul_right _ hdigit
      _ = 10^ds.length*10 := by ring

/-- A leading digit other than zero is worth at least its place. -/
theorem pow_le_value {d : Char} (hd : d.isDigit=true) (hne : d ≠ '0') (ds : List Char) :
    10^ds.length≤value (d::ds) := by
  have hpos : 1≤digitValue d := by
    by_contra hzero
    have hnot : digitValue d=digitValue '0' := by
      have : digitValue '0' = 0 := rfl
      omega
    exact hne ((digitValue_inj hd rfl).mp hnot)
  rw [value_cons]
  calc 10^ds.length=1*10^ds.length := (Nat.one_mul _).symm
    _ ≤ digitValue d*10^ds.length := Nat.mul_le_mul_right _ hpos
    _ ≤ digitValue d*10^ds.length+value ds := Nat.le_add_right _ _

/-- Numerals of one length are ordered as texts. -/
theorem value_lt_iff {ds es : List Char} (hds : Digits ds) (hes : Digits es)
    (hlen : ds.length=es.length) : value ds<value es ↔ ds<es := by
  induction ds generalizing es with
  | nil =>
    have hnil : es=[] := eq_nil_of_length_eq_zero hlen.symm
    rw [hnil]
    exact iff_of_false (lt_irrefl _) (List.lt_irrefl _)
  | cons d ds ih =>
    cases es with
    | nil => exact absurd hlen (Nat.succ_ne_zero _)
    | cons e es =>
      have hrest : ds.length=es.length := Nat.succ.inj hlen
      have hds' : Digits ds := fun c hc => hds c (mem_cons_of_mem d hc)
      have hes' : Digits es := fun c hc => hes c (mem_cons_of_mem e hc)
      have hd := hds d mem_cons_self
      have he := hes e mem_cons_self
      have hlow := value_lt hds'
      have hlow' := value_lt hes'
      rw [← hrest] at hlow'
      rw [cons_lt_cons_iff,value_cons,value_cons,← hrest,← digitValue_lt_iff hd he,
        ← digitValue_inj hd he,← ih hds' hes' hrest]
      generalize digitValue d=a
      generalize digitValue e=b
      rcases lt_trichotomy a b with hab | hab | hab
      · have hstep : (a+1)*10^ds.length≤b*10^ds.length :=
          Nat.mul_le_mul_right _ hab
        rw [Nat.add_mul,Nat.one_mul] at hstep
        exact iff_of_true (by omega) (Or.inl hab)
      · rw [hab]
        constructor
        · exact fun h => Or.inr ⟨rfl,by omega⟩
        · rintro (h | h)
          · exact absurd h (lt_irrefl b)
          · omega
      · have hstep : (b+1)*10^ds.length≤a*10^ds.length :=
          Nat.mul_le_mul_right _ hab
        rw [Nat.add_mul,Nat.one_mul] at hstep
        refine iff_of_false (by omega) ?_
        rintro (h | h)
        · omega
        · omega

/-- Leading zeros do not count. -/
theorem value_dropZeros : value (ds.dropWhile (· == '0'))=value ds := by
  induction ds with
  | nil => rfl
  | cons d ds ih =>
    by_cases hzero : d = '0'
    · have hnext : (d::ds).dropWhile (· == '0')=ds.dropWhile (· == '0') := by
        rw [dropWhile_cons,if_pos (beq_iff_eq.mpr hzero)]
      have hdigit : digitValue '0' = 0 := rfl
      rw [hnext,ih,value_cons,hzero,hdigit,Nat.zero_mul,Nat.zero_add]
    · have hsame : (d::ds).dropWhile (· == '0')=d::ds := by
        rw [dropWhile_cons,if_neg (fun h => hzero (beq_iff_eq.mp h))]
      rw [hsame]

/-- A numeral without its leading zeros, but with at least one digit. -/
def normalized : List Char :=
  if ds.dropWhile (· == '0') = [] then ['0'] else ds.dropWhile (· == '0')

/-- The order of normalized numerals: by length, then as texts. -/
def notLess (ds es : List Char) : Bool :=
  if (normalized ds).length ≠ (normalized es).length then
    (normalized es).length < (normalized ds).length
  else decide (¬normalized ds<normalized es)

/-- Normalizing keeps the value. -/
theorem value_normalized : value (normalized ds)=value ds := by
  unfold normalized
  split_ifs with hnil
  · rw [← value_dropZeros ds,hnil]
    rfl
  · exact value_dropZeros ds

/-- A normalized numeral has only digits. -/
theorem Digits.normalized {ds : List Char} (h : Digits ds) : Digits (normalized ds) := by
  unfold Decimal.normalized
  split_ifs
  · intro c hc
    rw [mem_singleton.mp hc]
    rfl
  · exact fun c hc => h c ((dropWhile_suffix _).subset hc)

/-- A normalized numeral of more than one digit is worth at least its first place. -/
theorem pow_le_value_normalized {ds : List Char} (h : Digits ds)
    (hlen : 1<(normalized ds).length) : 10^((normalized ds).length-1)≤value ds := by
  have hdigits := h.normalized
  rw [← value_normalized ds]
  unfold normalized at hlen hdigits ⊢
  by_cases hnil : ds.dropWhile (· == '0')=[]
  · rw [if_pos hnil] at hlen
    exact absurd hlen (by decide)
  · have hhead := head_dropWhile_not (· == '0') hnil
    generalize hform : ds.dropWhile (· == '0')=es at hnil hhead hdigits ⊢
    cases es with
    | nil => exact absurd rfl hnil
    | cons e es =>
      refine pow_le_value (hdigits e mem_cons_self) ?_ es
      rw [head_cons,beq_eq_false_iff_ne] at hhead
      exact hhead

/-- A normalized numeral that is shorter is worth less. -/
theorem value_lt_of_length {ds es : List Char} (hds : Digits ds) (hes : Digits es)
    (h : (normalized ds).length<(normalized es).length) : value ds<value es := by
  have hpos : 0<(normalized ds).length := by
    unfold normalized
    split_ifs with hnil
    · exact Nat.zero_lt_one
    · exact length_pos_of_ne_nil hnil
  have hlow := value_lt hds.normalized
  rw [value_normalized] at hlow
  calc value ds<10^(normalized ds).length := hlow
    _ ≤ 10^((normalized es).length-1) := Nat.pow_le_pow_right (by decide) (by omega)
    _ ≤ value es := pow_le_value_normalized hes (by omega)

/-- Normalized numerals are ordered as their values, whatever their length. -/
theorem notLess_iff {ds es : List Char} (hds : Digits ds) (hes : Digits es) :
    notLess ds es=true ↔ value es≤value ds := by
  unfold notLess
  by_cases hlen : (normalized ds).length=(normalized es).length
  · rw [if_neg (not_not_intro hlen),decide_eq_true_eq,
      ← value_lt_iff hds.normalized hes.normalized hlen,value_normalized,value_normalized]
    exact not_lt
  · rw [if_pos hlen,decide_eq_true_eq]
    rcases lt_or_gt_of_ne hlen with hless | hmore
    · have := value_lt_of_length hds hes hless
      exact iff_of_false (by omega) (by omega)
    · have := value_lt_of_length hes hds hmore
      exact iff_of_true hmore (by omega)

end Misterplex.Decimal
