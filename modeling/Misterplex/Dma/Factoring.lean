import Misterplex.Dma.Mem2Mem
import Mathlib.Tactic.IntervalCases

/-!
# The loop counts of a copy program

The search for loop counts is complete: it fails only when the number of
iterations is no product of two counts of at most 256. A length is therefore
accepted exactly when one of the allowed bursts leaves such a product.
-/

namespace Misterplex.Dma

open List

/-- The counts a loop counter can run. -/
def Count (n : ℕ) : Prop := 1≤n ∧ n≤256

/-- A number of iterations that two loop counters can run. -/
def Factorable (n : ℕ) : Prop := ∃ inner outer, Count inner ∧ Count outer ∧ n=inner*outer

/-- The bursts a caller allows: the forced one, or the powers of two up to the
cap. -/
def allowedBursts (max_burst_cap force_burst : ℕ) : List ℕ :=
  (if force_burst ≠ 0 then [force_burst] else [16,8,4,2,1]).filter
    fun b => b≤burstCap max_burst_cap

/-- The length is a whole number of bursts, and their number can be factored. -/
def FitsBurst (len burst : ℕ) : Prop := 4*burst ∣ len ∧ Factorable (len/(4*burst))

/-- The factors found are counts and multiply to the number. -/
theorem factorFrom_spec {n k : ℕ} {f : ℕ × ℕ} (h : factorFrom n k=some f) (hk : k≤256) :
    Count f.1 ∧ Count f.2 ∧ n=f.1*f.2 := by
  induction k with
  | zero => exact absurd h (Option.some_ne_none f).symm
  | succ k ih =>
    rw [factorFrom] at h
    split at h
    · rename_i hfound
      have hf := Option.some.inj h
      rw [← hf]
      have hdvd := Nat.dvd_of_mod_eq_zero hfound.1
      exact ⟨⟨hfound.2.1,hfound.2.2⟩,⟨by omega,hk⟩,(Nat.div_mul_cancel hdvd).symm⟩
    · exact ih h (by omega)

theorem factorFrom_isSome {n k inner outer : ℕ} (hinner : Count inner) (houter : Count outer)
    (hk : outer≤k) (hn : n=inner*outer) : (factorFrom n k).isSome=true := by
  induction k with
  | zero =>
    have hpos := houter.1
    omega
  | succ k ih =>
    rw [factorFrom]
    split
    · rfl
    · rename_i hnot
      by_cases heq : outer=k+1
      · have hdiv : n/(k+1)=inner := by
          rw [hn,heq]
          exact Nat.mul_div_cancel inner (Nat.succ_pos k)
        have hmod : n%(k+1)=0 := by
          rw [hn,heq]
          exact Nat.mul_mod_left inner (k+1)
        rw [hdiv] at hnot
        exact absurd ⟨hmod,hinner.1,hinner.2⟩ hnot
      · exact ih (by omega)

/-- The factors of a loop are counts and multiply to the number. -/
theorem pl330FactorLoops_spec {n : ℕ} {f : ℕ × ℕ} (h : pl330FactorLoops n=some f) :
    Count f.1 ∧ Count f.2 ∧ n=f.1*f.2 := by
  rw [pl330FactorLoops] at h
  split at h
  · exact absurd h (Option.some_ne_none f).symm
  · split at h
    · have hf := Option.some.inj h
      rw [← hf]
      exact ⟨⟨by omega,by omega⟩,⟨le_refl 1,by omega⟩,(Nat.mul_one n).symm⟩
    · split at h
      · exact absurd h (Option.some_ne_none f).symm
      · exact factorFrom_spec h (le_refl 256)

theorem pl330FactorLoops_isSome_iff (n : ℕ) :
    (pl330FactorLoops n).isSome=true ↔ Factorable n := by
  constructor
  · intro h
    obtain ⟨f,hf⟩ := Option.isSome_iff_exists.mp h
    have hspec := pl330FactorLoops_spec hf
    exact ⟨f.1,f.2,hspec.1,hspec.2.1,hspec.2.2⟩
  · rintro ⟨inner,outer,hinner,houter,hn⟩
    have hpos : 1 ≤ inner*outer := Nat.mul_pos hinner.1 houter.1
    have hle : inner*outer≤256*256 := Nat.mul_le_mul hinner.2 houter.2
    rw [pl330FactorLoops,if_neg (by omega)]
    split
    · rfl
    · rw [if_neg (by omega)]
      exact factorFrom_isSome hinner houter houter.2 hn

theorem iterations_mod (len : BitVec 32) (d : ℕ) :
    len.toNat/d%2^32=len.toNat/d :=
  Nat.mod_eq_of_lt (lt_of_le_of_lt (Nat.div_le_self _ _) len.isLt)

theorem loopsOfBurst_isSome_iff (len : BitVec 32) (burst : ℕ) :
    (loopsOfBurst len.toNat burst).isSome=true ↔ FitsBurst len.toNat burst := by
  rw [loopsOfBurst]
  unfold FitsBurst
  by_cases hdvd : 4*burst ∣ len.toNat
  · have hmod := Nat.mod_eq_zero_of_dvd hdvd
    rw [if_neg (not_not.mpr hmod),Option.isSome_map,iterations_mod,
      pl330FactorLoops_isSome_iff,and_iff_right hdvd]
  · have hmod : len.toNat%(4*burst)≠0 := fun h => hdvd (Nat.dvd_of_mod_eq_zero h)
    rw [if_pos hmod]
    exact iff_of_false Bool.false_ne_true fun h => hdvd h.1

/-- The loops of a burst length cover the length exactly. -/
theorem loopsOfBurst_spec {len : BitVec 32} {burst : ℕ} {l : Loops}
    (h : loopsOfBurst len.toNat burst=some l) :
    l.burst=burst ∧ Count l.inner ∧ Count l.outer ∧
      len.toNat=4*l.burst*(l.inner*l.outer) := by
  rw [loopsOfBurst] at h
  split at h
  · exact absurd h (Option.some_ne_none l).symm
  · rename_i hmod
    obtain ⟨f,hf,hl⟩ := Option.map_eq_some_iff.mp h
    have hspec := pl330FactorLoops_spec hf
    rw [iterations_mod] at hspec
    rw [← hl]
    refine ⟨rfl,hspec.1,hspec.2.1,?_⟩
    rw [← hspec.2.2]
    exact (Nat.mul_div_cancel' (Nat.dvd_of_mod_eq_zero (not_not.mp hmod))).symm

theorem burstCap_le (max_burst_cap : ℕ) : burstCap max_burst_cap≤16 := by
  rw [burstCap]
  split
  · exact le_refl 16
  · exact min_le_right _ _

theorem allowedBursts_bounds {max_burst_cap force_burst b : ℕ}
    (h : b∈allowedBursts max_burst_cap force_burst) : 1≤b ∧ b≤16 := by
  obtain ⟨hmem,hle⟩ := mem_filter.mp h
  have hcap := (of_decide_eq_true hle).trans (burstCap_le max_burst_cap)
  split at hmem
  · rw [mem_singleton] at hmem
    omega
  · simp only [mem_cons,not_mem_nil,or_false] at hmem
    omega

/-- A length that can be factored is a positive number of words. -/
theorem FitsBurst.words {len b : ℕ} (h : FitsBurst len b) : len≠0 ∧ len%4=0 := by
  obtain ⟨hdvd,inner,outer,hinner,houter,hn⟩ := h
  have hpos : 1 ≤ inner*outer := Nat.mul_pos hinner.1 houter.1
  constructor
  · rintro rfl
    rw [Nat.zero_div] at hn
    omega
  · exact Nat.mod_eq_zero_of_dvd ((Nat.dvd_mul_right 4 b).trans hdvd)

theorem findSome_filter {α β : Type} (p : α → Bool) (f : α → Option β) (l : List α) :
    (l.filter p).findSome? f = l.findSome? fun b => if p b then f b else none := by
  induction l with
  | nil => rfl
  | cons b l ih =>
    cases hp : p b with
    | false => simp only [filter_cons,findSome?_cons,hp,Bool.false_eq_true,if_false,ih]
    | true => simp only [filter_cons,findSome?_cons,hp,if_true,ih]

theorem pl330PickBurstAndLoops_eq {len max_burst_cap force_burst : ℕ} (hlen : len≠0)
    (hwords : len%4=0) :
    pl330PickBurstAndLoops len max_burst_cap force_burst =
      (allowedBursts max_burst_cap force_burst).findSome? (loopsOfBurst len) := by
  have hcap := burstCap_le max_burst_cap
  rw [pl330PickBurstAndLoops,if_neg (by omega),allowedBursts]
  have hcand (b : ℕ) : (if burstCap max_burst_cap < b then none else loopsOfBurst len b) =
      if decide (b≤burstCap max_burst_cap) = true then loopsOfBurst len b else none := by
    by_cases hle : b≤burstCap max_burst_cap
    · rw [if_neg (by omega),if_pos (decide_eq_true hle)]
    · rw [if_pos (by omega),if_neg (mt of_decide_eq_true hle)]
  by_cases hforce : force_burst=0
  · rw [if_neg (not_not.mpr hforce),if_neg (not_not.mpr hforce),findSome_filter]
    congr 1
    funext b
    exact hcand b
  · rw [if_pos hforce,if_pos hforce,findSome_filter,findSome?_singleton,← hcand]
    by_cases hle : force_burst≤burstCap max_burst_cap
    · rw [if_neg (by omega),if_neg (by omega)]
    · rw [if_pos (by omega),if_pos (by omega)]

theorem pl330PickBurstAndLoops_isSome_iff (len : BitVec 32) (max_burst_cap force_burst : ℕ) :
    (pl330PickBurstAndLoops len.toNat max_burst_cap force_burst).isSome=true ↔
      ∃ b∈allowedBursts max_burst_cap force_burst, FitsBurst len.toNat b := by
  by_cases hlen : len.toNat=0 ∨ len.toNat%4≠0
  · rw [pl330PickBurstAndLoops,if_pos hlen]
    refine iff_of_false Bool.false_ne_true ?_
    rintro ⟨b,-,hfit⟩
    have hwords := hfit.words
    omega
  · rw [pl330PickBurstAndLoops_eq (by omega) (by omega),findSome?_isSome_iff]
    constructor
    · rintro ⟨b,hmem,hb⟩
      exact ⟨b,hmem,(loopsOfBurst_isSome_iff len b).mp hb⟩
    · rintro ⟨b,hmem,hb⟩
      exact ⟨b,hmem,(loopsOfBurst_isSome_iff len b).mpr hb⟩

/-- What is picked is allowed and covers the length exactly. -/
theorem pl330PickBurstAndLoops_spec {len : BitVec 32} {max_burst_cap force_burst : ℕ} {l : Loops}
    (h : pl330PickBurstAndLoops len.toNat max_burst_cap force_burst=some l) :
    l.burst∈allowedBursts max_burst_cap force_burst ∧ Count l.inner ∧ Count l.outer ∧
      len.toNat=4*l.burst*(l.inner*l.outer) := by
  by_cases hlen : len.toNat=0 ∨ len.toNat%4≠0
  · rw [pl330PickBurstAndLoops,if_pos hlen] at h
    exact absurd h (Option.some_ne_none l).symm
  · rw [pl330PickBurstAndLoops_eq (by omega) (by omega)] at h
    obtain ⟨b,hmem,hb⟩ := exists_of_findSome?_eq_some h
    have hspec := loopsOfBurst_spec hb
    rw [← hspec.1] at hmem
    exact ⟨hmem,hspec.2⟩

theorem pl330BuildCcrBurst_beats {b : ℕ} (hpos : 1≤b) (hle : b≤16) (nonsecure : Bool) :
    srcBeats (pl330BuildCcrBurst b nonsecure)=⟨true,4,b⟩ ∧
      dstBeats (pl330BuildCcrBurst b nonsecure)=⟨true,4,b⟩ ∧
      pl330BuildCcrBurst b nonsecure≠0#32 := by
  interval_cases b <;> cases nonsecure <;> decide

/-- The builder accepts a length exactly when the buffer is large enough and
the length fits an allowed burst. -/
theorem pl330BuildMem2MemProgramAuto_isSome_iff (out_cap : ℕ) (src dst len : BitVec 32)
    (max_burst_cap force_burst : ℕ) (nonsecure_ccr : Bool) :
    (pl330BuildMem2MemProgramAuto out_cap src dst len.toNat max_burst_cap force_burst
        nonsecure_ccr).isSome=true ↔
      40≤out_cap ∧ ∃ b∈allowedBursts max_burst_cap force_burst, FitsBurst len.toNat b := by
  rw [← pl330PickBurstAndLoops_isSome_iff,pl330BuildMem2MemProgramAuto]
  cases hpick : pl330PickBurstAndLoops len.toNat max_burst_cap force_burst with
  | none => exact iff_of_false Bool.false_ne_true fun h => Bool.false_ne_true h.2
  | some l =>
    have hspec := pl330PickBurstAndLoops_spec hpick
    have hbounds := allowedBursts_bounds hspec.1
    have hccr := (pl330BuildCcrBurst_beats hbounds.1 hbounds.2 nonsecure_ccr).2.2
    have hinner := hspec.2.1
    have houter := hspec.2.2.1
    unfold Count at hinner houter
    dsimp only
    rw [if_neg hccr,Option.isSome_map,pl330BuildMem2MemProgramLoops]
    by_cases hcap : 40 ≤ out_cap
    · rw [if_neg (by omega)]
      exact iff_of_true rfl ⟨hcap,rfl⟩
    · rw [if_pos (by omega)]
      exact iff_of_false Bool.false_ne_true fun h => hcap h.1

end Misterplex.Dma
