import Mathlib.Data.Nat.Find
import Mathlib.Order.WellFounded

/-!
# Runs without end

A clocked machine that is driven for ever passes through one state after another. A
condition that holds at the start and is kept by every step holds in all of them, and a
condition under which every step lowers a rank is left again.
-/

namespace Misterplex.Endless

variable {σ ι : Type*}

/-- The states of a machine that is driven for ever. -/
def stateAt (step : σ → ι → σ) (s : σ) (is : ℕ → ι) : ℕ → σ
  | 0 => s
  | n+1 => step (stateAt step s is n) (is n)

/-- A condition on the state and the time that every step keeps holds at all times. -/
theorem always {step : σ → ι → σ} {s : σ} {is : ℕ → ι} {P : ℕ → σ → Prop} (hstart : P 0 s)
    (hstep : ∀ n t, P n t → P (n+1) (step t (is n))) (n : ℕ) : P n (stateAt step s is n) := by
  induction n with
  | zero => exact hstart
  | succ n ih => exact hstep n _ ih

/-- A condition under which every step lowers a rank is left again. -/
theorem left_again {run : ℕ → σ} {P : σ → Prop} {rank : σ → ℕ}
    (hfall : ∀ n, P (run n) → P (run (n+1)) → rank (run (n+1))<rank (run n)) {n : ℕ}
    (hn : P (run n)) : ∃ m, n < m ∧ ¬P (run m) := by
  induction hrank : rank (run n) using Nat.strong_induction_on generalizing n with
  | _ r ih =>
    by_cases hnext : P (run (n+1))
    · obtain ⟨m,hm,hleft⟩ := ih (rank (run (n+1))) (hrank ▸ hfall n hn hnext) hnext rfl
      exact ⟨m,by omega,hleft⟩
    · exact ⟨n+1,Nat.lt_succ_self n,hnext⟩

/-- A clock that ticks again and again has a next tick. -/
theorem next_tick {tick : ℕ → Prop} (hticks : ∀ n, ∃ k, n≤k ∧ tick k) (n : ℕ) :
    ∃ k, n≤k ∧ tick k ∧ ∀ j, n≤j → j<k → ¬tick j := by
  classical
  have hfirst := Nat.find_spec (hticks n)
  exact ⟨Nat.find (hticks n),hfirst.1,hfirst.2,fun j hj hless htick =>
    Nat.find_min (hticks n) hless ⟨hj,htick⟩⟩

/-- A condition that is kept between the ticks of a clock holds at its next tick. -/
theorem kept_to_tick {tick P : ℕ → Prop} (hkeep : ∀ n, ¬tick n → P n → P (n+1)) {n k : ℕ}
    (hn : P n) (hk : n≤k) (hno : ∀ j, n≤j → j<k → ¬tick j) : P k := by
  induction k, hk using Nat.le_induction with
  | base => exact hn
  | succ k hk ih =>
    exact hkeep k (hno k hk (Nat.lt_succ_self k)) (ih fun j hj hless => hno j hj (by omega))

/-- A value is at rest from a time on. -/
def RestsAt {α : Type*} (f : ℕ → α) (c : α) (m : ℕ) : Prop := ∀ n, m≤n → f n=c

/-- A value at rest is the value of any later time. -/
theorem RestsAt.here {α : Type*} {f : ℕ → α} {m k : ℕ} (h : RestsAt f (f m) m) (hk : m≤k) :
    RestsAt f (f k) k := fun n hn => (h n (le_trans hk hn)).trans (h k hk).symm

/-- A number that only grows, up to a bound, comes to rest. -/
theorem comes_to_rest {f : ℕ → ℕ} (hgrows : ∀ n, f n≤f (n+1)) {b : ℕ} (hbound : ∀ n, f n≤b) :
    ∃ m, RestsAt f (f m) m := by
  have hmono : Monotone f := monotone_nat_of_le_succ hgrows
  obtain ⟨m,_,hleast⟩ := (measure fun n => b-f n).wf.has_min Set.univ ⟨0,trivial⟩
  refine ⟨m,fun n hn => ?_⟩
  have hnearer : ¬b-f n<b-f m := hleast n trivial
  have hup := hmono hn
  have hbelow := hbound n
  omega

/-- A register that copies a value at the ticks of a clock comes to rest with it. -/
theorem RestsAt.copied {α : Type*} {src : ℕ → α} {c : α} {m : ℕ} {tick : ℕ → Prop}
    (h : RestsAt src c m) (reg : ℕ → α) (hticks : ∀ n, ∃ k, n≤k ∧ tick k)
    (htake : ∀ n, tick n → reg (n+1)=src n) (hkeep : ∀ n, ¬tick n → reg (n+1)=reg n) :
    ∃ k, m≤k ∧ RestsAt reg c k := by
  obtain ⟨k,hk,htick⟩ := hticks m
  refine ⟨k+1,by omega,fun n hn => ?_⟩
  induction n, hn using Nat.le_induction with
  | base => exact (htake k htick).trans (h k hk)
  | succ n hn ih =>
    by_cases hnow : tick n
    · exact (htake n hnow).trans (h n (by omega))
    · exact (hkeep n hnow).trans ih

end Misterplex.Endless
