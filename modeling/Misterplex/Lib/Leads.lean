import Mathlib.Logic.Function.Iterate
import Mathlib.Data.Nat.Basic

/-!
# What a machine comes to

A machine that takes one step after another leads to a condition when some
number of steps brings it there. Conditions are reached by doing one step first,
or by reaching another condition on the way. A machine whose steps lower a rank
unless it stands still comes to stand still within that many steps, and where it
comes to does not depend on the step of its run that it is looked at from.
-/

namespace Misterplex

/-- Some number of steps brings the machine to a condition. -/
def Leads {σ : Type*} (step : σ → σ) (s : σ) (Q : σ → Prop) : Prop := ∃ n, Q (step^[n] s)

namespace Leads

variable {σ : Type*} {step : σ → σ} {s : σ} {Q Q' : σ → Prop}

/-- The condition holds already. -/
theorem here (h : Q s) : Leads step s Q := ⟨0,h⟩

/-- One step first. -/
theorem next (h : Leads step (step s) Q) : Leads step s Q := by
  obtain ⟨n,hn⟩ := h
  exact ⟨n+1,hn⟩

/-- One step first, to a state that is given. -/
theorem next_eq {t : σ} (hstep : step s=t) (h : Leads step t Q) : Leads step s Q := by
  rw [← hstep] at h
  exact h.next

/-- Another condition on the way. -/
theorem trans (h : Leads step s Q) (hnext : ∀ t, Q t → Leads step t Q') : Leads step s Q' := by
  obtain ⟨n,hn⟩ := h
  obtain ⟨m,hm⟩ := hnext _ hn
  refine ⟨m+n,?_⟩
  rw [Function.iterate_add_apply]
  exact hm

/-- A weaker condition is reached too. -/
theorem mono (h : Leads step s Q) (himp : ∀ t, Q t → Q' t) : Leads step s Q' :=
  h.trans fun t ht => here (himp t ht)

end Leads

variable {σ : Type*}

/-- A step changes nothing. -/
def Still (step : σ → σ) (s : σ) : Prop := step s=s

instance (step : σ → σ) (s : σ) [DecidableEq σ] : Decidable (Still step s) :=
  inferInstanceAs (Decidable (step s=s))

/-- A machine that comes to stand still. -/
structure Settling (step : σ → σ) where
  /-- Bound on the steps that are left. -/
  rank : σ → ℕ
  falls : ∀ s, ¬Still step s → rank (step s)<rank s

namespace Settling

variable {step : σ → σ} (S : Settling step) {s : σ}

/-- What the machine comes to when it is left alone. -/
def settle (s : σ) : σ := step^[S.rank s] s

/-- What the machine comes to stands still. -/
theorem still_settle (s : σ) : Still step (S.settle s) := by
  unfold settle
  induction hrank : S.rank s using Nat.strong_induction_on generalizing s with
  | _ n ih =>
    by_cases hstill : Still step s
    · rw [Function.iterate_fixed hstill]
      exact hstill
    · have hless := S.falls s hstill
      obtain ⟨k,hk⟩ := Nat.exists_eq_add_of_lt hless
      have hlater := ih (S.rank (step s)) (hrank ▸ hless) (step s) rfl
      rw [← hrank,hk,show S.rank (step s)+k+1=k+S.rank (step s)+1 by omega,
        Function.iterate_succ_apply,Function.iterate_add_apply,Function.iterate_fixed hlater]
      exact hlater

/-- A state that stands still is what the machine comes to from it. -/
theorem settle_of_still (h : Still step s) : S.settle s=s := Function.iterate_fixed h _

/-- Two states of one run that stand still are the same. -/
theorem still_unique {n m : ℕ} (hn : Still step (step^[n] s)) (hm : Still step (step^[m] s)) :
    step^[n] s=step^[m] s := by
  rcases Nat.le_total n m with hle | hle
  · obtain ⟨k,rfl⟩ := Nat.exists_eq_add_of_le' hle
    rw [Function.iterate_add_apply,Function.iterate_fixed hn]
  · obtain ⟨k,rfl⟩ := Nat.exists_eq_add_of_le' hle
    rw [Function.iterate_add_apply,Function.iterate_fixed hm]

/-- A step does not change what the machine comes to. -/
theorem settle_step (s : σ) : S.settle (step s)=S.settle s := by
  have hnext : S.settle (step s)=step^[S.rank (step s)+1] s :=
    (Function.iterate_succ_apply _ _ _).symm
  have hstill := S.still_settle (step s)
  rw [hnext] at hstill ⊢
  exact still_unique hstill (S.still_settle s)

end Settling

end Misterplex
