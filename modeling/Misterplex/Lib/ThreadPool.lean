import Misterplex.Lib.Trace
import Mathlib.Data.List.Basic

/-!
# Threads over a shared state

A pool is a shared state with a list of threads. A step of a thread replaces the
shared state and the thread and may start further threads; a step from outside
does the latter two alone. An invariant of a pool consists of one of the shared
state and one of every thread, which the steps of the other threads keep.
-/

namespace Misterplex

variable {σ τ : Type*}

/-- A shared state and the threads that run over it. -/
structure Pool (σ τ : Type*) where
  /-- What the threads share. -/
  shared : σ
  /-- The state of every thread. -/
  threads : List τ
  deriving DecidableEq

/-- What a step of one thread leaves. -/
structure Outcome (σ τ : Type*) where
  /-- What the threads share afterwards. -/
  shared : σ
  /-- The thread that stepped. -/
  self : τ
  /-- The threads that it started. -/
  started : List τ

namespace Pool

/-- One thread takes the step with a given outcome. -/
def proceed (w : Pool σ τ) (i : ℕ) (out : σ → τ → Outcome σ τ) : Pool σ τ :=
  match w.threads[i]? with
  | none => w
  | some t =>
    ⟨(out w.shared t).shared,w.threads.set i (out w.shared t).self ++ (out w.shared t).started⟩

/-- The shared state is replaced from outside and threads are started. -/
def intervene (w : Pool σ τ) (out : σ × List τ) : Pool σ τ := ⟨out.1,w.threads ++ out.2⟩

/-- The shared state and every thread meet their invariant. -/
structure Holds (I : σ → Prop) (J : σ → ℕ → τ → Prop) (w : Pool σ τ) : Prop where
  /-- The invariant holds of what is shared. -/
  shared : I w.shared
  /-- Every thread keeps its own. -/
  threads : ∀ i t, w.threads[i]?=some t → J w.shared i t

variable {I : σ → Prop} {J : σ → ℕ → τ → Prop} {w : Pool σ τ}

/-- A step of a thread keeps an invariant when it keeps that of the shared state, its own
and that of every other thread, and when the threads it starts meet theirs. -/
theorem Holds.proceed (h : Holds I J w) {i : ℕ} {out : σ → τ → Outcome σ τ}
    (hshared : ∀ t, w.threads[i]?=some t → I (out w.shared t).shared)
    (hself : ∀ t, w.threads[i]?=some t → J (out w.shared t).shared i (out w.shared t).self)
    (hothers : ∀ t, w.threads[i]?=some t → ∀ j u, j≠i → w.threads[j]?=some u →
      J (out w.shared t).shared j u)
    (hstarted : ∀ t, w.threads[i]?=some t → ∀ u∈(out w.shared t).started, ∀ j,
      J (out w.shared t).shared j u) :
    Holds I J (w.proceed i out) := by
  unfold Pool.proceed
  cases ht : w.threads[i]? with
  | none => exact h
  | some t =>
    constructor
    · exact hshared t ht
    · intro j u hu
      have hlen : i<w.threads.length := (List.getElem?_eq_some_iff.mp ht).1
      rw [List.getElem?_append] at hu
      split at hu
      · by_cases hj : j=i
        · rw [hj,List.getElem?_set_self hlen] at hu
          rw [hj,← Option.some.inj hu]
          exact hself t ht
        · rw [List.getElem?_set_ne (Ne.symm hj)] at hu
          exact hothers t ht j u hj hu
      · exact hstarted t ht u (List.mem_of_getElem? hu) j

/-- A step from outside keeps an invariant when it keeps that of the shared state and that of
every thread, and when the threads it starts meet theirs. -/
theorem Holds.intervene (h : Holds I J w) {out : σ × List τ} (hshared : I out.1)
    (hthreads : ∀ j u, w.threads[j]?=some u → J w.shared j u → J out.1 j u)
    (hstarted : ∀ u∈out.2, ∀ j, J out.1 j u) : Holds I J (w.intervene out) := by
  constructor
  · exact hshared
  · intro j u hu
    rw [Pool.intervene,List.getElem?_append] at hu
    split at hu
    · exact hthreads j u hu (h.threads j u hu)
    · exact hstarted u (List.mem_of_getElem? hu) j

/-- A thread of the pool meets its invariant. -/
theorem Holds.of_mem (h : Holds I J w) {t : τ} (ht : t∈w.threads) :
    ∃ i, J w.shared i t := by
  obtain ⟨i,hi⟩ := List.getElem?_of_mem ht
  exact ⟨i,h.threads i t hi⟩

end Pool

end Misterplex
