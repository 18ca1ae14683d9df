import Mathlib.Data.Nat.Notation
import Mathlib.Tactic.Basic

/-!
# Finite runs of a labelled step relation

A run is the list of labels taken between two states. Invariants are carried
along runs, runs compose at a common state, and a run over a concatenated
label list splits at the corresponding intermediate state. Clocked machines
use the functional form, where the label alone determines the successor.
-/

namespace Misterplex.Trace

variable {σ ι β : Type*}

/-- Runs of a labelled step relation, from first state to last. -/
inductive Run (R : σ → ι → σ → Prop) : σ → List ι → σ → Prop
  | nil (s : σ) : Run R s [] s
  /-- One step followed by the rest of the run. -/
  | cons {s m t : σ} {i : ι} {is : List ι} :
      R s i m → Run R m is t → Run R s (i::is) t

variable {is : List ι} {P : σ → Prop}

/-- A property preserved by one step is preserved by every run. -/
theorem Run.invariant {R : σ → ι → σ → Prop} (hstep : ∀ s i t, P s → R s i t → P t) {s t : σ}
    (h : Run R s is t) (hs : P s) : P t := by
  induction h with
  | nil => exact hs
  | cons hr _ ih => exact ih (hstep _ _ _ hs hr)

/-- The final state of a clocked machine driven by a list of inputs. -/
def finalState (step : σ → ι → σ) (s : σ) (is : List ι) : σ := is.foldl step s

@[simp] theorem finalState_nil (step : σ → ι → σ) (s : σ) : finalState step s []=s := rfl

@[simp] theorem finalState_cons (step : σ → ι → σ) (s : σ) (i : ι) (is : List ι) :
    finalState step s (i::is)=finalState step (step s i) is := rfl

@[simp] theorem finalState_append (step : σ → ι → σ) (s : σ) (is js : List ι) :
    finalState step s (is ++ js)=finalState step (finalState step s is) js :=
  List.foldl_append

/-- Everything a clocked machine emits along a list of inputs, where one cycle
may emit any number of items. -/
def emitted (step : σ → ι → σ) (out : σ → ι → List β) : σ → List ι → List β
  | _,[] => []
  | s,i::is => out s i ++ emitted step out (step s i) is

@[simp] theorem emitted_nil (step : σ → ι → σ) (out : σ → ι → List β) (s : σ) :
    emitted step out s [] = [] := rfl

@[simp] theorem emitted_cons (step : σ → ι → σ) (out : σ → ι → List β) (s : σ) (i : ι)
    (is : List ι) :
    emitted step out s (i::is) = out s i ++ emitted step out (step s i) is := rfl

/-- Emission over a concatenated input list continues from the intermediate state. -/
theorem emitted_append (step : σ → ι → σ) (out : σ → ι → List β) (s : σ) (is js : List ι) :
    emitted step out s (is ++ js) =
      emitted step out s is ++ emitted step out (finalState step s is) js := by
  induction is generalizing s with
  | nil => rfl
  | cons i is ih => simp only [List.cons_append,emitted_cons,finalState_cons,ih,List.append_assoc]

variable {step : σ → ι → σ} {s : σ}

/-- What one kind of input establishes and every input keeps holds after a list of inputs
with one of that kind. -/
theorem established_run {Q establishes : ι → Prop}
    (hstep : ∀ s i, Q i → establishes i ∨ P s → P (step s i)) (hq : ∀ i∈is, Q i)
    (h : (∃ i∈is, establishes i) ∨ P s) : P (finalState step s is) := by
  induction is generalizing s with
  | nil =>
    rcases h with ⟨i,hi,_⟩ | hp
    · exact absurd hi List.not_mem_nil
    · exact hp
  | cons i is ih =>
    refine ih (fun j hj => hq j (List.mem_cons_of_mem i hj)) ?_
    have hnow := hstep s i (hq i List.mem_cons_self)
    rcases h with ⟨j,hj,hyes⟩ | hp
    · rcases List.mem_cons.mp hj with rfl | hlater
      · exact Or.inr (hnow (Or.inl hyes))
      · exact Or.inl ⟨j,hlater,hyes⟩
    · exact Or.inr (hnow (Or.inr hp))

/-- A property of every state and the input it meets, along a list of inputs. -/
def Along (step : σ → ι → σ) (Q : σ → ι → Prop) : σ → List ι → Prop
  | _,[] => True
  | s,i::is => Q s i ∧ Along step Q (step s i) is

/-- A property of every state that a list of inputs leads through, both ends included. -/
def Throughout (step : σ → ι → σ) (P : σ → Prop) : σ → List ι → Prop
  | s,[] => P s
  | s,i::is => P s ∧ Throughout step P (step s i) is

instance (step : σ → ι → σ) (Q : σ → ι → Prop) [hq : ∀ s i, Decidable (Q s i)] (s : σ)
    (is : List ι) : Decidable (Along step Q s is) :=
  match is with
  | [] => isTrue trivial
  | i::is =>
    have : Decidable (Along step Q (step s i) is) :=
      instDecidableAlong step Q (step s i) is
    inferInstanceAs (Decidable (Q s i ∧ Along step Q (step s i) is))

instance (step : σ → ι → σ) (P : σ → Prop) [hp : ∀ s, Decidable (P s)] (s : σ) (is : List ι) :
    Decidable (Throughout step P s is) :=
  match is with
  | [] => hp s
  | i::is =>
    have : Decidable (Throughout step P (step s i) is) :=
      instDecidableThroughout step P (step s i) is
    inferInstanceAs (Decidable (P s ∧ Throughout step P (step s i) is))

/-- A property of the inputs alone holds along every list of inputs that have it. -/
theorem along_of_forall {Q : ι → Prop} (h : ∀ i∈is, Q i)
    (s : σ) : Along step (fun _ i => Q i) s is := by
  induction is generalizing s with
  | nil => trivial
  | cons i is ih =>
    exact ⟨h i List.mem_cons_self,ih (fun j hj => h j (List.mem_cons_of_mem i hj)) _⟩

/-- A property throughout holds in the first state. -/
theorem Throughout.first (h : Throughout step P s is) : P s := by
  cases is with
  | nil => exact h
  | cons i is => exact h.1

/-- A property throughout holds in the last state. -/
theorem Throughout.last (h : Throughout step P s is) : P (finalState step s is) := by
  induction is generalizing s with
  | nil => exact h
  | cons i is ih => exact ih h.2

variable {Q : σ → ι → Prop}

/-- An invariant that the steps of a run keep holds throughout the run. -/
theorem Along.throughout (hstep : ∀ s i, P s → Q s i → P (step s i)) (h : Along step Q s is)
    (hs : P s) : Throughout step P s is := by
  induction is generalizing s with
  | nil => exact hs
  | cons i is ih => exact ⟨hs,ih h.2 (hstep s i hs h.1)⟩

/-- A property holds throughout a run of admissible steps exactly when every step meets the
condition under which that step keeps it. -/
theorem throughout_iff_along_of {A Q : σ → ι → Prop}
    (hstep : ∀ s i, A s i → P s → (P (step s i) ↔ Q s i))
    (hadm : Along step A s is) (hs : P s) : Throughout step P s is ↔ Along step Q s is := by
  induction is generalizing s with
  | nil => exact ⟨fun _ => trivial,fun _ => hs⟩
  | cons i is ih =>
    constructor
    · intro h
      have hnext : P (step s i) := h.2.first
      exact ⟨(hstep s i hadm.1 hs).mp hnext,(ih hadm.2 hnext).mp h.2⟩
    · intro h
      have hnext : P (step s i) := (hstep s i hadm.1 hs).mpr h.1
      exact ⟨hs,(ih hadm.2 hnext).mpr h.2⟩

/-- A property holds throughout exactly when every step meets the condition under which that
step keeps it, given an invariant of all steps. -/
theorem throughout_iff_along {I P : σ → Prop} (hkeep : ∀ s i, I s → I (step s i))
    (hstep : ∀ s i, I s → P s → (P (step s i) ↔ Q s i)) (hinv : I s) (hs : P s)
    (is : List ι) : Throughout step P s is ↔ Along step Q s is := by
  have hadm : Along step (fun s _ => I s) s is := by
    clear hs
    induction is generalizing s with
    | nil => trivial
    | cons i is ih => exact ⟨hinv,ih (hkeep s i hinv)⟩
  exact throughout_iff_along_of hstep hadm hs

/-- A weaker property holds throughout too. -/
theorem Throughout.mono {P Q : σ → Prop} (hpq : ∀ s, P s → Q s) (h : Throughout step P s is) :
    Throughout step Q s is := by
  induction is generalizing s with
  | nil => exact hpq s h
  | cons i is ih => exact ⟨hpq s h.1,ih h.2⟩

/-- What a property throughout implies in the states of an invariant holds throughout. -/
theorem Throughout.mono_of {I P Q : σ → Prop}
    (hkeep : ∀ s i, I s → I (step s i)) (hpq : ∀ s, I s → P s → Q s)
    (hs : I s) (h : Throughout step P s is) : Throughout step Q s is := by
  induction is generalizing s with
  | nil => exact hpq s hs h
  | cons i is ih => exact ⟨hpq s hs h.1,ih (hkeep s i hs) h.2⟩

/-- A goal is reached when every step that does not reach it decreases a rank, and no
step leaves it. -/
theorem Along.reaches (P Goal : σ → Prop) (rank : σ → ℕ) (hkeep : ∀ s i, P s → Q s i → P (step s i))
    (hstay : ∀ s i, P s → Q s i → Goal s → Goal (step s i))
    (hrank : ∀ s i, P s → Q s i → ¬Goal s → Goal (step s i) ∨ rank (step s i)<rank s)
    (h : Along step Q s is) (hs : P s)
    (hlen : Goal s ∨ rank s < is.length) : Goal (finalState step s is) := by
  induction is generalizing s with
  | nil =>
    rcases hlen with hgoal | hzero
    · exact hgoal
    · exact absurd hzero (Nat.not_lt_zero _)
  | cons i is ih =>
    refine ih h.2 (hkeep s i hs h.1) ?_
    by_cases hgoal : Goal s
    · exact Or.inl (hstay s i hs h.1 hgoal)
    · rcases hrank s i hs h.1 hgoal with hnext | hless
      · exact Or.inl hnext
      · have hbound := hlen.resolve_left hgoal
        rw [List.length_cons] at hbound
        exact Or.inr (by omega)

/-- A property along a list of inputs holds along both parts of it. -/
theorem Along.split {is js : List ι}
    (h : Along step Q s (is ++ js)) : Along step Q s is ∧ Along step Q (finalState step s is) js := by
  induction is generalizing s with
  | nil => exact ⟨trivial,h⟩
  | cons i is ih => exact ⟨⟨h.1,(ih h.2).1⟩,(ih h.2).2⟩

/-- Two properties along a list of inputs hold together. -/
theorem Along.and {Q Q' : σ → ι → Prop} (h : Along step Q s is) (h' : Along step Q' s is) :
    Along step (fun s i => Q s i ∧ Q' s i) s is := by
  induction is generalizing s with
  | nil => trivial
  | cons i is ih => exact ⟨⟨h.1,h'.1⟩,ih h.2 h'.2⟩

/-- What an invariant and a property of the inputs give holds along a list of inputs. -/
theorem Along.imp {Q Q' : σ → ι → Prop} (P : σ → Prop)
    (hkeep : ∀ s i, P s → Q s i → P (step s i)) (himp : ∀ s i, P s → Q s i → Q' s i)
    (h : Along step Q s is) (hs : P s) : Along step Q' s is := by
  induction is generalizing s with
  | nil => trivial
  | cons i is ih => exact ⟨himp s i hs h.1,ih h.2 (hkeep s i hs h.1)⟩

end Misterplex.Trace
