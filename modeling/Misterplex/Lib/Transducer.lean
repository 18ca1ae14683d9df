import Misterplex.Lib.Trace

/-!
# Stream transducers and the clocked stages that implement them

A transducer maps a stream of items to a stream of items, with a control state
that decides how many items each input yields. A clocked stage implements one
when every cycle moves the accepted items through the transducer into what is
delivered or held back. The run theorem then gives the delivered stream for
every pattern of stalls, since stalls appear only in which cycles accept or
deliver an item.
-/

namespace Misterplex

open Trace List

variable {σ ι τ α β : Type*}

/-- A control state that turns every input item into a list of output items. -/
structure Transducer (τ α β : Type*) where
  /-- Control state after one item. -/
  next : τ → α → τ
  /-- Items produced by one item. -/
  emit : τ → α → List β

namespace Transducer

/-- Output stream of a list of input items. -/
def run (T : Transducer τ α β) : τ → List α → List β
  | _,[] => []
  | t,a::as => T.emit t a ++ T.run (T.next t a) as

/-- Control state after a list of input items. -/
def after (T : Transducer τ α β) (t : τ) (as : List α) : τ := as.foldl T.next t

/-- No input, no output. -/
@[simp] theorem run_nil (T : Transducer τ α β) (t : τ) : T.run t []=[] := rfl

/-- The first input's output comes first. -/
@[simp] theorem run_cons (T : Transducer τ α β) (t : τ) (a : α) (as : List α) :
    T.run t (a::as) = T.emit t a ++ T.run (T.next t a) as := rfl

@[simp] theorem after_nil (T : Transducer τ α β) (t : τ) : T.after t []=t := rfl

@[simp] theorem after_cons (T : Transducer τ α β) (t : τ) (a : α) (as : List α) :
    T.after t (a::as)=T.after (T.next t a) as := rfl

theorem after_append (T : Transducer τ α β) (t : τ) (as bs : List α) :
    T.after t (as ++ bs)=T.after (T.after t as) bs :=
  foldl_append

/-- The output of two runs after one another. -/
theorem run_append (T : Transducer τ α β) (t : τ) (as bs : List α) :
    T.run t (as ++ bs) = T.run t as ++ T.run (T.after t as) bs := by
  induction as generalizing t with
  | nil => rfl
  | cons a as ih => simp only [cons_append,run_cons,after_cons,ih,append_assoc]

/-- A clocked machine with its accepted and delivered items implements a
transducer: each cycle advances the control state by the accepted items, and
what it delivers or still holds is what it held plus their output. -/
structure Stage (T : Transducer τ α β) (step : σ → ι → σ) (accepts : σ → ι → List α)
    (delivers : σ → ι → List β) where
  /-- States the stage can be in. -/
  valid : σ → Prop
  /-- Inputs the stage is claimed for. -/
  legal : ι → Prop
  /-- Transducer control state held by the machine. -/
  control : σ → τ
  /-- Produced items not delivered yet. -/
  pending : σ → List β
  valid_step : ∀ s i, valid s → legal i → valid (step s i)
  /-- The control state follows the accepted items. -/
  control_step : ∀ s i, valid s → legal i → control (step s i)=T.after (control s) (accepts s i)
  /-- No item is lost, added or reordered in one cycle. -/
  conserve : ∀ s i, valid s → legal i →
    delivers s i ++ pending (step s i) = pending s ++ T.run (control s) (accepts s i)

variable {T : Transducer τ α β} {step : σ → ι → σ} {accepts : σ → ι → List α}
  {delivers : σ → ι → List β}

/-- A stage stays valid along every legal run. -/
theorem Stage.valid_run (S : Stage T step accepts delivers) (s : σ) (is : List ι)
    (hs : S.valid s) (hi : ∀ i∈is, S.legal i) : S.valid (finalState step s is) := by
  induction is generalizing s with
  | nil => exact hs
  | cons i is ih =>
    exact ih _ (S.valid_step s i hs (hi i mem_cons_self))
      (fun j hj => hi j (mem_cons_of_mem i hj))

/-- Along every legal run the delivered items followed by the pending ones are
the initially pending items followed by the output of the accepted items. -/
theorem Stage.conserve_run (S : Stage T step accepts delivers) (s : σ) (is : List ι)
    (hs : S.valid s) (hi : ∀ i∈is, S.legal i) :
    emitted step delivers s is ++ S.pending (finalState step s is) =
      S.pending s ++ T.run (S.control s) (emitted step accepts s is) := by
  induction is generalizing s with
  | nil => simp only [emitted_nil,finalState_nil,nil_append,run_nil,append_nil]
  | cons i is ih =>
    have hl := hi i mem_cons_self
    have hrest := ih _ (S.valid_step s i hs hl) (fun j hj => hi j (mem_cons_of_mem i hj))
    have hone := S.conserve s i hs hl
    rw [emitted_cons,finalState_cons,append_assoc,hrest,← append_assoc,hone,
      append_assoc,emitted_cons,run_append,S.control_step s i hs hl]

end Transducer

end Misterplex
