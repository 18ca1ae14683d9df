import Mathlib.Data.Nat.Notation
import Mathlib.Tactic.Basic

/-!
# Histories and their interleavings

A history lists what happened, newest first. A property of every moment speaks
of the entry and of the past it met; it is carried over each new entry, and two
properties that agree at each moment agree on the history. A list interleaves two
others when it consists of exactly their items, those of each in their order.
-/

namespace Misterplex.History

variable {β : Type*}

/-- A property of an entry and its past holds at every moment of a history. -/
def Always (Q : β → List β → Prop) : List β → Prop
  | [] => True
  | m::past => Q m past ∧ Always Q past

@[simp] theorem always_nil (Q : β → List β → Prop) : Always Q [] := trivial

@[simp] theorem always_cons {Q : β → List β → Prop} {m : β} {past : List β} :
    Always Q (m::past) ↔ Q m past ∧ Always Q past := Iff.rfl

variable {P Q : β → List β → Prop}

/-- A weaker property holds at every moment too. -/
theorem Always.mono (hpq : ∀ m past, P m past → Q m past)
    {history : List β} (h : Always P history) : Always Q history := by
  induction history with
  | nil => exact trivial
  | cons m past ih => exact ⟨hpq m past h.1,ih h.2⟩

/-- Two properties hold at every moment together. -/
theorem Always.and {history : List β} (hp : Always P history)
    (hq : Always Q history) : Always (fun m past => P m past ∧ Q m past) history := by
  induction history with
  | nil => exact trivial
  | cons m past ih => exact ⟨⟨hp.1,hq.1⟩,ih hp.2 hq.2⟩

/-- Properties that agree at every moment hold of the same histories. -/
theorem Always.congr {history : List β} (h : Always (fun m past => P m past ↔ Q m past) history) :
    Always P history ↔ Always Q history :=
  ⟨fun hp => Always.mono (fun _ _ hpq => hpq.1.1 hpq.2) (h.and hp),
    fun hq => Always.mono (fun _ _ hpq => hpq.1.2 hpq.2) (h.and hq)⟩

end Misterplex.History

namespace Misterplex

variable {α : Type*}

/-- The third list consists of the items of the first two, each in order. -/
inductive Interleaves : List α → List α → List α → Prop
  | nil : Interleaves [] [] []
  /-- The next item is one of the first list. -/
  | left {xs ys zs : List α} (x : α) : Interleaves xs ys zs → Interleaves (x::xs) ys (x::zs)
  /-- The next item is one of the second list. -/
  | right {xs ys zs : List α} (y : α) : Interleaves xs ys zs → Interleaves xs (y::ys) (y::zs)

namespace Interleaves

/-- Interleavings of pieces compose. -/
theorem append {xs ys zs xs' ys' zs' : List α} (h : Interleaves xs ys zs)
    (h' : Interleaves xs' ys' zs') : Interleaves (xs ++ xs') (ys ++ ys') (zs ++ zs') := by
  induction h with
  | nil => exact h'
  | left x _ ih => exact left x ih
  | right y _ ih => exact right y ih

/-- The first list alone. -/
theorem only_left (xs : List α) : Interleaves xs [] xs := by
  induction xs with
  | nil => exact nil
  | cons x xs ih => exact left x ih

/-- The second list alone. -/
theorem only_right (ys : List α) : Interleaves [] ys ys := by
  induction ys with
  | nil => exact nil
  | cons y ys ih => exact right y ih

/-- No item is lost and none is added. -/
theorem length {xs ys zs : List α} (h : Interleaves xs ys zs) :
    zs.length=xs.length+ys.length := by
  induction h with
  | nil => rfl
  | left x _ ih => rw [List.length_cons,List.length_cons,ih,Nat.add_right_comm]
  | right y _ ih => rw [List.length_cons,List.length_cons,ih,Nat.add_assoc]

end Interleaves

end Misterplex
