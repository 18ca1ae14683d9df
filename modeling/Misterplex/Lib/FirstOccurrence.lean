import Mathlib.Data.List.Nodup
import Mathlib.Data.List.Induction

/-!
# Lists of first occurrences

A list that takes every new entry at its end keeps each entry where it occurred
first. Such lists are built piece by piece as if the pieces were one list.
-/

namespace Misterplex.FirstOccurrence

open List

variable {α : Type} [DecidableEq α]

/-- An entry is taken at the end unless it is there already. -/
def addNew (out : List α) (a : α) : List α := if a ∈ out then out else out ++ [a]

/-- First occurrences are extended by one more entry. -/
theorem eraseDups_concat (xs : List α) (a : α) :
    (xs ++ [a]).eraseDups=addNew xs.eraseDups a := by
  rw [eraseDups_append,addNew]
  by_cases ha : a∈xs
  · have hnone : [a].removeAll xs=[] := by
      rw [removeAll,filter_cons_of_neg (by simpa using ha),filter_nil]
    rw [if_pos (mem_eraseDups.mpr ha),hnone,eraseDups_nil,append_nil]
  · have hone : [a].removeAll xs=[a] := by
      rw [removeAll,filter_cons_of_pos (by simpa using ha),filter_nil]
    rw [if_neg (fun h => ha (mem_eraseDups.mp h)),hone,eraseDups_cons,filter_nil,
      eraseDups_nil]

/-- Entries taken one after the other are first occurrences. -/
theorem foldl_addNew (xs l : List α) :
    l.foldl addNew xs.eraseDups=(xs ++ l).eraseDups := by
  induction l generalizing xs with
  | nil => rw [foldl_nil,append_nil]
  | cons a l ih =>
    rw [foldl_cons,← eraseDups_concat,ih,append_assoc]
    rfl

/-- No first occurrence is repeated. -/
theorem nodup_eraseDups (l : List α) : l.eraseDups.Nodup := by
  induction l using reverseRecOn with
  | nil => exact nodup_nil
  | append_singleton l a ih =>
    rw [eraseDups_concat,addNew]
    split
    case isTrue => exact ih
    case isFalse ha =>
      rw [← concat_eq_append]
      exact ih.concat ha

/-- Without repetitions every occurrence is the first. -/
theorem eraseDups_eq_self {l : List α} (h : l.Nodup) : l.eraseDups=l := by
  induction l using reverseRecOn with
  | nil => rfl
  | append_singleton l a ih =>
    have hl : l.Nodup := (nodup_append.mp h).1
    have ha : a ∉ l := fun hmem =>
      (nodup_append.mp h).2.2 a hmem a mem_cons_self rfl
    rw [eraseDups_concat,ih hl,addNew,if_neg ha]

/-- The first occurrences of a piece stand for the piece. -/
theorem eraseDups_append_eraseDups (xs ys : List α) :
    (xs ++ ys.eraseDups).eraseDups=(xs ++ ys).eraseDups := by
  induction ys using reverseRecOn with
  | nil => rfl
  | append_singleton ys a ih =>
    rw [eraseDups_concat,← append_assoc,eraseDups_concat,addNew]
    split
    case isTrue ha =>
      have hin : a∈(xs ++ ys).eraseDups :=
        mem_eraseDups.mpr (mem_append_right xs (mem_eraseDups.mp ha))
      rw [ih,addNew,if_pos hin]
    case isFalse => rw [← append_assoc,eraseDups_concat,ih]

/-- First occurrences stand in the order in which they occur. -/
theorem pairwise_eraseDups (l : List α) :
    l.eraseDups.Pairwise fun a b => l.idxOf a<l.idxOf b := by
  induction l using reverseRecOn with
  | nil => exact List.Pairwise.nil
  | append_singleton l a ih =>
    have hkeep : ∀ b∈l.eraseDups, (l ++ [a]).idxOf b=l.idxOf b := fun b hb =>
      idxOf_append_of_mem (mem_eraseDups.mp hb)
    have hold : l.eraseDups.Pairwise fun b c => (l ++ [a]).idxOf b<(l ++ [a]).idxOf c := by
      refine ih.imp_of_mem fun {b c} hb hc hlt => ?_
      rw [hkeep b hb,hkeep c hc]
      exact hlt
    rw [eraseDups_concat,addNew]
    split
    case isTrue => exact hold
    case isFalse ha =>
      have hnew : a ∉ l := fun h => ha (mem_eraseDups.mpr h)
      refine pairwise_append.mpr ⟨hold,pairwise_singleton _ _,fun b hb c hc => ?_⟩
      rw [mem_singleton.mp hc,hkeep b hb,idxOf_append_of_notMem hnew]
      have hlt := idxOf_lt_length_of_mem (mem_eraseDups.mp hb)
      omega

end Misterplex.FirstOccurrence
