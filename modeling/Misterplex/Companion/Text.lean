import Mathlib.Data.List.Infix

/-!
# First occurrences in texts

A text is a list of characters. Searching looks for the first place where a
pattern stands in a text and returns what follows it there.
-/

namespace Misterplex.Companion

open List

/-- What holds of every character of a text is decided along the text, not over all
characters there are. -/
instance (priority := 2000) decidableOnText (text : List Char) (p : Char → Prop)
    [DecidablePred p] : Decidable (∀ c∈text, p c) := List.decidableBAll p text

/-- The text behind the first occurrence of a pattern, if there is one. -/
def behind (pat : List Char) : List Char → Option (List Char)
  | [] => if pat = [] then some [] else none
  | c::text =>
    if pat.isPrefixOf (c::text) then some ((c::text).drop pat.length) else behind pat text

/-- A text up to the first of some characters. -/
def upTo (stops text : List Char) : List Char := text.takeWhile fun c => !stops.contains c

/-- A pattern stands somewhere in a text. -/
def found (pat text : List Char) : Bool := (behind pat text).isSome

/-- `found` for strings. -/
def mentions (text pat : String) : Bool := found pat.toList text.toList

variable {pat : List Char} {d : Char}

theorem behind_nil : behind pat [] = if pat = [] then some [] else none := rfl

theorem behind_cons (c : Char) (text : List Char) : behind pat (c::text) =
    if pat.isPrefixOf (c::text) then some ((c::text).drop pat.length)
    else behind pat text := rfl

/-- A pattern without a delimiter stands at the start of a text only within the
piece in front of the delimiter. -/
theorem isPrefixOf_append_delim (hd : d ∉ pat) (piece tail : List Char) :
    pat.isPrefixOf (piece ++ d::tail)=pat.isPrefixOf piece := by
  induction pat generalizing piece with
  | nil => rfl
  | cons c pat ih =>
    have hc : c≠d := fun h => hd (h ▸ mem_cons_self)
    have hpat : d ∉ pat := fun h => hd (mem_cons_of_mem c h)
    cases piece with
    | nil => simp [isPrefixOf,hc]
    | cons e piece => simp only [cons_append,isPrefixOf,ih hpat]

theorem behind_append_delim (hpat : pat≠[]) (hd : d ∉ pat) (piece tail : List Char) :
    behind pat (piece ++ d::tail) =
      ((behind pat piece).map fun t => t ++ d::tail).or (behind pat tail) := by
  induction piece with
  | nil =>
    have hnot := isPrefixOf_append_delim hd [] tail
    have hempty : pat.isPrefixOf []=false := by
      cases pat with
      | nil => exact absurd rfl hpat
      | cons c pat => rfl
    rw [nil_append,hempty] at hnot
    have hstep : behind pat (d::tail)=behind pat tail := by
      rw [behind_cons,hnot,if_neg Bool.false_ne_true]
    have hnil : behind pat []=none := if_neg hpat
    rw [nil_append,hstep,hnil]
    rfl
  | cons c piece ih =>
    have hprefix := isPrefixOf_append_delim hd (c::piece) tail
    rw [cons_append] at hprefix
    rw [cons_append,behind_cons,behind_cons, hprefix]
    by_cases hhere : pat.isPrefixOf (c::piece)=true
    · have hlen : pat.length≤(c::piece).length :=
        (List.isPrefixOf_iff_prefix.mp hhere).length_le
      rw [if_pos hhere,if_pos hhere,← cons_append,drop_append_of_le_length hlen]
      rfl
    · rw [if_neg hhere,if_neg hhere]
      exact ih

theorem behind_skip (hpat : pat≠[]) (hd : d ∉ pat) {piece : List Char}
    (hpiece : found pat piece=false) (tail : List Char) :
    behind pat (piece ++ d::tail)=behind pat tail := by
  have hnone : behind pat piece=none := Option.not_isSome_iff_eq_none.mp (by
    rw [← found,hpiece]
    exact Bool.false_ne_true)
  rw [behind_append_delim hpat hd,hnone]
  rfl

theorem behind_prefix (hpat : pat≠[]) (tail : List Char) :
    behind pat (pat ++ tail)=some tail := by
  cases pat with
  | nil => exact absurd rfl hpat
  | cons c pat =>
    have hhere : (c::pat).isPrefixOf (c::(pat ++ tail))=true :=
      List.isPrefixOf_iff_prefix.mpr ⟨tail,rfl⟩
    rw [cons_append,behind_cons,if_pos hhere,← cons_append,drop_left]

variable {text rest : List Char}

theorem behind_eq (h : behind pat text=some rest) : ∃ front, text = front ++ pat ++ rest := by
  induction text with
  | nil =>
    rw [behind_nil] at h
    split at h
    · rename_i hnil
      cases h
      exact ⟨[],by rw [hnil]; rfl⟩
    · cases h
  | cons c text ih =>
    rw [behind_cons] at h
    split at h
    · rename_i hhere
      obtain ⟨tail,htail⟩ := List.isPrefixOf_iff_prefix.mp hhere
      cases h
      rw [← htail,drop_left]
      exact ⟨[],rfl⟩
    · obtain ⟨front,hfront⟩ := ih h
      exact ⟨c::front,by rw [hfront]; rfl⟩

theorem behind_suffix (h : behind pat text=some rest) : rest <:+ text := by
  obtain ⟨front,hfront⟩ := behind_eq h
  exact ⟨front ++ pat,hfront.symm⟩

theorem behind_append (hpat : pat≠[]) (h : behind pat text=some rest)
    (more : List Char) : behind pat (text ++ more)=some (rest ++ more) := by
  induction text with
  | nil =>
    rw [behind_nil,if_neg hpat] at h
    cases h
  | cons c text ih =>
    obtain ⟨front,hfront⟩ := behind_eq h
    have hlen := congrArg length hfront
    rw [length_append,length_append] at hlen
    rw [behind_cons] at h
    rw [cons_append,behind_cons]
    by_cases hhere : pat.isPrefixOf (c::text)=true
    · obtain ⟨tail,htail⟩ := List.isPrefixOf_iff_prefix.mp hhere
      have hmore : pat.isPrefixOf (c::(text ++ more))=true := by
        rw [List.isPrefixOf_iff_prefix,← cons_append,← htail,append_assoc]
        exact prefix_append pat _
      rw [if_pos hhere] at h
      cases h
      rw [if_pos hmore,← cons_append,← htail,append_assoc,drop_left,
        drop_left]
    · have hmore : ¬pat.isPrefixOf (c::(text ++ more))=true := by
        intro hmark
        rw [List.isPrefixOf_iff_prefix,← cons_append] at hmark
        have hprefix := prefix_of_prefix_length_le hmark (prefix_append _ _) (by omega)
        exact hhere (List.isPrefixOf_iff_prefix.mpr hprefix)
      rw [if_neg hhere] at h
      rw [if_neg hmore]
      exact ih h

theorem found_append {text : List Char} (h : found pat text=true) (rest : List Char) :
    found pat (text ++ rest)=true := by
  unfold found at h ⊢
  induction text with
  | nil =>
    rw [behind_nil] at h
    split at h
    · rename_i hnil
      rw [hnil]
      cases rest <;> rfl
    · exact absurd h Bool.false_ne_true
  | cons c text ih =>
    rw [behind_cons] at h
    rw [cons_append,behind_cons]
    split at h
    · rename_i hhere
      have hmore : pat.isPrefixOf (c::(text ++ rest))=true :=
        List.isPrefixOf_iff_prefix.mpr
          ((List.isPrefixOf_iff_prefix.mp hhere).trans ⟨rest,rfl⟩)
      rw [if_pos hmore]
      rfl
    · split
      · rfl
      · exact ih h

theorem upTo_append_stop {stops text : List Char} (hd : d∈stops)
    (htext : ∀ c∈text, c ∉ stops) (tail : List Char) :
    upTo stops (text ++ d::tail)=text := by
  unfold upTo
  induction text with
  | nil => simp [hd]
  | cons c text ih =>
    have hc : (!stops.contains c)=true := by simp [htext c mem_cons_self]
    rw [cons_append,takeWhile_cons,if_pos hc,
      ih fun e he => htext e (mem_cons_of_mem c he)]

end Misterplex.Companion
