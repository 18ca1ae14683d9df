import Misterplex.Lib.Masking

/-!
# Searching from a position on

A text is searched for a pattern from a position on. The result is the first
place of the pattern that is not in front of the position.
-/

namespace Misterplex.Search

open List

open Masking (locate)

/-- The first place of a pattern in a text, from a position on. -/
def find (pat text : List Char) (pos : ℕ) : Option ℕ :=
  (locate pat (text.drop pos)).map fun found => pos+found.1.length

/-- An occurrence lies behind the position and inside the text. -/
theorem find_bounds {pat text : List Char} {pos p : ℕ} (h : find pat text pos=some p) :
    pos≤p ∧ p+pat.length≤text.length := by
  obtain ⟨found,hfound,hp⟩ := Option.map_eq_some_iff.mp h
  have hparts := congrArg length (Masking.locate_eq (show
    locate pat (text.drop pos)=some (found.1,found.2) from hfound))
  rw [length_append,length_append,length_drop] at hparts
  by_cases hlen : pos≤text.length
  · omega
  · rw [drop_eq_nil_of_le (by omega)] at hfound
    cases hfound

/-- Behind a first part the search goes on in the second. -/
theorem find_append (pat front rest : List Char) :
    find pat (front ++ rest) front.length =
      (locate pat rest).map fun found => front.length+found.1.length := by
  rw [find,drop_left]

/-- A pattern is found in a text that holds it. -/
theorem find_isSome {pat text : List Char} (hne : pat≠[]) :
    (find pat text 0).isSome=true ↔ pat <:+: text := by
  rw [find,Option.isSome_map,drop_zero]
  exact Masking.locate_isSome hne

/-- The first place of a character is behind the part without it. -/
theorem locate_char {c : Char} {front rest : List Char} (h : c ∉ front) :
    locate [c] (front ++ c::rest)=some (front,rest) := by
  induction front with
  | nil =>
    have hhere : [c].isPrefixOf (c::rest)=true := by simp
    rw [nil_append,locate,if_pos hhere]
    rfl
  | cons d front ih =>
    have hd : c≠d := fun hcd => h (hcd ▸ mem_cons_self)
    have hhere : ¬[c].isPrefixOf (d::(front ++ c::rest))=true := by simp [hd]
    rw [cons_append,locate,if_neg hhere,ih fun hmem => h (mem_cons_of_mem d hmem)]
    rfl

/-- A character that does not occur has no place. -/
theorem locate_char_none {c : Char} {text : List Char} (h : c ∉ text) :
    locate [c] text=none := by
  rw [← Option.not_isSome_iff_eq_none,Masking.locate_isSome (cons_ne_nil c [])]
  exact fun hmem => h (hmem.subset mem_cons_self)

/-- The first place of a character behind the part without it. -/
theorem find_char {c : Char} {front rest : List Char} (h : c ∉ front) :
    find [c] (front ++ c::rest) 0=some front.length := by
  rw [find,drop_zero,locate_char h,Option.map_some,Nat.zero_add]

/-- A character that does not occur is not found. -/
theorem find_char_none {c : Char} {text : List Char} (h : c ∉ text) : find [c] text 0=none := by
  rw [find,drop_zero,locate_char_none h,Option.map_none]

/-- A mark that does not stand in the first part is not found there when the second
part starts with a sign that the mark does not hold. -/
theorem locate_behind {pat rest fragment front tail : List Char} (hs : '#' ∉ pat)
    (hfragment : fragment=[] ∨ fragment.head?=some '#') (hrest : locate pat rest=none)
    (hne : pat≠[]) (h : locate pat (rest ++ fragment)=some (front,tail)) :
    rest.length≤front.length := by
  have hnot : ¬pat <:+: rest := by
    rw [← Masking.locate_isSome hne,hrest]
    exact Bool.false_ne_true
  have htext := Masking.locate_eq h
  rw [append_assoc] at htext
  rcases append_eq_append_iff.mp htext with ⟨part,hfront,_⟩ | ⟨part,hpart,hback⟩
  · rw [hfront,length_append]
    omega
  · rcases append_eq_append_iff.mp hback with ⟨more,hpat,_⟩ | ⟨more,hpat,hmore⟩
    · exact absurd ⟨front,more,by rw [hpart,hpat,append_assoc]⟩ hnot
    · cases more with
      | nil =>
        rw [append_nil] at hpat
        exact absurd ⟨front,[],by rw [hpart,hpat,append_nil]⟩ hnot
      | cons d more =>
        rcases hfragment with hfragment | hfragment
        · rw [hfragment] at hmore
          cases hmore
        · rw [hmore] at hfragment
          have hd : d = '#' := Option.some.inj hfragment
          exact absurd (hpat ▸ mem_append_right part (hd ▸ mem_cons_self)) hs

end Misterplex.Search
