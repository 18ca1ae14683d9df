import Mathlib.Data.List.Infix
import Mathlib.Data.List.TakeWhile

/-!
# Addresses taken apart

An address is a path, the parameters of its query and a fragment. Delimiters
stand only between the parts, so that an address and its text determine each
other, and a pattern without delimiters stands within one part.
-/

namespace Misterplex

open List

/-- An address in its parts. -/
@[ext]
structure Url where
  /-- What stands in front of the query. -/
  path : List Char
  /-- The parameters of the query in their order. -/
  params : List (List Char)
  fragment : List Char
  /-- The path ends in front of the query and of the fragment. -/
  path_clean : '?' ∉ path ∧ '#' ∉ path
  /-- A parameter ends in front of the next one and of the fragment. -/
  params_clean : ∀ p∈params, '&' ∉ p ∧ '#' ∉ p
  fragment_clean : fragment=[] ∨ fragment.head?=some '#'

namespace Url

/-- A query with its sign, from its parameters. -/
def queryOf : List (List Char) → List Char
  | [] => []
  | p::ps => '?' :: ['&'].intercalate (p::ps)

/-- The parameters of a query with its sign. -/
def paramsOf : List Char → List (List Char)
  | [] => []
  | _ :: query => query.splitOn '&'

/-- The text of an address. -/
def text (u : Url) : List Char := u.path ++ queryOf u.params ++ u.fragment

/-- The pieces between delimiters hold no delimiter. -/
theorem not_mem_splitOn {d : Char} {text piece : List Char} (h : piece∈text.splitOn d) :
    d ∉ piece := by
  induction text generalizing piece with
  | nil =>
    rw [splitOn_nil,mem_singleton] at h
    rw [h]
    exact not_mem_nil
  | cons c text ih =>
    rw [splitOn_cons_eq_if_modifyHead] at h
    by_cases hc : (c == d)=true
    · rw [if_pos hc] at h
      rcases mem_cons.mp h with rfl | h
      · exact not_mem_nil
      · exact ih h
    · rw [if_neg hc] at h
      cases hsplit : text.splitOn d with
      | nil => exact absurd hsplit (splitOn_ne_nil d text)
      | cons first rest =>
        rw [hsplit,modifyHead_cons] at h
        rcases mem_cons.mp h with rfl | h
        · intro hmem
          rcases mem_cons.mp hmem with rfl | hmem
          · exact hc (beq_self_eq_true d)
          · exact ih (hsplit ▸ mem_cons_self) hmem
        · exact ih (hsplit ▸ mem_cons_of_mem first h)

/-- What a piece holds the joined text holds. -/
theorem mem_intercalate {c d : Char} {pieces : List (List Char)} {piece : List Char}
    (h : piece∈pieces) (hc : c∈piece) : c∈[d].intercalate pieces := by
  induction pieces with
  | nil => cases h
  | cons first rest ih =>
    cases rest with
    | nil =>
      rw [intercalate_singleton]
      rwa [mem_singleton.mp h] at hc
    | cons second rest =>
      rw [intercalate_cons_cons]
      rcases mem_cons.mp h with rfl | h
      · exact mem_append_left _ (mem_append_left _ hc)
      · exact mem_append_right _ (ih h)

/-- What the joined text holds is the delimiter or in a piece. -/
theorem mem_of_mem_intercalate {c d : Char} {pieces : List (List Char)}
    (h : c∈[d].intercalate pieces) : c=d ∨ ∃ piece∈pieces, c∈piece := by
  induction pieces with
  | nil => cases h
  | cons first rest ih =>
    cases rest with
    | nil =>
      rw [intercalate_singleton] at h
      exact Or.inr ⟨first,mem_cons_self,h⟩
    | cons second rest =>
      rw [intercalate_cons_cons] at h
      rcases mem_append.mp h with h | h
      · rcases mem_append.mp h with h | h
        · exact Or.inr ⟨first,mem_cons_self,h⟩
        · exact Or.inl (mem_singleton.mp h)
      · rcases ih h with h | ⟨piece,hpiece,hc⟩
        · exact Or.inl h
        · exact Or.inr ⟨piece,mem_cons_of_mem first hpiece,hc⟩

/-- A query has the parameters it is made of. -/
theorem paramsOf_queryOf {params : List (List Char)} (h : ∀ p∈params, '&' ∉ p) :
    paramsOf (queryOf params)=params := by
  cases params with
  | nil => rfl
  | cons p ps => exact splitOn_intercalate '&' h (cons_ne_nil p ps)

/-- A query is made of its parameters. -/
theorem queryOf_paramsOf {query : List Char} (h : query=[] ∨ query.head?=some '?') :
    queryOf (paramsOf query)=query := by
  cases query with
  | nil => rfl
  | cons c query =>
    rcases h with h | h
    · cases h
    · have hc : c = '?' := Option.some.inj h
      cases hsplit : query.splitOn '&' with
      | nil => exact absurd hsplit (splitOn_ne_nil '&' query)
      | cons p ps =>
        rw [paramsOf,hsplit,queryOf,← hsplit,intercalate_splitOn,hc]

/-- What a delimiter is dropped to is empty or starts with it. -/
theorem dropWhile_head (d : Char) (text : List Char) :
    text.dropWhile (· != d)=[] ∨ (text.dropWhile (· != d)).head?=some d := by
  cases hrest : text.dropWhile (· != d) with
  | nil => exact Or.inl rfl
  | cons c rest =>
    have hhead := head?_dropWhile_not (· != d) text
    rw [hrest] at hhead
    have hc : c=d := by simpa using hhead
    exact Or.inr (by rw [hc]; rfl)

/-- In front of a delimiter there is none. -/
theorem not_mem_takeWhile (d : Char) (text : List Char) : d ∉ text.takeWhile (· != d) := by
  intro hmem
  have hne := mem_takeWhile_imp hmem
  simp at hne

/-- What is in front of the fragment. -/
def headOf (text : List Char) : List Char := text.takeWhile (· != '#')

/-- The parameters in front of the fragment are clean. -/
theorem paramsOf_clean {text p : List Char}
    (h : p∈paramsOf ((headOf text).dropWhile (· != '?'))) : '&' ∉ p ∧ '#' ∉ p := by
  cases hquery : (headOf text).dropWhile (· != '?') with
  | nil =>
    rw [hquery] at h
    cases h
  | cons c query =>
    rw [hquery] at h
    refine ⟨not_mem_splitOn h,fun hmem => not_mem_takeWhile '#' text ?_⟩
    have hjoin : ['&'].intercalate (query.splitOn '&')=query := intercalate_splitOn '&'
    have hq : '#' ∈ query := hjoin ▸ mem_intercalate h hmem
    exact (dropWhile_suffix _).subset (hquery ▸ mem_cons_of_mem c hq)

/-- An address from its text. -/
def ofText (text : List Char) : Url where
  path := (headOf text).takeWhile (· != '?')
  params := paramsOf ((headOf text).dropWhile (· != '?'))
  fragment := text.dropWhile (· != '#')
  path_clean := ⟨not_mem_takeWhile '?' _,fun hmem =>
    not_mem_takeWhile '#' text ((List.takeWhile_prefix _).subset hmem)⟩
  params_clean := fun _ hp => paramsOf_clean hp
  fragment_clean := dropWhile_head '#' text

/-- Every text is the text of the address it is taken apart into. -/
theorem text_ofText (text : List Char) : (ofText text).text=text := by
  have hquery := queryOf_paramsOf (dropWhile_head '?' (headOf text))
  have hhead : (headOf text).takeWhile (· != '?') ++ (headOf text).dropWhile (· != '?') =
      headOf text := takeWhile_append_dropWhile
  have htext : headOf text ++ text.dropWhile (· != '#')=text := takeWhile_append_dropWhile
  rw [Url.text,ofText,hquery,hhead,htext]

/-- Cutting at a delimiter that stands only at the start of the second part. -/
theorem cut_append {d : Char} {front rest : List Char} (hfront : d ∉ front)
    (hrest : rest=[] ∨ rest.head?=some d) :
    (front ++ rest).takeWhile (· != d)=front ∧ (front ++ rest).dropWhile (· != d)=rest := by
  have hpass : ∀ c∈front, (c != d)=true := by
    intro c hc
    rw [bne_iff_ne]
    rintro rfl
    exact hfront hc
  rw [takeWhile_append_of_pos hpass,dropWhile_append_of_pos hpass]
  cases rest with
  | nil => exact ⟨append_nil front,rfl⟩
  | cons c rest =>
    rcases hrest with hrest | hrest
    · cases hrest
    · have hc : ¬(c != d)=true := by
        rw [bne_iff_ne,not_not]
        exact Option.some.inj hrest
      rw [takeWhile_cons_of_neg (p := (· != d)) hc,
        dropWhile_cons_of_neg (p := (· != d)) hc]
      exact ⟨append_nil front,rfl⟩

/-- There is no fragment sign in a query. -/
theorem not_mem_queryOf {params : List (List Char)} (h : ∀ p∈params, '#' ∉ p) :
    '#' ∉ queryOf params := by
  cases params with
  | nil => exact not_mem_nil
  | cons p ps =>
    intro hmem
    rcases mem_cons.mp hmem with hsign | hmem
    · cases hsign
    · rcases mem_of_mem_intercalate hmem with hsign | ⟨piece,hpiece,hc⟩
      · cases hsign
      · exact h piece hpiece hc

/-- A query is empty or starts with its sign. -/
theorem queryOf_head (params : List (List Char)) :
    queryOf params=[] ∨ (queryOf params).head?=some '?' := by
  cases params with
  | nil => exact Or.inl rfl
  | cons p ps => exact Or.inr rfl

/-- Every address is taken apart from its text. -/
theorem ofText_text (u : Url) : ofText u.text=u := by
  have hsign : '#' ∉ u.path ++ queryOf u.params := by
    rw [mem_append]
    rintro (hmem | hmem)
    · exact u.path_clean.2 hmem
    · exact not_mem_queryOf (fun p hp => (u.params_clean p hp).2) hmem
  obtain ⟨hhead,hfragment⟩ := cut_append hsign u.fragment_clean
  obtain ⟨hpath,hquery⟩ := cut_append u.path_clean.1 (queryOf_head u.params)
  have hcut : headOf u.text = u.path ++ queryOf u.params := hhead
  have hparams : paramsOf (queryOf u.params)=u.params :=
    paramsOf_queryOf fun p hp => (u.params_clean p hp).1
  have hpath' : (headOf u.text).takeWhile (· != '?')=u.path := by rw [hcut,hpath]
  have hparams' : paramsOf ((headOf u.text).dropWhile (· != '?'))=u.params := by
    rw [hcut,hquery,hparams]
  exact Url.ext hpath' hparams' hfragment

section patterns

variable {pat : List Char} {d : Char}

/-- A pattern without the delimiter stands on one side of it. -/
theorem infix_append_cons (hd : d ∉ pat) (xs ys : List Char) :
    pat <:+: xs ++ d::ys ↔ pat <:+: xs ∨ pat <:+: ys := by
  constructor
  · rintro ⟨s,t,h⟩
    rcases append_eq_append_iff.mp h with ⟨rest,hxs,_⟩ | ⟨rest,hfront,hback⟩
    · exact Or.inl ⟨s,rest,hxs.symm⟩
    · cases rest with
      | nil =>
        rw [append_nil] at hfront
        exact Or.inl ⟨s,[],by rw [append_nil,hfront]⟩
      | cons c rest =>
        rw [cons_append,cons.injEq] at hback
        obtain ⟨hc,hys⟩ := hback
        rcases append_eq_append_iff.mp hfront with ⟨part,_,hpat⟩ | ⟨part,_,hpart⟩
        · exact absurd (hpat ▸ mem_append_right part (hc ▸ mem_cons_self)) hd
        · cases part with
          | nil =>
            rw [nil_append,← hc] at hpart
            exact absurd (hpart ▸ mem_cons_self) hd
          | cons e part =>
            rw [cons_append,cons.injEq] at hpart
            exact Or.inr ⟨part,t,by rw [hys,hpart.2]⟩
  · rintro (⟨s,t,h⟩ | ⟨s,t,h⟩)
    · exact ⟨s,t ++ d::ys,by rw [← h,append_assoc _ t]⟩
    · exact ⟨xs ++ d::s,t,by rw [← h]; simp⟩

/-- A pattern without the delimiter that starts the second part stands in one part. -/
theorem infix_append_head (hne : pat≠[]) (hd : d ∉ pat) (xs : List Char) {ys : List Char}
    (hys : ys=[] ∨ ys.head?=some d) : pat <:+: xs ++ ys ↔ pat <:+: xs ∨ pat <:+: ys := by
  cases ys with
  | nil =>
    rw [append_nil,infix_nil]
    exact ⟨Or.inl,fun h => h.resolve_right hne⟩
  | cons c ys =>
    rcases hys with hys | hys
    · cases hys
    · have hc : c=d := Option.some.inj hys
      have halone := infix_append_cons hd [] ys
      rw [nil_append,infix_nil,or_iff_right hne] at halone
      rw [hc,infix_append_cons hd,halone]

/-- A pattern without the delimiter stands in one piece. -/
theorem infix_intercalate (hne : pat≠[]) (hd : d ∉ pat) (pieces : List (List Char)) :
    pat <:+: [d].intercalate pieces ↔ ∃ piece∈pieces, pat <:+: piece := by
  induction pieces with
  | nil =>
    rw [intercalate_nil,infix_nil]
    exact ⟨fun h => absurd h hne,fun ⟨_,h,_⟩ => absurd h not_mem_nil⟩
  | cons first rest ih =>
    cases rest with
    | nil =>
      rw [intercalate_singleton]
      exact ⟨fun h => ⟨first,mem_cons_self,h⟩,
        fun ⟨piece,hpiece,h⟩ => mem_singleton.mp hpiece ▸ h⟩
    | cons second rest =>
      rw [intercalate_cons_cons,append_assoc,singleton_append,
        infix_append_cons hd,ih]
      exact (exists_mem_cons_iff ..).symm

/-- A pattern without delimiters stands in a query where it stands in a parameter. -/
theorem infix_queryOf (hne : pat≠[]) (hq : '?' ∉ pat) (ha : '&' ∉ pat)
    (params : List (List Char)) : pat <:+: queryOf params ↔ ∃ p∈params, pat <:+: p := by
  cases params with
  | nil =>
    rw [queryOf,infix_nil]
    exact ⟨fun h => absurd h hne,fun ⟨_,h,_⟩ => absurd h not_mem_nil⟩
  | cons p ps =>
    have halone := infix_append_cons hq [] (['&'].intercalate (p::ps))
    rw [nil_append,infix_nil,or_iff_right hne] at halone
    rw [queryOf,halone,infix_intercalate hne ha]

/-- A pattern without delimiters stands in one part of an address. -/
theorem infix_text (hne : pat≠[]) (hq : '?' ∉ pat) (ha : '&' ∉ pat) (hs : '#' ∉ pat) (u : Url) :
    pat <:+: u.text ↔ pat <:+: u.path ∨ (∃ p∈u.params, pat <:+: p) ∨ pat <:+: u.fragment := by
  rw [text,infix_append_head hne hs _ u.fragment_clean,
    infix_append_head hne hq _ (queryOf_head u.params),infix_queryOf hne hq ha,or_assoc]

end patterns

end Url

end Misterplex
