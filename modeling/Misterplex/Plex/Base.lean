import Misterplex.Plex.PlayQueue

/-!
# The base address of a cast

A cast names the protocol, the host and the port of its server. They are joined to
a base address, unless the host is missing or known to be out of reach; then the
configured server takes its place.
-/

namespace Misterplex.Plex

open List

open Misterplex.Companion (behind found)

/-- The host in a base address or in the host part of one. -/
def hostOnly (hostOrUrl : List Char) : List Char :=
  (((behind "://".toList hostOrUrl).getD hostOrUrl).takeWhile (· != '/')).takeWhile (· != ':')

/-- A host in one of the networks of containers, which controllers report although it is
out of reach. -/
def isUnreachableHost (hostOrUrl : List Char) : Bool :=
  (["172.17.","172.18.","172.20.","172.21."].any fun net =>
      net.toList.isPrefixOf (hostOnly hostOrUrl)) ||
    ["172-17-","172-18-","172-20-","172-21-"].any fun net =>
      found net.toList (hostOnly hostOrUrl)

/-- The field, or the default when it is empty. -/
def fieldOr (field default : List Char) : List Char := if field.isEmpty then default else field

/-- The base address made of the fields of a cast; empty if there is none. -/
def buildPlexBase (protocol address port lanFallback : List Char) : List Char :=
  let addr := urlDecode address
  let proto := fieldOr protocol "http".toList
  let p := fieldOr port "32400".toList
  if addr.isEmpty || isUnreachableHost addr then
    if !lanFallback.isEmpty && !isUnreachableHost lanFallback then
      if found "://".toList lanFallback then lanFallback
      else "http://".toList ++ lanFallback ++ ':' :: p
    else []
  else if found "://".toList addr then addr
  else if addr.contains ':' then proto ++ "://".toList ++ addr
  else proto ++ "://".toList ++ addr ++ ':' :: p

theorem buildPlexBase_fallback {protocol address port lanFallback : List Char}
    (hlost : ((urlDecode address).isEmpty || isUnreachableHost (urlDecode address))=true)
    (hbase : found "://".toList lanFallback=true) :
    buildPlexBase protocol address port lanFallback=lanFallback ∨
      buildPlexBase protocol address port lanFallback=[] := by
  rw [buildPlexBase,if_pos hlost]
  by_cases hreach : (!lanFallback.isEmpty && !isUnreachableHost lanFallback)=true
  · rw [if_pos hreach,if_pos hbase]
    exact Or.inl rfl
  · rw [if_neg hreach]
    exact Or.inr rfl

open Companion

theorem length_pctDecodeFrom (skip : ℕ) (text : List Char) :
    (Companion.pctDecodeFrom skip text).length≤text.length := by
  induction text generalizing skip with
  | nil =>
    cases skip with
    | zero => exact le_refl _
    | succ skip => exact le_refl _
  | cons c rest ih =>
    cases skip with
    | succ skip =>
      rw [pctDecodeFrom,length_cons]
      have hrest := ih skip
      omega
    | zero =>
      have hrest := ih 0
      rw [pctDecodeFrom,length_cons]
      split
      · split
        · have hskipped := ih 2
          rw [length_cons]
          omega
        · rw [length_cons]
          omega
      · split
        · rw [length_cons]
          omega
        · rw [length_cons]
          omega

theorem length_urlDecode (text : List Char) : (urlDecode text).length≤text.length :=
  length_pctDecodeFrom 0 text

theorem urlDecode_eq_nil {text : List Char} (h : urlDecode text=[]) : text=[] := by
  cases text with
  | nil => rfl
  | cons c rest =>
    rw [urlDecode,pctDecode,pctDecodeFrom] at h
    split at h
    · split at h
      · cases h
      · cases h
    · split at h
      · cases h
      · cases h

theorem behind_scheme {front : List Char} (h : ':' ∉ front) (rest : List Char) :
    behind "://".toList (front ++ "://".toList ++ rest)=some rest := by
  induction front with
  | nil => exact behind_prefix (cons_ne_nil _ _) rest
  | cons c front ih =>
    have hc : ':' ≠ c := fun hcd => h (hcd ▸ mem_cons_self)
    have hhere : ¬"://".toList.isPrefixOf (c::(front ++ "://".toList ++ rest))=true := by
      simp [isPrefixOf,hc]
    rw [cons_append,cons_append,behind_cons,if_neg hhere]
    exact ih fun hmem => h (mem_cons_of_mem c hmem)

theorem found_infix (pat front rest : List Char) : found pat (front ++ pat ++ rest)=true := by
  induction front with
  | nil =>
    cases pat with
    | nil => cases rest <;> rfl
    | cons c pat =>
      rw [nil_append,found, behind_prefix (cons_ne_nil c pat)]
      rfl
  | cons c front ih =>
    rw [cons_append,cons_append,found,behind_cons]
    split
    · rfl
    · exact ih

theorem rdropWhile_withScheme {s : List Char} (hne : s≠[]) (hlast : s.getLast hne ≠ '/') :
    (withScheme s).rdropWhile (· == '/')=withScheme s := by
  rw [withScheme]
  split
  · rw [rdropWhile_eq_self_iff]
    intro hne'
    simpa using hlast
  · rw [rdropWhile_eq_self_iff]
    intro hne'
    rw [getLast_append_of_ne_nil hne' hne]
    simpa using hlast

theorem found_withScheme (s : List Char) : found "://".toList (withScheme s)=true := by
  have hhttp : "http://".toList = "http".toList ++ "://".toList := by decide
  rw [withScheme,hhttp]
  split
  · assumption
  · exact found_infix "://".toList "http".toList s

theorem found_withPort {s : List Char} (h : found "://".toList s=true) :
    found "://".toList (withPort s)=true := by
  obtain ⟨rest,hrest⟩ := Option.isSome_iff_exists.mp h
  obtain ⟨front,hfront⟩ := behind_eq hrest
  simp only [withPort,hrest]
  split
  · have htake : s.take (s.length-rest.length) = front ++ "://".toList := by
      rw [hfront,length_append,Nat.add_sub_cancel,take_left]
    rw [htake,append_assoc,append_assoc]
    exact found_infix _ front _
  · exact h

theorem found_completed {s : List Char} (hne : s≠[]) (hlast : s.getLast hne ≠ '/') :
    found "://".toList (withPort ((withScheme s).rdropWhile (· == '/')))=true := by
  rw [rdropWhile_withScheme hne hlast]
  exact found_withPort (found_withScheme s)

theorem trimmed_last {text : List Char}
    (hne : text.rdropWhile ('/' :: blanks).contains≠[]) :
    (text.rdropWhile ('/' :: blanks).contains).getLast hne ≠ '/' := by
  intro hslash
  have hkept := rdropWhile_last_not _ _ hne
  rw [hslash] at hkept
  exact hkept (by decide)

theorem found_normalizePlexBase {raw : String} (h : normalizePlexBase raw ≠ "") :
    found "://".toList (normalizePlexBase raw).toList=true := by
  simp only [normalizePlexBase] at h ⊢
  generalize htext : raw.toList.dropWhile blanks.contains=text at h ⊢
  split at h
  · exact absurd rfl h
  · rename_i hempty
    have hne : text.rdropWhile ('/' :: blanks).contains≠[] := fun hnil => by
      rw [hnil] at hempty
      exact hempty rfl
    rw [if_neg hempty]
    exact (congrArg (found "://".toList) String.toList_ofList).trans
      (found_completed hne (trimmed_last hne))

end Misterplex.Plex
