import Misterplex.Companion.Text
import Misterplex.Playback.UniversalOffset

/-!
# Offset parameters

Putting an offset into a universal address replaces the first parameter whose
name is `offset`, or adds one behind the others. Path, fragment and all other
parameters stay.
-/

namespace Misterplex.UniversalOffset

open Search List
open Masking (locate edgeAt)

/-- A parameter that carries an offset. -/
def isOffset (param : List Char) : Bool := offsetKey.isPrefixOf param

/-- The parameters with the first offset replaced, if there is one. -/
def replaceParam (value : List Char) : List (List Char) → Option (List (List Char))
  | [] => none
  | p::ps => if isOffset p then some (value::ps) else (replaceParam value ps).map (p :: ·)

/-- The parameters with the first offset replaced or one added. -/
def setParam (value : List Char) (params : List (List Char)) : List (List Char) :=
  (replaceParam value params).getD (params ++ [value])

/-- The parameters end with a sign. -/
def isAmp (c : Char) : Bool := c == '&'

/-- A query with the first offset parameter replaced, read from left to right; whether a
parameter starts is carried along. -/
def replaceIn (value : List Char) (atKey : Bool) : List Char → Option (List Char)
  | [] => none
  | c::query =>
    if atKey && offsetKey.isPrefixOf (c::query) then
      some (value ++ (c::query).dropWhile (· != '&'))
    else (replaceIn value (isAmp c) query).map (c :: ·)

theorem offsetKey_inner : ∀ c∈offsetKey, isAmp c=false := by decide

theorem offsetKey_ne : offsetKey≠[] := by decide

variable {value : List Char} {atKey : Bool} {front tail query : List Char}

theorem replaceIn_inner (h : ∀ c∈front, isAmp c=false) :
    replaceIn value false (front ++ query)=(replaceIn value false query).map (front ++ ·) := by
  induction front with
  | nil => exact Option.map_id'.symm
  | cons c front ih =>
    have hnot : ¬(false && offsetKey.isPrefixOf (c::(front ++ query)))=true :=
      Bool.false_ne_true
    rw [cons_append,replaceIn,if_neg hnot,h c mem_cons_self,
      ih fun d hd => h d (mem_cons_of_mem c hd),Option.map_map]
    rfl

theorem replaceIn_none (h : locate offsetKey query=none) :
    replaceIn value atKey query=none := by
  induction query generalizing atKey with
  | nil => rfl
  | cons c query ih =>
    rw [locate] at h
    by_cases hhere : offsetKey.isPrefixOf (c::query)=true
    · rw [if_pos hhere] at h
      cases h
    · rw [if_neg hhere] at h
      have hnot : ¬(atKey && offsetKey.isPrefixOf (c::query))=true := by
        rw [Bool.and_eq_true]
        exact fun hboth => hhere hboth.2
      rw [replaceIn,if_neg hnot,ih (Option.map_eq_none_iff.mp h)]
      rfl

theorem replaceIn_locate (done : List Char) (h : locate offsetKey query=some (front,tail)) :
    replaceIn value (edgeAt isAmp done) query =
      if edgeAt isAmp (done ++ front) then some (front ++ value ++ tail.dropWhile (· != '&'))
      else (replaceIn value false tail).map (front ++ offsetKey ++ ·) := by
  induction query generalizing done front with
  | nil => cases h
  | cons c query ih =>
    rw [locate] at h
    by_cases hhere : offsetKey.isPrefixOf (c::query)=true
    · rw [if_pos hhere] at h
      obtain ⟨rest,hrest⟩ := List.isPrefixOf_iff_prefix.mp hhere
      cases h
      rw [← hrest,drop_left,append_nil,nil_append,nil_append]
      cases hedge : edgeAt isAmp done with
      | true =>
        rfl
      | false =>
        rw [replaceIn_inner offsetKey_inner]
        rfl
    · rw [if_neg hhere] at h
      have hnot : ¬(edgeAt isAmp done && offsetKey.isPrefixOf (c::query))=true := by
        rw [Bool.and_eq_true]
        exact fun hboth => hhere hboth.2
      cases hlater : locate offsetKey query with
      | none =>
        rw [hlater] at h
        cases h
      | some found =>
        rw [hlater] at h
        cases h
        have hrest := ih (done ++ [c]) hlater
        rw [Masking.Rule.edgeAt_append_cons,append_assoc,singleton_append] at hrest
        rw [replaceIn,if_neg hnot,hrest]
        split
        · rfl
        · rw [Option.map_map]
          rfl

theorem not_key_amp (query : List Char) : offsetKey.isPrefixOf ('&' :: query)=false := by
  rfl

theorem replaceIn_amp (query : List Char) :
    replaceIn value atKey ('&' :: query)=(replaceIn value true query).map ('&' :: ·) := by
  have hnot : ¬(atKey && offsetKey.isPrefixOf ('&' :: query))=true := by
    rw [not_key_amp,Bool.and_false]
    exact Bool.false_ne_true
  rw [replaceIn,if_neg hnot]
  rfl

theorem key_prefix {param : List Char} (rest : List Char)
    (hrest : rest=[] ∨ rest.head?=some '&') :
    offsetKey.isPrefixOf (param ++ rest)=isOffset param := by
  have hkey : '&' ∉ offsetKey := by decide
  cases rest with
  | nil =>
    rw [append_nil]
    rfl
  | cons c rest =>
    rcases hrest with hrest | hrest
    · cases hrest
    · have hc : c = '&' := Option.some.inj hrest
      rw [hc]
      exact Companion.isPrefixOf_append_delim hkey param rest

theorem replaceIn_param {param rest : List Char} (hparam : '&' ∉ param)
    (hnot : isOffset param=false) (hrest : rest=[] ∨ rest.head?=some '&') :
    replaceIn value true (param ++ rest)=(replaceIn value false rest).map (param ++ ·) := by
  have hkey : offsetKey.isPrefixOf (param ++ rest)=isOffset param := key_prefix rest hrest
  have hinner : ∀ c∈param, isAmp c=false := by
    intro c hc
    rw [isAmp,beq_eq_false_iff_ne]
    rintro rfl
    exact hparam hc
  cases param with
  | nil =>
    cases rest with
    | nil => rfl
    | cons c rest =>
      rcases hrest with hrest | hrest
      · cases hrest
      · have hc : c = '&' := Option.some.inj hrest
        rw [hc,nil_append,replaceIn_amp,replaceIn_amp,Option.map_map]
        rfl
  | cons c param =>
    have hmiss : ¬(true && offsetKey.isPrefixOf (c::(param ++ rest)))=true := by
      rw [← cons_append,hkey,hnot]
      exact Bool.false_ne_true
    rw [cons_append,replaceIn,if_neg hmiss,hinner c mem_cons_self,
      replaceIn_inner fun d hd => hinner d (mem_cons_of_mem c hd),Option.map_map]
    rfl

open Url

theorem replaceIn_offset {param rest : List Char} (hparam : '&' ∉ param)
    (hoffset : isOffset param=true) (hrest : rest=[] ∨ rest.head?=some '&') :
    replaceIn value true (param ++ rest)=some (value ++ rest) := by
  have hkey : offsetKey.isPrefixOf (param ++ rest)=isOffset param := key_prefix rest hrest
  obtain ⟨hcut,hkept⟩ := cut_append hparam hrest
  cases param with
  | nil => cases hoffset
  | cons c param =>
    have hhit : (true && offsetKey.isPrefixOf (c::(param ++ rest)))=true := by
      rw [← cons_append,hkey]
      exact hoffset
    rw [cons_append] at hkept ⊢
    rw [replaceIn,if_pos hhit,hkept]

theorem replaceParam_ne_nil {params later : List (List Char)}
    (h : replaceParam value params=some later) : later≠[] := by
  cases params with
  | nil => cases h
  | cons p ps =>
    rw [replaceParam] at h
    split at h
    · cases h
      exact cons_ne_nil _ _
    · obtain ⟨rest,_,rfl⟩ := Option.map_eq_some_iff.mp h
      exact cons_ne_nil _ _

theorem replaceIn_params {params : List (List Char)} (h : ∀ p∈params, '&' ∉ p)
    (hne : params≠[]) :
    replaceIn value true (['&'].intercalate params) =
      (replaceParam value params).map (['&'].intercalate ·) := by
  induction params with
  | nil => exact absurd rfl hne
  | cons p ps ih =>
    have hp := h p mem_cons_self
    cases ps with
    | nil =>
      cases hoffset : isOffset p with
      | true =>
        have hdone : replaceIn value true (p ++ [])=some (value ++ []) :=
          replaceIn_offset hp hoffset (Or.inl rfl)
        rw [append_nil,append_nil] at hdone
        rw [intercalate_singleton,hdone,replaceParam,if_pos hoffset,Option.map_some,
          intercalate_singleton]
      | false =>
        have hdone : replaceIn value true (p ++ [])=(replaceIn value false []).map (p ++ ·) :=
          replaceIn_param hp hoffset (Or.inl rfl)
        rw [append_nil] at hdone
        have hnot : ¬isOffset p=true := by
          rw [hoffset]
          exact Bool.false_ne_true
        rw [intercalate_singleton,hdone,replaceParam,if_neg hnot]
        rfl
    | cons q qs =>
      have hrest := ih (fun r hr => h r (mem_cons_of_mem p hr)) (cons_ne_nil q qs)
      rw [intercalate_cons_cons,append_assoc,singleton_append]
      cases hoffset : isOffset p with
      | true =>
        rw [replaceIn_offset hp hoffset (Or.inr rfl),replaceParam,if_pos hoffset,
          Option.map_some,intercalate_cons_cons,append_assoc,singleton_append]
      | false =>
        have hnot : ¬isOffset p=true := by
          rw [hoffset]
          exact Bool.false_ne_true
        have hstep : replaceParam value (p::q::qs) =
            (replaceParam value (q::qs)).map (p :: ·) := by
          rw [replaceParam,if_neg hnot]
        rw [replaceIn_param hp hoffset (Or.inr rfl),replaceIn_amp,hrest,hstep]
        cases hlater : replaceParam value (q::qs) with
        | none => rfl
        | some later =>
          have hjoin : ['&'].intercalate (p::later) = p ++ ['&'] ++ ['&'].intercalate later :=
            intercalate_cons_of_ne_nil (replaceParam_ne_nil hlater)
          rw [Option.map_some,Option.map_some,Option.map_some,Option.map_some,Option.map_some,
            hjoin,append_assoc,singleton_append]

theorem atKey_iff (before done rest : List Char) :
    ((before ++ ['?'] ++ done).length=before.length+1 ∨
      (before ++ ['?'] ++ done ++ rest)[(before ++ ['?'] ++ done).length-1]?=some '&') ↔
    edgeAt isAmp done=true := by
  rcases eq_nil_or_concat done with hnil | ⟨front,c,hdone⟩
  · rw [hnil,append_nil]
    exact ⟨fun _ => rfl,fun _ => Or.inl (length_append ..)⟩
  · rw [hdone,concat_eq_append,Masking.Rule.edgeAt_append_cons]
    have hlen : (before ++ ['?'] ++ (front ++ [c])).length =
        (before ++ ['?'] ++ front).length+1 := by
      simp only [length_append,length_singleton]
      omega
    have hlonger : (before ++ ['?'] ++ front).length≥before.length+1 := by
      simp only [length_append,length_singleton]
      omega
    have hget : (before ++ ['?'] ++ (front ++ [c]) ++ rest)[(before ++ ['?'] ++ front).length]? =
        some c := by
      have hjoin : before ++ ['?'] ++ (front ++ [c]) ++ rest =
          before ++ ['?'] ++ front ++ c::rest := by simp
      rw [hjoin,getElem?_append_right (Nat.le_refl _),Nat.sub_self]
      rfl
    rw [hlen,Nat.add_sub_cancel,hget,isAmp,beq_iff_eq,Option.some.injEq]
    constructor
    · rintro (h | h)
      · omega
      · exact h
    · exact Or.inr

theorem valEnd_eq (front tail fragment : List Char) :
    valEnd (front ++ (offsetKey ++ tail ++ fragment)) (front ++ (offsetKey ++ tail)).length
        front.length =
      (front ++ (offsetKey ++ tail.takeWhile (· != '&'))).length := by
  have hkey : '&' ∉ offsetKey := by decide
  have hfront : '&' ∉ offsetKey ++ tail.takeWhile (· != '&') := by
    rw [mem_append]
    exact fun h => h.elim hkey (not_mem_takeWhile '&' tail)
  have hcut : tail.takeWhile (· != '&') ++ tail.dropWhile (· != '&')=tail :=
    takeWhile_append_dropWhile
  rw [valEnd,find_append]
  rcases dropWhile_head '&' tail with hrest | hrest
  · have htail : tail.takeWhile (· != '&')=tail := by
      rw [hrest,append_nil] at hcut
      exact hcut
    rw [htail] at hfront ⊢
    cases hfound : locate ['&'] (offsetKey ++ tail ++ fragment) with
    | none => rfl
    | some found =>
      have hlate : (offsetKey ++ tail).length≤found.1.length := by
        by_contra hless
        have htext := Masking.locate_eq (show locate ['&'] _ = some (found.1,found.2) from hfound)
        rw [append_assoc found.1] at htext
        rcases append_eq_append_iff.mp htext with ⟨part,hpart,_⟩ | ⟨part,hpart,hback⟩
        · have hlen : found.1.length=(offsetKey ++ tail).length+part.length := by
            rw [hpart,length_append]
          omega
        · cases part with
          | nil =>
            rw [hpart,append_nil] at hless
            exact hless (Nat.le_refl _)
          | cons c part =>
            have hc := (cons.inj hback).1
            exact hfront (hpart ▸ mem_append_right found.1 (hc ▸ mem_cons_self))
      rw [Option.map_some]
      simp only [length_append] at hlate ⊢
      split <;> omega
  · obtain ⟨c,rest,hcons⟩ := exists_cons_of_ne_nil
      (show tail.dropWhile (· != '&')≠[] by rintro h; rw [h] at hrest; cases hrest)
    have hc : c = '&' := by
      rw [hcons] at hrest
      exact Option.some.inj hrest
    rw [hcons,hc] at hcut
    have htext : offsetKey ++ tail ++ fragment =
        (offsetKey ++ tail.takeWhile (· != '&')) ++ '&' :: (rest ++ fragment) := by
      have hsame := congrArg (fun later => offsetKey ++ later ++ fragment) hcut.symm
      refine hsame.trans ?_
      simp only [append_assoc,cons_append]
    have hlen := congrArg length hcut
    rw [htext,locate_char hfront,Option.map_some]
    simp only [length_append,length_cons] at hlen ⊢
    rw [if_neg (by omega)]

theorem replaceOffset_eq (before done rest : List Char) {fragment : List Char}
    (hfragment : fragment=[] ∨ fragment.head?=some '#') :
    replaceOffset (before ++ ['?'] ++ done ++ (rest ++ fragment)) value before.length
        (before ++ ['?'] ++ done ++ rest).length (before ++ ['?'] ++ done).length =
      (replaceIn value (edgeAt isAmp done) rest).map fun replaced =>
        before ++ ['?'] ++ done ++ (replaced ++ fragment) := by
  induction hsize : rest.length using Nat.strong_induction_on generalizing done rest with
  | _ n ih =>
    have hkey : '#' ∉ offsetKey := by decide
    rw [replaceOffset]
    cases hfound : locate offsetKey rest with
    | none =>
      rw [replaceIn_none hfound]
      split
      case h_1 => rfl
      case h_2 p hp =>
        rw [find_append] at hp
        obtain ⟨found,hlater,hp⟩ := Option.map_eq_some_iff.mp hp
        have hbehind := locate_behind hkey hfragment hfound offsetKey_ne hlater
        have hlen : (before ++ ['?'] ++ done ++ rest).length =
            (before ++ ['?'] ++ done).length+rest.length := length_append
        have hend : ¬p<(before ++ ['?'] ++ done ++ rest).length := by omega
        rw [if_neg hend]
        rfl
    | some found =>
      obtain ⟨front,tail⟩ := found
      have hrest := Masking.locate_eq hfound
      have hlater := Masking.locate_append hfound fragment
      have hplace : (before ++ ['?'] ++ (done ++ front)).length =
          (before ++ ['?'] ++ done).length+front.length := by
        rw [← append_assoc,length_append]
      have htext : before ++ ['?'] ++ done ++ (rest ++ fragment) =
          before ++ ['?'] ++ (done ++ front) ++ (offsetKey ++ tail ++ fragment) := by
        rw [hrest]
        simp only [append_assoc]
      have hends : before ++ ['?'] ++ done ++ rest =
          before ++ ['?'] ++ (done ++ front) ++ (offsetKey ++ tail) := by
        rw [hrest]
        simp only [append_assoc]
      have hp : find offsetKey (before ++ ['?'] ++ done ++ (rest ++ fragment))
          (before ++ ['?'] ++ done).length=some (before ++ ['?'] ++ (done ++ front)).length := by
        rw [find_append,hlater,Option.map_some,hplace]
      have hless : (before ++ ['?'] ++ (done ++ front)).length <
          (before ++ ['?'] ++ done ++ rest).length := by
        have hseven : offsetKey.length=7 := rfl
        have hlen : (before ++ ['?'] ++ (done ++ front) ++ (offsetKey ++ tail)).length =
            (before ++ ['?'] ++ (done ++ front)).length+(offsetKey.length+tail.length) := by
          simp only [length_append]
        rw [hends,hlen]
        omega
      rw [replaceIn_locate done hfound]
      split
      case h_1 hnone =>
        rw [hp] at hnone
        cases hnone
      case h_2 p hsome =>
        rw [hp,Option.some.injEq] at hsome
        have hatKey := atKey_iff before (done ++ front) (offsetKey ++ tail ++ fragment)
        rw [← htext] at hatKey
        rw [← hsome,if_pos hless]
        by_cases hedge : edgeAt isAmp (done ++ front)=true
        · have hvalue := valEnd_eq (before ++ ['?'] ++ (done ++ front)) tail fragment
          have hcut : tail.takeWhile (· != '&') ++ tail.dropWhile (· != '&')=tail :=
            takeWhile_append_dropWhile
          have hsplit : before ++ ['?'] ++ (done ++ front) ++ (offsetKey ++ tail ++ fragment) =
              before ++ ['?'] ++ (done ++ front) ++ (offsetKey ++ tail.takeWhile (· != '&')) ++
                (tail.dropWhile (· != '&') ++ fragment) := by
            have hsame := congrArg (fun later =>
              before ++ ['?'] ++ (done ++ front) ++ (offsetKey ++ later ++ fragment)) hcut.symm
            refine hsame.trans ?_
            simp only [append_assoc]
          rw [if_pos (hatKey.mpr hedge),if_pos hedge,htext,hends,hvalue,take_left,hsplit,
            drop_left,Option.map_some]
          simp only [append_assoc]
        · have hinner := Masking.Rule.edgeAt_inner offsetKey_ne offsetKey_inner (done ++ front)
          have hlater : tail.length<n := by
            have hlen := congrArg length hrest
            rw [length_append,length_append] at hlen
            have hseven : offsetKey.length=7 := rfl
            omega
          have hstep := ih tail.length hlater (done ++ front ++ offsetKey) tail rfl
          rw [hinner] at hstep
          have htext' : before ++ ['?'] ++ (done ++ front ++ offsetKey) ++ (tail ++ fragment) =
              before ++ ['?'] ++ done ++ (rest ++ fragment) := by
            rw [htext]
            simp only [append_assoc]
          have hends' : before ++ ['?'] ++ (done ++ front ++ offsetKey) ++ tail =
              before ++ ['?'] ++ done ++ rest := by
            rw [hends]
            simp only [append_assoc]
          have hpos : (before ++ ['?'] ++ (done ++ front ++ offsetKey)).length =
              (before ++ ['?'] ++ (done ++ front)).length+7 := by
            rw [← append_assoc,length_append]
            rfl
          rw [htext',hends',hpos] at hstep
          rw [if_neg fun h => hedge (hatKey.mp h),if_neg hedge,hstep,Option.map_map]
          refine congrArg (fun f => Option.map f _) (funext fun replaced => ?_)
          simp only [Function.comp_apply,append_assoc]

theorem offsetParam_clean (ms : ℤ) : '&' ∉ offsetParam ms ∧ '#' ∉ offsetParam ms := by
  have hdigits : ∀ c : Char, c.isDigit=false → c ∉ Nat.toDigits 10 (offSec ms) := by
    intro c hc hmem
    have hdigit := Nat.isDigit_of_mem_toDigits (by decide) (by decide) hmem
    rw [hc] at hdigit
    cases hdigit
  constructor
  case left =>
    intro hmem
    rcases mem_append.mp hmem with hkey | hmem
    · revert hkey
      decide
    · exact hdigits '&' rfl hmem
  case right =>
    intro hmem
    rcases mem_append.mp hmem with hkey | hmem
    · revert hkey
      decide
    · exact hdigits '#' rfl hmem

theorem isOffset_offsetParam (ms : ℤ) : isOffset (offsetParam ms)=true :=
  List.isPrefixOf_iff_prefix.mpr (prefix_append _ _)

theorem mem_replaceParam {params later : List (List Char)} {p : List Char}
    (h : replaceParam value params=some later) (hp : p∈later) : p=value ∨ p∈params := by
  induction params generalizing later with
  | nil => cases h
  | cons q ps ih =>
    rw [replaceParam] at h
    split at h
    · cases h
      exact (mem_cons.mp hp).imp id (mem_cons_of_mem q)
    · obtain ⟨rest,hrest,rfl⟩ := Option.map_eq_some_iff.mp h
      rcases mem_cons.mp hp with rfl | hp
      · exact Or.inr mem_cons_self
      · exact (ih hrest hp).imp id (mem_cons_of_mem q)

theorem mem_setParam {params : List (List Char)} {p : List Char} (hp : p∈setParam value params) :
    p=value ∨ p∈params := by
  rw [setParam] at hp
  cases hlater : replaceParam value params with
  | none =>
    rw [hlater,Option.getD_none] at hp
    rcases mem_append.mp hp with hp | hp
    · exact Or.inr hp
    · exact Or.inl (mem_singleton.mp hp)
  | some later =>
    rw [hlater,Option.getD_some] at hp
    exact mem_replaceParam hlater hp

/-- An address with the offset of a seek. -/
def setOffset (u : Url) (ms : ℤ) : Url :=
  { u with
    params := setParam (offsetParam ms) u.params
    params_clean := by
      intro p hp
      rcases mem_setParam hp with rfl | hp
      · exact offsetParam_clean ms
      · exact u.params_clean p hp }

theorem find_fragment (u : Url) :
    (find ['#'] u.text 0).getD u.text.length=(u.path ++ Url.queryOf u.params).length ∧
      fragmentAt u.text (find ['#'] u.text 0)=u.fragment := by
  have hsign : '#' ∉ u.path ++ queryOf u.params := by
    rw [mem_append]
    rintro (hmem | hmem)
    · exact u.path_clean.2 hmem
    · exact not_mem_queryOf (fun p hp => (u.params_clean p hp).2) hmem
  cases hfragment : u.fragment with
  | nil =>
    have hnone : find ['#'] u.text 0=none := by
      rw [text,hfragment,append_nil]
      exact find_char_none hsign
    rw [hnone,text,hfragment,append_nil]
    exact ⟨rfl,rfl⟩
  | cons c fragment =>
    have hc : c = '#' := by
      have hclean := u.fragment_clean
      rw [hfragment] at hclean
      rcases hclean with hclean | hclean
      · cases hclean
      · exact Option.some.inj hclean
    have htext : u.text = u.path ++ queryOf u.params ++ '#' :: fragment := by
      rw [text,hfragment,hc]
    rw [htext,find_char hsign,hc]
    exact ⟨rfl,drop_left⟩

theorem find_query_none {u : Url} (h : u.params=[]) {q : ℕ}
    (hq : find ['?'] u.text 0=some q) : u.path.length<q := by
  rw [text,h,queryOf,append_nil,find,drop_zero] at hq
  obtain ⟨found,hfound,hq⟩ := Option.map_eq_some_iff.mp hq
  have htext := Masking.locate_eq (show locate ['?'] _ = some (found.1,found.2) from hfound)
  rw [append_assoc] at htext
  rcases append_eq_append_iff.mp htext with ⟨part,hpart,hback⟩ | ⟨part,hpart,hback⟩
  · cases part with
    | nil =>
      have hclean := u.fragment_clean
      rw [hback] at hclean
      rcases hclean with hclean | hclean
      · cases hclean
      · cases hclean
    | cons c part =>
      rw [← hq,hpart,length_append,length_cons]
      omega
  · cases part with
    | nil =>
      have hclean := u.fragment_clean
      rw [nil_append] at hback
      rw [← hback] at hclean
      rcases hclean with hclean | hclean
      · cases hclean
      · cases hclean
    | cons c part =>
      have hc := (cons.inj hback).1
      exact absurd (hpart ▸ mem_append_right found.1 (hc ▸ mem_cons_self)) u.path_clean.1

theorem intercalate_concat {pieces : List (List Char)} (hne : pieces≠[]) (piece : List Char) :
    ['&'].intercalate (pieces ++ [piece])=['&'].intercalate pieces ++ ['&'] ++ piece := by
  induction pieces with
  | nil => exact absurd rfl hne
  | cons p ps ih =>
    cases ps with
    | nil =>
      rw [singleton_append,intercalate_cons_cons,intercalate_singleton,
        intercalate_singleton]
    | cons q qs =>
      rw [cons_append,cons_append,intercalate_cons_cons,← cons_append,
        ih (cons_ne_nil q qs),intercalate_cons_cons]
      simp only [append_assoc]

theorem withUniversalOffset_text (u : Url) (ms : ℤ) (h : isUniversalTranscodeUrl u.text=true) :
    withUniversalOffset u.text ms=(setOffset u ms).text := by
  obtain ⟨hend,hfragment⟩ := find_fragment u
  have htake : u.text.take (u.path ++ queryOf u.params).length =
      u.path ++ queryOf u.params := take_left
  have huniversal : ¬(!isUniversalTranscodeUrl u.text)=true := by
    rw [h]
    exact Bool.false_ne_true
  rw [withUniversalOffset,if_neg huniversal]
  dsimp only
  rw [hend,hfragment,htake]
  cases hparams : u.params with
  | nil =>
    have hnew : (setOffset u ms).text = u.path ++ '?' :: offsetParam ms ++ u.fragment := by
      rw [text,setOffset]
      simp only [hparams,setParam,replaceParam,Option.getD_none,nil_append,queryOf,
        intercalate_singleton]
    rw [hnew,queryOf,append_nil]
    split
    case h_1 => rfl
    case h_2 q hq => rw [if_pos (find_query_none hparams hq)]
  | cons p ps =>
    have hquery : queryOf (p::ps) = '?' :: ['&'].intercalate (p::ps) := rfl
    have hamp : ∀ p∈u.params, '&' ∉ p := fun p hp => (u.params_clean p hp).1
    have htext : u.text = u.path ++ ['?'] ++ [] ++ (['&'].intercalate (p::ps) ++ u.fragment) := by
      rw [text,hparams,hquery]
      simp only [append_assoc,cons_append,nil_append]
    have hq : find ['?'] u.text 0=some u.path.length := by
      rw [htext]
      simp only [append_assoc,cons_append,nil_append]
      exact find_char u.path_clean.1
    have hsearch : replaceOffset
        (u.path ++ ['?'] ++ [] ++ (['&'].intercalate (p::ps) ++ u.fragment))
        (offsetParam ms) u.path.length (u.path ++ ['?'] ++ [] ++ ['&'].intercalate (p::ps)).length
        (u.path ++ ['?'] ++ []).length =
        (replaceIn (offsetParam ms) true (['&'].intercalate (p::ps))).map fun replaced =>
          u.path ++ ['?'] ++ [] ++ (replaced ++ u.fragment) :=
      replaceOffset_eq u.path [] _ u.fragment_clean
    have hends : u.path ++ ['?'] ++ [] ++ ['&'].intercalate (p::ps) =
        u.path ++ '?' :: ['&'].intercalate (p::ps) := by simp
    have hstart : (u.path ++ ['?'] ++ []).length=u.path.length+1 := by simp
    have hparam : replaceIn (offsetParam ms) true (['&'].intercalate (p::ps)) =
        (replaceParam (offsetParam ms) (p::ps)).map (['&'].intercalate ·) :=
      replaceIn_params (hparams ▸ hamp) (cons_ne_nil p ps)
    rw [← htext,hends,hstart,hparam,Option.map_map] at hsearch
    have hnot : ¬u.path.length>(u.path ++ '?' :: ['&'].intercalate (p::ps)).length := by
      rw [length_append]
      omega
    rw [hquery,hq]
    dsimp only
    rw [if_neg hnot,hsearch]
    cases hlater : replaceParam (offsetParam ms) (p::ps) with
    | none =>
      have hnew : (setOffset u ms).params = p::ps ++ [offsetParam ms] := by
        rw [setOffset]
        simp only [hparams,setParam,hlater,Option.getD_none]
      have hjoin : queryOf (p::ps ++ [offsetParam ms]) =
          '?' :: (['&'].intercalate (p::ps) ++ ['&'] ++ offsetParam ms) :=
        congrArg ('?' :: ·) (intercalate_concat (cons_ne_nil p ps) _)
      rw [text,hnew,hjoin,setOffset]
      simp
    | some later =>
      have hnew : (setOffset u ms).params=later := by
        rw [setOffset]
        simp only [hparams,setParam,hlater,Option.getD_some]
      obtain ⟨q,qs,hcons⟩ := exists_cons_of_ne_nil (replaceParam_ne_nil hlater)
      rw [text,hnew,hcons,queryOf,setOffset]
      simp

end Misterplex.UniversalOffset
