import Misterplex.Lib.FirstOccurrence
import Misterplex.Plex.Base

/-!
# The list of servers

Configured servers are separated by commas, semicolons or blanks. Each becomes a
base address, and the list keeps each of them once. A base address is taken for
complete when its authority names a port; the port of an authority that begins
with a bracket is only seen right behind the closing one.
-/

namespace Misterplex.Plex

open List

open Misterplex.Companion (behind found behind_eq behind_append)

/-- What separates configured servers. -/
def isSeparator (c : Char) : Bool :=
  c == ',' || c == ';' || c == ' ' || c == '\t' || c == '\n' || c == '\r'

/-- A server that has been read joins the list, unless it is empty or there already. -/
def flush (out : List String) (cur : List Char) : List String :=
  let n := normalizePlexBase (String.ofList cur)
  if n.isEmpty then out
  else if out.contains n then out
  else out ++ [n]

/-- The servers of a configuration text. -/
def parsePlexServerList (csvOrSingle : String) : List String :=
  let (out,cur) := csvOrSingle.toList.foldl
    (fun (out,cur) c => if isSeparator c then (flush out cur,[]) else (out,cur ++ [c]))
    (([],[]) : List String × List Char)
  flush out cur

variable (serversCsv : String)

/-- The servers of a configuration text, followed by those of further lines. -/
def mergePlexServers (baseLines : List String) : List String :=
  baseLines.foldl
    (fun out line => (parsePlexServerList line).foldl
      (fun out n => if out.contains n then out else out ++ [n]) out)
    (parsePlexServerList serversCsv)

/-- A text without blanks around it and without slashes behind it. -/
def trimmed (raw : List Char) : List Char :=
  (raw.dropWhile blanks.contains).rdropWhile ('/' :: blanks).contains

/-- What stands between the scheme of an address and its path. -/
def authority (s : List Char) : List Char :=
  ((behind "://".toList s).getD []).takeWhile (· != '/')

/-- An authority in brackets of which the bracket is never closed, or something other than
a port follows the closing one. -/
def unended (auth : List Char) : Bool :=
  match auth with
  | '[' :: _ =>
    match auth.dropWhile (· != ']') with
    | [] => true
    | [_] => false
    | _ :: c::_ => c != ':'
  | _ => false

/-- The authority of an address, completed by its scheme, is such a one. -/
def Unended (raw : String) : Prop :=
  unended (authority (withScheme (trimmed raw.toList)))=true

/-- A text that trimming leaves as it is, and that is not empty. -/
structure Trim (s : List Char) : Prop where
  ne : s≠[]
  first : ∀ c, s.head?=some c → blanks.contains c=false
  /-- neither blank nor slash at the end -/
  last : ∀ c, s.getLast?=some c → ('/' :: blanks).contains c = false

theorem toList_normalizePlexBase (raw : String) :
    (normalizePlexBase raw).toList =
      if trimmed raw.toList = [] then []
      else withPort ((withScheme (trimmed raw.toList)).rdropWhile (· == '/')) := by
  show (if (trimmed raw.toList).isEmpty = true then "" else _).toList=_
  by_cases hnil : trimmed raw.toList=[]
  · rw [if_pos hnil,hnil]
    rfl
  · have hempty : ¬(trimmed raw.toList).isEmpty=true := fun h => hnil (isEmpty_iff.mp h)
    rw [if_neg hnil,if_neg hempty,String.toList_ofList]
    rfl

theorem trim_trimmed {raw : List Char} (hne : trimmed raw≠[]) : Trim (trimmed raw) := by
  refine ⟨hne,fun c hc => ?_,fun c hc => ?_⟩
  · obtain ⟨rest,hrest⟩ : trimmed raw <+: raw.dropWhile blanks.contains := List.rdropWhile_prefix _ _
    have hfirst : (raw.dropWhile blanks.contains).head?=some c := by
      rw [← hrest,head?_append_of_ne_nil _ hne,hc]
    have hkept := head?_dropWhile_not blanks.contains raw
    rw [hfirst] at hkept
    exact hkept
  · have hlast := rdropWhile_last_not ('/' :: blanks).contains _ hne
    rw [getLast?_eq_some_getLast hne] at hc
    cases hc
    exact Bool.not_eq_true _ ▸ hlast

variable {s : List Char}

theorem Trim.trimmed_eq (h : Trim s) : trimmed s=s := by
  have hfront : s.dropWhile blanks.contains=s := by
    cases s with
    | nil => rfl
    | cons c s => rw [dropWhile_cons,h.first c rfl]; rfl
  rw [trimmed,hfront,rdropWhile_eq_self_iff]
  intro hne
  rw [h.last _ (getLast?_eq_some_getLast hne)]
  exact Bool.false_ne_true

theorem Trim.append {front rest : List Char} (hne : front≠[]) (hne' : rest≠[])
    (hfirst : ∀ c, front.head?=some c → blanks.contains c=false)
    (hlast : ∀ c, rest.getLast?=some c → ('/' :: blanks).contains c=false) :
    Trim (front ++ rest) := by
  refine ⟨append_ne_nil_of_left_ne_nil hne rest,fun c hc => ?_,fun c hc => ?_⟩
  · rw [head?_append_of_ne_nil _ hne] at hc
    exact hfirst c hc
  · rw [getLast?_append_of_ne_nil _ hne'] at hc
    exact hlast c hc

theorem Trim.rdropWhile_slash (h : Trim s) : s.rdropWhile (· == '/')=s := by
  rw [rdropWhile_eq_self_iff]
  intro hne hslash
  have hlast := h.last _ (getLast?_eq_some_getLast hne)
  rw [beq_iff_eq.mp hslash] at hlast
  revert hlast
  decide

theorem Trim.withScheme (h : Trim s) : Trim (withScheme s) := by
  rw [Plex.withScheme]
  split
  case isTrue => exact h
  case isFalse =>
    refine Trim.append (by decide) h.ne (fun c hc => ?_) h.last
    have hc' : c = 'h' := by
      cases hc
      rfl
    rw [hc']
    decide

theorem behind_exchange {pat front rest : List Char} (hpat : pat≠[])
    (h : behind pat (front ++ pat ++ rest)=some rest) (rest' : List Char) :
    behind pat (front ++ pat ++ rest')=some rest' := by
  have hsome : found pat (front ++ pat ++ [])=true := found_infix pat front []
  obtain ⟨tail,htail⟩ := Option.isSome_iff_exists.mp hsome
  rw [append_nil] at htail
  have hrest := behind_append hpat htail rest
  rw [h] at hrest
  have hnil : tail=[] := by
    have hlen := congrArg length (Option.some.inj hrest)
    rw [length_append] at hlen
    exact eq_nil_of_length_eq_zero (by omega)
  have hrest' := behind_append hpat htail rest'
  rw [hnil] at hrest'
  exact hrest'

/-- The port of the media server. -/
def defaultPort : List Char := ":32400".toList

variable {auth : List Char}

theorem hasPort_plain (h : ∀ a, auth ≠ '[' :: a) : hasPort auth=auth.contains ':' := by
  rw [hasPort]
  exact h

theorem unended_plain (h : ∀ a, auth ≠ '[' :: a) : unended auth=false := by
  rw [unended]
  exact h

/-- An authority without port has one behind the default port, unless its bracket hides it. -/
theorem hasPort_append (hne : auth≠[]) (hport : hasPort auth=false) :
    hasPort (auth ++ defaultPort) = !unended auth := by
  by_cases hbracket : ∃ a, auth = '[' :: a
  · obtain ⟨a,rfl⟩ := hbracket
    have hall : ('[' :: a ++ defaultPort).dropWhile (· != ']') =
        if ('[' :: a).dropWhile (· != ']') = [] then [] else
          ('[' :: a).dropWhile (· != ']') ++ defaultPort := by
      split
      case isTrue hnone =>
        rw [dropWhile_append,hnone]
        rfl
      case isFalse hsome =>
        rw [dropWhile_append,if_neg (by simpa using hsome)]
    have hleft : hasPort ('[' :: a ++ defaultPort) =
        ((('[' :: a ++ defaultPort).dropWhile (· != ']')).drop 1 |>.head? |> (· == some ':')) := rfl
    rw [hleft,hall]
    show _ = !(match ('[' :: a).dropWhile (· != ']') with
      | [] => true
      | [_] => false
      | _ :: c::_ => c != ':')
    cases hclosed : ('[' :: a).dropWhile (· != ']') with
    | nil => rfl
    | cons d more =>
      cases more with
      | nil => rfl
      | cons c more =>
        show (some c == some ':') = !(c != ':')
        rw [bne,Bool.not_not]
        rfl
  · have hnot : ∀ b, auth ≠ '[' :: b := fun b hb => hbracket ⟨b,hb⟩
    have hnot' : ∀ b, auth ++ defaultPort ≠ '[' :: b := by
      intro b hb
      cases auth with
      | nil => exact hne rfl
      | cons c a => exact hnot a (by rw [(cons.inj hb).1])
    rw [hasPort_plain hnot',unended_plain hnot]
    have hcolon : ':' ∈ auth ++ defaultPort := mem_append_right auth (by decide)
    exact contains_iff_mem.mpr hcolon

theorem unended_of_hasPort (h : hasPort auth=true) : unended auth=false := by
  by_cases hbracket : ∃ a, auth = '[' :: a
  · obtain ⟨a,rfl⟩ := hbracket
    have hport : ((('[' :: a).dropWhile (· != ']')).drop 1 |>.head? |> (· == some ':'))=true := h
    show (match ('[' :: a).dropWhile (· != ']') with
      | [] => true
      | [_] => false
      | _ :: c::_ => c != ':')=false
    cases hclosed : ('[' :: a).dropWhile (· != ']') with
    | nil =>
      rw [hclosed] at hport
      cases hport
    | cons d more =>
      rw [hclosed] at hport
      cases more with
      | nil => rfl
      | cons c more =>
        have hc : some c=some ':' := beq_iff_eq.mp hport
        rw [Option.some.inj hc]
        rfl
  · exact unended_plain fun a ha => hbracket ⟨a,ha⟩

theorem withPort_added {front rest : List Char}
    (h : behind "://".toList (front ++ "://".toList ++ rest)=some rest)
    (hne : rest.takeWhile (· != '/')≠[]) (hport : hasPort (rest.takeWhile (· != '/'))=false) :
    withPort (front ++ "://".toList ++ rest) = front ++ "://".toList ++
      (rest.takeWhile (· != '/') ++ defaultPort ++ rest.dropWhile (· != '/')) := by
  have hlen : (front ++ "://".toList ++ rest).length-rest.length =
      (front ++ "://".toList).length := by
    rw [length_append,Nat.add_sub_cancel]
  have hdrop : rest.drop (rest.takeWhile (· != '/')).length=rest.dropWhile (· != '/') := by
    have hsplit : rest=rest.takeWhile (· != '/') ++ rest.dropWhile (· != '/') :=
      takeWhile_append_dropWhile.symm
    have hdropped := @drop_left _ (rest.takeWhile (· != '/')) (rest.dropWhile (· != '/'))
    rwa [← hsplit] at hdropped
  have hempty : (rest.takeWhile (· != '/')).isEmpty=false := by
    rw [isEmpty_eq_false_iff]
    exact hne
  rw [withPort,h]
  dsimp only
  rw [hport,hempty,if_pos (by decide),hlen,hdrop,take_left,defaultPort]
  simp only [append_assoc]

theorem withPort_kept {s rest : List Char} (h : behind "://".toList s=some rest)
    (hkept : rest.takeWhile (· != '/')=[] ∨ hasPort (rest.takeWhile (· != '/'))=true) :
    withPort s=s := by
  have hcond : (!hasPort (rest.takeWhile (· != '/')) && !(rest.takeWhile (· != '/')).isEmpty) =
      false := by
    rcases hkept with hnil | hport
    · rw [hnil,Bool.and_eq_false_iff]
      exact Or.inr rfl
    · rw [hport]
      rfl
  rw [withPort,h]
  dsimp only
  rw [hcond]
  rfl

/-- An address with scheme: what stands in front of it, its authority and its path. -/
theorem scheme_parts (h : found "://".toList s=true) :
    ∃ front rest, s = front ++ "://".toList ++ rest ∧ behind "://".toList s=some rest ∧
      authority s=rest.takeWhile (· != '/') := by
  obtain ⟨rest,hrest⟩ := Option.isSome_iff_exists.mp h
  obtain ⟨front,hfront⟩ := behind_eq hrest
  exact ⟨front,rest,hfront,hrest,by rw [authority,hrest]; rfl⟩

theorem Trim.withPort (h : Trim s) (hscheme : found "://".toList s=true) : Trim (withPort s) := by
  obtain ⟨front,rest,hs,hrest,hauth⟩ := scheme_parts hscheme
  by_cases hkept : rest.takeWhile (· != '/')=[] ∨ hasPort (rest.takeWhile (· != '/'))=true
  · rw [withPort_kept hrest hkept]
    exact h
  · obtain ⟨hne,hport⟩ := not_or.mp hkept
    have hfront : front ++ "://".toList≠[] := append_ne_nil_of_right_ne_nil _ (by decide)
    rw [hs] at hrest
    rw [hs,withPort_added hrest hne (Bool.not_eq_true _ ▸ hport)]
    refine Trim.append hfront ?_ (fun c hc => ?_) (fun c hc => ?_)
    · exact append_ne_nil_of_left_ne_nil (append_ne_nil_of_left_ne_nil hne _) _
    · refine h.first c ?_
      rw [hs,head?_append_of_ne_nil _ hfront,hc]
    · by_cases hpath : rest.dropWhile (· != '/')=[]
      · have hdefault : defaultPort≠[] := by decide
        rw [hpath,append_nil,getLast?_append_of_ne_nil _ hdefault] at hc
        have hzero : c = '0' := by
          cases hc
          rfl
        rw [hzero]
        decide
      · refine h.last c ?_
        have hsplit : rest=rest.takeWhile (· != '/') ++ rest.dropWhile (· != '/') :=
          takeWhile_append_dropWhile.symm
        have hrestne : rest≠[] := fun hnil => hpath (by rw [hnil]; rfl)
        rw [getLast?_append_of_ne_nil _ hpath] at hc
        rw [hs,getLast?_append_of_ne_nil _ hrestne,hsplit,
          getLast?_append_of_ne_nil _ hpath,hc]

theorem withPort_withPort (hscheme : found "://".toList s=true) :
    withPort (withPort s)=withPort s ↔ unended (authority s)=false := by
  obtain ⟨front,rest,hs,hrest,hauth⟩ := scheme_parts hscheme
  rw [hauth]
  by_cases hkept : rest.takeWhile (· != '/')=[] ∨ hasPort (rest.takeWhile (· != '/'))=true
  · have hended : unended (rest.takeWhile (· != '/'))=false := by
      rcases hkept with hnil | hport
      · rw [hnil]
        rfl
      · exact unended_of_hasPort hport
    rw [withPort_kept hrest hkept,withPort_kept hrest hkept]
    exact iff_of_true rfl hended
  · obtain ⟨hne,hport⟩ := not_or.mp hkept
    have hport' : hasPort (rest.takeWhile (· != '/'))=false := Bool.not_eq_true _ ▸ hport
    rw [hs] at hrest
    rw [hs,withPort_added hrest hne hport']
    have hrest' := behind_exchange (by decide) hrest
      (rest.takeWhile (· != '/') ++ defaultPort ++ rest.dropWhile (· != '/'))
    have hfree : ∀ c∈rest.takeWhile (· != '/') ++ defaultPort, (c != '/')=true := by
      intro c hc
      rcases mem_append.mp hc with hmem | hmem
      · exact all_eq_true.mp all_takeWhile c hmem
      · have hdefault : ∀ c∈defaultPort, (c != '/')=true := by decide
        exact hdefault c hmem
    have hpath : (rest.dropWhile (· != '/')).takeWhile (· != '/')=[] := by
      cases htail : rest.dropWhile (· != '/') with
      | nil => rfl
      | cons c tail =>
        have hslash := head?_dropWhile_not (· != '/') rest
        rw [htail] at hslash
        rw [takeWhile_cons_of_neg (by simpa using hslash)]
    have htake : (rest.takeWhile (· != '/') ++ defaultPort ++
        rest.dropWhile (· != '/')).takeWhile (· != '/') =
        rest.takeWhile (· != '/') ++ defaultPort := by
      rw [takeWhile_append_of_pos hfree,hpath,append_nil]
    have hadded := hasPort_append hne hport'
    cases hended : unended (rest.takeWhile (· != '/')) with
    | false =>
      rw [hended] at hadded
      refine iff_of_true (withPort_kept hrest' (Or.inr ?_)) rfl
      rw [htake]
      exact hadded
    | true =>
      rw [hended] at hadded
      refine iff_of_false (fun heq => ?_) Bool.noConfusion
      have hne' : (rest.takeWhile (· != '/') ++ defaultPort ++
          rest.dropWhile (· != '/')).takeWhile (· != '/')≠[] := by
        rw [htake]
        exact append_ne_nil_of_left_ne_nil hne _
      have hport'' : hasPort ((rest.takeWhile (· != '/') ++ defaultPort ++
          rest.dropWhile (· != '/')).takeWhile (· != '/'))=false := by
        rw [htake]
        exact hadded
      have hlen := congrArg length heq
      have hsplit := congrArg length (takeWhile_append_dropWhile
        (p := (· != '/')) (l := rest.takeWhile (· != '/') ++ defaultPort ++
          rest.dropWhile (· != '/')))
      have hfive : 0<defaultPort.length := by decide
      rw [withPort_added hrest' hne' hport''] at hlen
      simp only [length_append] at hlen hsplit
      omega

/-- The normal form is a fixed point exactly if no bracket hides the port of the address. -/
theorem normalizePlexBase_fixed (raw : String) :
    normalizePlexBase (normalizePlexBase raw)=normalizePlexBase raw ↔ ¬Unended raw := by
  have hchars : normalizePlexBase (normalizePlexBase raw)=normalizePlexBase raw ↔
      (normalizePlexBase (normalizePlexBase raw)).toList=(normalizePlexBase raw).toList :=
    String.toList_inj.symm
  rw [hchars,toList_normalizePlexBase (normalizePlexBase raw),toList_normalizePlexBase raw,
    Unended]
  by_cases hnil : trimmed raw.toList=[]
  · rw [if_pos hnil,hnil]
    exact iff_of_true rfl (by decide)
  · have htrim := (trim_trimmed hnil).withScheme
    have hscheme := found_withScheme (trimmed raw.toList)
    have hdone := htrim.withPort hscheme
    rw [if_neg hnil,htrim.rdropWhile_slash,hdone.trimmed_eq,if_neg hdone.ne]
    have hkept : withScheme (withPort (withScheme (trimmed raw.toList))) =
        withPort (withScheme (trimmed raw.toList)) := if_pos (found_withPort hscheme)
    rw [hkept,hdone.rdropWhile_slash,withPort_withPort hscheme,Bool.not_eq_true]

/-- The texts between the separators. -/
def listed (csvOrSingle : String) : List String :=
  (csvOrSingle.toList.splitOnP isSeparator).map String.ofList

/-- The normal forms of the servers of a text; a text of blanks and slashes is no server. -/
def normalForms (csvOrSingle : String) : List String :=
  ((listed csvOrSingle).map normalizePlexBase).filter fun n => !n.isEmpty

open FirstOccurrence

theorem flush_eq (out : List String) (cur : List Char) :
    flush out cur=(([normalizePlexBase (String.ofList cur)]).filter fun n => !n.isEmpty).foldl
      FirstOccurrence.addNew out := by
  rw [flush]
  by_cases hempty : (normalizePlexBase (String.ofList cur)).isEmpty = true
  · rw [if_pos hempty,filter_cons_of_neg (by simpa using hempty),filter_nil]
    rfl
  · rw [if_neg hempty,filter_cons_of_pos (by simpa using hempty),filter_nil,
      foldl_cons,foldl_nil,addNew]
    exact if_congr contains_iff_mem rfl rfl

theorem parse_fold (text cur : List Char) (out : List String) :
    let read := text.foldl
      (fun (out,cur) c => if isSeparator c then (flush out cur,[]) else (out,cur ++ [c]))
      ((out,cur) : List String × List Char)
    flush read.1 read.2 =
      (((((text.splitOnP isSeparator).modifyHead (cur ++ ·)).map String.ofList).map
        normalizePlexBase).filter fun n => !n.isEmpty).foldl FirstOccurrence.addNew out := by
  induction text generalizing cur out with
  | nil =>
    rw [splitOnP_nil]
    dsimp only [foldl_nil,modifyHead,map]
    rw [append_nil,flush_eq]
  | cons c text ih =>
    rw [splitOnP_cons_eq_if_modifyHead]
    dsimp only [foldl_cons]
    cases hc : isSeparator c with
    | true =>
      have hrest := ih [] (flush out cur)
      have hsame : (text.splitOnP isSeparator).modifyHead ([] ++ ·) =
          text.splitOnP isSeparator := congrFun modifyHead_id _
      rw [hsame] at hrest
      rw [if_pos rfl,if_pos rfl,hrest,flush_eq,← foldl_append,← filter_append]
      dsimp only [modifyHead,map]
      rw [append_nil]
      rfl
    | false =>
      have hrest := ih (cur ++ [c]) out
      rw [if_neg Bool.false_ne_true,if_neg Bool.false_ne_true,hrest,modifyHead_modifyHead]
      have hcons : ((cur ++ ·) ∘ cons c)=((cur ++ [c]) ++ ·) := by
        funext text
        rw [append_assoc]
        rfl
      rw [hcons]

theorem parsePlexServerList_eq (csvOrSingle : String) :
    parsePlexServerList csvOrSingle=(normalForms csvOrSingle).eraseDups := by
  have hfold := parse_fold csvOrSingle.toList [] []
  have hsame : (csvOrSingle.toList.splitOnP isSeparator).modifyHead ([] ++ ·) =
      csvOrSingle.toList.splitOnP isSeparator := congrFun modifyHead_id _
  rw [hsame] at hfold
  have hfirst := foldl_addNew [] (normalForms csvOrSingle)
  exact hfold.trans hfirst

/-- The servers of all lines in order. -/
def allForms (baseLines : List String) : List String :=
  (serversCsv::baseLines).flatMap normalForms

theorem mergePlexServers_eq (baseLines : List String) :
    mergePlexServers serversCsv baseLines=(allForms serversCsv baseLines).eraseDups := by
  have hadd : (fun (out : List String) n => if out.contains n then out else out ++ [n]) =
      addNew := by
    funext out n
    exact if_congr contains_iff_mem rfl rfl
  have hlines : ∀ xs : List String, baseLines.foldl
      (fun out line => (parsePlexServerList line).foldl addNew out)
      xs.eraseDups=(xs ++ baseLines.flatMap normalForms).eraseDups := by
    induction baseLines with
    | nil =>
      intro xs
      rw [foldl_nil,flatMap_nil,append_nil]
    | cons line baseLines ih =>
      intro xs
      rw [foldl_cons,foldl_addNew,parsePlexServerList_eq,
        eraseDups_append_eraseDups,ih,flatMap_cons,append_assoc]
  rw [mergePlexServers,hadd,parsePlexServerList_eq,hlines,allForms,flatMap_cons]

theorem mem_withScheme {c : Char} (h : c∈withScheme s) : c ∈ "http://".toList ∨ c∈s := by
  rw [withScheme] at h
  split at h
  · exact Or.inr h
  · exact mem_append.mp h

theorem mem_withPort {c : Char} (h : c∈withPort s) : c∈s ∨ c∈defaultPort := by
  rw [withPort] at h
  split at h
  · exact Or.inl h
  · rename_i rest hrest
    have hsub : ∀ d∈rest, d∈s := fun d hd => (Companion.behind_suffix hrest).subset hd
    dsimp only at h
    split at h
    · rcases mem_append.mp h with h | h
      · rcases mem_append.mp h with h | h
        · rcases mem_append.mp h with h | h
          · exact Or.inl (mem_of_mem_take h)
          · exact Or.inl (hsub c ((List.takeWhile_prefix _).subset h))
        · exact Or.inr h
      · exact Or.inl (hsub c (mem_of_mem_drop h))
    · exact Or.inl h

theorem not_separator_normalizePlexBase {raw : String}
    (h : ∀ c∈raw.toList, isSeparator c=false) :
    ∀ c∈(normalizePlexBase raw).toList, isSeparator c=false := by
  intro c hc
  rw [toList_normalizePlexBase] at hc
  split at hc
  · cases hc
  · have hport : ∀ d∈defaultPort, isSeparator d=false := by decide
    have hscheme : ∀ d ∈ "http://".toList, isSeparator d=false := by decide
    rcases mem_withPort hc with hc | hc
    · rcases mem_withScheme ((List.rdropWhile_prefix _ _).subset hc) with hc | hc
      · exact hscheme c hc
      · have hdropped := (List.rdropWhile_prefix _ _).subset hc
        exact h c ((dropWhile_suffix _).subset hdropped)
    · exact hport c hc

theorem not_separator_splitOnP {text piece : List Char} (h : piece∈text.splitOnP isSeparator) :
    ∀ c∈piece, isSeparator c=false := by
  induction text generalizing piece with
  | nil =>
    rw [splitOnP_nil,mem_singleton] at h
    rw [h]
    exact fun c hc => absurd hc not_mem_nil
  | cons d text ih =>
    rw [splitOnP_cons_eq_if_modifyHead] at h
    split at h
    case isTrue =>
      rcases mem_cons.mp h with rfl | h
      · exact fun c hc => absurd hc not_mem_nil
      · exact ih h
    case isFalse hd =>
      cases hsplit : text.splitOnP isSeparator with
      | nil => exact absurd hsplit (splitOnP_ne_nil _ _)
      | cons first rest =>
        rw [hsplit,modifyHead_cons] at h
        rcases mem_cons.mp h with rfl | h
        · intro c hc
          rcases mem_cons.mp hc with rfl | hc
          · exact Bool.not_eq_true _ ▸ hd
          · exact ih (hsplit ▸ mem_cons_self) c hc
        · exact ih (hsplit ▸ mem_cons_of_mem first h)

theorem not_separator_listed {csvOrSingle piece : String} (h : piece∈listed csvOrSingle) :
    ∀ c∈piece.toList, isSeparator c=false := by
  obtain ⟨text,htext,rfl⟩ := mem_map.mp h
  rw [String.toList_ofList]
  exact not_separator_splitOnP htext

theorem splitOnP_join {pieces : List (List Char)} (hne : pieces≠[])
    (h : ∀ p∈pieces, ∀ c∈p, isSeparator c=false) :
    ([','].intercalate pieces).splitOnP isSeparator=pieces := by
  induction pieces with
  | nil => exact absurd rfl hne
  | cons p pieces ih =>
    have hp := h p mem_cons_self
    cases pieces with
    | nil =>
      rw [intercalate_singleton]
      exact splitOnP_eq_singleton hp
    | cons q pieces =>
      have hrest := ih (cons_ne_nil q pieces) fun r hr => h r (mem_cons_of_mem p hr)
      rw [intercalate_cons_cons,append_assoc,singleton_append,
        splitOnP_append_cons_of_forall_mem hp ',' rfl,hrest]

/-- All servers of the configuration text and of the lines. -/
def allListed (baseLines : List String) : List String :=
  (serversCsv::baseLines).flatMap listed

theorem allForms_eq (baseLines : List String) : allForms serversCsv baseLines =
      ((allListed serversCsv baseLines).map normalizePlexBase).filter fun n => !n.isEmpty := by
  rw [allForms,allListed,map_flatMap,filter_flatMap]
  rfl

/-- What a list of servers is good for: no server twice, each in normal form, in the order in
which they are listed first, every listed server among them, and the same list when it is written
with commas and read again. -/
structure MergesRight (serversCsv : String) (baseLines : List String) : Prop where
  /-- No server comes twice. -/
  nodup : (mergePlexServers serversCsv baseLines).Nodup
  /-- Every server is normalised. -/
  fixed : ∀ n∈mergePlexServers serversCsv baseLines, normalizePlexBase n=n
  /-- They come in the order in which they are listed first. -/
  order : (mergePlexServers serversCsv baseLines).Pairwise fun a b =>
    (allForms serversCsv baseLines).idxOf a<(allForms serversCsv baseLines).idxOf b
  /-- Nothing is lost and nothing made up. -/
  mem : ∀ n, n∈mergePlexServers serversCsv baseLines ↔
    n ≠ "" ∧ ∃ piece∈allListed serversCsv baseLines, normalizePlexBase piece=n
  /-- The list is read back as itself. -/
  again : parsePlexServerList (",".intercalate (mergePlexServers serversCsv baseLines)) =
    mergePlexServers serversCsv baseLines

/-- The merged servers are the normal forms of the listed ones that are not empty. -/
theorem mem_mergePlexServers (baseLines : List String) (n : String) :
    n∈mergePlexServers serversCsv baseLines ↔
      n ≠ "" ∧ ∃ piece∈allListed serversCsv baseLines, normalizePlexBase piece=n := by
  rw [mergePlexServers_eq,mem_eraseDups,allForms_eq,mem_filter,mem_map,
    and_comm]
  rw [Bool.not_eq_true',← Bool.not_eq_true,String.isEmpty_iff]

theorem parse_join {servers : List String} (hnodup : servers.Nodup)
    (hfixed : ∀ n∈servers, normalizePlexBase n=n) (hne : ∀ n∈servers, n ≠ "")
    (hclean : ∀ n∈servers, ∀ c∈n.toList, isSeparator c=false) :
    parsePlexServerList (",".intercalate servers)=servers := by
  rw [parsePlexServerList_eq]
  cases servers with
  | nil => decide
  | cons first rest =>
    have hpieces : listed (",".intercalate (first::rest))=first::rest := by
      have hfree : ∀ p∈(first::rest).map String.toList,
          ∀ c∈p, isSeparator c=false := by
        intro p hp
        obtain ⟨n,hn,rfl⟩ := mem_map.mp hp
        exact hclean n hn
      have hjoin : ([','].intercalate ((first::rest).map String.toList)).splitOnP isSeparator =
          (first::rest).map String.toList := splitOnP_join (cons_ne_nil _ _) hfree
      have hid : String.ofList ∘ String.toList = id := funext fun _ => String.ofList_toList
      rw [listed,String.toList_intercalate]
      exact (congrArg (map String.ofList) hjoin).trans (by
        rw [map_map,hid,map_id])
    have hmap : (first::rest).map normalizePlexBase=first::rest :=
      (map_congr_left hfixed).trans (map_id _)
    have hfilter : (first::rest).filter (fun n => !n.isEmpty)=first::rest :=
      filter_eq_self.mpr fun n hn => by
        rw [Bool.not_eq_true',← Bool.not_eq_true,String.isEmpty_iff]
        exact hne n hn
    rw [normalForms,hpieces,hmap,hfilter,eraseDups_eq_self hnodup]

/-- The merged list is what it is good for exactly if no bracket hides the port of a listed
server. -/
theorem mergesRight_iff (baseLines : List String) : MergesRight serversCsv baseLines ↔
      ∀ piece∈allListed serversCsv baseLines, ¬Unended piece := by
  have hmem := mem_mergePlexServers serversCsv baseLines
  constructor
  · intro h piece hpiece
    by_cases hempty : normalizePlexBase piece = ""
    · refine (normalizePlexBase_fixed piece).mp ?_
      rw [hempty]
      decide
    · exact (normalizePlexBase_fixed piece).mp
        (h.fixed _ ((hmem _).mpr ⟨hempty,piece,hpiece,rfl⟩))
  · intro h
    have hnodup : (mergePlexServers serversCsv baseLines).Nodup := by
      rw [mergePlexServers_eq]
      exact nodup_eraseDups _
    have hfixed : ∀ n∈mergePlexServers serversCsv baseLines, normalizePlexBase n=n := by
      intro n hn
      obtain ⟨_,piece,hpiece,rfl⟩ := (hmem n).mp hn
      exact (normalizePlexBase_fixed piece).mpr (h piece hpiece)
    have hclean : ∀ n∈mergePlexServers serversCsv baseLines,
        ∀ c∈n.toList, isSeparator c=false := by
      intro n hn
      obtain ⟨_,piece,hpiece,rfl⟩ := (hmem n).mp hn
      obtain ⟨line,_,hline⟩ := mem_flatMap.mp hpiece
      exact not_separator_normalizePlexBase (not_separator_listed hline)
    have horder := pairwise_eraseDups (allForms serversCsv baseLines)
    rw [← mergePlexServers_eq] at horder
    exact ⟨hnodup,hfixed,horder,hmem,
      parse_join hnodup hfixed (fun n hn => ((hmem n).mp hn).1) hclean⟩

/-- Normal forms are fixed points, and merged lists are lists of them, exactly if no bracket hides
the port of an address. -/
theorem servers_right (raw serversCsv : String) (baseLines : List String) :
    (normalizePlexBase (normalizePlexBase raw)=normalizePlexBase raw ↔ ¬Unended raw) ∧
      (MergesRight serversCsv baseLines ↔
        ∀ piece∈allListed serversCsv baseLines, ¬Unended piece) :=
  ⟨normalizePlexBase_fixed raw,mergesRight_iff serversCsv baseLines⟩

/-- A bracket that is never closed: the port is added again and again. -/
theorem not_servers_right :
    ¬((∀ raw : String, normalizePlexBase (normalizePlexBase raw)=normalizePlexBase raw) ∧
      ∀ (serversCsv : String) (baseLines : List String), MergesRight serversCsv baseLines) := by
  intro h
  have hraw := h.1 "[::1"
  revert hraw
  decide

end Misterplex.Plex
