import Misterplex.Lib.Masking

/-!
# Redaction of log texts

Every text is redacted before it is written to a log. For each secret key the
values behind `key=` are replaced, up to the end of the query value, and then the
values behind `key:`, up to the end of the line. A key counts only at the start
of the text or behind a character that separates words.
-/

namespace Misterplex.Log

open Masking List

/-- The secret keys, in the order in which they are looked for. -/
def kKeys : List (List Char) :=
  ["X-Plex-Token".toList,"accessToken".toList,"PLEX_TOKEN".toList,"token".toList]

/-- What stands in place of a value. -/
def kRedacted : List Char := "REDACTED".toList

/-- A character behind which a key counts. -/
def isBoundary (prev : Char) : Bool :=
  prev == '&' || prev == '?' || prev == ' ' || prev == '\t' || prev == '\n' || prev == '\r' ||
    prev == ';' || prev == '"' || prev == '\''

/-- A key behind some text counts. -/
def isKeyBoundary (before : List Char) : Bool := edgeAt isBoundary before

/-- Query and configuration form: `Key=VALUE`. -/
def queryForm (key : List Char) : Rule Char where
  mark := key ++ ['=']
  mark_ne := List.append_ne_nil_of_right_ne_nil key (List.cons_ne_nil _ _)
  skips := []
  stops := "& \t\r\n\"'".toList

/-- Header form: `Key: VALUE`. -/
def headerForm (key : List Char) : Rule Char where
  mark := key ++ [':']
  mark_ne := List.append_ne_nil_of_right_ne_nil key (List.cons_ne_nil _ _)
  skips := [' ','\t']
  stops := ['\r','\n']

/-- The two passes for one key. -/
def redactKey (s key : List Char) : List Char :=
  let s := (queryForm key).maskFrom isBoundary kRedacted [] s
  (headerForm key).maskFrom isBoundary kRedacted [] s

/-- A text without the values of secret keys. -/
def redactSensitive (s : List Char) : List Char := kKeys.foldl redactKey s

/-- The eight passes in their order. -/
def forms : List (Rule Char) := kKeys.flatMap fun key => [queryForm key,headerForm key]

theorem redactSensitive_eq (s : List Char) :
    redactSensitive s=maskAll isBoundary kRedacted forms s := rfl

/-- A secret key with its separator. -/
def SecretMark (mark : List Char) : Prop := ∃ key∈kKeys, ∃ sep∈['=',':'], mark = key ++ [sep]

theorem marks_forms : Marks forms=SecretMark := by
  funext mark
  refine propext ⟨?_,?_⟩
  · rintro ⟨r,hr,rfl⟩
    obtain ⟨key,hkey,hr⟩ := mem_flatMap.mp hr
    rcases mem_cons.mp hr with rfl | hr
    · exact ⟨key,hkey,'=',mem_cons_self,rfl⟩
    · rw [mem_singleton.mp hr]
      exact ⟨key,hkey,':',mem_cons_of_mem _ mem_cons_self,rfl⟩
  · rintro ⟨key,hkey,sep,hsep,rfl⟩
    rcases mem_cons.mp hsep with rfl | hsep
    · exact ⟨queryForm key,mem_flatMap.mpr ⟨key,hkey,mem_cons_self⟩,rfl⟩
    · rw [mem_singleton.mp hsep]
      exact ⟨headerForm key,mem_flatMap.mpr ⟨key,hkey,
        mem_cons_of_mem _ mem_cons_self⟩,rfl⟩

theorem mark_inner :
    ∀ key∈kKeys, ∀ sep∈['=',':'], ∀ c ∈ key ++ [sep], isBoundary c=false := by
  decide

theorem mark_head : ∀ key∈kKeys, ∀ sep∈['=',':'], (key ++ [sep]).head?≠some 'R' := by
  decide

theorem forms_fit : ∀ r∈forms, r.Fits isBoundary kRedacted := by
  intro r hr
  obtain ⟨key,hkey,hr⟩ := mem_flatMap.mp hr
  have hheads : ∀ sep∈['=',':'], ∀ m rest, kRedacted=m::rest →
      (key ++ [sep]).head?≠some m := by
    intro sep hsep m rest hmask
    have hm : m = 'R' := (cons.inj hmask).1.symm
    rw [hm]
    exact mark_head key hkey sep hsep
  have hmask : ∀ c∈kRedacted, isBoundary c=false := by decide
  rcases mem_cons.mp hr with rfl | hr
  · have hsep : '=' ∈ ['=',':'] := mem_cons_self
    have hstops : ∀ c ∈ "& \t\r\n\"'".toList, isBoundary c=true := by decide
    exact ⟨mark_inner key hkey '=' hsep,nofun,hstops,hmask,hheads '=' hsep,nofun⟩
  · rw [mem_singleton.mp hr]
    have hsep : ':' ∈ ['=',':'] := mem_cons_of_mem _ mem_cons_self
    have hskips : ∀ c∈[' ','\t'], isBoundary c=true := by decide
    have hstops : ∀ c∈['\r','\n'], isBoundary c=true := by decide
    exact ⟨mark_inner key hkey ':' hsep,hskips,hstops,hmask,hheads ':' hsep,nofun⟩

theorem forms_apart : forms.Pairwise Rule.Apart := by
  have hmarks : forms.Pairwise fun r other => ¬r.mark <+: other.mark ∧ ¬other.mark <+: r.mark := by
    decide
  refine hmarks.imp ?_
  rintro r other ⟨hleft,hright⟩ text hr hother
  rcases prefix_or_prefix_of_prefix hr hother with h | h
  · exact hleft h
  · exact hright h

/-- A token consists of letters, digits and a few signs. -/
def isTokenChar (c : Char) : Bool := c.isAlphanum || ['-','_','.','%'].contains c

theorem tokenChar_inner {c : Char} (h : isTokenChar c=true) : isBoundary c=false := by
  rw [← Bool.not_eq_true]
  intro hboundary
  simp only [isBoundary,Bool.or_eq_true,beq_iff_eq] at hboundary
  rcases hboundary with (((((((h' | h') | h') | h') | h') | h') | h') | h') | h' <;>
    (rw [h'] at h; revert h; decide)

/-- A text with numbered holes in it. -/
abbrev Holed := List (Char ⊕ ℕ)

/-- Every hole directly follows a secret key at a key boundary and its separator. -/
def HolesAtSecrets (text : Holed) : Prop :=
  ∀ before n behind, text = before ++ Sum.inr n::behind →
    ∃ front key sep, key∈kKeys ∧ (sep = '=' ∨ sep = ':') ∧
      before = front ++ (key ++ [sep]).map Sum.inl ∧
      (front=[] ∨ ∃ rest prev, front = rest ++ [Sum.inl prev] ∧ isBoundary prev=true)

/-- What may be put into a hole. -/
def IsToken (secret : List Char) : Prop := secret≠[] ∧ ∀ c∈secret, isTokenChar c=true

/-- Some secret key stands at a key boundary and is followed by a separator. -/
def HoldsSecret (s : List Char) : Prop :=
  ∃ front key sep tail, key∈kKeys ∧ (sep = '=' ∨ sep = ':') ∧
    s = front ++ (key ++ [sep]) ++ tail ∧ isKeyBoundary front=true

theorem HolesAtSecrets.placed {text : Holed} (h : HolesAtSecrets text) :
    Placed isBoundary (Marks forms) true text := by
  intro before n behind htext
  obtain ⟨front,key,sep,hkey,hsep,hbefore,hedge⟩ := h before n behind htext
  refine ⟨front,key ++ [sep],?_,hbefore,hedge.imp (fun hnil => ⟨hnil,rfl⟩) id⟩
  rw [marks_forms]
  exact ⟨key,hkey,sep,by simpa using hsep,rfl⟩

theorem holesAtSecrets_one {front key tail : List Char} {sep : Char} (n : ℕ) (hkey : key∈kKeys)
    (hsep : sep = '=' ∨ sep = ':') (hedge : isKeyBoundary front=true) :
    HolesAtSecrets ((front ++ (key ++ [sep])).map Sum.inl ++ Sum.inr n::tail.map Sum.inl) := by
  intro before k behind htext
  have hletter : ∀ (letters : List Char) (k : ℕ), Sum.inr k ∉ letters.map Sum.inl := by
    intro letters k hmem
    obtain ⟨c,_,hc⟩ := mem_map.mp hmem
    cases hc
  have hbefore : before=(front ++ (key ++ [sep])).map Sum.inl := by
    rcases append_eq_append_iff.mp htext with ⟨rest,hfront,hrest⟩ | ⟨rest,hfront,hrest⟩
    · cases rest with
      | nil => rw [hfront,append_nil]
      | cons x rest =>
        rw [cons_append,cons.injEq] at hrest
        exact absurd (hrest.2 ▸ mem_append_right rest mem_cons_self) (hletter tail k)
    · cases rest with
      | nil => rw [hfront,append_nil]
      | cons x rest =>
        rw [cons_append,cons.injEq] at hrest
        have hmem : Sum.inr k∈(front ++ (key ++ [sep])).map Sum.inl := by
          rw [hfront,← hrest.1]
          exact mem_append_right before mem_cons_self
        exact absurd hmem (hletter _ k)
  refine ⟨front.map Sum.inl,key,sep,hkey,hsep,by rw [hbefore,map_append],?_⟩
  rcases eq_nil_or_concat front with hnil | ⟨rest,prev,hfront⟩
  · exact Or.inl (by rw [hnil]; rfl)
  · rw [hfront,concat_eq_append,isKeyBoundary,Rule.edgeAt_append_cons] at hedge
    refine Or.inr ⟨rest.map Sum.inl,prev,?_,hedge⟩
    rw [hfront,concat_eq_append,map_append]
    rfl

/-- What redaction writes to a log does not depend on the secrets, redacting twice
is redacting once, and a text without secrets is written as it is. -/
theorem redactSensitive_hides :
    (∀ (text : Holed) (secrets others : ℕ → List Char), HolesAtSecrets text →
      (∀ n, IsToken (secrets n)) → (∀ n, IsToken (others n)) →
      redactSensitive (fill secrets text)=redactSensitive (fill others text)) ∧
    (∀ s, redactSensitive (redactSensitive s)=redactSensitive s) ∧
    ∀ s, ¬HoldsSecret s → redactSensitive s=s := by
  constructor
  case left =>
    intro text secrets others hholes hsecrets hothers
    have hplain : ∀ {secrets : ℕ → List Char}, (∀ n, IsToken (secrets n)) →
        ∀ n, secrets n≠[] ∧ ∀ c∈secrets n, isBoundary c=false :=
      fun htoken n => ⟨(htoken n).1,fun c hc => tokenChar_inner ((htoken n).2 c hc)⟩
    have halike :=
      alike_fill (inner_marks forms_fit) (hplain hsecrets) (hplain hothers) hholes.placed
    exact maskAll_eq_of_alike forms_fit forms_apart halike
  case right =>
    constructor
    case left =>
      intro s
      exact maskAll_idem forms_fit forms_apart
    case right =>
      intro s hnone
      refine maskAll_of_masked forms_fit fun r hr => ?_
      have hmark : SecretMark r.mark := marks_forms ▸ ⟨r,hr,rfl⟩
      obtain ⟨key,hkey,sep,hsep,hmark⟩ := hmark
      have habsent : ∀ front tail, s = front ++ r.mark ++ tail →
          edgeAt isBoundary ([] ++ front)=false := by
        intro front tail hs
        rw [nil_append,← Bool.not_eq_true]
        intro hedge
        exact hnone ⟨front,key,sep,tail,hkey,by simpa using hsep,hmark ▸ hs,hedge⟩
      exact Rule.masked_of_absent habsent

/-- Two tokens in one request are written alike, and a plain line is kept. -/
theorem redactSensitive_hides_query :
    redactSensitive (fill (fun _ => "abc".toList)
      ("GET /a?X-Plex-Token=".toList.map Sum.inl ++ Sum.inr 0 :: "&b=1".toList.map Sum.inl)) =
    redactSensitive (fill (fun _ => "Z-9".toList)
      ("GET /a?X-Plex-Token=".toList.map Sum.inl ++ Sum.inr 0 :: "&b=1".toList.map Sum.inl)) ∧
    redactSensitive "token ring".toList = "token ring".toList := by
  have hkey : "X-Plex-Token".toList∈kKeys := mem_cons_self
  have hedge : isKeyBoundary "GET /a?".toList=true := by decide
  have hholes : HolesAtSecrets
      ("GET /a?X-Plex-Token=".toList.map Sum.inl ++ Sum.inr 0 :: "&b=1".toList.map Sum.inl) :=
    holesAtSecrets_one 0 hkey (Or.inl rfl) hedge
  have hplain : ¬HoldsSecret "token ring".toList := by
    rintro ⟨front,key,sep,tail,_,hsep,hs,_⟩
    have hmem : sep ∈ "token ring".toList := by
      rw [hs]
      simp
    rcases hsep with rfl | rfl <;> revert hmem <;> decide
  exact ⟨redactSensitive_hides.1 _ _ _ hholes (fun _ => ⟨by decide,by decide⟩)
    fun _ => ⟨by decide,by decide⟩,redactSensitive_hides.2.2 _ hplain⟩

end Misterplex.Log
