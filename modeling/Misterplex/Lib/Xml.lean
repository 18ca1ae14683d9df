import Mathlib.Data.List.Basic

/-!
# Reading XML documents

A document is a text of bytes. It is legal when the bytes are the UTF-8 form of
characters that XML allows. A document of elements and attributes is read as the
list of what starts, what its attributes are and what ends; a document with any
other markup is not read.
-/

namespace Misterplex.Xml

open List

/-- A character that a document may hold. -/
def isXmlChar (code : ℕ) : Bool :=
  code == 9 || code == 10 || code == 13 || (32 ≤ code && code ≤ 0xD7FF) ||
    (0xE000 ≤ code && code ≤ 0xFFFD) || (0x10000 ≤ code && code ≤ 0x10FFFF)

/-- A character of several bytes that is being decoded. -/
structure Decoder where
  /-- bytes that are still to come -/
  need : ℕ
  code : ℕ
  /-- the least code that is written with this number of bytes -/
  least : ℕ
deriving DecidableEq

/-- Between two characters. -/
def Decoder.rest : Decoder := ⟨0,0,0⟩

/-- The byte that begins a character. -/
def Decoder.first (b : ℕ) : Option Decoder :=
  if b < 0x80 then if isXmlChar b then some .rest else none
  else if b < 0xC0 then none
  else if b < 0xE0 then some ⟨1,b-0xC0,0x80⟩
  else if b < 0xF0 then some ⟨2,b-0xE0,0x800⟩
  else if b < 0xF8 then some ⟨3,b-0xF0,0x10000⟩
  else none

variable (d : Decoder)

/-- One byte of a legal text. -/
def Decoder.step (c : Char) : Option Decoder :=
  match d.need with
  | 0 => Decoder.first c.toNat
  | need+1 =>
    if 0x80 ≤ c.toNat ∧ c.toNat < 0xC0 then
      let code := 64*d.code+(c.toNat-0x80)
      if need = 0 then if d.least ≤ code ∧ isXmlChar code then some .rest else none
      else some ⟨need,code,d.least⟩
    else none

/-- The bytes of a text in order. -/
def Decoder.run (text : List Char) : Option Decoder := text.foldlM Decoder.step d

/-- The bytes are the UTF-8 form of characters of XML. -/
def legal (text : List Char) : Bool := Decoder.rest.run text == some .rest

/-- A character of one byte that may stand in a document. -/
def isAscii (c : Char) : Bool := c.toNat < 0x80 && isXmlChar c.toNat

/-- Bytes are decoded piece by piece. -/
theorem run_append (front rest : List Char) :
    d.run (front ++ rest)=(d.run front).bind (·.run rest) :=
  foldlM_append

variable {c : Char}

/-- Between characters a character of one byte leads between characters. -/
theorem step_ascii (h : isAscii c=true) : Decoder.rest.step c=some .rest := by
  obtain ⟨hlow,hchar⟩ := Bool.and_eq_true_iff.mp h
  rw [decide_eq_true_eq] at hlow
  show Decoder.first c.toNat=some .rest
  rw [Decoder.first,if_pos hlow,if_pos hchar]

/-- A character of one byte does not stand inside another. -/
theorem step_ascii_none {d : Decoder} (hd : d.need≠0) (h : isAscii c=true) :
    d.step c=none := by
  obtain ⟨hlow,-⟩ := Bool.and_eq_true_iff.mp h
  rw [decide_eq_true_eq] at hlow
  obtain ⟨need,code,least⟩ := d
  cases need with
  | zero => exact absurd rfl hd
  | succ need => exact if_neg (by omega)

/-- Between two characters nothing of a code is known. -/
def Decoder.Proper : Prop := d.need=0 → d = .rest

/-- Decoding is proper. -/
theorem Proper.step {d d' : Decoder} (h : d.step c=some d') : d'.Proper := by
  obtain ⟨need,code,least⟩ := d
  cases need with
  | zero =>
    have hfirst : Decoder.first c.toNat=some d' := h
    intro hzero
    rw [Decoder.first] at hfirst
    split_ifs at hfirst
    all_goals cases hfirst
    · rfl
    all_goals cases hzero
  | succ need =>
    have hnext : (if 0x80 ≤ c.toNat ∧ c.toNat < 0xC0 then
        if need = 0 then
          if least ≤ 64*code+(c.toNat-0x80) ∧ isXmlChar (64*code+(c.toNat-0x80)) then
            some Decoder.rest
          else none
        else some ⟨need,64*code+(c.toNat-0x80),least⟩
      else none)=some d' := h
    intro hzero
    split_ifs at hnext with _ hlast
    · cases hnext
      rfl
    · cases hnext
      exact absurd hzero hlast

variable {text : List Char}

/-- Decoding is proper all along. -/
theorem Proper.run {d d' : Decoder} (hd : d.Proper) (h : d.run text=some d') : d'.Proper := by
  induction text generalizing d with
  | nil =>
    cases h
    exact hd
  | cons c text ih =>
    obtain ⟨d₁,hstep,hrest⟩ := Option.bind_eq_some_iff.mp h
    exact ih (Proper.step hstep) hrest

/-- The empty text is legal. -/
theorem legal_nil : legal []=true := rfl

/-- A character of one byte separates legal texts. -/
theorem legal_append_cons (hc : isAscii c=true) (front rest : List Char) :
    legal (front ++ c::rest)=(legal front && legal rest) := by
  have hrest : Decoder.Proper .rest := fun _ => rfl
  have hsplit : Decoder.rest.run (front ++ c::rest) =
      (Decoder.rest.run front).bind fun d => (d.step c).bind fun d' => d'.run rest :=
    run_append .rest front (c::rest)
  rw [legal,legal,hsplit]
  cases hfront : Decoder.rest.run front with
  | none => rfl
  | some d =>
    have hproper := Proper.run hrest hfront
    by_cases hneed : d.need=0
    · rw [hproper hneed,Option.bind_some,step_ascii hc,Option.bind_some,legal]
      rfl
    · have hne : d ≠ .rest := fun h => hneed (by rw [h]; rfl)
      have hother : (some d == some Decoder.rest)=false :=
        beq_false_of_ne fun h => hne (Option.some.inj h)
      rw [Option.bind_some,step_ascii_none hneed hc,hother]
      rfl

/-- Characters of one byte lead between characters again, and only from there. -/
theorem run_ascii {d : Decoder} (hd : d.Proper) (h : ∀ b∈c::text, isAscii b=true) :
    d.run (c::text) = if d.need = 0 then some .rest else none := by
  have hrest : ∀ t : List Char, (∀ b∈t, isAscii b=true) →
      Decoder.rest.run t=some .rest := by
    intro t
    induction t with
    | nil => exact fun _ => rfl
    | cons b t ih =>
      intro ht
      have hstep := step_ascii (ht b mem_cons_self)
      have hrun : Decoder.rest.run (b::t)=(Decoder.rest.step b).bind (·.run t) :=
        foldlM_cons
      rw [hrun,hstep]
      exact ih fun e he => ht e (mem_cons_of_mem b he)
  have hrun : d.run (c::text)=(d.step c).bind (·.run text) := foldlM_cons
  rw [hrun]
  split
  case isTrue hneed =>
    rw [hd hneed,step_ascii (h c mem_cons_self)]
    exact hrest text fun b hb => h b (mem_cons_of_mem c hb)
  case isFalse hneed =>
    rw [step_ascii_none hneed (h c mem_cons_self)]
    rfl

/-- A text of characters of one byte is legal. -/
theorem legal_ascii (h : ∀ c∈text, isAscii c=true) : legal text=true := by
  induction text with
  | nil => exact legal_nil
  | cons c text ih =>
    have hrest := ih fun d hd => h d (mem_cons_of_mem c hd)
    have hsplit := legal_append_cons (h c mem_cons_self) [] text
    rw [nil_append] at hsplit
    rw [hsplit,hrest]
    rfl

/-- What a document is read as. -/
inductive Event where
  | start (name : List Char)
  /-- an attribute of the element that started last -/
  | attribute (name value : List Char)
  | stop (name : List Char)
deriving DecidableEq

/-- A blank between attributes, which a value never holds once it is read. -/
def isBlank (c : Char) : Bool := c == ' ' || c == '\t' || c == '\n' || c == '\r'

/-- The value a quoted text stands for: references are replaced, and every line end or tab
becomes a space. -/
def unescape : List Char → Option (List Char)
  | [] => some []
  | '&' :: 'a' :: 'm' :: 'p' :: ';' :: text => (unescape text).map ('&' :: ·)
  | '&' :: 'l' :: 't' :: ';' :: text => (unescape text).map ('<' :: ·)
  | '&' :: 'g' :: 't' :: ';' :: text => (unescape text).map ('>' :: ·)
  | '&' :: 'q' :: 'u' :: 'o' :: 't' :: ';' :: text => (unescape text).map ('"' :: ·)
  | '&' :: 'a' :: 'p' :: 'o' :: 's' :: ';' :: text => (unescape text).map ('\'' :: ·)
  | '\r' :: '\n' :: text => (unescape text).map (' ' :: ·)
  | c::text =>
    if c = '&' then none else (unescape text).map ((if isBlank c then ' ' else c) :: ·)

/-- A character that a name may begin with. -/
def isNameStart (c : Char) : Bool := c.isAlpha || c == '_' || c == ':'

/-- A character of a name. -/
def isNameChar (c : Char) : Bool := isNameStart c || c.isDigit || c == '-' || c == '.'

/-- What is being read. -/
inductive Mode where
  | content
  | opened
  | tag (name : List Char)
  /-- a blank inside a tag -/
  | ready
  | name (name : List Char)
  | equals (name : List Char)
  | value (name raw : List Char)
  | behind
  /-- the tag ends without content -/
  | slash
  | closing (name : List Char)
deriving DecidableEq

/-- A document that is being read. -/
structure Reader where
  /-- Where the reader stands. -/
  mode : Mode
  /-- The elements that are open. -/
  stack : List (List Char)
  /-- the attributes of the element that started last -/
  names : List (List Char)
  /-- What has been read. -/
  events : List Event
deriving DecidableEq

/-- An element ends. -/
def Reader.pop (s : Reader) : Option Reader :=
  match s.stack with
  | [] => none
  | n::stack =>
    some { s with
      mode := .content
      stack := stack
      events := s.events ++ [.stop n] }

/-- Inside a tag, where an attribute or the end of the tag may follow. -/
def Reader.inTag (s : Reader) (c : Char) : Option Reader :=
  if isBlank c then some { s with mode := .ready }
  else if c = '/' then some { s with mode := .slash }
  else if c = '>' then some { s with mode := .content }
  else none

/-- One character of a document. -/
def Reader.step (s : Reader) (c : Char) : Option Reader :=
  match s.mode with
  | .content =>
    if c = '<' then some { s with mode := .opened }
    else if isBlank c then some s
    else none
  | .opened =>
    if c = '/' then some { s with mode := .closing [] }
    else if isNameStart c ∧ (s.stack≠[] ∨ s.events=[]) then some { s with mode := .tag [c] }
    else none
  | .tag n =>
    if isNameChar c then some { s with mode := .tag (n ++ [c]) }
    else Reader.inTag
      { s with
        stack := n::s.stack
        names := []
        events := s.events ++ [.start n] } c
  | .ready => if isNameStart c then some { s with mode := .name [c] } else s.inTag c
  | .name n =>
    if isNameChar c then some { s with mode := .name (n ++ [c]) }
    else if c = '=' ∧ n ∉ s.names then some { s with mode := .equals n }
    else none
  | .equals n => if c = '"' then some { s with mode := .value n [] } else none
  | .value n raw =>
    if c = '"' then
      (unescape raw).map fun v =>
        { s with
          mode := .behind
          names := n::s.names
          events := s.events ++ [.attribute n v] }
    else if c = '<' then none
    else some { s with mode := .value n (raw ++ [c]) }
  | .behind => s.inTag c
  | .slash => if c = '>' then s.pop else none
  | .closing n =>
    if isNameChar c then some { s with mode := .closing (n ++ [c]) }
    else if c = '>' ∧ s.stack.head? = some n then s.pop
    else none

/-- The characters of a document in order. -/
def Reader.run (s : Reader) (text : List Char) : Option Reader := text.foldlM Reader.step s

/-- In front of the first element. -/
def Reader.initial : Reader := ⟨.content,[],[],[]⟩

/-- The declaration of a document in UTF-8. -/
def declaration : List Char := "<?xml version=\"1.0\" encoding=\"UTF-8\"?>".toList

/-- What a document is read as, if it is one of a single root element. -/
def read (text : List Char) : Option (List Event) :=
  if legal text && declaration.isPrefixOf text then
    match Reader.initial.run (text.drop declaration.length) with
    | some ⟨.content,[],_,e::events⟩ => some (e::events)
    | _ => none
  else none

/-- A value that has been read holds no line end and no tab. -/
theorem unescape_flat {raw v : List Char} (h : unescape raw=some v) :
    ∀ c∈v, isBlank c=true → c = ' ' := by
  fun_induction unescape raw generalizing v with
  | case1 =>
    cases h
    exact fun c hc => absurd hc not_mem_nil
  | case2 text ih
  | case3 text ih
  | case4 text ih
  | case5 text ih
  | case6 text ih
  | case7 text ih =>
    obtain ⟨w,hw,rfl⟩ := Option.map_eq_some_iff.mp h
    intro c hc hblank
    rcases mem_cons.mp hc with rfl | hc
    · first | rfl | exact absurd hblank (by decide)
    · exact ih hw c hc hblank
  | case8 => cases h
  | case9 d text _ _ _ _ _ _ hamp ih =>
    obtain ⟨w,hw,rfl⟩ := Option.map_eq_some_iff.mp h
    intro c hc hblank
    rcases mem_cons.mp hc with rfl | hc
    · by_cases hd : isBlank d=true
      · exact if_pos hd
      · rw [if_neg hd] at hblank
        exact absurd hblank hd
    · exact ih hw c hc hblank

/-- A value is no longer than its text, and as long only without references; then it is the text
with its blanks made spaces. -/
theorem unescape_length {raw v : List Char} (h : unescape raw=some v) :
    v.length≤raw.length ∧
      (v.length=raw.length →
        '&' ∉ raw ∧ v = raw.map fun c => if isBlank c then ' ' else c) := by
  fun_induction unescape raw generalizing v with
  | case1 =>
    cases h
    exact ⟨Nat.le_refl _,fun _ => ⟨not_mem_nil,rfl⟩⟩
  | case2 text ih
  | case3 text ih
  | case4 text ih
  | case5 text ih
  | case6 text ih
  | case7 text ih =>
    obtain ⟨w,hw,rfl⟩ := Option.map_eq_some_iff.mp h
    have hlen := (ih hw).1
    simp only [length_cons]
    exact ⟨by omega,fun heq => by omega⟩
  | case8 => cases h
  | case9 d text _ _ _ _ _ _ hamp ih =>
    obtain ⟨w,hw,rfl⟩ := Option.map_eq_some_iff.mp h
    obtain ⟨hlen,hall⟩ := ih hw
    simp only [length_cons]
    refine ⟨by omega,fun heq => ?_⟩
    obtain ⟨hnone,hmap⟩ := hall (by omega)
    refine ⟨fun hmem => ?_,?_⟩
    · rcases mem_cons.mp hmem with heq' | hmem
      · exact hamp heq'.symm
      · exact hnone hmem
    · rw [map_cons,← hmap]

/-- A character that begins neither a reference nor a line end is read by itself. -/
theorem unescape_cons (hamp : c ≠ '&') (hret : c ≠ '\r') (text : List Char) :
    unescape (c::text)=(unescape text).map ((if isBlank c then ' ' else c) :: ·) := by
  rw [unescape]
  · exact if_neg hamp
  all_goals
    intros
    first
      | exact hamp ‹_›
      | exact hret ‹_›

/-- A text without references, line ends and tabs stands for itself. -/
theorem unescape_plain (h : '&' ∉ text)
    (hflat : ∀ c∈text, isBlank c=true → c = ' ') : unescape text=some text := by
  induction text with
  | nil => rfl
  | cons c text ih =>
    have hrest := ih (fun hmem => h (mem_cons_of_mem c hmem))
      fun d hd => hflat d (mem_cons_of_mem c hd)
    have hamp : c ≠ '&' := fun heq => h (heq ▸ mem_cons_self)
    have hret : c ≠ '\r' := by
      rintro rfl
      have hspace := hflat '\r' mem_cons_self rfl
      revert hspace
      decide
    have hself : (if isBlank c then ' ' else c)=c := by
      split
      case isTrue hblank => exact (hflat c mem_cons_self hblank).symm
      case isFalse => rfl
    rw [unescape_cons hamp hret,hrest,hself]
    rfl

/-- A document is read piece by piece. -/
theorem read_append (s : Reader) (front rest : List Char) :
    s.run (front ++ rest)=(s.run front).bind (·.run rest) :=
  foldlM_append

/-- A document is read character by character. -/
theorem read_cons (s : Reader) (c : Char) (rest : List Char) :
    s.run (c::rest)=(s.step c).bind (·.run rest) :=
  foldlM_cons

variable {s s' : Reader}

/-- A piece and what it is read to are followed by the rest. -/
theorem read_append_of {front : List Char} (h : s.run front=some s')
    (rest : List Char) : s.run (front ++ rest)=s'.run rest := by
  rw [read_append,h]
  rfl

/-- A character that is read is followed by the rest. -/
theorem read_cons_of (h : s.step c=some s') (rest : List Char) :
    s.run (c::rest)=s'.run rest := by
  rw [read_cons,h]
  rfl

/-- What attributes among some events hold is flat. -/
def Flat (events : List Event) : Prop :=
  ∀ n v, Event.attribute n v∈events → ∀ c∈v, isBlank c=true → c = ' '

/-- Behind some events there are more, and their values are flat. -/
def Reader.Grows (s s' : Reader) : Prop := ∃ more, s'.events = s.events ++ more ∧ Flat more

/-- Nothing has been read meanwhile. -/
theorem Grows.same (h : s'.events=s.events) : s.Grows s' :=
  ⟨[],by rw [h,append_nil],fun _ _ hmem => absurd hmem not_mem_nil⟩

/-- Something other than an attribute has been read. -/
theorem Grows.other {e : Event} (h : s'.events = s.events ++ [e])
    (he : ∀ n v, e ≠ .attribute n v) : s.Grows s' :=
  ⟨[e],h,fun n v hmem => absurd (mem_singleton.mp hmem).symm (he n v)⟩

/-- What is read grows further. -/
theorem Grows.trans {s₁ s₂ s₃ : Reader} (h : s₁.Grows s₂) (h' : s₂.Grows s₃) : s₁.Grows s₃ := by
  obtain ⟨more,heq,hflat⟩ := h
  obtain ⟨more',heq',hflat'⟩ := h'
  refine ⟨more ++ more',by rw [heq',heq,append_assoc],fun n v hmem => ?_⟩
  rcases mem_append.mp hmem with hmem | hmem
  · exact hflat n v hmem
  · exact hflat' n v hmem

open Grows

/-- An element that ends adds its end. -/
theorem Grows.pop (h : s.pop=some s') : s.Grows s' := by
  rw [Reader.pop] at h
  split at h
  · cases h
  · cases h
    exact other rfl nofun

/-- Inside a tag nothing is added. -/
theorem Grows.inTag (h : s.inTag c=some s') : s.Grows s' := by
  rw [Reader.inTag] at h
  split_ifs at h
  all_goals
    cases h
    exact same rfl

/-- Every character adds to what has been read. -/
theorem Grows.step (h : s.step c=some s') : s.Grows s' := by
  obtain ⟨mode,stack,names,events⟩ := s
  cases mode with
  | content =>
    simp only [Reader.step] at h
    split_ifs at h
    all_goals
      cases h
      exact same rfl
  | opened =>
    simp only [Reader.step] at h
    split_ifs at h
    all_goals
      cases h
      exact same rfl
  | tag n =>
    simp only [Reader.step] at h
    split_ifs at h
    · cases h
      exact same rfl
    · exact trans (other (e := .start n) rfl nofun) (Grows.inTag h)
  | ready =>
    simp only [Reader.step] at h
    split_ifs at h
    · cases h
      exact same rfl
    · exact Grows.inTag h
  | name n =>
    simp only [Reader.step] at h
    split_ifs at h
    all_goals
      cases h
      exact same rfl
  | equals n =>
    simp only [Reader.step] at h
    split_ifs at h
    cases h
    exact same rfl
  | value n raw =>
    simp only [Reader.step] at h
    split_ifs at h
    · obtain ⟨v,hv,rfl⟩ := Option.map_eq_some_iff.mp h
      refine ⟨[.attribute n v],rfl,fun m w hmem => ?_⟩
      cases mem_singleton.mp hmem
      exact unescape_flat hv
    · cases h
      exact same rfl
  | behind => exact Grows.inTag h
  | slash =>
    simp only [Reader.step] at h
    split_ifs at h
    exact Grows.pop h
  | closing n =>
    simp only [Reader.step] at h
    split_ifs at h
    · cases h
      exact same rfl
    · exact Grows.pop h

/-- What has been read stays, and all that is added is flat. -/
theorem Grows.run (h : s.run text=some s') : s.Grows s' := by
  induction text generalizing s with
  | nil =>
    cases h
    exact same rfl
  | cons c text ih =>
    obtain ⟨s₁,hstep,hrest⟩ := Option.bind_eq_some_iff.mp h
    exact trans (Grows.step hstep) (ih hrest)

/-- The characters form an XML name. -/
def IsName (n : List Char) : Prop :=
  ∃ c rest, n=c::rest ∧ isNameStart c=true ∧ ∀ d∈rest, isNameChar d=true

/-- An attribute as it is written, and the value it is written for. -/
structure Attribute where
  /-- The name. -/
  name : List Char
  /-- what stands between the quotes -/
  raw : List Char
  /-- The value. -/
  value : List Char

/-- An attribute in a tag. -/
def Attribute.spelled (a : Attribute) : List Char :=
  a.name ++ '=' :: '"' :: a.raw ++ ['"']

/-- What an attribute is read as. -/
def Attribute.event (a : Attribute) : Event := .attribute a.name a.value

/-- An attribute is read as the value it is written for. -/
structure Attribute.Reads (a : Attribute) : Prop where
  name : IsName a.name
  /-- no quote ends the value early -/
  quote : '"' ∉ a.raw
  bracket : '<' ∉ a.raw
  /-- what stands between the quotes is the value -/
  value : unescape a.raw=some a.value

/-- The rest of a name is read to its end. -/
theorem run_name (s : Reader) (n rest : List Char) (h : ∀ c∈rest, isNameChar c=true) :
    Reader.run { s with mode := .name n } rest=some { s with mode := .name (n ++ rest) } := by
  induction rest generalizing n with
  | nil => rw [append_nil]; rfl
  | cons c rest ih =>
    have hstep : Reader.step { s with mode := .name n } c =
        some { s with mode := .name (n ++ [c]) } := if_pos (h c mem_cons_self)
    rw [read_cons_of hstep,ih (n ++ [c]) fun d hd => h d (mem_cons_of_mem c hd),
      append_assoc]
    rfl

/-- A value is read to its end. -/
theorem run_value (s : Reader) (n raw rest : List Char) (hquote : '"' ∉ rest)
    (hbracket : '<' ∉ rest) :
    Reader.run { s with mode := .value n raw } rest =
      some { s with mode := .value n (raw ++ rest) } := by
  induction rest generalizing raw with
  | nil => rw [append_nil]; rfl
  | cons c rest ih =>
    have hc : c ≠ '"' := fun heq => hquote (heq ▸ mem_cons_self)
    have hc' : c ≠ '<' := fun heq => hbracket (heq ▸ mem_cons_self)
    have hstep : Reader.step { s with mode := .value n raw } c =
        some { s with mode := .value n (raw ++ [c]) } := (if_neg hc).trans (if_neg hc')
    rw [read_cons_of hstep,ih (raw ++ [c]) (fun hmem => hquote (mem_cons_of_mem c hmem))
      (fun hmem => hbracket (mem_cons_of_mem c hmem)),append_assoc]
    rfl

variable {n : List Char}

/-- The name of an attribute leads to its value. -/
theorem run_opening (s : Reader) (hmode : s.mode = .ready) (hn : IsName n) (hnew : n ∉ s.names) :
    s.run (n ++ ['=','"'])=some { s with mode := .value n [] } := by
  obtain ⟨c,rest,rfl,hc,hrest⟩ := hn
  have hfirst : s.step c=some { s with mode := .name [c] } := by
    rw [Reader.step,hmode]
    exact if_pos hc
  have hsign : Reader.step { s with mode := .name (c::rest) } '=' =
      some { s with mode := .equals (c::rest) } := by
    have hother : ¬isNameChar '=' = true := by decide
    rw [Reader.step]
    dsimp only
    rw [if_neg hother,if_pos ⟨rfl,hnew⟩]
  rw [cons_append,read_cons_of hfirst,read_append_of (run_name s [c] rest hrest)]
  exact read_cons_of hsign ['"']

/-- An attribute is read. -/
theorem run_attribute (s : Reader) (hmode : s.mode = .ready) {a : Attribute} (ha : a.Reads)
    (hnew : a.name ∉ s.names) :
    s.run a.spelled=some { s with
      mode := .behind
      names := a.name::s.names
      events := s.events ++ [a.event] } := by
  have htext : a.spelled=(a.name ++ ['=','"']) ++ (a.raw ++ ['"']) := by
    rw [Attribute.spelled,append_assoc,append_assoc]
    rfl
  have hvalue := run_value s a.name [] a.raw ha.quote ha.bracket
  rw [htext,read_append_of (run_opening s hmode ha.name hnew),read_append_of hvalue]
  have hclose : Reader.step { s with mode := .value a.name a.raw } '"' =
      (unescape a.raw).map fun v =>
        { s with
          mode := .behind
          names := a.name::s.names
          events := s.events ++ [.attribute a.name v] } := by
    rw [Reader.step]
    exact if_pos rfl
  rw [ha.value] at hclose
  exact read_cons_of hclose []

/-- Attributes, each with a blank behind it, are read in order. -/
theorem run_attributes (s : Reader) (hmode : s.mode = .ready) {attributes : List Attribute}
    (hreads : ∀ a∈attributes, a.Reads) (hnames : (attributes.map Attribute.name).Nodup)
    (hnew : ∀ a∈attributes, a.name ∉ s.names) :
    s.run (attributes.flatMap fun a => a.spelled ++ [' '])=some { s with
      names := (attributes.map Attribute.name).reverse ++ s.names
      events := s.events ++ attributes.map Attribute.event } := by
  induction attributes generalizing s with
  | nil =>
    show some s=some { s with names := [] ++ s.names, events := s.events ++ [] }
    rw [append_nil]
    rfl
  | cons a attributes ih =>
    have hfirst := run_attribute s hmode (hreads a mem_cons_self)
      (hnew a mem_cons_self)
    have hblank : Reader.step { s with
        mode := .behind
        names := a.name::s.names
        events := s.events ++ [a.event] } ' ' = some { s with
        mode := .ready
        names := a.name::s.names
        events := s.events ++ [a.event] } := rfl
    have hall : s.run (a.spelled ++ [' '])=some { s with
        mode := .ready
        names := a.name::s.names
        events := s.events ++ [a.event] } := by
      rw [read_append_of hfirst]
      exact read_cons_of hblank []
    have hdistinct := nodup_cons.mp hnames
    rw [flatMap_cons,read_append_of hall]
    have hrest := ih { s with
        mode := .ready
        names := a.name::s.names
        events := s.events ++ [a.event] } rfl (fun b hb => hreads b (mem_cons_of_mem a hb))
      hdistinct.2 fun b hb hmem => by
        rcases mem_cons.mp hmem with heq | hmem
        · exact hdistinct.1 (heq ▸ mem_map_of_mem hb)
        · exact hnew b (mem_cons_of_mem a hb) hmem
    rw [hrest]
    simp only [map_cons,reverse_cons,append_assoc,singleton_append,hmode]

/-- No bracket stands in front of the quote that ends a value. -/
theorem value_bracket {n raw text rest : List Char} (hquote : '"' ∉ text)
    (h : Reader.run { s with mode := .value n raw } (text ++ rest)=some s') : '<' ∉ text := by
  induction text generalizing raw with
  | nil => exact not_mem_nil
  | cons c text ih =>
    have hc : c ≠ '"' := fun heq => hquote (heq ▸ mem_cons_self)
    obtain ⟨s₁,hstep,hrest⟩ := Option.bind_eq_some_iff.mp h
    have hnext : (if c = '<' then none
        else some { s with mode := .value n (raw ++ [c]) })=some s₁ := by
      rw [Reader.step] at hstep
      dsimp only at hstep
      rw [if_neg hc] at hstep
      exact hstep
    split_ifs at hnext with hbracket
    cases hnext
    intro hmem
    rcases mem_cons.mp hmem with heq | hmem
    · exact hbracket heq.symm
    · exact ih (fun hq => hquote (mem_cons_of_mem c hq)) hrest hmem

/-- The value up to a quote is what it is read as. -/
theorem value_closed {n text rest : List Char} (hquote : '"' ∉ text)
    (h : Reader.run { s with mode := .value n [] } (text ++ '"' :: rest)=some s') :
    ∃ v more, unescape text=some v ∧ s'.events = s.events ++ .attribute n v::more := by
  have hvalue := run_value s n [] text hquote (value_bracket hquote h)
  rw [read_append_of hvalue] at h
  obtain ⟨s₁,hstep,hrest⟩ := Option.bind_eq_some_iff.mp h
  obtain ⟨v,hv,rfl⟩ := Option.map_eq_some_iff.mp hstep
  obtain ⟨more,hmore,-⟩ := run hrest
  refine ⟨v,more,hv,?_⟩
  rw [hmore,append_assoc]
  rfl

/-- A value that is read as its own text has no quote, no bracket and no reference. -/
theorem value_exact {n text rest : List Char}
    (h : Reader.run { s with mode := .value n [] } (text ++ '"' :: rest)=some s')
    (hread : ∃ more, s'.events = s.events ++ .attribute n text::more) :
    '"' ∉ text ∧ '<' ∉ text ∧ '&' ∉ text := by
  have hsplit : text=text.takeWhile (· != '"') ++ text.dropWhile (· != '"') :=
    takeWhile_append_dropWhile.symm
  have hfree : '"' ∉ text.takeWhile (· != '"') := fun hmem => by
    have hother := all_eq_true.mp all_takeWhile _ hmem
    revert hother
    decide
  have hclosed : ∃ rest', text ++ '"' :: rest=text.takeWhile (· != '"') ++ '"' :: rest' := by
    cases htail : text.dropWhile (· != '"') with
    | nil =>
      rw [htail,append_nil] at hsplit
      exact ⟨rest,by rw [← hsplit]⟩
    | cons c tail =>
      have hc := head?_dropWhile_not (· != '"') text
      rw [htail] at hc
      have hquote : c = '"' := by simpa using hc
      refine ⟨tail ++ '"' :: rest,?_⟩
      conv_lhs => rw [hsplit,htail,hquote,append_assoc]
      rfl
  obtain ⟨rest',hrest'⟩ := hclosed
  rw [hrest'] at h
  obtain ⟨v,more,hv,hevents⟩ := value_closed hfree h
  obtain ⟨more',hevents'⟩ := hread
  rw [hevents] at hevents'
  have hsame : v=text := by
    have hhead := (cons.inj (append_cancel_left hevents')).1
    injection hhead
  obtain ⟨hlen,hall⟩ := unescape_length hv
  have hlen' := congrArg length hsplit
  rw [length_append] at hlen'
  rw [hsame] at hlen hall
  have htail : text.dropWhile (· != '"')=[] := eq_nil_of_length_eq_zero (by omega)
  rw [htail,append_nil] at hsplit
  have hamp := (hall (by rw [← hsplit])).1
  have hbracket := value_bracket hfree h
  rw [← hsplit] at hfree hamp hbracket
  exact ⟨hfree,hbracket,hamp⟩

/-- A tag with a blank behind its name starts an element. -/
theorem run_start (s : Reader) (hmode : s.mode = .content)
    (hroot : s.stack≠[] ∨ s.events=[]) (hn : IsName n) :
    s.run ('<' :: n ++ [' '])=some { s with
      mode := .ready
      stack := n::s.stack
      names := []
      events := s.events ++ [.start n] } := by
  obtain ⟨c,rest,rfl,hc,hrest⟩ := hn
  have hopen : s.step '<' = some { s with mode := .opened } := by
    rw [Reader.step,hmode]
    rfl
  have hslash : c ≠ '/' := by
    rintro rfl
    revert hc
    decide
  have hfirst : Reader.step { s with mode := .opened } c=some { s with mode := .tag [c] } := by
    rw [Reader.step]
    dsimp only
    rw [if_neg hslash,if_pos ⟨hc,hroot⟩]
  have hname : Reader.run { s with mode := .tag [c] } rest =
      some { s with mode := .tag (c::rest) } := by
    have hall : ∀ front, Reader.run { s with mode := .tag front } rest =
        some { s with mode := .tag (front ++ rest) } := by
      induction rest with
      | nil => exact fun front => by rw [append_nil]; rfl
      | cons d rest ih =>
        intro front
        have hstep : Reader.step { s with mode := .tag front } d =
            some { s with mode := .tag (front ++ [d]) } := if_pos (hrest d mem_cons_self)
        rw [read_cons_of hstep,ih fun e he => hrest e (mem_cons_of_mem d he),
          append_assoc]
        rfl
    exact hall [c]
  have hblank : Reader.step { s with mode := .tag (c::rest) } ' ' = some { s with
      mode := .ready
      stack := (c::rest)::s.stack
      names := []
      events := s.events ++ [.start (c::rest)] } := by
    rfl
  rw [cons_append,read_cons_of hopen,cons_append,read_cons_of hfirst,
    read_append_of hname]
  exact read_cons_of hblank []

/-- An element without content ends. -/
theorem run_slash {s : Reader} (hmode : s.mode = .ready)
    {stack : List (List Char)} (hstack : s.stack=n::stack) : s.run ['/','>']=some { s with
      mode := .content
      stack := stack
      events := s.events ++ [.stop n] } := by
  have hslash : s.step '/' = some { s with mode := .slash } := by
    rw [Reader.step,hmode]
    rfl
  have hpop : Reader.step { s with mode := .slash } '>' = some { s with
      mode := .content
      stack := stack
      events := s.events ++ [.stop n] } := by
    show Reader.pop { s with mode := .slash } = _
    rw [Reader.pop]
    rw [hstack]
  rw [read_cons_of hslash]
  exact read_cons_of hpop []

/-- An element with content ends. -/
theorem run_stop {s : Reader} (hmode : s.mode = .content)
    {stack : List (List Char)} (hstack : s.stack=n::stack) (hn : ∀ c∈n, isNameChar c=true) :
    s.run ('<' :: '/' :: n ++ ['>'])=some { s with
      mode := .content
      stack := stack
      events := s.events ++ [.stop n] } := by
  have hopen : s.step '<' = some { s with mode := .opened } := by
    rw [Reader.step,hmode]
    rfl
  have hslash : Reader.step { s with mode := .opened } '/' =
      some { s with mode := .closing [] } := rfl
  have hname : ∀ front rest, (∀ c∈rest, isNameChar c=true) →
      Reader.run { s with mode := .closing front } rest =
        some { s with mode := .closing (front ++ rest) } := by
    intro front rest
    induction rest generalizing front with
    | nil => exact fun _ => by rw [append_nil]; rfl
    | cons d rest ih =>
      intro hrest
      have hstep : Reader.step { s with mode := .closing front } d =
          some { s with mode := .closing (front ++ [d]) } := if_pos (hrest d mem_cons_self)
      rw [read_cons_of hstep,ih (front ++ [d]) fun e he => hrest e (mem_cons_of_mem d he),
        append_assoc]
      rfl
  have hpop : Reader.step { s with mode := .closing n } '>' = some { s with
      mode := .content
      stack := stack
      events := s.events ++ [.stop n] } := by
    have hother : ¬isNameChar '>' = true := by decide
    have hhead : s.stack.head?=some n := by rw [hstack]; rfl
    rw [Reader.step]
    dsimp only
    rw [if_neg hother,if_pos ⟨rfl,hhead⟩,Reader.pop]
    rw [hstack]
  rw [cons_append,read_cons_of hopen,cons_append,read_cons_of hslash,
    read_append_of (hname [] n hn)]
  exact read_cons_of hpop []

/-- A character between the space and the end of the first table is of one byte. -/
theorem isAscii_of_range (hlow : 32≤c.toNat) (hhigh : c.toNat<128) : isAscii c=true := by
  have hchar : isXmlChar c.toNat=true := by
    simp [isXmlChar]
    omega
  rw [isAscii,hchar,Bool.and_true]
  exact decide_eq_true hhigh

/-- A character of a name is of one byte. -/
theorem isAscii_of_isNameChar (h : isNameChar c=true) : isAscii c=true := by
  unfold isNameChar isNameStart at h
  delta Char.isAlpha Char.isUpper Char.isLower at h
  simp only [Char.isDigit,Bool.or_eq_true,Bool.and_eq_true,decide_eq_true_eq,beq_iff_eq,
    ge_iff_le,UInt32.le_iff_toNat_le] at h
  rcases h with (((((h | h) | rfl) | rfl) | h) | rfl) | rfl
  · exact isAscii_of_range (Nat.le_trans (by decide) h.1) (Nat.lt_of_le_of_lt h.2 (by decide))
  · exact isAscii_of_range (Nat.le_trans (by decide) h.1) (Nat.lt_of_le_of_lt h.2 (by decide))
  · decide
  · decide
  · exact isAscii_of_range (Nat.le_trans (by decide) h.1) (Nat.lt_of_le_of_lt h.2 (by decide))
  · decide
  · decide

/-- A name is of characters of one byte. -/
theorem IsName.ascii (h : IsName n) : ∀ c∈n, isAscii c=true := by
  obtain ⟨first,rest,rfl,hfirst,hrest⟩ := h
  intro c hc
  refine isAscii_of_isNameChar ?_
  rcases mem_cons.mp hc with rfl | hc
  · rw [isNameChar,hfirst]
    rfl
  · exact hrest c hc

/-- A text of characters of one byte in front does not matter. -/
theorem legal_append {front : List Char} (h : ∀ c∈front, isAscii c=true) (rest : List Char) :
    legal (front ++ rest)=legal rest := by
  induction front with
  | nil => rfl
  | cons c front ih =>
    have hsplit := legal_append_cons (h c mem_cons_self) [] (front ++ rest)
    rw [nil_append,legal_nil,Bool.true_and] at hsplit
    rw [cons_append,hsplit,ih fun d hd => h d (mem_cons_of_mem c hd)]

/-- An attribute is legal if what stands between its quotes is. -/
theorem legal_spelled {a : Attribute} (hname : ∀ c∈a.name, isAscii c=true) (rest : List Char) :
    legal (a.spelled ++ rest)=(legal a.raw && legal rest) := by
  have htext : a.spelled ++ rest = a.name ++ ['=','"'] ++ (a.raw ++ '"' :: rest) := by
    rw [Attribute.spelled]
    simp only [append_assoc,cons_append,nil_append]
  have hopening : ∀ c ∈ a.name ++ ['=','"'], isAscii c=true := by
    intro c hc
    rcases mem_append.mp hc with hc | hc
    · exact hname c hc
    · have hsigns : ∀ d∈['=','"'], isAscii d=true := by decide
      exact hsigns c hc
  rw [htext,legal_append hopening,legal_append_cons (by decide)]

/-- Attributes are legal if what stands between their quotes is. -/
theorem legal_attributes {attributes : List Attribute}
    (hnames : ∀ a∈attributes, ∀ c∈a.name, isAscii c=true) (rest : List Char) :
    legal ((attributes.flatMap fun a => a.spelled ++ [' ']) ++ rest) =
      ((attributes.all fun a => legal a.raw) && legal rest) := by
  induction attributes with
  | nil => rfl
  | cons a attributes ih =>
    have hspace : ∀ c∈[' '], isAscii c=true := by decide
    have hblank := legal_append hspace ((attributes.flatMap fun a => a.spelled ++ [' ']) ++ rest)
    rw [flatMap_cons,append_assoc,append_assoc,
      legal_spelled (hnames a mem_cons_self),hblank,
      ih fun b hb => hnames b (mem_cons_of_mem a hb),all_cons,Bool.and_assoc]

/-- A document with the declaration is read from there on, if it is legal. -/
theorem read_declared {events : List Event} : read (declaration ++ text)=some events ↔
      legal (declaration ++ text)=true ∧ events≠[] ∧
        ∃ names, Reader.initial.run text=some ⟨.content,[],names,events⟩ := by
  have hprefix : declaration.isPrefixOf (declaration ++ text)=true :=
    List.isPrefixOf_iff_prefix.mpr (prefix_append _ _)
  rw [read, hprefix,Bool.and_true,drop_left]
  cases hlegal : legal (declaration ++ text) with
  | false => exact ⟨nofun,fun h => nomatch h.1⟩
  | true =>
    rw [if_pos rfl]
    constructor
    · intro h
      split at h
      case h_1 names e events' hrun =>
        cases h
        exact ⟨rfl,cons_ne_nil _ _,names,hrun⟩
      case h_2 => cases h
    · rintro ⟨-,hne,names,hrun⟩
      rw [hrun]
      cases events with
      | nil => exact absurd rfl hne
      | cons e events => rfl

end Misterplex.Xml
