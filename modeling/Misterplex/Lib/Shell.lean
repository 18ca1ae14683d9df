import Misterplex.Lib.Decimal

/-!
# The words of a shell command

A simple command of a POSIX shell is split into words and redirections of
output. A command is read only when nothing else can happen to it: every
character that expands, joins commands or opens another form ends the reading.
-/

namespace Misterplex.Shell

open List

/-- How the next character of a command is taken. -/
inductive Quoting where
  | bare
  | quoted
  | escaped

/-- Output of a descriptor that goes to a file. -/
structure Redirect where
  /-- The descriptor. -/
  descriptor : ℕ
  /-- The file it goes to. -/
  file : List Char
deriving DecidableEq

/-- A simple command as the shell runs it. -/
structure Command where
  /-- The words. -/
  words : List (List Char)
  /-- The redirections. -/
  redirects : List Redirect
deriving DecidableEq

/-- A command that is being read. -/
structure Scan where
  /-- how the next character is taken -/
  quoting : Quoting
  word : Option (List Char)
  /-- the word has no quoted character -/
  literal : Bool
  /-- a redirection that waits for its file -/
  target : Option ℕ
  command : Command

/-- Nothing has been read. -/
def Scan.start : Scan := ⟨.bare,none,true,none,⟨[],[]⟩⟩

/-- A character that stands for itself outside quotes. -/
def isPlain (c : Char) : Bool := c.isAlphanum || "-./_:,+@".toList.contains c

variable (s : Scan)

/-- A character belongs to the word. -/
def Scan.add (c : Char) : Scan := { s with word := some (s.word.getD [] ++ [c]) }

/-- A quotation begins, in a word or with one. -/
def Scan.quote (quoting : Quoting) : Scan :=
  { s with
    quoting := quoting
    word := some (s.word.getD [])
    literal := false }

/-- The word ends, as an argument or as the file of a redirection. -/
def Scan.close : Scan :=
  match s.word,s.target with
  | none,_ => s
  | some w,none =>
    { s with
      word := none
      literal := true
      command := { s.command with words := s.command.words ++ [w] } }
  | some w,some d =>
    { s with
      word := none
      literal := true
      target := none
      command := { s.command with redirects := s.command.redirects ++ [⟨d,w⟩] } }

/-- Output is redirected: of the descriptor that stands in front, or of the standard output. -/
def Scan.redirect : Option Scan :=
  match s.word,s.target with
  | none,some _ => none
  | none,none => some { s with target := some 1 }
  | some w,target =>
    if s.literal && w.all Char.isDigit then
      if target.isSome then none
      else
        some { s with
          word := none
          literal := true
          target := some (Decimal.value w) }
    else some { s.close with target := some 1 }

/-- One character of a command. -/
def Scan.step (c : Char) : Option Scan :=
  match s.quoting with
  | .quoted => if c = '\'' then some { s with quoting := .bare } else some (s.add c)
  | .escaped => if c = '\n' then none else some { s.add c with quoting := .bare }
  | .bare =>
    if c = '\'' then some (s.quote .quoted)
    else if c = '\\' then some (s.quote .escaped)
    else if c = ' ' ∨ c = '\t' then some s.close
    else if c = '>' then s.redirect
    else if isPlain c then some (s.add c)
    else none

/-- The characters of a command in order. -/
def Scan.run (text : List Char) : Option Scan := text.foldlM Scan.step s

/-- Words that open another form when they stand first. -/
def reserved : List String :=
  ["if","then","else","elif","fi","do","done","case","esac","while","until","for","in"]

/-- The end of a command. -/
def Scan.finish : Option Command :=
  match s.quoting with
  | .bare =>
    if s.close.target.isSome then none
    else if (s.close.command.words.head?.map String.ofList).any reserved.contains then none
    else some s.close.command
  | _ => none

/-- The simple command a text is, if nothing else can happen to it. -/
def parse (text : List Char) : Option Command := (Scan.start.run text).bind Scan.finish

/-- A text is read piece by piece. -/
theorem run_append (front rest : List Char) :
    s.run (front ++ rest)=(s.run front).bind (·.run rest) :=
  foldlM_append

/-- A text is read character by character. -/
theorem run_cons (c : Char) (rest : List Char) : s.run (c::rest)=(s.step c).bind (·.run rest) :=
  foldlM_cons

/-- A piece and what it is read to are followed by the rest. -/
theorem run_append_of {s s' : Scan} {front : List Char} (h : s.run front=some s')
    (rest : List Char) : s.run (front ++ rest)=s'.run rest := by
  rw [run_append,h]
  rfl

/-- Between the words of a command, with what has been read of it. -/
def Scan.between (command : Command) : Scan := ⟨.bare,none,true,none,command⟩

/-- The reading is outside quotes, in a word or between words, and no redirection waits. -/
structure Scan.Settled (s : Scan) : Prop where
  bare : s.quoting = .bare
  ready : s.target=none
  /-- no quotation is left over from the word in front -/
  fresh : s.word=none → s.literal=true

/-- The words so far, with the one that is being read. -/
def Scan.words : List (List Char) := s.command.words ++ s.word.toList

/-- A blank ends the word in front of it. -/
theorem step_blank {s : Scan} (h : s.Settled) :
    s.step ' ' = some (.between ⟨s.words,s.command.redirects⟩) := by
  obtain ⟨quoting,word,literal,target,command⟩ := s
  obtain ⟨hbare,hready,hfresh⟩ := h
  cases hbare
  cases hready
  cases word with
  | none =>
    have hliteral : literal=true := hfresh rfl
    have hwords : command.words ++ [] = command.words := append_nil _
    show some (⟨.bare,none,literal,none,command⟩ : Scan) =
      some ⟨.bare,none,true,none,⟨command.words ++ [],command.redirects⟩⟩
    rw [hwords,hliteral]
  | some w => rfl

/-- A character between apostrophes is taken as it is. -/
theorem step_quoted {s : Scan} (h : s.quoting = .quoted) {c : Char} (hc : c ≠ '\'') :
    s.step c=some (s.add c) := by
  rw [Scan.step,h]
  exact if_neg hc

/-- A plain character is taken as it is. -/
theorem step_plain {s : Scan} (h : s.quoting = .bare) {c : Char} (hc : isPlain c=true) :
    s.step c=some (s.add c) := by
  have hne : ∀ d : Char, isPlain d=false → c≠d := by
    rintro d hd rfl
    rw [hc] at hd
    cases hd
  have hblank : ¬(c = ' ' ∨ c = '\t') :=
    not_or.mpr ⟨hne ' ' (by decide),hne '\t' (by decide)⟩
  rw [Scan.step,h]
  dsimp only
  rw [if_neg (hne '\'' (by decide)),if_neg (hne '\\' (by decide)),if_neg hblank,
    if_neg (hne '>' (by decide)),if_pos hc]

/-- Characters added one after the other. -/
def Scan.adds (text : List Char) : Scan := text.foldl Scan.add s

/-- Added characters leave all but the word as it was. -/
theorem adds_eq (text : List Char) :
    s.adds text = { s with word := if text = [] then s.word else some (s.word.getD [] ++ text) } := by
  induction text generalizing s with
  | nil => rfl
  | cons c text ih =>
    rw [Scan.adds,foldl_cons]
    have hrest := ih (s.add c)
    rw [Scan.adds] at hrest
    rw [hrest,if_neg (cons_ne_nil c text)]
    by_cases hnil : text=[]
    · rw [if_pos hnil,hnil]
      rfl
    · rw [if_neg hnil]
      show ({ s with word := some (s.word.getD [] ++ [c] ++ text) } : Scan) =
        { s with word := some (s.word.getD [] ++ c::text) }
      rw [append_assoc]
      rfl

/-- Plain characters are taken as they are. -/
theorem run_plain {s : Scan} (h : s.quoting = .bare) {text : List Char}
    (ht : ∀ c∈text, isPlain c=true) : s.run text=some (s.adds text) := by
  induction text generalizing s with
  | nil => rfl
  | cons c text ih =>
    have hstep := step_plain h (ht c mem_cons_self)
    rw [run_cons,hstep]
    exact ih (s := s.add c) h fun d hd => ht d (mem_cons_of_mem c hd)

/-- A text is one word, wherever a word may begin. -/
def Spells (text w : List Char) : Prop :=
  ∀ command, ∃ literal,
    (Scan.between command).run text=some ⟨.bare,some w,literal,none,command⟩

/-- A text adds words and nothing else. -/
def Adds (text : List Char) (ws : List (List Char)) : Prop :=
  ∀ s : Scan, s.Settled →
    ∃ s', s.run text=some s' ∧ s'.Settled ∧ s'.words = s.words ++ ws ∧
      s'.command.redirects=s.command.redirects

/-- Plain characters between words are one word, and not a quoted one. -/
theorem run_plain_word {text : List Char} (hne : text≠[]) (h : ∀ c∈text, isPlain c=true)
    (command : Command) :
    (Scan.between command).run text=some ⟨.bare,some text,true,none,command⟩ := by
  rw [run_plain rfl h,adds_eq,if_neg hne]
  rfl

/-- Plain characters spell themselves. -/
theorem spells_plain {text : List Char} (hne : text≠[]) (h : ∀ c∈text, isPlain c=true) :
    Spells text text :=
  fun command => ⟨true,run_plain_word hne h command⟩

/-- No text adds no word. -/
theorem adds_nil : Adds [] [] := by
  intro s hs
  exact ⟨s,rfl,hs,(append_nil _).symm,rfl⟩

/-- A word behind a blank is one more word. -/
theorem adds_word {text w : List Char} (h : Spells text w) : Adds (' ' :: text) [w] := by
  intro s hs
  obtain ⟨literal,hrun⟩ := h ⟨s.words,s.command.redirects⟩
  refine ⟨⟨.bare,some w,literal,none,⟨s.words,s.command.redirects⟩⟩,?_,
    ⟨rfl,rfl,fun h => nomatch h⟩,rfl,rfl⟩
  rw [run_cons,step_blank hs]
  exact hrun

/-- What two texts add is added one behind the other. -/
theorem Adds.append {front rest : List Char} {ws vs : List (List Char)} (hfront : Adds front ws)
    (hrest : Adds rest vs) : Adds (front ++ rest) (ws ++ vs) := by
  intro s hs
  obtain ⟨s₁,hrun₁,hs₁,hwords₁,hredirects₁⟩ := hfront s hs
  obtain ⟨s₂,hrun₂,hs₂,hwords₂,hredirects₂⟩ := hrest s₁ hs₁
  refine ⟨s₂,?_,hs₂,?_,hredirects₂.trans hredirects₁⟩
  · rw [run_append_of hrun₁,hrun₂]
  · rw [hwords₂,hwords₁,append_assoc]

/-- What each of a list adds is added in order. -/
theorem adds_flatMap {α : Type} {text : α → List Char} {ws : α → List (List Char)} {items : List α}
    (h : ∀ a∈items, Adds (text a) (ws a)) : Adds (items.flatMap text) (items.flatMap ws) := by
  induction items with
  | nil => exact adds_nil
  | cons a items ih =>
    exact (h a mem_cons_self).append (ih fun b hb => h b (mem_cons_of_mem a hb))

/-- The words of a list, each behind a blank, are all added. -/
theorem adds_words {α : Type} {text w : α → List Char} {items : List α}
    (h : ∀ a∈items, Spells (text a) (w a)) :
    Adds (items.flatMap fun a => ' ' :: text a) (items.map w) := by
  have hadds : Adds (items.flatMap fun a => ' ' :: text a) (items.flatMap fun a => [w a]) :=
    adds_flatMap fun a ha => adds_word (h a ha)
  have hmap : items.flatMap (fun a => [w a])=items.map w := flatMap_pure_eq_map w items
  rwa [hmap] at hadds

/-- A digit is plain. -/
theorem isPlain_of_isDigit {c : Char} (h : c.isDigit=true) : isPlain c=true := by
  rw [isPlain,Char.isAlphanum,h,Bool.or_true]
  rfl

/-- A command that ends with a redirection of one descriptor. -/
theorem finish_redirect {s : Scan} (hs : s.Settled) {ds file : List Char} (hds : ds≠[])
    (hdigits : Decimal.Digits ds) (hfile : file≠[]) (hplain : ∀ c∈file, isPlain c=true)
    (hfirst : (s.words.head?.map String.ofList).any reserved.contains=false) :
    (s.run (' ' :: ds ++ '>' :: file)).bind Scan.finish =
      some ⟨s.words,s.command.redirects ++ [⟨Decimal.value ds,file⟩]⟩ := by
  have hdescriptor := run_plain_word hds (fun c hc => isPlain_of_isDigit (hdigits c hc))
    ⟨s.words,s.command.redirects⟩
  have hall : ds.all Char.isDigit=true := all_eq_true.mpr hdigits
  have hsign : Scan.step ⟨.bare,some ds,true,none,⟨s.words,s.command.redirects⟩⟩ '>' =
      some ⟨.bare,none,true,some (Decimal.value ds),⟨s.words,s.command.redirects⟩⟩ := by
    show Scan.redirect ⟨.bare,some ds,true,none,⟨s.words,s.command.redirects⟩⟩=_
    rw [Scan.redirect]
    dsimp only
    rw [hall]
    rfl
  have hname := run_plain (s := ⟨.bare,none,true,some (Decimal.value ds),
    ⟨s.words,s.command.redirects⟩⟩) rfl hplain
  rw [cons_append,run_cons,step_blank hs,Option.bind_some,run_append_of hdescriptor,
    run_cons,hsign,Option.bind_some,hname,Option.bind_some,adds_eq,if_neg hfile]
  show (if (s.words.head?.map String.ofList).any reserved.contains then none
    else some (⟨s.words,s.command.redirects ++ [⟨Decimal.value ds,[] ++ file⟩]⟩ : Command))=_
  rw [hfirst]
  rfl

end Misterplex.Shell
