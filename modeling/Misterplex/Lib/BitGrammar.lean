import Misterplex.Lib.BitString

/-!
# Syntaxes over bits and readers with a sticky error

A syntax reads a value off the front of a list of bits or stops. A reader is a
state machine with an error flag that never clears: after an error it goes on
with made-up values, so only the flag at the end tells whether what it returned
was there. A reader that reads a syntax piece by piece fails exactly when the
syntax stops, and otherwise returns what the syntax reads.

A walk over the front of some bits may be cut short, or keep less of a code than
another reader does. It is then covered by the other syntax.
-/

namespace Misterplex.BitGrammar

open BitString

variable {α β σ : Type}

/-- A syntax over bits. -/
abbrev Grammar (α : Type) := StateT (List Bool) Option α

namespace Grammar

/-- An unsigned field of a number of bits. -/
def field (n : ℕ) : Grammar ℕ := fun bits =>
  if n ≤ bits.length then some (value (bits.take n),bits.drop n) else none

/-- The syntax that is never there. -/
def stop : Grammar α := fun _ => none

variable {bits rest : List Bool} {f : α → Grammar β}

/-- One syntax after another is there when both are. -/
theorem bind_eq_some {g : Grammar α} {b : β} : (g >>= f) bits=some (b,rest) ↔
      ∃ a mid, g bits=some (a,mid) ∧ f a mid=some (b,rest) := by
  show Option.bind (g bits) (fun p => f p.1 p.2)=some (b,rest) ↔ _
  rw [Option.bind_eq_some_iff]
  constructor
  · rintro ⟨⟨a,mid⟩,hg,hf⟩
    exact ⟨a,mid,hg,hf⟩
  · rintro ⟨a,mid,hg,hf⟩
    exact ⟨(a,mid),hg,hf⟩

/-- After a syntax that is there the next one goes on with the rest. -/
theorem bind_of_some {g : Grammar α} {bits mid : List Bool} {a : α}
    (h : g bits=some (a,mid)) : (g >>= f) bits=f a mid := by
  show Option.bind (g bits) (fun p => f p.1 p.2)=f a mid
  rw [h,Option.bind_some]

/-- Behind a syntax that is not there nothing is. -/
theorem bind_of_none {g : Grammar α} {bits : List Bool}
    (h : g bits=none) : (g >>= f) bits=none := by
  show Option.bind (g bits) (fun p => f p.1 p.2)=none
  rw [h,Option.bind_none]

/-- Nothing is read for a value that is given. -/
theorem pure_eq_some {a b : α} :
    (pure a : Grammar α) bits=some (b,rest) ↔ a=b ∧ bits=rest := by
  show some (a,bits)=some (b,rest) ↔ _
  rw [Option.some.injEq,Prod.mk.injEq]

/-- A field that is there is the front of the bits. -/
theorem field_eq_some {n v : ℕ} : field n bits=some (v,rest) ↔
      ∃ front, front.length=n ∧ bits = front ++ rest ∧ v=value front := by
  constructor
  · intro h
    by_cases hn : n≤bits.length
    · rw [field,if_pos hn,Option.some.injEq,Prod.mk.injEq] at h
      refine ⟨bits.take n,List.length_take_of_le hn,?_,h.1.symm⟩
      rw [← h.2,List.take_append_drop]
    · rw [field,if_neg hn] at h
      cases h
  · rintro ⟨front,rfl,rfl,rfl⟩
    rw [field,if_pos (by rw [List.length_append]; omega),List.take_left,List.drop_left]

/-- A field is below the power of its length. -/
theorem field_lt {n v : ℕ} (h : field n bits=some (v,rest)) : v<2^n := by
  obtain ⟨front,rfl,-,rfl⟩ := field_eq_some.mp h
  exact value_lt front

end Grammar

/-- How the states of a reader stand for the bits that are left. -/
structure StickyReader (σ : Type) where
  /-- A state without error before given bits. -/
  At : List Bool → σ → Prop
  /-- A state after an error. -/
  Failed : σ → Prop
  disjoint : ∀ {bits : List Bool} {s : σ}, At bits s → ¬Failed s

/-- A reader reads a syntax. -/
structure Reads (R : StickyReader σ) (m : StateM σ α) (g : Grammar α) : Prop where
  /-- Where the text is there, its value is read. -/
  found : ∀ {bits rest : List Bool} {a : α} {s : σ}, R.At bits s → g bits=some (a,rest) →
    (m s).1=a ∧ R.At rest (m s).2
  /-- Where it is not, the reader fails. -/
  missing : ∀ {bits : List Bool} {s : σ}, R.At bits s → g bits=none → R.Failed (m s).2
  /-- A reader that failed stays so. -/
  sticky : ∀ {s : σ}, R.Failed s → R.Failed (m s).2

namespace Reads

variable {R : StickyReader σ}

/-- Without error at the end, the syntax was there and was returned. -/
theorem of_not_failed {m : StateM σ α} {g : Grammar α} (h : Reads R m g) {bits : List Bool}
    {s : σ} (hs : R.At bits s) (hok : ¬R.Failed (m s).2) :
    ∃ rest, g bits=some ((m s).1,rest) ∧ R.At rest (m s).2 := by
  cases hg : g bits with
  | none => exact absurd (h.missing hs hg) hok
  | some p =>
    obtain ⟨hval,hat⟩ := h.found hs (show g bits=some (p.1,p.2) from hg)
    exact ⟨p.2,by rw [hval],hat⟩

/-- A value that is given is read from nothing. -/
protected theorem pure (a : α) : Reads R (pure a : StateM σ α) (pure a) where
  found := by
    intro bits rest b s hs hg
    obtain ⟨rfl,rfl⟩ := Grammar.pure_eq_some.mp hg
    exact ⟨rfl,hs⟩
  missing := by
    intro bits s hs hg
    cases (show some (a,bits)=none from hg)
  sticky := fun hs => hs

/-- Readers in sequence read syntaxes in sequence. -/
protected theorem bind {m : StateM σ α} {g : Grammar α} {k : α → StateM σ β}
    {f : α → Grammar β} (hm : Reads R m g) (hk : ∀ a, Reads R (k a) (f a)) :
    Reads R (m >>= k) (g >>= f) where
  found := by
    intro bits rest b s hs hg
    obtain ⟨a,mid,ha,hb⟩ := Grammar.bind_eq_some.mp hg
    obtain ⟨hval,hat⟩ := hm.found hs ha
    show (k (m s).1 (m s).2).1=b ∧ R.At rest (k (m s).1 (m s).2).2
    rw [hval]
    exact (hk a).found hat hb
  missing := by
    intro bits s hs hg
    show R.Failed (k (m s).1 (m s).2).2
    cases hmid : g bits with
    | none => exact (hk _).sticky (hm.missing hs hmid)
    | some p =>
      obtain ⟨hval,hat⟩ := hm.found hs (show g bits=some (p.1,p.2) from hmid)
      have hrest : f p.1 p.2=none := (Grammar.bind_of_some hmid).symm.trans hg
      rw [hval]
      exact (hk p.1).missing hat hrest
  sticky := fun hs => (hk _).sticky (hm.sticky hs)

/-- A reader that branches reads a syntax that branches. -/
protected theorem ite {c : Prop} [Decidable c] {m m' : StateM σ α} {g g' : Grammar α}
    (h : Reads R m g) (h' : Reads R m' g') :
    Reads R (if c then m else m') (if c then g else g') := by
  by_cases hc : c
  · rw [if_pos hc,if_pos hc]
    exact h
  · rw [if_neg hc,if_neg hc]
    exact h'

/-- A reader that raises the error reads the syntax that is never there. -/
protected theorem stop {m : StateM σ α} (h : ∀ s, R.Failed (m s).2) :
    Reads R m (Grammar.stop : Grammar α) where
  found := by
    intro bits rest a s hs hg
    cases (show (none : Option (α × List Bool))=some (a,rest) from hg)
  missing := fun _ _ => h _
  sticky := fun _ => h _

/-- A reader that stops to read after an error reads the same syntax. -/
protected theorem guarded {m m' : StateM σ α} {g : Grammar α} (h : Reads R m g)
    (hat : ∀ bits s, R.At bits s → m' s=m s) (hfail : ∀ s, R.Failed s → (m' s).2=s) :
    Reads R m' g where
  found := by
    intro bits rest a s hs hg
    rw [hat bits s hs]
    exact h.found hs hg
  missing := by
    intro bits s hs hg
    rw [hat bits s hs]
    exact h.missing hs hg
  sticky := by
    intro s hs
    rw [hfail s hs]
    exact hs

end Reads

/-- What the first syntax reads the second one reads too, with related values and whatever
follows. -/
def Covers (R : α → β → Prop) (g : Grammar α) (g' : Grammar β) : Prop :=
  ∀ bits rest more a, g bits=some (a,rest) →
    ∃ b, g' (bits ++ more)=some (b,rest ++ more) ∧ R a b

namespace Covers

variable {γ δ : Type} {R : α → β → Prop} {S : γ → δ → Prop}

/-- Values that are given. -/
protected theorem pure {a : α} {b : β} (h : R a b) :
    Covers R (pure a : Grammar α) (pure b : Grammar β) := by
  intro bits rest more c hc
  obtain ⟨rfl,rfl⟩ := Grammar.pure_eq_some.mp hc
  exact ⟨b,rfl,h⟩

/-- Syntaxes in sequence. -/
protected theorem bind {g : Grammar α} {g' : Grammar β} {f : α → Grammar γ} {f' : β → Grammar δ}
    (hg : Covers R g g') (hf : ∀ a b, R a b → Covers S (f a) (f' b)) :
    Covers S (g >>= f) (g' >>= f') := by
  intro bits rest more c hc
  obtain ⟨a,mid,ha,hrest⟩ := Grammar.bind_eq_some.mp hc
  obtain ⟨b,hb,hrel⟩ := hg bits mid more a ha
  obtain ⟨d,hd,hval⟩ := hf a b hrel mid rest more c hrest
  exact ⟨d,Grammar.bind_eq_some.mpr ⟨b,mid ++ more,hb,hd⟩,hval⟩

/-- Syntaxes that branch together. -/
protected theorem ite {c : Prop} [Decidable c] {g h : Grammar α} {g' h' : Grammar β}
    (hthen : Covers R g g') (helse : Covers R h h') :
    Covers R (if c then g else h) (if c then g' else h') := by
  by_cases hc : c
  · rw [if_pos hc,if_pos hc]
    exact hthen
  · rw [if_neg hc,if_neg hc]
    exact helse

/-- The syntax that is never there is covered by every other. -/
protected theorem stop (g : Grammar β) : Covers R Grammar.stop g := by
  intro bits rest more a ha
  cases (show (none : Option (α × List Bool))=some (a,rest) from ha)

/-- A field covers itself. -/
theorem field (n : ℕ) :
    Covers (fun a b => a=b ∧ b<2^n) (Grammar.field n) (Grammar.field n) := by
  intro bits rest more a ha
  have hlt := Grammar.field_lt ha
  obtain ⟨front,hlen,rfl,rfl⟩ := Grammar.field_eq_some.mp ha
  exact ⟨value front,Grammar.field_eq_some.mpr ⟨front,hlen,List.append_assoc _ _ _,rfl⟩,rfl,hlt⟩

end Covers

end Misterplex.BitGrammar
