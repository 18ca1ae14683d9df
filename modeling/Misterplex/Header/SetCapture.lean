import Misterplex.Header.UnitPulses

/-!
# Capture beside the walk

The parsers of parameter sets capture the bytes of a unit into the buffer their
walk reads. A walk that has read its last bit comes to the same whatever is
captured behind it.
-/

namespace Misterplex.Header

open BitString BitGrammar Cavlc Emulation ParserText

variable {σ ρ : Type} {T : ParserText σ ρ} {p : Parser σ ρ} {m : List Byte}

/-- The walk stands before a bit of the buffer. -/
def Reads (p : Parser σ ρ) : Prop := p.walk.st = .getBits ∨ p.walk.st = .ueZ

/-- The walk has read its last bit. -/
def ReadsNoMore (T : ParserText σ ρ) (p : Parser σ ρ) : Prop := ∀ n, ¬Reads (T.step^[n] p)

/-- The own states of the parser do not look at the buffer. -/
def Blind (T : ParserText σ ρ) : Prop :=
  ∀ (s : σ) (p : Parser σ ρ) (m : List Byte), T.own s (p.holding m)=(T.own s p).holding m

/-- A step that does not read the buffer is the same over any buffer. -/
theorem step_holding (hblind : Blind T) (hno : ¬Reads p) :
    T.step (p.holding m)=(T.step p).holding m := by
  have hst : (p.holding m).walk.st=p.walk.st := rfl
  rw [step,step,hst]
  cases hcase : p.walk.st with
  | own s => exact hblind s ⟨p.walk,T.tick p.regs⟩ m
  | getBits => exact absurd (Or.inl hcase) hno
  | ueZ => exact absurd (Or.inr hcase) hno
  | ueV =>
    rw [Walk.step,Walk.step,hcase,hst,hcase]
    rfl

/-- A walk that reads no more goes on so. -/
theorem ReadsNoMore.step (h : ReadsNoMore T p) : ReadsNoMore T (T.step p) := fun n => h (n+1)

theorem ReadsNoMore.iterate_holding (h : ReadsNoMore T p) (hblind : Blind T) (n : ℕ) :
    T.step^[n] (p.holding m)=(T.step^[n] p).holding m := by
  induction n generalizing p with
  | zero => rfl
  | succ n ih =>
    have hno : ¬Reads p := h 0
    rw [Function.iterate_succ_apply,Function.iterate_succ_apply,step_holding hblind hno]
    exact ih h.step

theorem ReadsNoMore.holding (h : ReadsNoMore T p) (hblind : Blind T) :
    ReadsNoMore T (p.holding m) := by
  intro n
  rw [h.iterate_holding hblind n]
  exact h n

theorem ReadsNoMore.of_still (h : Still T.step p) (hno : ¬Reads p) : ReadsNoMore T p := by
  intro n
  rw [Function.iterate_fixed h]
  exact hno

theorem Ordered.idle_of_still (O : Ordered T) (h : Still T.step p) : p.walk.st = .own O.idle := by
  by_contra hbusy
  have hnears := O.nears_clock hbusy
  rw [show T.step p=p from h] at hnears
  rcases hnears with ⟨-,haway⟩ | hleft
  · exact absurd haway (Nat.lt_irrefl _)
  · exact absurd hleft (Nat.lt_irrefl _)

theorem Ordered.readsNoMore (O : Ordered T) (h : Still T.step p) : ReadsNoMore T p := by
  refine ReadsNoMore.of_still h ?_
  intro hreads
  have hidle := O.idle_of_still h
  rcases hreads with hst | hst
  · rw [hst] at hidle
    cases hidle
  · rw [hst] at hidle
    cases hidle

theorem Ordered.still_holding (O : Ordered T) (hblind : Blind T) (h : Still T.step p) :
    Still T.step (p.holding m) := by
  have hno : ¬Reads p := O.readsNoMore h 0
  rw [Still,step_holding hblind hno,show T.step p=p from h]

variable [DecidableEq σ] [DecidableEq ρ]

theorem Ordered.settle_holding (O : Ordered T) (hblind : Blind T) (h : ReadsNoMore T p) :
    O.settling.settle (p.holding m)=(O.settling.settle p).holding m := by
  have hrun : (O.settling.settle p).holding m=T.step^[O.settling.rank p] (p.holding m) :=
    (h.iterate_holding hblind _).symm
  have hstill := O.still_holding (m := m) hblind (O.settling.still_settle p)
  rw [hrun] at hstill ⊢
  exact Settling.still_unique (O.settling.still_settle _) hstill

/-- What a walk that is going on will show. -/
def Ordered.running (O : Ordered T) (p : Parser σ ρ) : List ρ :=
  if Still T.step p then [] else [(O.settling.settle p).regs]

/-- What is shown when the parser comes to rest. -/
def cameToRest (T : ParserText σ ρ) (p q : Parser σ ρ) : List ρ :=
  if ¬Still T.step p ∧ Still T.step q then [q.regs] else []

theorem Ordered.running_clock (O : Ordered T) {q : Parser σ ρ}
    (hregs : (O.settling.settle q).regs=(O.settling.settle p).regs)
    (hkeeps : Still T.step p → Still T.step q) : cameToRest T p q ++ O.running q = O.running p := by
  unfold cameToRest running
  by_cases hp : Still T.step p
  · rw [if_neg (fun h => h.1 hp),if_pos (hkeeps hp),if_pos hp]
    rfl
  · rw [if_neg hp]
    by_cases hq : Still T.step q
    · rw [if_pos ⟨hp,hq⟩,if_pos hq,List.append_nil,← hregs,O.settling.settle_of_still hq]
    · rw [if_neg (fun h => hq h.2),if_neg hq,hregs]
      rfl

theorem Ordered.running_start (O : Ordered T) {q : Parser σ ρ} (hp : Still T.step p)
    (hbusy : q.walk.st ≠ .own O.idle) :
    cameToRest T p q=[] ∧ O.running q=[(O.settling.settle q).regs] := by
  constructor
  · exact if_neg fun h => h.1 hp
  · exact if_neg fun h => hbusy (O.idle_of_still h)

theorem captureUpTo_byte {size : ℕ} {bytes : List Byte} {i : CapPort} (hclear : i.clear=false)
    (hen : i.en=true) :
    captureUpTo size (bytes.take size) i=(bytes ++ [i.data]).take size := by
  rw [captureUpTo,if_neg (by rw [hclear]; exact Bool.false_ne_true),hen,Bool.true_and,
    List.length_take]
  by_cases hroom : bytes.length<size
  · rw [if_pos (by rw [decide_eq_true_eq]; omega),List.take_of_length_le (Nat.le_of_lt hroom),
      List.take_of_length_le (by rw [List.length_append,List.length_singleton]; omega)]
  · rw [if_neg (by rw [decide_eq_true_eq]; omega),
      List.take_append_of_le_length (Nat.le_of_not_lt hroom)]

/-- A parser that captures beside its walk. -/
structure SetParser (σ ρ : Type) where
  /-- The text of the walk. -/
  text : ParserText σ ρ
  /-- Its states come in order. -/
  ordered : Ordered text
  /-- The start of the walk. -/
  start : Parser σ ρ → Parser σ ρ
  /-- The bytes without which it does not start. -/
  need : ℕ
  /-- The bytes captured at most. -/
  size : ℕ
  /-- Its own states do not look at the buffer. -/
  blind : Blind text
  /-- A step keeps the buffer. -/
  keeps : ∀ p, (text.step p).walk.mem=p.walk.mem
  /-- The start of the walk does not look at the buffer. -/
  start_holding : ∀ p mem, start (p.holding mem)=(start p).holding mem
  /-- The walk leaves its idle state. -/
  start_busy : ∀ p, (start p).walk.st ≠ .own ordered.idle

namespace SetParser

/-- One clock edge: the walk starts on the last byte, and the capture takes its byte. -/
def clock (S : SetParser σ ρ) (p : Parser σ ρ) (i : CapPort) : Parser σ ρ :=
  Parser.holding (if p.walk.st = .own S.ordered.idle ∧ i.last=true ∧ S.need ≤ p.walk.mem.length then
      S.start p
    else S.text.step p) (captureUpTo S.size p.walk.mem i)

/-- What a parser comes to. -/
def settle (S : SetParser σ ρ) (p : Parser σ ρ) : Parser σ ρ := S.ordered.settling.settle p

/-- A parser left alone comes to what the units so far make of it, and holds the bytes of the
unit under capture. -/
structure Follows (S : SetParser σ ρ) (p want : Parser σ ρ) (held : Option (List Byte)) : Prop where
  settles : S.settle p =
    match held with
    | none => want
    | some bytes => want.holding (bytes.take S.size)
  /-- A walk beside a capture reads no more. -/
  unread : held≠none → ReadsNoMore S.text p

variable {S : SetParser σ ρ} {want : Parser σ ρ} {held : Option (List Byte)} {i : CapPort}

omit [DecidableEq ρ] in
theorem clock_walks (hlast : i.last=false) :
    S.clock p i=(S.text.step p).holding (captureUpTo S.size p.walk.mem i) := by
  rw [clock,if_neg (by rw [hlast]; exact fun h => Bool.noConfusion h.2.1)]

theorem mem_settle (S : SetParser σ ρ) (p : Parser σ ρ) : (S.settle p).walk.mem=p.walk.mem := by
  have hiterate : ∀ n, (S.text.step^[n] p).walk.mem=p.walk.mem := by
    intro n
    induction n with
    | zero => rfl
    | succ n ih => rw [Function.iterate_succ_apply',S.keeps,ih]
  exact hiterate _

/-- A clock without a pulse only steps the walk. -/
theorem Follows.quiet (h : S.Follows p want held) (hclear : i.clear=false) (hen : i.en=false)
    (hlast : i.last=false) :
    S.Follows (S.clock p i) want held ∧ S.clock p i=S.text.step p := by
  have hstep : S.clock p i=S.text.step p := by
    rw [clock_walks hlast,captureUpTo,hclear,hen]
    rw [← S.keeps p]
    rfl
  refine ⟨⟨?_,fun hheld => ?_⟩,hstep⟩
  · rw [hstep,← h.settles]
    exact S.ordered.settling.settle_step p
  · rw [hstep]
    exact (h.unread hheld).step

theorem settle_clock (hread : ReadsNoMore S.text p) (hlast : i.last=false) :
    S.settle (S.clock p i)=(S.settle p).holding (captureUpTo S.size p.walk.mem i) ∧
      ReadsNoMore S.text (S.clock p i) ∧ (Still S.text.step p → Still S.text.step (S.clock p i)) := by
  rw [clock_walks hlast]
  refine ⟨?_,hread.step.holding S.blind,fun hstill => ?_⟩
  · rw [settle,S.ordered.settle_holding S.blind hread.step,S.ordered.settling.settle_step]
    rfl
  · rw [show S.text.step p=p from hstill]
    exact S.ordered.still_holding S.blind hstill

/-- A clear begins the next capture with nothing in it. -/
theorem Follows.clear (h : S.Follows p want held) (hread : ReadsNoMore S.text p)
    (hclear : i.clear=true) (hlast : i.last=false) :
    S.Follows (S.clock p i) want (some []) := by
  obtain ⟨hsettles,hnext,-⟩ := settle_clock hread hlast
  have hmem : captureUpTo S.size p.walk.mem i=[] := if_pos hclear
  have hbefore := h.settles
  refine ⟨?_,fun _ => hnext⟩
  rw [hsettles,hmem,hbefore]
  show _ = want.holding (([] : List Byte).take S.size)
  rw [List.take_nil]
  cases held with
  | none => rfl
  | some bytes => rfl

theorem Follows.byte {bytes : List Byte} (h : S.Follows p want (some bytes))
    (hclear : i.clear=false) (hen : i.en=true) (hlast : i.last=false) :
    S.Follows (S.clock p i) want (some (bytes ++ [i.data])) := by
  obtain ⟨hsettles,hnext,-⟩ := settle_clock (h.unread (Option.some_ne_none _)) hlast
  have hbefore : S.settle p=want.holding (bytes.take S.size) := h.settles
  have hmem : p.walk.mem=bytes.take S.size := by
    rw [← S.mem_settle,hbefore]
    rfl
  have hcapture : captureUpTo S.size p.walk.mem i=(bytes ++ [i.data]).take S.size := by
    rw [hmem,captureUpTo_byte hclear hen]
  refine ⟨?_,fun _ => hnext⟩
  rw [hsettles,hbefore,hcapture]
  rfl

/-- The last pulse settles what was captured. -/
theorem Follows.finish {bytes : List Byte} (h : S.Follows p want (some bytes))
    (hstill : Still S.text.step p) (hneed : S.need≤p.walk.mem.length) (hclear : i.clear=false)
    (hen : i.en=false) (hlast : i.last=true) :
    S.Follows (S.clock p i) (S.settle (S.start (want.holding (bytes.take S.size)))) none ∧
      S.clock p i=S.start p := by
  have hhere : S.settle p=p := S.ordered.settling.settle_of_still hstill
  have hbefore : p=want.holding (bytes.take S.size) := hhere.symm.trans h.settles
  have hstart : S.clock p i=S.start p := by
    rw [clock,if_pos ⟨S.ordered.idle_of_still hstill,hlast,hneed⟩,captureUpTo,hclear,hen]
    exact (S.start_holding p p.walk.mem).symm
  refine ⟨⟨?_,fun hheld => absurd rfl hheld⟩,hstart⟩
  rw [hstart,← hbefore]

end SetParser

/-- The parser of sequence parameter sets. -/
def spsSet : SetParser SpsSt SpsRegs where
  text := spsText
  ordered := spsOrdered
  start := SpsParser.start
  need := 4
  size := maxB
  blind s p mem := by
    show spsOwn s (p.holding mem)=(spsOwn s p).holding mem
    have hwalk : (p.holding mem).walk = { p.walk with mem } := rfl
    have hregs : (p.holding mem).regs=p.regs := rfl
    cases s with
    | spsId =>
      simp only [spsOwn,hregs]
      split <;> rfl
    | poc =>
      simp only [spsOwn,hwalk]
      split
      · rfl
      · split <;> rfl
    | fmo =>
      simp only [spsOwn,hwalk]
      split <;> rfl
    | crop =>
      simp only [spsOwn,hwalk]
      split <;> rfl
    | _ => rfl
  keeps := mem_spsStep
  start_holding _ _ := rfl
  start_busy _ := nofun

/-- The parser of picture parameter sets. -/
def ppsSet : SetParser PpsSt PpsRegs where
  text := ppsText
  ordered := ppsOrdered
  start := PpsParser.start
  need := 2
  size := ppsMaxB
  blind s p mem := by
    show ppsOwn s (p.holding mem)=(ppsOwn s p).holding mem
    have hwalk : (p.holding mem).walk = { p.walk with mem } := rfl
    cases s with
    | sg =>
      simp only [ppsOwn,hwalk]
      split <;> rfl
    | _ => rfl
  keeps := mem_ppsStep
  start_holding _ _ := rfl
  start_busy _ := nofun

end Misterplex.Header
