import Misterplex.Header.HostReader
import Misterplex.Lib.Leads

/-!
# The bit walk of the hardware header parsers

The hardware parsers of headers walk over a small buffer of captured bytes. They
share the text of three states: one collects a number of bits, two read an
unsigned Exp-Golomb code into 16 bits, with a limit on its leading zeros. The other
states of a parser look at what was read and start the next element. The walk
is followed in step with a syntax over the bits of the buffer.
-/

namespace Misterplex.Header

open BitString BitGrammar Cavlc Emulation List

/-- Bytes of the capture buffer. -/
def maxB : ℕ := 48

/-- States of a parser: the three shared ones and its own. -/
inductive WalkSt (σ : Type) where
  | getBits
  | ueZ
  | ueV
  | own (s : σ)
  deriving DecidableEq, Repr

/-- Registers of the walk. -/
structure Walk (σ : Type) where
  /-- The bytes captured. -/
  mem : List Byte
  /-- The byte of the next bit. -/
  bbyte : ℕ
  /-- Its place in the byte. -/
  bpos : ℕ
  /-- The state. -/
  st : WalkSt σ
  /-- The state behind a field. -/
  cont : WalkSt σ
  /-- The state behind an Exp-Golomb code. -/
  ueCont : σ
  /-- The zeros counted. -/
  zcnt : ℕ
  /-- The bits still to read. -/
  nleft : ℕ
  /-- The bits read. -/
  acc : ℕ
  /-- The code read. -/
  ueVal : ℕ
  deriving DecidableEq, Repr

namespace Walk

variable {σ : Type}

/-- The bit under the cursor. -/
def bitv (w : Walk σ) : Bool := (w.mem.getD w.bbyte 0#8).getLsbD w.bpos

/-- The cursor is past the captured bytes. -/
def oob (w : Walk σ) : Bool := decide (w.mem.length≤w.bbyte)

/-- The position moves on by one bit. -/
def advance (w : Walk σ) : Walk σ :=
  if w.bpos = 0 then { w with bpos := 7, bbyte := w.bbyte+1 } else { w with bpos := w.bpos-1 }

@[simp] theorem mem_advance (w : Walk σ) : w.advance.mem=w.mem := by
  unfold advance
  split <;> rfl

@[simp] theorem st_advance (w : Walk σ) : w.advance.st=w.st := by
  unfold advance
  split <;> rfl

@[simp] theorem cont_advance (w : Walk σ) : w.advance.cont=w.cont := by
  unfold advance
  split <;> rfl

@[simp] theorem ueCont_advance (w : Walk σ) : w.advance.ueCont=w.ueCont := by
  unfold advance
  split <;> rfl

@[simp] theorem zcnt_advance (w : Walk σ) : w.advance.zcnt=w.zcnt := by
  unfold advance
  split <;> rfl

/-- Start an unsigned Exp-Golomb code. -/
def startUe (w : Walk σ) (next : σ) : Walk σ := { w with zcnt := 0, ueCont := next, st := .ueZ }

/-- Start a field of a number of bits. -/
def startBits (w : Walk σ) (n : ℕ) (next : σ) : Walk σ :=
  { w with nleft := n, acc := 0, cont := .own next, st := .getBits }

/-- One clock in a shared state, with the limit on leading zeros and the state for errors. -/
def step (maxZeros : ℕ) (fail : σ) (w : Walk σ) : Walk σ :=
  match w.st with
  | .getBits =>
    if w.oob then { w with st := .own fail }
    else
      let t := { w.advance with acc := (2*w.acc+w.bitv.toNat)%65536 }
      if w.nleft = 1 then { t with st := w.cont } else { t with nleft := (w.nleft+31)%32 }
  | .ueZ =>
    if w.oob then { w with st := .own fail }
    else if w.bitv = false then
      if maxZeros ≤ w.zcnt then { w with st := .own fail } else { w.advance with zcnt := w.zcnt+1 }
    else if w.zcnt = 0 then { w.advance with ueVal := 0, st := .own w.ueCont }
    else { w.advance with nleft := w.zcnt%32, acc := 0, cont := .ueV, st := .getBits }
  | .ueV =>
    { w with ueVal := (2^w.zcnt%65536+65535+w.acc)%65536, st := .own w.ueCont }
  | .own _ => w

/-- The walk reads the buffer and never writes it. -/
theorem mem_step (maxZeros : ℕ) (fail : σ) (w : Walk σ) : (w.step maxZeros fail).mem=w.mem := by
  rw [step]
  split
  · split
    · rfl
    · split <;> exact mem_advance w
  · split
    · rfl
    · split
      · split
        · rfl
        · exact mem_advance w
      · split <;> exact mem_advance w
  · rfl
  · rfl

/-- The walk stands before given bits of a buffer. -/
structure At (d : List Byte) (bits : List Bool) (w : Walk σ) : Prop where
  /-- The walk reads this buffer. -/
  buffer : w.mem=d
  /-- The cursor is in a byte. -/
  inByte : w.bpos≤7
  /-- The position and the bits left make up the buffer. -/
  position : 8*w.bbyte+(7-w.bpos)+bits.length=8*d.length
  /-- What is left are these bits. -/
  left : (bitsOf d).drop (8*w.bbyte+(7-w.bpos))=bits

variable {d : List Byte} {bits : List Bool} {w : Walk σ}

theorem At.oob_eq (h : At d bits w) : w.oob=bits.isEmpty := by
  have hpos := h.position
  rw [oob,h.buffer]
  cases bits with
  | nil =>
    rw [length_nil] at hpos
    rw [isEmpty_nil,decide_eq_true_eq]
    omega
  | cons b bits =>
    rw [length_cons] at hpos
    rw [isEmpty_cons,decide_eq_false_iff_not]
    omega

/-- The bit under the position is the first one left, and the position moves on behind it. -/
theorem At.cons {b : Bool} (h : At d (b::bits) w) : w.bitv=b ∧ At d bits w.advance := by
  have hpos := h.position
  have hin := h.inByte
  have hleft := h.left
  rw [length_cons] at hpos
  have hbyte : w.bbyte<d.length := by omega
  have hbit : (bitsOf d)[8*w.bbyte+(7-w.bpos)]?=some b := by
    rw [← head?_drop,hleft]
    rfl
  have hdiv : (8*w.bbyte+(7-w.bpos))/8=w.bbyte := by omega
  have hmod : 7-(8*w.bbyte+(7-w.bpos))%8=w.bpos := by omega
  rw [getElem?_bitsOf,hdiv,hmod,getElem?_eq_getElem hbyte,Option.map_some,
    Option.some.injEq] at hbit
  have hnext : (bitsOf d).drop (8*w.bbyte+(7-w.bpos)+1)=bits := by
    rw [drop_add_one_eq_tail_drop,hleft]
    rfl
  constructor
  · rw [bitv,h.buffer,getD_eq_getElem _ _ hbyte,hbit]
  · rw [advance]
    by_cases hzero : w.bpos=0
    · rw [if_pos hzero]
      rw [hzero] at hpos hnext
      have hstep : 8*(w.bbyte+1)+(7-7)=8*w.bbyte+(7-0)+1 := by omega
      exact ⟨h.buffer,le_refl 7,by dsimp only; omega,by rw [hstep,hnext]⟩
    · rw [if_neg hzero]
      have hstep : 8*w.bbyte+(7-(w.bpos-1))=8*w.bbyte+(7-w.bpos)+1 := by omega
      exact ⟨h.buffer,by dsimp only; omega,by dsimp only; omega,by
        rw [hstep,hnext]⟩

/-- Only the buffer, the byte and the position decide where the walk stands. -/
theorem At.congr {w' : Walk σ} (h : At d bits w) (hmem : w'.mem=w.mem)
    (hbyte : w'.bbyte=w.bbyte) (hpos : w'.bpos=w.bpos) : At d bits w' :=
  ⟨hmem.trans h.buffer,by rw [hpos]; exact h.inByte,by rw [hbyte,hpos]; exact h.position,by
    rw [hbyte,hpos]
    exact h.left⟩

end Walk

/-- A parser: the walk and registers of its own. -/
structure Parser (σ ρ : Type) where
  /-- The walk over the bits. -/
  walk : Walk σ
  /-- The registers. -/
  regs : ρ
  deriving DecidableEq, Repr

/-- What makes a parser: the limit on leading zeros, the state for errors, the registers that
every clock sets unless a state sets them otherwise, and the clock of each own state. -/
structure ParserText (σ ρ : Type) where
  /-- Leading zeros of an Exp-Golomb code. -/
  maxZeros : ℕ := 20
  /-- They are counted down in 5 bits. -/
  small : maxZeros<32 := by decide
  /-- The state after a failure. -/
  fail : σ
  /-- What every clock does to the registers. -/
  tick : ρ → ρ
  /-- One clock in an own state, behind the defaults. -/
  own : σ → Parser σ ρ → Parser σ ρ

theorem zeros_small : 20<32 := by decide

namespace ParserText

variable {σ ρ α : Type}

/-- One clock of a parser. -/
def step (T : ParserText σ ρ) (p : Parser σ ρ) : Parser σ ρ :=
  match p.walk.st with
  | .own s => T.own s { p with regs := T.tick p.regs }
  | _ => { walk := p.walk.step T.maxZeros T.fail, regs := T.tick p.regs }

variable {T : ParserText σ ρ} {p : Parser σ ρ} {d : List Byte} {bits : List Bool}

/-- A clock in one of the text's own states. -/
theorem step_own {s : σ} (hst : p.walk.st = .own s) (htick : T.tick p.regs=p.regs) :
    T.step p=T.own s p := by
  rw [step,hst]
  rw [htick]

/-- One clock in a shared state of a parser whose registers are at their defaults. -/
theorem step_walk (hst : ∀ s, p.walk.st ≠ .own s) (htick : T.tick p.regs=p.regs) :
    T.step p = { p with walk := p.walk.step T.maxZeros T.fail } := by
  rw [step]
  cases h : p.walk.st with
  | own s => exact absurd h (hst s)
  | getBits =>
    rw [htick]
  | ueZ =>
    rw [htick]
  | ueV =>
    rw [htick]

/-- A clock that collects a bit of a field. -/
theorem step_collect {b : Bool} (htick : T.tick p.regs=p.regs) (hst : p.walk.st = .getBits)
    (hat : p.walk.At d (b::bits)) :
    T.step p = { p with walk :=
      if p.walk.nleft = 1 then
        { p.walk.advance with acc := (2*p.walk.acc+b.toNat)%65536, st := p.walk.cont }
      else
        { p.walk.advance with
          acc := (2*p.walk.acc+b.toNat)%65536
          nleft := (p.walk.nleft+31)%32 } } := by
  have hshared : ∀ s, p.walk.st ≠ .own s := by
    intro s h
    rw [hst] at h
    cases h
  rw [step_walk hshared htick,Walk.step,hst]
  rw [hat.oob_eq,isEmpty_cons,if_neg Bool.false_ne_true,hat.cons.1]

/-- A clock past the last bit fails. -/
theorem step_end (htick : T.tick p.regs=p.regs)
    (hst : p.walk.st = .getBits ∨ p.walk.st = .ueZ) (hat : p.walk.At d []) :
    T.step p = { p with walk := { p.walk with st := .own T.fail } } := by
  have hshared : ∀ s, p.walk.st ≠ .own s := by
    intro s h
    rw [h] at hst
    rcases hst with h | h <;> cases h
  rw [step_walk hshared htick,Walk.step]
  rcases hst with h | h
  · rw [h]
    rw [hat.oob_eq,isEmpty_nil,if_pos rfl]
  · rw [h]
    dsimp only
    rw [hat.oob_eq,isEmpty_nil,if_pos rfl]

theorem leads_collect {n : ℕ} (htick : T.tick p.regs=p.regs) (hst : p.walk.st = .getBits)
    (hleft : p.walk.nleft=n+1) (hn : n<31) (hat : p.walk.At d bits)
    (hlen : n+1≤bits.length) :
    Leads T.step p fun q =>
      q.regs=p.regs ∧ q.walk.st=p.walk.cont ∧ q.walk.zcnt=p.walk.zcnt ∧
        q.walk.ueCont=p.walk.ueCont ∧ q.walk.At d (bits.drop (n+1)) ∧
        q.walk.acc=(p.walk.acc*2^(n+1)+value (bits.take (n+1)))%65536 := by
  induction n generalizing p bits with
  | zero =>
    cases bits with
    | nil => exact absurd hlen (Nat.not_succ_le_zero 0)
    | cons b bits =>
      have hone := step_collect htick hst hat
      rw [if_pos hleft] at hone
      refine Leads.next_eq hone (Leads.here ⟨rfl,rfl,?_,?_,?_,?_⟩)
      · exact Walk.zcnt_advance p.walk
      · exact Walk.ueCont_advance p.walk
      · exact hat.cons.2.congr rfl rfl rfl
      · rw [take_succ_cons,take_zero,value_cons,value_nil,length_nil]
        dsimp only
        omega
  | succ n ih =>
    cases bits with
    | nil => exact absurd hlen (Nat.not_succ_le_zero _)
    | cons b bits =>
      have hone := step_collect htick hst hat
      rw [if_neg (by omega)] at hone
      refine Leads.next_eq hone ?_
      have hrest := ih (p := { p with walk := { p.walk.advance with
          acc := (2*p.walk.acc+b.toNat)%65536
          nleft := (p.walk.nleft+31)%32 } }) htick ((Walk.st_advance p.walk).trans hst)
        (by dsimp only; omega) (by omega) (hat.cons.2.congr rfl rfl rfl)
        (Nat.le_of_succ_le_succ hlen)
      refine hrest.mono fun q hq => ?_
      obtain ⟨hregs,hcont,hzcnt,hue,hbits,hacc⟩ := hq
      refine ⟨hregs,hcont.trans (Walk.cont_advance p.walk),hzcnt.trans (Walk.zcnt_advance p.walk),
        hue.trans (Walk.ueCont_advance p.walk),hbits,?_⟩
      rw [hacc]
      have htake : (bits.take (n+1)).length=n+1 :=
        length_take_of_le (Nat.le_of_succ_le_succ hlen)
      rw [take_succ_cons,value_cons,htake,Nat.add_mod,Nat.mod_mul_mod,← Nat.add_mod]
      ring_nf

theorem leads_short {n : ℕ} (htick : T.tick p.regs=p.regs) (hst : p.walk.st = .getBits)
    (hleft : p.walk.nleft=n+1) (hn : n<31) (hat : p.walk.At d bits)
    (hlen : bits.length<n+1) :
    Leads T.step p fun q => q.regs=p.regs ∧ q.walk.st = .own T.fail := by
  induction n generalizing p bits with
  | zero =>
    have hnil : bits=[] := eq_nil_of_length_eq_zero (by omega)
    rw [hnil] at hat
    exact Leads.next_eq (step_end htick (Or.inl hst) hat) (Leads.here ⟨rfl,rfl⟩)
  | succ n ih =>
    cases bits with
    | nil => exact Leads.next_eq (step_end htick (Or.inl hst) hat) (Leads.here ⟨rfl,rfl⟩)
    | cons b bits =>
      have hone := step_collect htick hst hat
      rw [if_neg (by omega)] at hone
      refine Leads.next_eq hone ?_
      exact ih (p := { p with walk := { p.walk.advance with
          acc := (2*p.walk.acc+b.toNat)%65536
          nleft := (p.walk.nleft+31)%32 } }) htick ((Walk.st_advance p.walk).trans hst)
        (by dsimp only; omega) (by omega) (hat.cons.2.congr rfl rfl rfl)
        (Nat.lt_of_succ_lt_succ hlen)

/-- A clock that counts a zero of an Exp-Golomb code. -/
theorem step_zero (htick : T.tick p.regs=p.regs) (hst : p.walk.st = .ueZ)
    (hat : p.walk.At d (false::bits)) :
    T.step p = { p with walk :=
      if T.maxZeros ≤ p.walk.zcnt then { p.walk with st := .own T.fail }
      else { p.walk.advance with zcnt := p.walk.zcnt+1 } } := by
  have hshared : ∀ s, p.walk.st ≠ .own s := by
    intro s h
    rw [hst] at h
    cases h
  rw [step_walk hshared htick,Walk.step,hst]
  dsimp only
  rw [hat.oob_eq,isEmpty_cons,if_neg Bool.false_ne_true,hat.cons.1,if_pos rfl]

theorem step_one (htick : T.tick p.regs=p.regs) (hst : p.walk.st = .ueZ)
    (hat : p.walk.At d (true::bits)) :
    T.step p = { p with walk :=
      if p.walk.zcnt = 0 then { p.walk.advance with ueVal := 0, st := .own p.walk.ueCont }
      else
        { p.walk.advance with nleft := p.walk.zcnt%32, acc := 0, cont := .ueV, st := .getBits } } := by
  have hshared : ∀ s, p.walk.st ≠ .own s := by
    intro s h
    rw [hst] at h
    cases h
  rw [step_walk hshared htick,Walk.step,hst]
  dsimp only
  rw [hat.oob_eq,isEmpty_cons,if_neg Bool.false_ne_true,hat.cons.1,
    if_neg (by decide)]

theorem leads_zeros {z : ℕ} {rest : List Bool} (htick : T.tick p.regs=p.regs)
    (hst : p.walk.st = .ueZ) (hz : zerosBeforeOne bits=some (z,rest))
    (hmax : p.walk.zcnt+z≤T.maxZeros) (hat : p.walk.At d bits) :
    Leads T.step p fun q =>
      q.regs=p.regs ∧ q.walk.st = .ueZ ∧ q.walk.zcnt=p.walk.zcnt+z ∧
        q.walk.ueCont=p.walk.ueCont ∧ q.walk.At d (true::rest) := by
  induction bits generalizing p z with
  | nil => cases hz
  | cons b bits ih =>
    cases b with
    | true =>
      obtain ⟨rfl,rfl⟩ := Prod.mk.inj (Option.some.inj hz)
      exact Leads.here ⟨rfl,hst,rfl,rfl,hat⟩
    | false =>
      obtain ⟨r,hr,heq⟩ := Option.map_eq_some_iff.mp hz
      obtain ⟨rfl,rfl⟩ := Prod.mk.inj heq
      have hone := step_zero htick hst hat
      rw [if_neg (by omega)] at hone
      refine Leads.next_eq hone ?_
      have hrest := ih (p := { p with walk := { p.walk.advance with zcnt := p.walk.zcnt+1 } })
        htick ((Walk.st_advance p.walk).trans hst) hr (by dsimp only; omega)
        (hat.cons.2.congr rfl rfl rfl)
      refine hrest.mono fun q hq => ?_
      obtain ⟨hregs,hsame,hzcnt,hue,hbits⟩ := hq
      refine ⟨hregs,hsame,?_,hue.trans (Walk.ueCont_advance p.walk),hbits⟩
      rw [hzcnt]
      dsimp only
      omega

theorem leads_many {z : Option ℕ} (htick : T.tick p.regs=p.regs) (hst : p.walk.st = .ueZ)
    (hz : (zerosBeforeOne bits).map Prod.fst=z) (hmax : ∀ n∈z, T.maxZeros<p.walk.zcnt+n)
    (hcnt : p.walk.zcnt≤T.maxZeros) (hat : p.walk.At d bits) :
    Leads T.step p fun q => q.regs=p.regs ∧ q.walk.st = .own T.fail := by
  induction bits generalizing p z with
  | nil => exact Leads.next_eq (step_end htick (Or.inr hst) hat) (Leads.here ⟨rfl,rfl⟩)
  | cons b bits ih =>
    cases b with
    | true =>
      have hzero : z=some 0 := hz.symm
      have hbad := hmax 0 hzero
      omega
    | false =>
      have hone := step_zero htick hst hat
      by_cases hfull : T.maxZeros≤p.walk.zcnt
      · rw [if_pos hfull] at hone
        exact Leads.next_eq hone (Leads.here ⟨rfl,rfl⟩)
      · rw [if_neg hfull] at hone
        refine Leads.next_eq hone ?_
        refine ih (p := { p with walk := { p.walk.advance with zcnt := p.walk.zcnt+1 } })
          htick ((Walk.st_advance p.walk).trans hst) rfl ?_ (by dsimp only; omega)
          (hat.cons.2.congr rfl rfl rfl)
        intro n hn
        have hmore : n+1∈z := by
          rw [← hz,zerosBeforeOne,Option.map_map,Option.mem_def,Option.map_eq_some_iff]
          rw [Option.mem_def,Option.map_eq_some_iff] at hn
          obtain ⟨r,hr,hfst⟩ := hn
          exact ⟨r,hr,congrArg Nat.succ hfst⟩
        have hbad := hmax (n+1) hmore
        dsimp only
        omega

end ParserText

/-- What follows the leading zeros and the one in the hardware. -/
def walkSuffixUpTo (maxZeros z : ℕ) : Grammar ℕ :=
  if maxZeros < z then Grammar.stop
  else do
    let v ← Grammar.field z
    pure ((2^z-1+v)%65536)

/-- The unsigned Exp-Golomb code of the hardware: leading zeros up to a limit, 16 bits kept. -/
def walkUeUpTo (maxZeros : ℕ) : Grammar ℕ := do
  let z ← (zerosBeforeOne : Grammar ℕ)
  walkSuffixUpTo maxZeros z

/-- The code with at most 20 leading zeros. -/
def walkUe : Grammar ℕ := walkUeUpTo 20

namespace ParserText

variable {σ ρ α : Type} {T : ParserText σ ρ} {p : Parser σ ρ} {d : List Byte} {bits : List Bool}

/-- Where a parser stands behind an element it has read. -/
structure Behind (p q : Parser σ ρ) (next : σ) (d : List Byte) (rest : List Bool) : Prop where
  /-- The registers are kept. -/
  regs : q.regs=p.regs
  /-- The walk is in the next state. -/
  st : q.walk.st = .own next
  /-- What is left are these bits. -/
  bits : q.walk.At d rest

theorem step_ueV (htick : T.tick p.regs=p.regs) (hst : p.walk.st = .ueV) :
    T.step p = { p with walk := { p.walk with
      ueVal := (2^p.walk.zcnt%65536+65535+p.walk.acc)%65536
      st := .own p.walk.ueCont } } := by
  have hshared : ∀ s, p.walk.st ≠ .own s := by
    intro s h
    rw [hst] at h
    cases h
  rw [step_walk hshared htick,Walk.step,hst]

open Grammar

theorem leads_suffix {z : ℕ} (htick : T.tick p.regs=p.regs) (hst : p.walk.st = .ueZ)
    (hzcnt : p.walk.zcnt=z) (hmax : z≤T.maxZeros) (hat : p.walk.At d (true::bits)) :
    Leads T.step p fun q =>
      match walkSuffixUpTo T.maxZeros z bits with
      | some (v,rest) => Behind p q p.walk.ueCont d rest ∧ q.walk.ueVal=v
      | none => q.regs=p.regs ∧ q.walk.st = .own T.fail := by
  have hone := step_one htick hst hat
  have hsuffix : walkSuffixUpTo T.maxZeros z bits=(do
      let v ← field z
      pure ((2^z-1+v)%65536) : Grammar ℕ) bits := by
    rw [walkSuffixUpTo,if_neg (by omega)]
  rw [hsuffix]
  by_cases hzero : z=0
  · rw [if_pos (hzcnt.trans hzero)] at hone
    refine Leads.next_eq hone (Leads.here ?_)
    subst hzero
    exact ⟨⟨rfl,rfl,hat.cons.2.congr rfl rfl rfl⟩,rfl⟩
  · rw [if_neg (by omega)] at hone
    refine Leads.next_eq hone ?_
    obtain ⟨k,hk⟩ : ∃ k, z=k+1 := ⟨z-1,by omega⟩
    have hsmall := T.small
    have hleft : p.walk.zcnt%32=k+1 := by omega
    by_cases hlen : z≤bits.length
    · have hfield : field z bits=some (value (bits.take z),bits.drop z) := by
        rw [field,if_pos hlen]
      rw [bind_of_some hfield]
      have hcollect := leads_collect (T := T) (p := { p with walk := { p.walk.advance with
          nleft := p.walk.zcnt%32, acc := 0, cont := .ueV, st := .getBits } }) htick rfl hleft
        (by omega) (hat.cons.2.congr rfl rfl rfl) (by omega)
      refine hcollect.trans fun q hq => ?_
      obtain ⟨hregs,hueV,hcnt,hue,hbits,hacc⟩ := hq
      have hcnt' : q.walk.zcnt=z := hcnt.trans ((Walk.zcnt_advance p.walk).trans hzcnt)
      have hue' : q.walk.ueCont=p.walk.ueCont := hue.trans (Walk.ueCont_advance p.walk)
      have hput := step_ueV (p := q) (by rw [hregs]; exact htick) hueV
      rw [← hk] at hbits hacc
      refine Leads.next_eq hput (Leads.here ⟨⟨hregs,?_,hbits.congr rfl rfl rfl⟩,?_⟩)
      · exact congrArg WalkSt.own hue'
      · rw [hcnt',hacc]
        have hpow : 1≤2^z := Nat.one_le_two_pow
        dsimp only
        omega
    · have hfield : field z bits=none := by
        rw [field,if_neg hlen]
      rw [bind_of_none hfield]
      exact leads_short (T := T) (p := { p with walk := { p.walk.advance with
          nleft := p.walk.zcnt%32, acc := 0, cont := .ueV, st := .getBits } }) htick rfl hleft
        (by omega) (hat.cons.2.congr rfl rfl rfl) (by omega)

/-- A parser that starts an Exp-Golomb code follows a syntax that starts with one. -/
theorem leads_ue {Q : Option (α × List Bool) → Parser σ ρ → Prop} {f : ℕ → Grammar α}
    (htick : T.tick p.regs=p.regs) (hst : p.walk.st = .ueZ) (hzcnt : p.walk.zcnt=0)
    (hat : p.walk.At d bits)
    (hsome : ∀ v rest q, Behind p q p.walk.ueCont d rest → q.walk.ueVal=v →
      walkUeUpTo T.maxZeros bits=some (v,rest) → Leads T.step q (Q (f v rest)))
    (hnone : ∀ q, q.regs=p.regs → q.walk.st = .own T.fail → Leads T.step q (Q none)) :
    Leads T.step p (Q ((walkUeUpTo T.maxZeros >>= f) bits)) := by
  cases hz : zerosBeforeOne bits with
  | none =>
    have hnot : walkUeUpTo T.maxZeros bits=none := bind_of_none hz
    rw [bind_of_none hnot]
    refine (leads_many htick hst rfl ?_ (by omega) hat).trans fun q hq => hnone q hq.1 hq.2
    intro n hn
    rw [hz] at hn
    cases hn
  | some r =>
    have hzeros : (zerosBeforeOne : Grammar ℕ) bits=some (r.1,r.2) := hz
    have hue : walkUeUpTo T.maxZeros bits=walkSuffixUpTo T.maxZeros r.1 r.2 := bind_of_some hzeros
    by_cases hmax : T.maxZeros<r.1
    · have hnot : walkUeUpTo T.maxZeros bits=none := by
        rw [hue,walkSuffixUpTo,if_pos hmax]
        rfl
      rw [bind_of_none hnot]
      refine (leads_many htick hst rfl ?_ (by omega) hat).trans fun q hq => hnone q hq.1 hq.2
      intro n hn
      rw [hz,Option.map_some,Option.mem_def,Option.some.injEq] at hn
      omega
    · refine (leads_zeros htick hst hz (by omega) hat).trans fun q hq => ?_
      obtain ⟨hregs,hsame,hcnt,hcont,hbits⟩ := hq
      have htick' : T.tick q.regs=q.regs := by
        rw [hregs]
        exact htick
      refine (leads_suffix (z := r.1) htick' hsame (by omega) (by omega) hbits).trans fun t ht => ?_
      rw [← hue] at ht
      cases hcode : walkUeUpTo T.maxZeros bits with
      | none =>
        rw [hcode] at ht
        rw [bind_of_none hcode]
        exact hnone t (ht.1.trans hregs) ht.2
      | some c =>
        rw [hcode] at ht
        rw [bind_of_some (show walkUeUpTo T.maxZeros bits=some (c.1,c.2) from hcode)]
        refine hsome c.1 c.2 t ⟨ht.1.regs.trans hregs,?_,ht.1.bits⟩ ht.2 hcode
        rw [ht.1.st,hcont]

theorem leads_field {Q : Option (α × List Bool) → Parser σ ρ → Prop} {f : ℕ → Grammar α} {n : ℕ}
    {next : σ} (htick : T.tick p.regs=p.regs) (hst : p.walk.st = .getBits)
    (hcont : p.walk.cont = .own next) (hleft : p.walk.nleft=n) (hacc : p.walk.acc=0)
    (hpos : 1≤n) (hn : n≤16) (hat : p.walk.At d bits)
    (hsome : ∀ v rest q, Behind p q next d rest → q.walk.acc=v →
      Grammar.field n bits=some (v,rest) → Leads T.step q (Q (f v rest)))
    (hnone : ∀ q, q.regs=p.regs → q.walk.st = .own T.fail → Leads T.step q (Q none)) :
    Leads T.step p (Q ((Grammar.field n >>= f) bits)) := by
  by_cases hlen : n≤bits.length
  · have hfield : field n bits=some (value (bits.take n),bits.drop n) := by
      rw [field,if_pos hlen]
    rw [bind_of_some hfield]
    obtain ⟨k,rfl⟩ : ∃ k, n=k+1 := ⟨n-1,by omega⟩
    refine (leads_collect htick hst hleft (by omega) hat hlen).trans fun q hq => ?_
    obtain ⟨hregs,hown,-,-,hbits,hval⟩ := hq
    refine hsome _ _ q ⟨hregs,hown.trans hcont,hbits⟩ ?_ hfield
    rw [hval,hacc,Nat.zero_mul,Nat.zero_add]
    refine Nat.mod_eq_of_lt (lt_of_lt_of_le (value_lt _) ?_)
    rw [length_take_of_le hlen]
    exact Nat.pow_le_pow_right (by omega) hn
  · have hfield : field n bits=none := by
      rw [field,if_neg hlen]
    rw [bind_of_none hfield]
    obtain ⟨k,rfl⟩ : ∃ k, n=k+1 := ⟨n-1,by omega⟩
    refine (leads_short htick hst hleft (by omega) hat (by omega)).trans fun q hq => ?_
    exact hnone q hq.1 hq.2

/-- What a parser comes to at the end of a syntax, and what its registers keep on the way. -/
structure Course (T : ParserText σ ρ) (α : Type) where
  /-- Kept by the registers on the way. -/
  Keeps : ρ → Prop
  /-- Where the parser comes to with what the syntax says. -/
  End : Option (α × List Bool) → Parser σ ρ → Prop
  /-- The registers are at their defaults. -/
  tick : ∀ {r : ρ}, Keeps r → T.tick r=r
  /-- From the state for errors the parser comes to the end of no syntax. -/
  fails : ∀ {p : Parser σ ρ}, p.walk.st = .own T.fail → Keeps p.regs → Leads T.step p (End none)

variable {s next : σ} {G G' : ρ → ℕ → Grammar α} {n m : ℕ}

/-- From an own state behind an Exp-Golomb code the parser follows a syntax. -/
def FollowsUe (C : Course T α) (s : σ) (G : ρ → ℕ → Grammar α) : Prop :=
  ∀ (p : Parser σ ρ) (d : List Byte) (bits : List Bool), p.walk.st = .own s → C.Keeps p.regs →
    p.walk.At d bits → Leads T.step p (C.End (G p.regs p.walk.ueVal bits))

/-- From an own state behind a field the parser follows a syntax. -/
def FollowsField (C : Course T α) (n : ℕ) (s : σ) (G : ρ → ℕ → Grammar α) : Prop :=
  ∀ (p : Parser σ ρ) (d : List Byte) (bits : List Bool), p.walk.st = .own s → C.Keeps p.regs →
    p.walk.acc<2^n → p.walk.At d bits → Leads T.step p (C.End (G p.regs p.walk.acc bits))

variable {C : Course T α}

/-- The parser follows a syntax by starting an Exp-Golomb code of it. -/
theorem FollowsUe.start {q : Parser σ ρ} {r : ρ} (h : FollowsUe C next G)
    (hq : q = { walk := p.walk.startUe next, regs := r }) (hr : C.Keeps r)
    (hat : p.walk.At d bits) : Leads T.step q (C.End ((walkUeUpTo T.maxZeros >>= G r) bits)) := by
  subst hq
  refine leads_ue (C.tick hr) rfl rfl (hat.congr rfl rfl rfl) ?_ ?_
  · intro v rest t ht hval _
    have hkeeps : C.Keeps t.regs := by
      rw [ht.regs]
      exact hr
    have hrest := h t d rest ht.st hkeeps ht.bits
    rw [ht.regs,hval] at hrest
    exact hrest
  · intro t hregs hst
    refine C.fails hst ?_
    rw [hregs]
    exact hr

/-- Behind a field likewise. -/
theorem FollowsField.start {q : Parser σ ρ} {r : ρ} (h : FollowsField C n next G) (hpos : 1≤n)
    (hn : n≤16) (hq : q = { walk := p.walk.startBits n next, regs := r }) (hr : C.Keeps r)
    (hat : p.walk.At d bits) : Leads T.step q (C.End ((Grammar.field n >>= G r) bits)) := by
  subst hq
  refine leads_field (C.tick hr) rfl rfl rfl rfl hpos hn (hat.congr rfl rfl rfl) ?_ ?_
  · intro v rest t ht hval hfield
    have hkeeps : C.Keeps t.regs := by
      rw [ht.regs]
      exact hr
    have hlt : t.walk.acc<2^n := by
      rw [hval]
      exact field_lt hfield
    have hrest := h t d rest ht.st hkeeps hlt ht.bits
    rw [ht.regs,hval] at hrest
    exact hrest
  · intro t hregs hst
    refine C.fails hst ?_
    rw [hregs]
    exact hr

variable (upd : ρ → ℕ → ρ)

/-- From one Exp-Golomb code to the next. -/
theorem FollowsUe.ue (h : FollowsUe C next G')
    (hown : ∀ p, T.own s p = { walk := p.walk.startUe next, regs := upd p.regs p.walk.ueVal })
    (hkeep : ∀ r v, C.Keeps r → C.Keeps (upd r v)) :
    FollowsUe C s fun r v => walkUeUpTo T.maxZeros >>= G' (upd r v) := fun _ _ _ hst hk hat =>
  Leads.next_eq (step_own hst (C.tick hk)) (h.start (hown _) (hkeep _ _ hk) hat)

/-- From an Exp-Golomb code to a field. -/
theorem FollowsUe.field (h : FollowsField C n next G') (hpos : 1≤n) (hn : n≤16)
    (hown : ∀ p, T.own s p = { walk := p.walk.startBits n next, regs := upd p.regs p.walk.ueVal })
    (hkeep : ∀ r v, C.Keeps r → C.Keeps (upd r v)) :
    FollowsUe C s fun r v => Grammar.field n >>= G' (upd r v) := fun _ _ _ hst hk hat =>
  Leads.next_eq (step_own hst (C.tick hk)) (h.start hpos hn (hown _) (hkeep _ _ hk) hat)

/-- From a field to an Exp-Golomb code. -/
theorem FollowsField.ue (h : FollowsUe C next G')
    (hown : ∀ p, T.own s p = { walk := p.walk.startUe next, regs := upd p.regs p.walk.acc })
    (hkeep : ∀ r v, C.Keeps r → C.Keeps (upd r v)) :
    FollowsField C n s fun r v => walkUeUpTo T.maxZeros >>= G' (upd r v) := fun _ _ _ hst hk _ hat =>
  Leads.next_eq (step_own hst (C.tick hk)) (h.start (hown _) (hkeep _ _ hk) hat)

/-- From a field to the next. -/
theorem FollowsField.field (h : FollowsField C m next G') (hpos : 1 ≤ m) (hm : m≤16)
    (hown : ∀ p, T.own s p = { walk := p.walk.startBits m next, regs := upd p.regs p.walk.acc })
    (hkeep : ∀ r v, C.Keeps r → C.Keeps (upd r v)) :
    FollowsField C n s fun r v => Grammar.field m >>= G' (upd r v) := fun _ _ _ hst hk _ hat =>
  Leads.next_eq (step_own hst (C.tick hk)) (h.start hpos hm (hown _) (hkeep _ _ hk) hat)

end ParserText

end Misterplex.Header
