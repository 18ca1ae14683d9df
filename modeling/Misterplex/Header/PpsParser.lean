import Misterplex.Header.SliceHost
import Misterplex.Header.SpsDelivery

/-!
# pps_parser

The hardware parser of picture parameter sets. It captures up to 24 bytes
without emulation prevention and walks over them when the capture ends, with at
most 16 leading zeros in a code. Every field is put on its output as soon as it
is read; the valid flag is raised at the end of a set without arithmetic coding
and never taken back.

A payload may end early, have slice groups or a code with too many leading zeros. It
has the fields before that, and when the parser is idle again its outputs have them.
-/

namespace Misterplex.Header

open BitString BitGrammar Cavlc Emulation ParserText

/-- Bytes of the capture buffer. -/
def ppsMaxB : ℕ := 24

/-- Own states of the parser. -/
inductive PpsSt where
  | idle | ppsId | spsId | ent | bot | sg | nrl0 | nrl1 | wp | wbi | qp | qs | chr | db | ci | red
  | done | fail
  deriving DecidableEq, Repr

/-- Outputs of the parser. -/
structure PpsOut where
  valid : Bool
  /-- Identifiers of the set and of its sequence parameter set. -/
  (ppsId spsId : ℕ)
  entropyCabac : Bool
  numRefL0 : ℕ
  picInitQp : ℤ
  deblockCtrl : Bool
  deriving DecidableEq, Repr

/-- Own registers of the parser. -/
structure PpsRegs where
  out : PpsOut
  busy : Bool
  deriving DecidableEq, Repr

/-- The parser. -/
abbrev PpsParser := Parser PpsSt PpsRegs

/-- The hardware's signed value of an unsigned code: bits 7 to 1, in eight bits with a sign. -/
def ppsSeOf (k : ℕ) : ℤ :=
  if k%2 = 0 then int8 (-((k/2%128 : ℕ) : ℤ)) else int8 ((k/2%128 : ℕ)+1)

/-- The initial quantiser of the hardware, from the code. -/
def initQp (k : ℕ) : ℤ := int8 (26+ppsSeOf k)

/-- Another value on the outputs. -/
def PpsRegs.put (r : PpsRegs) (f : PpsOut → PpsOut) : PpsRegs := { r with out := f r.out }

/-- One clock in an own state, without the end of a capture. -/
def ppsOwn (s : PpsSt) (p : PpsParser) : PpsParser :=
  let w := p.walk
  let r := p.regs
  match s with
  | .idle => { p with regs := { r with busy := false } }
  | .ppsId => { walk := w.startUe .spsId, regs := r.put ({ · with ppsId := w.ueVal%256 }) }
  | .spsId => { walk := w.startBits 1 .ent, regs := r.put ({ · with spsId := w.ueVal%256 }) }
  | .ent =>
    { walk := w.startBits 1 .bot, regs := r.put ({ · with entropyCabac := w.acc%2 == 1 }) }
  | .bot => { p with walk := w.startUe .sg }
  | .sg =>
    if w.ueVal ≠ 0 then { p with walk := { w with st := .own .fail } }
    else { p with walk := w.startUe .nrl0 }
  | .nrl0 => { walk := w.startUe .nrl1, regs := r.put ({ · with numRefL0 := w.ueVal%256 }) }
  | .nrl1 => { p with walk := w.startBits 1 .wp }
  | .wp => { p with walk := w.startBits 2 .wbi }
  | .wbi => { p with walk := w.startUe .qp }
  | .qp => { walk := w.startUe .qs, regs := r.put ({ · with picInitQp := initQp w.ueVal }) }
  | .qs => { p with walk := w.startUe .chr }
  | .chr => { p with walk := w.startBits 1 .db }
  | .db =>
    { walk := w.startBits 1 .ci, regs := r.put ({ · with deblockCtrl := w.acc%2 == 1 }) }
  | .ci => { p with walk := w.startBits 1 .red }
  | .red => { p with walk := { w with st := .own .done } }
  | .done =>
    { walk := { w with st := .own .idle }
      regs := { out := { r.out with valid := r.out.valid || !r.out.entropyCabac }, busy := false } }
  | .fail => { walk := { w with st := .own .idle }, regs := { r with busy := false } }

/-- The picture parameter set as a text of the bit walk. -/
def ppsText : ParserText PpsSt PpsRegs where
  maxZeros := 16
  fail := .fail
  tick := id
  own := ppsOwn

/-- The walk starts at the first bit with the identifier. -/
def PpsParser.start (p : PpsParser) : PpsParser where
  walk := { p.walk with bbyte := 0, bpos := 7, zcnt := 0, ueCont := .ppsId, st := .ueZ }
  regs := { p.regs with busy := true }

/-- The registers of the walk and of the parser after a clock. -/
def PpsParser.walkStep (p : PpsParser) (i : CapPort) : PpsParser :=
  if p.walk.st = .own .idle ∧ i.last=true ∧ 2 ≤ p.walk.mem.length then PpsParser.start p
  else ppsText.step p

/-- One clock. -/
def PpsParser.step (p : PpsParser) (i : CapPort) : PpsParser :=
  let q := p.walkStep i
  { q with walk := { q.walk with mem := captureUpTo ppsMaxB p.walk.mem i } }

/-- The parser after reset. -/
def PpsParser.reset : PpsParser where
  walk :=
    { mem := [], bbyte := 0, bpos := 7, st := .own .idle, cont := .own .idle, ueCont := .idle,
      zcnt := 0, nleft := 0, acc := 0, ueVal := 0 }
  regs :=
    { out := { valid := false, ppsId := 0, spsId := 0, entropyCabac := false, numRefL0 := 0,
               picInitQp := 26, deblockCtrl := false }
      busy := false }

/-- The fields of a payload, as far as it has them. -/
structure PpsPart where
  ppsId : Option ℕ := none
  /-- Identifier of the sequence parameter set. -/
  spsId : Option ℕ := none
  entropyCabac : Option Bool := none
  /-- Number of reference pictures less one. -/
  numRefL0 : Option ℕ := none
  qpCode : Option ℕ := none
  /-- Slices carry deblocking control. -/
  deblockCtrl : Option Bool := none
  complete : Bool := false
  deriving DecidableEq, Repr

namespace PpsPart

/-- What follows a field, with the field's value. -/
abbrev Behind := PpsPart → ℕ → List Bool → PpsPart

/-- A code and what follows it, or nothing more. -/
def thenUe (next : Behind) (c : PpsPart) (bits : List Bool) : PpsPart :=
  match walkUeUpTo 16 bits with
  | some (v,rest) => next c v rest
  | none => c

/-- A field and what follows it, or nothing more. -/
def thenField (n : ℕ) (next : Behind) (c : PpsPart) (bits : List Bool) : PpsPart :=
  match Grammar.field n bits with
  | some (v,rest) => next c v rest
  | none => c

/-- Behind ST_RED. -/
def behindRed : Behind := fun c _ _ => { c with complete := true }

/-- Behind ST_CI. -/
def behindCi : Behind := fun c _ bits => thenField 1 behindRed c bits

/-- Behind ST_DB. -/
def behindDb : Behind := fun c v bits =>
  thenField 1 behindCi { c with deblockCtrl := some (v%2 == 1) } bits

/-- Behind ST_CHR. -/
def behindChr : Behind := fun c _ bits => thenField 1 behindDb c bits

/-- Behind ST_QS. -/
def behindQs : Behind := fun c _ bits => thenUe behindChr c bits

/-- Behind ST_QP. -/
def behindQp : Behind := fun c v bits => thenUe behindQs { c with qpCode := some v } bits

/-- Behind ST_WBI. -/
def behindWbi : Behind := fun c _ bits => thenUe behindQp c bits

/-- Behind ST_WP. -/
def behindWp : Behind := fun c _ bits => thenField 2 behindWbi c bits

/-- Behind ST_NRL1. -/
def behindNrl1 : Behind := fun c _ bits => thenField 1 behindWp c bits

/-- Behind ST_NRL0. -/
def behindNrl0 : Behind := fun c v bits =>
  thenUe behindNrl1 { c with numRefL0 := some (v%256) } bits

/-- Behind ST_SG. -/
def behindSg : Behind := fun c v bits => if v ≠ 0 then c else thenUe behindNrl0 c bits

/-- Behind ST_BOT. -/
def behindBot : Behind := fun c _ bits => thenUe behindSg c bits

/-- Behind ST_ENT. -/
def behindEnt : Behind := fun c v bits =>
  thenField 1 behindBot { c with entropyCabac := some (v%2 == 1) } bits

/-- Behind ST_SPSID. -/
def behindSpsId : Behind := fun c v bits =>
  thenField 1 behindEnt { c with spsId := some (v%256) } bits

/-- Behind ST_PPSID. -/
def behindPpsId : Behind := fun c v bits =>
  thenUe behindSpsId { c with ppsId := some (v%256) } bits

/-- The fields that some bits have. -/
def ofBits (bits : List Bool) : PpsPart := thenUe behindPpsId {} bits

theorem thenUe_of_some {next : Behind} {c : PpsPart} {bits rest : List Bool} {v : ℕ}
    (h : walkUeUpTo 16 bits=some (v,rest)) : thenUe next c bits=next c v rest := by
  rw [thenUe,h]

theorem thenUe_of_none {next : Behind} {c : PpsPart} {bits : List Bool}
    (h : walkUeUpTo 16 bits=none) : thenUe next c bits=c := by
  rw [thenUe,h]

theorem thenField_of_some {n : ℕ} {next : Behind} {c : PpsPart} {bits rest : List Bool} {v : ℕ}
    (h : Grammar.field n bits=some (v,rest)) : thenField n next c bits=next c v rest := by
  rw [thenField,h]

theorem thenField_of_none {n : ℕ} {next : Behind} {c : PpsPart} {bits : List Bool}
    (h : Grammar.field n bits=none) : thenField n next c bits=c := by
  rw [thenField,h]

end PpsPart

/-- The outputs with the fields of a payload over them. -/
def PpsPart.over (c : PpsPart) (o : PpsOut) : PpsOut where
  valid := o.valid || (c.complete && !c.entropyCabac.getD o.entropyCabac)
  ppsId := c.ppsId.getD o.ppsId
  spsId := c.spsId.getD o.spsId
  entropyCabac := c.entropyCabac.getD o.entropyCabac
  numRefL0 := c.numRefL0.getD o.numRefL0
  picInitQp := (c.qpCode.map initQp).getD o.picInitQp
  deblockCtrl := c.deblockCtrl.getD o.deblockCtrl

open PpsPart

variable {d : List Byte} {bits : List Bool} {p : PpsParser} {c : PpsPart} {o : PpsOut}

/-- The parser is idle again, with fields over the outputs. -/
def PpsEnd (o : PpsOut) (c : PpsPart) (q : PpsParser) : Prop :=
  q.walk.st = .own .idle ∧ q.regs.out=c.over o

/-- On the way the fields read so far are over the outputs. -/
structure PpsOnWay (o : PpsOut) (c : PpsPart) (r : PpsRegs) : Prop where
  going : c.complete=false
  out : r.out=c.over o

theorem pps_fails (hst : p.walk.st = .own .fail) (hout : p.regs.out=c.over o) :
    Leads ppsText.step p (PpsEnd o c) :=
  Leads.next_eq (step_own hst rfl) (Leads.here ⟨rfl,hout⟩)

/-- What the parser does in one of its states behind an element, whose value is in a register. -/
def Follows (o : PpsOut) (value : Walk PpsSt → ℕ) (s : PpsSt) (next : Behind) : Prop :=
  ∀ (p : PpsParser) (d : List Byte) (bits : List Bool) (c : PpsPart), p.walk.st = .own s →
    PpsOnWay o c p.regs → p.walk.At d bits →
    Leads ppsText.step p (PpsEnd o (next c (value p.walk) bits))

open Grammar

theorem Follows.startCode {s : PpsSt} {next : Behind} {q : PpsParser} {r : PpsRegs}
    (h : Follows o Walk.ueVal s next) (hq : q = { walk := p.walk.startUe s, regs := r })
    (hway : PpsOnWay o c r) (hat : p.walk.At d bits) :
    Leads ppsText.step q (PpsEnd o (thenUe next c bits)) := by
  subst hq
  have hleads := leads_ue (T := ppsText) (p := { walk := p.walk.startUe s, regs := r }) (d := d)
    (Q := fun found => PpsEnd o (match found with | some (t,_) => t | none => c))
    (f := fun v rest => (some (next c v rest,[]) : Option (PpsPart × List Bool)))
    rfl rfl rfl (hat.congr rfl rfl rfl)
    (fun v rest t ht hval _ => by
      have hrest := h t d rest c ht.st (by rw [ht.regs]; exact hway) ht.bits
      rw [hval] at hrest
      exact hrest)
    (fun t hregs hst => pps_fails hst (by rw [hregs]; exact hway.out))
  have hmax : ppsText.maxZeros=16 := rfl
  rw [hmax] at hleads
  cases hcode : walkUeUpTo 16 bits with
  | none =>
    rw [bind_of_none hcode] at hleads
    rw [thenUe_of_none hcode]
    exact hleads
  | some found =>
    rw [bind_of_some (show walkUeUpTo 16 bits=some (found.1,found.2) from hcode)]
      at hleads
    rw [thenUe_of_some (show walkUeUpTo 16 bits=some (found.1,found.2) from hcode)]
    exact hleads

theorem Follows.startField {n : ℕ} {s : PpsSt} {next : Behind} {q : PpsParser} {r : PpsRegs}
    (h : Follows o Walk.acc s next) (hpos : 1≤n) (hn : n≤16)
    (hq : q = { walk := p.walk.startBits n s, regs := r }) (hway : PpsOnWay o c r)
    (hat : p.walk.At d bits) :
    Leads ppsText.step q (PpsEnd o (thenField n next c bits)) := by
  subst hq
  have hleads := leads_field (T := ppsText) (p := { walk := p.walk.startBits n s, regs := r })
    (d := d) (n := n)
    (Q := fun found => PpsEnd o (match found with | some (t,_) => t | none => c))
    (f := fun v rest => (some (next c v rest,[]) : Option (PpsPart × List Bool)))
    rfl rfl rfl rfl rfl hpos hn (hat.congr rfl rfl rfl)
    (fun v rest t ht hval _ => by
      have hrest := h t d rest c ht.st (by rw [ht.regs]; exact hway) ht.bits
      rw [hval] at hrest
      exact hrest)
    (fun t hregs hst => pps_fails hst (by rw [hregs]; exact hway.out))
  cases hfield : field n bits with
  | none =>
    rw [bind_of_none hfield] at hleads
    rw [thenField_of_none hfield]
    exact hleads
  | some found =>
    rw [bind_of_some (show field n bits=some (found.1,found.2) from hfield)]
      at hleads
    rw [thenField_of_some (show field n bits=some (found.1,found.2) from hfield)]
    exact hleads

variable {value : Walk PpsSt → ℕ} {s s' : PpsSt} {next : Behind}

/-- A part of the set that is an Exp-Golomb code. -/
theorem Follows.code (h : Follows o Walk.ueVal s' next) (upd : PpsPart → ℕ → PpsPart)
    (put : PpsRegs → ℕ → PpsRegs)
    (hown : ∀ p, ppsOwn s p = { walk := p.walk.startUe s', regs := put p.regs (value p.walk) })
    (hway : ∀ c r v, PpsOnWay o c r → PpsOnWay o (upd c v) (put r v)) :
    Follows o value s fun c v bits => thenUe next (upd c v) bits := fun p _ _ c hst hon hat =>
  Leads.next_eq (step_own hst rfl)
    (h.startCode (hown p) (hway c p.regs (value p.walk) hon) hat)

/-- A part of the set that is a field. -/
theorem Follows.field (h : Follows o Walk.acc s' next) (n : ℕ) (hpos : 1≤n) (hn : n≤16)
    (upd : PpsPart → ℕ → PpsPart) (put : PpsRegs → ℕ → PpsRegs)
    (hown : ∀ p, ppsOwn s p = { walk := p.walk.startBits n s', regs := put p.regs (value p.walk) })
    (hway : ∀ c r v, PpsOnWay o c r → PpsOnWay o (upd c v) (put r v)) :
    Follows o value s fun c v bits => thenField n next (upd c v) bits :=
  fun p _ _ c hst hon hat =>
    Leads.next_eq (step_own hst rfl)
      (h.startField hpos hn (hown p) (hway c p.regs (value p.walk) hon) hat)

theorem follows_red : Follows o Walk.acc .red behindRed := by
  intro p d bits c hst hway _
  refine Leads.next_eq (step_own hst rfl) (Leads.next_eq (step_own rfl rfl) (Leads.here ⟨rfl,?_⟩))
  have hout : p.regs.out=c.over o := hway.out
  show { p.regs.out with valid := p.regs.out.valid || !p.regs.out.entropyCabac } = _
  rw [hout]
  unfold PpsPart.over behindRed
  rw [hway.going]
  simp

theorem follows_ci : Follows o Walk.acc .ci behindCi :=
  Follows.field follows_red 1 (by omega) (by omega) (fun c _ => c) (fun r _ => r) (fun _ => rfl)
    fun _ _ _ h => h

theorem follows_db : Follows o Walk.acc .db behindDb :=
  Follows.field follows_ci 1 (by omega) (by omega)
    (fun c v => { c with deblockCtrl := some (v%2 == 1) })
    (fun r v => r.put ({ · with deblockCtrl := v%2 == 1 })) (fun _ => rfl)
    fun _ _ _ h => ⟨h.going,by rw [PpsRegs.put,h.out]; rfl⟩

theorem follows_chr : Follows o Walk.ueVal .chr behindChr :=
  Follows.field follows_db 1 (by omega) (by omega) (fun c _ => c) (fun r _ => r) (fun _ => rfl)
    fun _ _ _ h => h

theorem follows_qs : Follows o Walk.ueVal .qs behindQs :=
  Follows.code follows_chr (fun c _ => c) (fun r _ => r) (fun _ => rfl) fun _ _ _ h => h

theorem follows_qp : Follows o Walk.ueVal .qp behindQp :=
  Follows.code follows_qs (fun c v => { c with qpCode := some v })
    (fun r v => r.put ({ · with picInitQp := initQp v })) (fun _ => rfl)
    fun _ _ _ h => ⟨h.going,by rw [PpsRegs.put,h.out]; rfl⟩

theorem follows_wbi : Follows o Walk.acc .wbi behindWbi :=
  Follows.code follows_qp (fun c _ => c) (fun r _ => r) (fun _ => rfl) fun _ _ _ h => h

theorem follows_wp : Follows o Walk.acc .wp behindWp :=
  Follows.field follows_wbi 2 (by omega) (by omega) (fun c _ => c) (fun r _ => r) (fun _ => rfl)
    fun _ _ _ h => h

theorem follows_nrl1 : Follows o Walk.ueVal .nrl1 behindNrl1 :=
  Follows.field follows_wp 1 (by omega) (by omega) (fun c _ => c) (fun r _ => r) (fun _ => rfl)
    fun _ _ _ h => h

theorem follows_nrl0 : Follows o Walk.ueVal .nrl0 behindNrl0 :=
  follows_nrl1.code (fun c v => { c with numRefL0 := some (v%256) })
    (fun r v => r.put ({ · with numRefL0 := v%256 })) (fun _ => rfl)
    fun _ _ _ h => ⟨h.going,by rw [PpsRegs.put,h.out]; rfl⟩

theorem follows_sg : Follows o Walk.ueVal .sg behindSg := by
  intro p d bits c hst hway hat
  refine Leads.next_eq (step_own hst rfl) ?_
  rw [behindSg]
  by_cases hgroups : p.walk.ueVal≠0
  · rw [if_pos hgroups]
    have hown : ppsText.own .sg p = { p with walk := { p.walk with st := .own .fail } } := by
      show ppsOwn .sg p=_
      rw [ppsOwn,if_pos hgroups]
    rw [hown]
    exact pps_fails rfl hway.out
  · rw [if_neg hgroups]
    refine follows_nrl0.startCode (p := p) (r := p.regs) ?_ hway hat
    show ppsOwn .sg p=_
    rw [ppsOwn,if_neg hgroups]

theorem follows_bot : Follows o Walk.acc .bot behindBot :=
  Follows.code follows_sg (fun c _ => c) (fun r _ => r) (fun _ => rfl) fun _ _ _ h => h

theorem follows_ent : Follows o Walk.acc .ent behindEnt :=
  Follows.field follows_bot 1 (by omega) (by omega)
    (fun c v => { c with entropyCabac := some (v%2 == 1) })
    (fun r v => r.put ({ · with entropyCabac := v%2 == 1 })) (fun _ => rfl)
    fun c r v h => ⟨h.going,by rw [PpsRegs.put,h.out]; simp [PpsPart.over,h.going]⟩

theorem follows_pps_spsId : Follows o Walk.ueVal .spsId PpsPart.behindSpsId :=
  Follows.field follows_ent 1 (by omega) (by omega) (fun c v => { c with spsId := some (v%256) })
    (fun r v => r.put ({ · with spsId := v%256 })) (fun _ => rfl)
    fun _ _ _ h => ⟨h.going,by rw [PpsRegs.put,h.out]; rfl⟩

theorem follows_ppsId : Follows o Walk.ueVal .ppsId behindPpsId :=
  Follows.code follows_pps_spsId (fun c v => { c with ppsId := some (v%256) })
    (fun r v => r.put ({ · with ppsId := v%256 })) (fun _ => rfl)
    fun _ _ _ h => ⟨h.going,by rw [PpsRegs.put,h.out]; rfl⟩

theorem over_nothing (o : PpsOut) : ({} : PpsPart).over o=o := by
  show { o with valid := o.valid || (false && _) } = o
  rw [Bool.false_and,Bool.or_false]

theorem leads_pps (p : PpsParser) :
    Leads ppsText.step (PpsParser.start p)
      (PpsEnd p.regs.out (PpsPart.ofBits (bitsOf p.walk.mem))) := by
  have hat : Walk.At p.walk.mem (bitsOf p.walk.mem) { p.walk with bbyte := 0, bpos := 7 } :=
    ⟨rfl,le_refl 7,by dsimp only; rw [length_bitsOf]; omega,rfl⟩
  exact follows_ppsId.startCode (p := { p with walk := { p.walk with bbyte := 0, bpos := 7 } })
    rfl ⟨rfl,(over_nothing _).symm⟩ hat

end Misterplex.Header
