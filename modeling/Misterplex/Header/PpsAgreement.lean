import Misterplex.Header.PpsParser

/-!
# The two parsers of picture parameter sets

One payload after another is given to the hardware parser, as with the sequence
parameter sets. The hardware drops the upper bits of the initial quantiser's
code, takes 65536 slice groups for a single one, and puts the fields of a
payload out that it then refuses. It shows what the host says exactly of the
payloads that do not touch these differences.
-/

namespace Misterplex.Header

open BitString BitGrammar Cavlc Emulation ParserText PpsPart

/-- A payload is given to the parser, which comes back to its idle state. -/
def PpsDelivers (p : PpsParser) (payload : List Byte) (q : PpsParser) : Prop :=
  ∃ is n, Brings is (removeEpb payload) ∧ q.walk.st = .own .idle ∧
    q=(PpsParser.step · CapPort.quiet)^[n]
      ((Trace.finalState PpsParser.step (p.step CapPort.begin) is).step CapPort.close)

variable {p : PpsParser}

open PpsParser

theorem pps_step_idle {i : CapPort} (hst : p.walk.st = .own .idle) (hlast : i.last=false) :
    (p.step i).walk.st = .own .idle ∧ (p.step i).regs.out=p.regs.out ∧
      (p.step i).walk.mem=captureUpTo ppsMaxB p.walk.mem i := by
  have hwalk : p.walkStep i=ppsOwn .idle p := by
    rw [walkStep,if_neg (by rw [hlast]; exact fun h => Bool.noConfusion h.2.1)]
    exact step_own hst rfl
  rw [PpsParser.step,hwalk]
  exact ⟨hst,rfl,rfl⟩

theorem pps_run_capture {is : List CapPort} {bytes : List Byte} (h : Brings is bytes)
    (hst : p.walk.st = .own .idle) (hlen : p.walk.mem.length≤ppsMaxB) :
    let q := Trace.finalState PpsParser.step p is
    q.walk.st = .own .idle ∧ q.regs.out=p.regs.out ∧
      q.walk.mem=(p.walk.mem ++ bytes).take ppsMaxB := by
  induction is generalizing p bytes with
  | nil =>
    have hnone : bytes=[] := h.bytes.symm
    rw [hnone,List.append_nil,List.take_of_length_le hlen]
    exact ⟨hst,rfl,rfl⟩
  | cons i is ih =>
    obtain ⟨-,hlast⟩ := h.running i (List.mem_cons_self ..)
    obtain ⟨hst',hout,hmem⟩ := pps_step_idle hst hlast
    obtain ⟨hrest,hshort,hbytes⟩ := h.captureUpTo_cons hlen
    obtain ⟨hidle,hshown,hcaptured⟩ := ih hrest hst' hshort
    exact ⟨hidle,hshown.trans hout,hcaptured.trans hbytes⟩

theorem mem_ppsStep (p : PpsParser) : (ppsText.step p).walk.mem=p.walk.mem := by
  rw [ParserText.step]
  split
  · rename_i s _
    show (ppsOwn s _).walk.mem=p.walk.mem
    cases s with
    | sg =>
      rw [ppsOwn]
      split <;> rfl
    | _ => rfl
  · exact Walk.mem_step _ _ _

theorem pps_step_quiet (p : PpsParser) : p.step CapPort.quiet=ppsText.step p := by
  have hwalk : p.walkStep CapPort.quiet=ppsText.step p := by
    rw [walkStep,if_neg]
    rintro ⟨-,hlast,-⟩
    cases hlast
  rw [PpsParser.step,hwalk]
  show { ppsText.step p with walk := { (ppsText.step p).walk with mem := p.walk.mem } } = _
  rw [← mem_ppsStep p]

theorem pps_quiet_idle (hst : p.walk.st = .own .idle) (n : ℕ) :
    (ppsText.step^[n] p).walk.st = .own .idle ∧ (ppsText.step^[n] p).regs.out=p.regs.out := by
  induction n generalizing p with
  | zero => exact ⟨hst,rfl⟩
  | succ n ih =>
    have hstep : ppsText.step p=ppsOwn .idle p := step_own hst rfl
    obtain ⟨hidle,hout⟩ := ih (p := ppsText.step p) (by rw [hstep]; exact hst)
    refine ⟨hidle,hout.trans ?_⟩
    rw [hstep]
    rfl

theorem pps_out_of_idle {n m : ℕ} (hn : (ppsText.step^[n] p).walk.st = .own .idle)
    (hm : (ppsText.step^[m] p).walk.st = .own .idle) :
    (ppsText.step^[m] p).regs.out=(ppsText.step^[n] p).regs.out := by
  rcases Nat.le_total n m with hle | hle
  · obtain ⟨k,rfl⟩ := Nat.exists_eq_add_of_le' hle
    rw [Function.iterate_add_apply]
    exact (pps_quiet_idle hn k).2
  · obtain ⟨k,rfl⟩ := Nat.exists_eq_add_of_le' hle
    rw [Function.iterate_add_apply]
    exact (pps_quiet_idle hm k).2.symm

/-- The fields that a payload has; one of less than two bytes has none. -/
def ppsPart (payload : List Byte) : PpsPart :=
  if 2 ≤ (removeEpb payload).length then PpsPart.ofBits (payloadBits payload) else {}

/-- A payload fits the capture buffer. -/
def PpsFits (payload : List Byte) : Prop := (removeEpb payload).length≤ppsMaxB

variable {payload : List Byte}

/-- At the end of the bytes of a payload the parser is idle and has captured them. -/
theorem pps_captured {is : List CapPort}
    (hst : p.walk.st = .own .idle) (hfits : PpsFits payload) (h : Brings is (removeEpb payload)) :
    let m := Trace.finalState PpsParser.step (p.step CapPort.begin) is
    m.walk.st = .own .idle ∧ m.regs.out=p.regs.out ∧ m.walk.mem=removeEpb payload := by
  obtain ⟨hst₁,hout₁,hmem₁⟩ := pps_step_idle (i := CapPort.begin) hst rfl
  have hempty : (p.step CapPort.begin).walk.mem=[] := hmem₁
  obtain ⟨hst₂,hout₂,hmem₂⟩ := pps_run_capture h hst₁ (by exact Nat.zero_le _)
  rw [hempty,List.nil_append,List.take_of_length_le hfits] at hmem₂
  exact ⟨hst₂,hout₂.trans hout₁,hmem₂⟩

/-- From the end of the capture the parser comes back with the fields of the payload. -/
theorem pps_leads {m : PpsParser} (hst : m.walk.st = .own .idle)
    (hmem : m.walk.mem=removeEpb payload) :
    Leads ppsText.step (m.step CapPort.close) (PpsEnd m.regs.out (ppsPart payload)) := by
  unfold ppsPart
  by_cases hlen : 2≤(removeEpb payload).length
  · have hstart : m.step CapPort.close=start m := by
      have hwalk : m.walkStep CapPort.close=start m := by
        rw [walkStep,if_pos ⟨hst,rfl,by rw [hmem]; exact hlen⟩]
      rw [PpsParser.step,hwalk]
      rfl
    rw [hstart,if_pos hlen,payloadBits,← hmem]
    exact leads_pps m
  · have hshort : m.step CapPort.close=ppsOwn .idle m := by
      have hwalk : m.walkStep CapPort.close=ppsOwn .idle m := by
        rw [walkStep,if_neg (by rw [hmem]; exact fun h => hlen h.2.2)]
        exact step_own hst rfl
      rw [PpsParser.step,hwalk]
      rfl
    rw [hshort,if_neg hlen]
    exact Leads.here ⟨hst,(over_nothing _).symm⟩

theorem pps_out_of_delivers {p q : PpsParser}
    (hst : p.walk.st = .own .idle) (hfits : PpsFits payload) (h : PpsDelivers p payload q) :
    q.regs.out=(ppsPart payload).over p.regs.out := by
  obtain ⟨is,n,hbrings,hidle,rfl⟩ := h
  obtain ⟨hst',hout,hmem⟩ := pps_captured hst hfits hbrings
  have hquiet : (PpsParser.step · CapPort.quiet)=ppsText.step := funext pps_step_quiet
  rw [hquiet] at hidle ⊢
  obtain ⟨k,hend⟩ := pps_leads hst' hmem
  rw [pps_out_of_idle hend.1 hidle,hend.2,hout]

theorem exists_ppsDelivers (hst : p.walk.st = .own .idle)
    (hfits : PpsFits payload) : ∃ q, PpsDelivers p payload q := by
  have hbrings := brings_bytes (removeEpb payload)
  obtain ⟨hst',-,hmem⟩ := pps_captured hst hfits hbrings
  obtain ⟨k,hend⟩ := pps_leads hst' hmem
  have hquiet : (PpsParser.step · CapPort.quiet)=ppsText.step := funext pps_step_quiet
  refine ⟨_,_,k,hbrings,?_,rfl⟩
  rw [hquiet]
  exact hend.1

theorem pps_idle_of_run {payloads : List (List Byte)}
    (h : Trace.Run PpsDelivers PpsParser.reset payloads p) : p.walk.st = .own .idle := by
  have hidle : ∀ (s : PpsParser) (payload : List Byte) (t : PpsParser),
      s.walk.st = .own .idle → PpsDelivers s payload t → t.walk.st = .own .idle := by
    intro s payload t _ ht
    obtain ⟨is,n,-,hst,-⟩ := ht
    exact hst
  exact h.invariant hidle rfl

theorem reads_readPps {d : List Byte} : Reads (hostReader d) readPps readPps := by
  refine reads_ue.bind fun a => reads_ue.bind fun b => (reads_u (by omega)).bind fun e => ?_
  refine (reads_skip (reads_u (by omega))).bind fun _ => reads_ue.bind fun g => ?_
  refine Reads.ite (Reads.pure _) (Reads.bind ?_ fun _ => Reads.pure _)
  refine reads_ue.bind fun r => (reads_skip reads_ue).bind fun _ => ?_
  refine (reads_skip (reads_u (by omega))).bind fun _ => ?_
  refine (reads_skip (reads_u (by omega))).bind fun _ => reads_se.bind fun q => ?_
  refine (reads_skip reads_se).bind fun _ => (reads_skip reads_se).bind fun _ => ?_
  refine (reads_u (by omega)).bind fun d => (reads_skip (reads_u (by omega))).bind fun _ => ?_
  exact (reads_skip (reads_u (by omega))).bind fun _ => Reads.pure _

/-- The number of slice groups, coded as one less. -/
def groupsCode : Grammar ℕ := do
  skip ue
  skip ue
  skip (u 1)
  skip (u 1)
  ue

variable {c : PpsPart}

open Grammar

theorem complete_thenUe {next : Behind} {bits : List Bool}
    (hopen : c.complete=false) (h : (thenUe next c bits).complete=true) :
    ∃ v rest, (ue : Grammar ℕ) bits=some (v,rest) ∧ v≤131070 ∧
      thenUe next c bits=next c (v%65536) rest := by
  cases hcode : walkUeUpTo 16 bits with
  | none =>
    rw [thenUe_of_none hcode,hopen] at h
    cases h
  | some found =>
    have hsome : walkUeUpTo 16 bits=some (found.1,found.2) := hcode
    obtain ⟨v,hue,hval⟩ := covers_ueUpTo (by omega) bits found.2 [] found.1 hsome
    rw [List.append_nil,List.append_nil] at hue
    refine ⟨v,found.2,hue,?_,?_⟩
    · obtain ⟨z,mid,hz,hsuffix⟩ := bind_eq_some.mp hsome
      obtain ⟨z',mid',hz',hsuffix'⟩ := bind_eq_some.mp
        (show ueSyntax bits=some (v,found.2) from hue)
      obtain ⟨rfl,rfl⟩ := Prod.mk.inj (Option.some.inj (hz.symm.trans hz'))
      by_cases hmany : 16<z
      · rw [walkSuffixUpTo,if_pos hmany] at hsuffix
        cases (show (none : Option (ℕ × List Bool))=some (found.1,found.2) from hsuffix)
      · rw [ueSuffix] at hsuffix'
        split at hsuffix'
        · obtain ⟨rfl,-⟩ := pure_eq_some.mp hsuffix'
          exact Nat.zero_le _
        · rw [if_neg (by omega)] at hsuffix'
          obtain ⟨w,tail,hw,hpure⟩ := bind_eq_some.mp hsuffix'
          obtain ⟨rfl,-⟩ := pure_eq_some.mp hpure
          have hlt := field_lt hw
          have hpow : 2^z≤2^16 := Nat.pow_le_pow_right (by omega) (by omega)
          omega
    · rw [thenUe_of_some hsome,hval]

theorem complete_thenField {n : ℕ} {next : Behind} {bits : List Bool}
    (hopen : c.complete=false) (h : (thenField n next c bits).complete=true) :
    ∃ v rest, (u n : Grammar ℕ) bits=some (v,rest) ∧ v<2^n ∧
      thenField n next c bits=next c v rest := by
  cases hfield : field n bits with
  | none =>
    rw [thenField_of_none hfield,hopen] at h
    cases h
  | some found =>
    have hsome : field n bits=some (found.1,found.2) := hfield
    exact ⟨found.1,found.2,hsome,field_lt hsome,thenField_of_some hsome⟩

/-- What a complete set says to the hardware and to the host. -/
structure PpsRead (bits : List Bool) (c : PpsPart) (a b e g r q f : ℕ) : Prop where
  /-- The hardware keeps the codes in 16 bits. -/
  part : c = { ppsId := some (a%65536%256), spsId := some (b%65536%256),
               entropyCabac := some (e%2 == 1), numRefL0 := some (r%65536%256),
               qpCode := some (q%65536), deblockCtrl := some (f%2 == 1), complete := true }
  flags : e<2 ∧ f<2
  groups : g%65536=0 ∧ g≤131070 ∧ ∃ rest, groupsCode bits=some (g,rest)
  /-- The host reads it, up to the slice groups when there are several. -/
  host : ∃ rest, (readPps : Grammar (PpsInfo × Bool)) bits=some
    (if 0 < g then
      ({ ppsId := uint8 a, spsId := uint8 b, entropyCabac := decide (e≠0) },false)
    else
      ({ ppsId := uint8 a, spsId := uint8 b, entropyCabac := decide (e≠0),
         numRefIdxL0Default := uint8 r, picInitQp := int8 (26+seFromUe q),
         deblockCtrl := decide (f≠0) },true),rest)

theorem skip_of_some {α : Type} {g : Grammar α} {bits rest : List Bool} {v : α}
    (h : g bits=some (v,rest)) : (skip g : Grammar Unit) bits=some ((),rest) :=
  (bind_of_some h).trans rfl

theorem se_of_some {bits rest : List Bool} {v : ℕ} (h : (ue : Grammar ℕ) bits=some (v,rest)) :
    (se : Grammar ℤ) bits=some (seFromUe v,rest) :=
  (bind_of_some h).trans rfl

theorem exists_ppsRead {bits : List Bool} (h : (PpsPart.ofBits bits).complete=true) :
    ∃ a b e g r q f, PpsRead bits (PpsPart.ofBits bits) a b e g r q f := by
  unfold PpsPart.ofBits at h ⊢
  obtain ⟨a,bits₁,ha,-,heq₁⟩ := complete_thenUe rfl h
  rw [heq₁,behindPpsId] at h
  obtain ⟨b,bits₂,hb,-,heq₂⟩ := complete_thenUe rfl h
  rw [heq₂,PpsPart.behindSpsId] at h
  obtain ⟨e,bits₃,he,he2,heq₃⟩ := complete_thenField rfl h
  rw [heq₃,behindEnt] at h
  obtain ⟨x,bits₄,hx,-,heq₄⟩ := complete_thenField rfl h
  rw [heq₄,behindBot] at h
  obtain ⟨g,bits₅,hg,hgmax,heq₅⟩ := complete_thenUe rfl h
  rw [heq₅,behindSg] at h
  by_cases hgroups : g%65536≠0
  · rw [if_pos hgroups] at h
    cases h
  rw [if_neg hgroups] at h
  obtain ⟨r,bits₆,hr,-,heq₆⟩ := complete_thenUe rfl h
  rw [heq₆,behindNrl0] at h
  obtain ⟨r',bits₇,hr',-,heq₇⟩ := complete_thenUe rfl h
  rw [heq₇,behindNrl1] at h
  obtain ⟨w,bits₈,hw,-,heq₈⟩ := complete_thenField rfl h
  rw [heq₈,behindWp] at h
  obtain ⟨w',bits₉,hw',-,heq₉⟩ := complete_thenField rfl h
  rw [heq₉,behindWbi] at h
  obtain ⟨q,bits₁₀,hq,-,heq₁₀⟩ := complete_thenUe rfl h
  rw [heq₁₀,behindQp] at h
  obtain ⟨q',bits₁₁,hq',-,heq₁₁⟩ := complete_thenUe rfl h
  rw [heq₁₁,behindQs] at h
  obtain ⟨q'',bits₁₂,hq'',-,heq₁₂⟩ := complete_thenUe rfl h
  rw [heq₁₂,behindChr] at h
  obtain ⟨f,bits₁₃,hf,hf2,heq₁₃⟩ := complete_thenField rfl h
  rw [heq₁₃,behindDb] at h
  obtain ⟨i,bits₁₄,hi,-,heq₁₄⟩ := complete_thenField rfl h
  rw [heq₁₄,behindCi] at h
  obtain ⟨k,bits₁₅,hk,-,heq₁₅⟩ := complete_thenField rfl h
  refine ⟨a,b,e,g,r,q,f,?_,⟨by omega,by omega⟩,⟨by omega,hgmax,bits₅,?_⟩,?_⟩
  · rw [heq₁,behindPpsId,heq₂,PpsPart.behindSpsId,heq₃,behindEnt,heq₄,behindBot,heq₅,
      behindSg,if_neg hgroups,heq₆,behindNrl0,heq₇,behindNrl1,heq₈,behindWp,heq₉,
      behindWbi,heq₁₀,behindQp,heq₁₁,behindQs,heq₁₂,behindChr,heq₁₃,behindDb,heq₁₄,
      behindCi,heq₁₅,behindRed]
  · exact (bind_of_some (skip_of_some ha)).trans <|
      (bind_of_some (skip_of_some hb)).trans <|
        (bind_of_some (skip_of_some he)).trans <|
          (bind_of_some (skip_of_some hx)).trans hg
  · have hhead : ∀ tail : ℕ → ℕ → ℕ → ℕ → Grammar (PpsInfo × Bool),
        ((do
          let ppsId ← ue
          let spsId ← ue
          let cabac ← u 1
          skip (u 1)
          let groups ← ue
          tail ppsId spsId cabac groups) : Grammar (PpsInfo × Bool)) bits =
          tail a b e g bits₅ := fun tail =>
      (bind_of_some ha).trans <| (bind_of_some hb).trans <|
        (bind_of_some he).trans <| (bind_of_some (skip_of_some hx)).trans <|
          (bind_of_some hg).trans rfl
    by_cases hseveral : 0 < g
    · refine ⟨bits₅,?_⟩
      rw [if_pos hseveral]
      refine (hhead _).trans ?_
      rw [if_pos hseveral]
      rfl
    · refine ⟨bits₁₅,?_⟩
      rw [if_neg hseveral]
      refine (hhead _).trans ?_
      rw [if_neg hseveral]
      refine (bind_of_some (a := _) ?_).trans rfl
      exact (bind_of_some hr).trans <| (bind_of_some (skip_of_some hr')).trans <|
        (bind_of_some (skip_of_some hw)).trans <|
          (bind_of_some (skip_of_some hw')).trans <|
            (bind_of_some (se_of_some hq)).trans <|
              (bind_of_some (skip_of_some (se_of_some hq'))).trans <|
                (bind_of_some (skip_of_some (se_of_some hq''))).trans <|
                  (bind_of_some hf).trans <|
                    (bind_of_some (skip_of_some hi)).trans <|
                      (bind_of_some (skip_of_some hk)).trans rfl

/-- The hardware takes the payload for a set: after reset it shows it. -/
def PpsHardwareAccepts (payload : List Byte) : Prop :=
  ∃ q, PpsDelivers PpsParser.reset payload q ∧ q.regs.out.valid=true

/-- The outputs say what the host says of a payload. -/
structure PpsSame (o : PpsOut) (i : PpsInfo) : Prop where
  ppsId : o.ppsId=i.ppsId
  /-- Identifier of the sequence parameter set. -/
  spsId : o.spsId=i.spsId
  entropyCabac : o.entropyCabac=i.entropyCabac
  /-- Number of reference pictures. -/
  numRefL0 : o.numRefL0=i.numRefIdxL0Default
  picInitQp : o.picInitQp=i.picInitQp
  deblockCtrl : o.deblockCtrl=i.deblockCtrl

/-- What the two parsers have to agree on when a payload brings the hardware from one state to
another. -/
structure PpsAgrees (p : PpsParser) (payload : List Byte) (q : PpsParser) : Prop where
  /-- Of a set that both accept they say the same. -/
  fields : (parsePpsRbsp payload).valid=true → PpsHardwareAccepts payload →
    PpsSame q.regs.out (parsePpsRbsp payload)
  /-- Behind a payload that the host refuses, a valid set is the one shown before. -/
  refused : (parsePpsRbsp payload).valid=false → q.regs.out.valid=true →
    p.regs.out.valid=true ∧ q.regs.out=p.regs.out

/-- The hardware finds a set without arithmetic coding in the payload. -/
def PpsPart.Plain (c : PpsPart) : Prop := c.complete=true ∧ c.entropyCabac=some false

/-- The fields that are there repeat the outputs. -/
structure PpsPart.Repeats (c : PpsPart) (o : PpsOut) : Prop where
  ppsId : ∀ v, c.ppsId=some v → v=o.ppsId
  /-- Identifier of the sequence parameter set. -/
  spsId : ∀ v, c.spsId=some v → v=o.spsId
  entropyCabac : ∀ v, c.entropyCabac=some v → v=o.entropyCabac
  /-- Number of reference pictures. -/
  numRefL0 : ∀ v, c.numRefL0=some v → v=o.numRefL0
  picInitQp : ∀ v, c.qpCode=some v → initQp v=o.picInitQp
  deblockCtrl : ∀ v, c.deblockCtrl=some v → v=o.deblockCtrl

/-- The payload says that there are 65537 slice groups. -/
def ManyGroups (payload : List Byte) : Prop :=
  ∃ rest, groupsCode (payloadBits payload)=some (65536,rest)

/-- A payload that does not touch the differences of the parsers, behind given outputs. -/
structure PpsUntouched (o : PpsOut) (payload : List Byte) : Prop where
  /-- Bit 8 of the initial quantiser's code is clear in a set that both accept. -/
  quantiser : (parsePpsRbsp payload).valid=true → (ppsPart payload).Plain →
    ∀ c, (ppsPart payload).qpCode=some c → c%512<256
  /-- Before the first set, a payload that the host refuses does not have 65537 slice groups and
  all fields behind them. -/
  first : (parsePpsRbsp payload).valid=false → o.valid=false → (ppsPart payload).Plain →
    ¬ManyGroups payload
  /-- Behind a set, the fields of a payload that the host refuses repeat it. -/
  again : (parsePpsRbsp payload).valid=false → o.valid=true → (ppsPart payload).Repeats o

theorem over_eq_iff {o : PpsOut} (hvalid : o.valid=true) : c.over o=o ↔ c.Repeats o := by
  have hfield : ∀ {α : Type} (x : Option α) (y : α), x.getD y=y ↔ ∀ v, x=some v → v=y := by
    intro α x y
    cases x with
    | none =>
      constructor
      · intro _ v hv
        cases hv
      · exact fun _ => rfl
    | some w =>
      constructor
      · intro hw v hv
        rw [← Option.some.inj hv]
        exact hw
      · exact fun hall => hall w rfl
  have hshown : c.over o=o ↔ c.ppsId.getD o.ppsId=o.ppsId ∧ c.spsId.getD o.spsId=o.spsId ∧
      c.entropyCabac.getD o.entropyCabac=o.entropyCabac ∧
      c.numRefL0.getD o.numRefL0=o.numRefL0 ∧
      (c.qpCode.map initQp).getD o.picInitQp=o.picInitQp ∧
      c.deblockCtrl.getD o.deblockCtrl=o.deblockCtrl := by
    unfold PpsPart.over
    rw [hvalid,Bool.true_or]
    constructor
    · intro h
      obtain ⟨valid,ppsId,spsId,cabac,refs,qp,deblock⟩ := o
      simp only [PpsOut.mk.injEq] at h
      exact h.2
    · rintro ⟨h₁,h₂,h₃,h₄,h₅,h₆⟩
      rw [h₁,h₂,h₃,h₄,h₅,h₆,← hvalid]
  rw [hshown,hfield,hfield,hfield,hfield,hfield,hfield]
  constructor
  · rintro ⟨h₁,h₂,h₃,h₄,h₅,h₆⟩
    exact ⟨h₁,h₂,h₃,h₄,fun v hv => h₅ _ (by rw [hv]; rfl),h₆⟩
  · intro h
    refine ⟨h.ppsId,h.spsId,h.entropyCabac,h.numRefL0,?_,h.deblockCtrl⟩
    intro v hv
    obtain ⟨c',hc',rfl⟩ := Option.map_eq_some_iff.mp hv
    exact h.picInitQp c' hc'

theorem initQp_eq_iff (q : ℕ) :
    initQp (q%65536)=int8 (26+seFromUe q) ↔ q%65536%512<256 := by
  unfold initQp ppsSeOf seFromUe int8
  have hmod : ∀ x y : ℤ, Int.bmod x 256=Int.bmod y 256 ↔ x%256=y%256 := by
    intro x y
    constructor
    · intro h
      have hx : Int.bmod x 256%256=x%256 := Int.bmod_emod
      have hy : Int.bmod y 256%256=y%256 := Int.bmod_emod
      rw [← hx,h,hy]
    · intro h
      have hx : Int.bmod (x%256) 256=Int.bmod x 256 := Int.emod_bmod x 256
      have hy : Int.bmod (y%256) 256=Int.bmod y 256 := Int.emod_bmod y 256
      rw [← hx,h,hy]
  have hparity : q%65536%2=q%2 := by omega
  rw [hparity]
  by_cases heven : q%2=0
  · rw [if_pos heven,if_pos heven,Int.add_bmod_bmod,hmod]
    omega
  · rw [if_neg heven,if_neg heven,Int.add_bmod_bmod,hmod]
    omega

theorem complete_long (h : (ppsPart payload).complete=true) :
    ppsPart payload=PpsPart.ofBits (payloadBits payload) ∧ 2≤payload.length := by
  unfold ppsPart at h ⊢
  by_cases hlen : 2≤(removeEpb payload).length
  · rw [if_pos hlen]
    have hremoved := length_removeEpb_le payload
    exact ⟨rfl,by omega⟩
  · rw [if_neg hlen] at h
    cases h

theorem host_of_read {a b e g r q f : ℕ}
    (hread : PpsRead (payloadBits payload) c a b e g r q f) (hlen : 2≤payload.length) :
    parsePpsRbsp payload =
      if 0 < g then
        { ppsId := uint8 a, spsId := uint8 b, entropyCabac := decide (e≠0) }
      else
        { valid := !decide (e≠0), ppsId := uint8 a, spsId := uint8 b
          entropyCabac := decide (e≠0), numRefIdxL0Default := uint8 r
          picInitQp := int8 (26+seFromUe q), deblockCtrl := decide (f≠0) } := by
  obtain ⟨rest,hhost⟩ := hread.host
  obtain ⟨hval,hat⟩ := reads_readPps.found (at_startReader payload) hhost
  have hok : ((readPps : StateM BitReader (PpsInfo × Bool)) (startReader payload)).2.ok=true :=
    BitReader.At.healthy hat
  rw [parsePpsRbsp,if_neg (by omega)]
  dsimp only
  rw [hval,hok]
  by_cases hgroups : 0<g
  · rw [if_pos hgroups,if_pos hgroups]
    rfl
  · rw [if_neg hgroups,if_neg hgroups]
    rfl

/-- The hardware accepts the payloads in which it finds a set without arithmetic coding. -/
theorem hardwareAccepts_iff (hfits : PpsFits payload) :
    PpsHardwareAccepts payload ↔ (ppsPart payload).Plain := by
  have hvalid : ((ppsPart payload).over reset.regs.out).valid=true ↔
      (ppsPart payload).Plain := by
    have hshown : ((ppsPart payload).over reset.regs.out).valid =
        ((ppsPart payload).complete && !(ppsPart payload).entropyCabac.getD false) :=
      Bool.false_or _
    rw [hshown,PpsPart.Plain]
    cases hcomplete : (ppsPart payload).complete with
    | false => simp
    | true =>
      obtain ⟨hpart,-⟩ := complete_long hcomplete
      rw [hpart] at hcomplete ⊢
      obtain ⟨a,b,e,g,r,q,f,hread⟩ := exists_ppsRead hcomplete
      rw [hread.part]
      simp
  constructor
  · rintro ⟨q,hq,hshown⟩
    rw [pps_out_of_delivers rfl hfits hq] at hshown
    exact hvalid.mp hshown
  · intro hplain
    obtain ⟨q,hq⟩ := exists_ppsDelivers (p := reset) rfl hfits
    refine ⟨q,hq,?_⟩
    rw [pps_out_of_delivers rfl hfits hq]
    exact hvalid.mpr hplain

/-- A set that both accept shows the same, if and only if bit 8 of the quantiser's code is
clear. -/
theorem same_iff {o : PpsOut} (hhost : (parsePpsRbsp payload).valid=true)
    (hplain : (ppsPart payload).Plain) : PpsSame ((ppsPart payload).over o) (parsePpsRbsp payload) ↔
      ∀ c, (ppsPart payload).qpCode=some c → c%512<256 := by
  obtain ⟨hpart,hlen⟩ := complete_long hplain.1
  rw [hpart] at hplain ⊢
  obtain ⟨a,b,e,g,r,q,f,hread⟩ := exists_ppsRead hplain.1
  have hinfo := host_of_read hread hlen
  have hgroups : ¬0<g := by
    intro hseveral
    rw [hinfo,if_pos hseveral] at hhost
    cases hhost
  rw [if_neg hgroups] at hinfo
  obtain ⟨he,hf⟩ := hread.flags
  have hbit : ∀ n : ℕ, n<2 → (n%2 == 1)=decide (n≠0) := by
    intro n hn
    obtain rfl | rfl : n=0 ∨ n=1 := by omega
    · rfl
    · rfl
  rw [hread.part,hinfo]
  constructor
  · intro hsame c hc
    rw [← Option.some.inj hc]
    exact (initQp_eq_iff q).mp hsame.picInitQp
  · intro hsmall
    have hlow := hsmall (q%65536) rfl
    exact ⟨show a%65536%256=a%256 by omega,show b%65536%256=b%256 by omega,
      hbit e he,show r%65536%256=r%256 by omega,(initQp_eq_iff q).mpr hlow,hbit f hf⟩

/-- A payload that the host refuses and in which the hardware finds a set without arithmetic
coding has 65537 slice groups. -/
theorem manyGroups_of_refused
    (hhost : (parsePpsRbsp payload).valid=false) (hplain : (ppsPart payload).Plain) :
    ManyGroups payload := by
  obtain ⟨hpart,hlen⟩ := complete_long hplain.1
  rw [hpart] at hplain
  obtain ⟨a,b,e,g,r,q,f,hread⟩ := exists_ppsRead hplain.1
  have hinfo := host_of_read hread hlen
  obtain ⟨hzero,hmax,rest,hcode⟩ := hread.groups
  obtain ⟨he,-⟩ := hread.flags
  have hcabac : e=0 := by
    have hflag := hplain.2
    rw [hread.part] at hflag
    have hbit : (e%2 == 1)=false := Option.some.inj hflag
    rw [beq_eq_false_iff_ne] at hbit
    omega
  by_cases hgroups : 0<g
  · have hg : g=65536 := by omega
    exact ⟨rest,by rw [← hg]; exact hcode⟩
  · rw [if_neg hgroups,hcabac] at hinfo
    rw [hinfo] at hhost
    cases hhost

/-- After any payloads the parsers agree on the next one exactly if it does not touch their
differences. -/
theorem ppsParsers_agree_iff {payloads : List (List Byte)} {payload : List Byte}
    {p q : PpsParser} (hrun : Trace.Run PpsDelivers PpsParser.reset payloads p)
    (hfits : PpsFits payload) (hnext : PpsDelivers p payload q) :
    PpsAgrees p payload q ↔ PpsUntouched p.regs.out payload := by
  have hout := pps_out_of_delivers (pps_idle_of_run hrun) hfits hnext
  constructor
  · intro hagrees
    constructor
    case quantiser =>
      intro hhost hplain
      have hsame := hagrees.fields hhost ((hardwareAccepts_iff hfits).mpr hplain)
      rw [hout] at hsame
      exact (same_iff hhost hplain).mp hsame
    case first =>
      intro hhost hnone hplain _
      have hshown : q.regs.out.valid=true := by
        rw [hout,PpsPart.over,hplain.1,hplain.2]
        exact Bool.or_true _
      rw [(hagrees.refused hhost hshown).1] at hnone
      cases hnone
    case again =>
      intro hhost hvalid
      have hshown : q.regs.out.valid=true := by
        rw [hout,PpsPart.over,hvalid,Bool.true_or]
      have hkept := (hagrees.refused hhost hshown).2
      rw [hout] at hkept
      exact (over_eq_iff hvalid).mp hkept
  · intro huntouched
    constructor
    case fields =>
      intro hhost haccepts
      have hplain := (hardwareAccepts_iff hfits).mp haccepts
      rw [hout]
      exact (same_iff hhost hplain).mpr (huntouched.quantiser hhost hplain)
    case refused =>
      intro hhost hshown
      cases hvalid : p.regs.out.valid with
      | true =>
        refine ⟨rfl,?_⟩
        rw [hout]
        exact (over_eq_iff hvalid).mpr (huntouched.again hhost hvalid)
      | false =>
        have hplain : (ppsPart payload).Plain := by
          have hreset : ((ppsPart payload).over p.regs.out).valid=true := by
            rw [← hout]
            exact hshown
          rw [PpsPart.over,hvalid,Bool.false_or,Bool.and_eq_true] at hreset
          obtain ⟨hcomplete,hcabac⟩ := hreset
          obtain ⟨hpart,-⟩ := complete_long hcomplete
          rw [hpart] at hcomplete hcabac ⊢
          obtain ⟨a,b,e,g,r,q,f,hread⟩ := exists_ppsRead hcomplete
          rw [hread.part] at hcabac ⊢
          exact ⟨rfl,congrArg some (by simpa using hcabac)⟩
        exact absurd (manyGroups_of_refused hhost hplain) (huntouched.first hhost hvalid hplain)

/-- A payload that comes byte after byte, with a number of clocks behind it. -/
def ppsFeed (p : PpsParser) (payload : List Byte) (n : ℕ) : PpsParser :=
  (PpsParser.step · CapPort.quiet)^[n]
    ((Trace.finalState PpsParser.step (p.step CapPort.begin)
      ((removeEpb payload).map fun b => ⟨false,true,b,false⟩)).step CapPort.close)

theorem ppsDelivers_feed {n : ℕ} (h : (ppsFeed p payload n).walk.st = .own .idle) :
    PpsDelivers p payload (ppsFeed p payload n) :=
  ⟨_,n,brings_bytes (removeEpb payload),h,rfl⟩

/-- A set with deblocking control. -/
def deblockSet : List Byte := [0xCE,0x3C,0x80]

/-- The set with the identifier 1, and 29 as the initial quantiser. -/
def secondSet : List Byte := [0x53,0x83,0x62]

/-- The set with deblocking control, with arithmetic coding. -/
def cabacSet : List Byte := [0xEE,0x3C,0x80]

/-- The parsers agree on a set behind another one. -/
theorem ppsParsers_agree_second :
    PpsAgrees (ppsFeed PpsParser.reset deblockSet 80) secondSet
      (ppsFeed (ppsFeed PpsParser.reset deblockSet 80) secondSet 80) := by
  have hfirst : (ppsFeed reset deblockSet 80).walk.st = .own .idle := by decide +kernel
  have hnext : (ppsFeed (ppsFeed reset deblockSet 80) secondSet 80).walk.st =
      .own .idle := by decide +kernel
  have hfits : PpsFits secondSet := by
    unfold PpsFits
    decide
  refine (ppsParsers_agree_iff (.cons (ppsDelivers_feed hfirst) (.nil _)) hfits
    (ppsDelivers_feed hnext)).mpr ?_
  constructor
  case quantiser =>
    intro _ _ c hc
    rw [← Option.some.inj hc]
    decide
  case first =>
    intro hrefused
    cases hrefused
  case again =>
    intro hrefused
    cases hrefused

/-- Behind a valid set the hardware shows one with arithmetic coding as valid. -/
theorem not_ppsParsers_agree :
    ¬∀ (payloads : List (List Byte)) (payload : List Byte) (p q : PpsParser),
      Trace.Run PpsDelivers PpsParser.reset payloads p → PpsFits payload →
      PpsDelivers p payload q → PpsAgrees p payload q := by
  intro h
  have hfirst : (ppsFeed reset deblockSet 80).walk.st = .own .idle := by decide +kernel
  have hnext : (ppsFeed (ppsFeed reset deblockSet 80) cabacSet 80).walk.st =
      .own .idle := by decide +kernel
  have hfits : PpsFits cabacSet := by
    unfold PpsFits
    decide
  have hhost : (parsePpsRbsp cabacSet).valid=false := by decide
  have hbefore : (ppsFeed reset deblockSet 80).regs.out.entropyCabac=false := by
    decide +kernel
  have hshown : (ppsFeed (ppsFeed reset deblockSet 80) cabacSet 80).regs.out.valid =
      true := by decide +kernel
  have hcabac : (ppsFeed (ppsFeed reset deblockSet 80)
      cabacSet 80).regs.out.entropyCabac=true := by decide +kernel
  have hagrees := h [deblockSet] cabacSet _ _ (.cons (ppsDelivers_feed hfirst) (.nil _)) hfits
    (ppsDelivers_feed hnext)
  rw [(hagrees.refused hhost hshown).2,hbefore] at hcabac
  cases hcabac

end Misterplex.Header
