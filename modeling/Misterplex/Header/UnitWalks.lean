import Misterplex.Header.SetCapture

/-!
# The walks behind the pulses

One clock of each header parser under the pulses of its port. A parser that is
given the end of a capture when it is at rest comes to what the unit makes of it,
and nothing that is captured meanwhile gets into the walk.
-/

namespace Misterplex.Header

open BitString BitGrammar Cavlc Emulation ParserText
open NaluScanner (ScanRegs CapTarget)

/-- The wires of a port at its parser. -/
def capWires (p : NaluScanner.CapPort) : CapPort := ⟨p.clear,p.en,p.data,p.finish⟩

/-- The pulses of one port, with the bytes that are held for it. -/
inductive PortPulses (held : Option (List Byte)) (p : NaluScanner.CapPort) : Prop
  | silent (h : Silent p)
  | clear (hclear : p.clear=true) (hen : p.en=false) (hfinish : p.finish=false)
  | byte (bytes : List Byte) (hheld : held=some bytes) (hclear : p.clear=false)
      (hen : p.en=true) (hfinish : p.finish=false)
  /-- The end, maybe with a last byte. -/
  | finish (bytes : List Byte) (hheld : held=some bytes) (hclear : p.clear=false)
      (hfinish : p.finish=true)

variable {held : CapTarget → Option (List Byte)} {r : ScanRegs}

/-- Each capture port carries its own pulses. -/
theorem Pulses.port (h : Pulses held r) (t : CapTarget) : PortPulses (held t) (portOf r t) := by
  cases h with
  | silent hall => exact PortPulses.silent (hall t)
  | clear u hother hclear hen hfinish =>
    by_cases htu : t=u
    · subst htu
      exact PortPulses.clear hclear hen hfinish
    · exact PortPulses.silent (hother t htu)
  | byte u bytes hheld hother hclear hen hfinish =>
    by_cases htu : t=u
    · subst htu
      exact PortPulses.byte bytes hheld hclear hen hfinish
    · exact PortPulses.silent (hother t htu)
  | finish u bytes hheld hother hclear hen hfinish =>
    by_cases htu : t=u
    · subst htu
      exact PortPulses.finish bytes hheld hclear hfinish
    · exact PortPulses.silent (hother t htu)
  | last bytes hheld hother hclear hen hfinish =>
    by_cases htu : t = .slice
    · subst htu
      exact PortPulses.finish bytes hheld hclear hfinish
    · exact PortPulses.silent (hother t htu)

theorem Pulses.end_without_byte (h : Pulses held r) {t : CapTarget} (hset : t ≠ .slice)
    (hfinish : (portOf r t).finish=true) : (portOf r t).en=false := by
  have hsilent : Silent (portOf r t) → (portOf r t).en=false := fun hs => hs.en
  cases h with
  | silent hall => exact hsilent (hall t)
  | clear u hother hclear hen _ =>
    by_cases htu : t=u
    · subst htu
      exact hen
    · exact hsilent (hother t htu)
  | byte u bytes hheld hother hclear hen hno =>
    by_cases htu : t=u
    · subst htu
      rw [hno] at hfinish
      cases hfinish
    · exact hsilent (hother t htu)
  | finish u bytes hheld hother hclear hen _ =>
    by_cases htu : t=u
    · subst htu
      exact hen
    · exact hsilent (hother t htu)
  | last bytes hheld hother hclear hen _ => exact hsilent (hother t hset)

/-- A unit ends in a cycle, or none. -/
inductive UnitEnds (c : Captures) (r : ScanRegs) : Prop
  | none (hunits : (c.hear r).units=c.units) (hfinish : ∀ t, (portOf r t).finish=false)
  | one (u : CapturedUnit) (hunits : (c.hear r).units = c.units ++ [u]) (hsome : u.target ≠ .none)
      (hbytes : u.bytes=(heldAfter (portOf r u.target) (c.held u.target)).getD [])
      (hflags : u.isIdr=r.slIsIdr ∧ u.nalRef=r.slNalRefIdcNonzero)
      (hfinish : (portOf r u.target).finish=true)
      (hother : ∀ t≠u.target, Silent (portOf r t))

theorem ending_of_not {c : Captures} {t : CapTarget} (h : (portOf r t).finish=false) :
    c.ending r t=[] := if_neg (by rw [h]; exact Bool.false_ne_true)

theorem Pulses.ends {c : Captures} (h : Pulses c.held r) : UnitEnds c r := by
  have hnone : (∀ t, (portOf r t).finish=false) → UnitEnds c r := by
    intro hall
    refine UnitEnds.none ?_ hall
    rw [Captures.hear,ending_of_not (hall .sps),ending_of_not (hall .pps),
      ending_of_not (hall .slice)]
    exact List.append_nil _
  have hone : ∀ t, t ≠ .none → (portOf r t).finish=true → (∀ u≠t, Silent (portOf r u)) →
      UnitEnds c r := by
    intro t hsome hfinish hother
    refine UnitEnds.one ⟨t,(heldAfter (portOf r t) (c.held t)).getD [],r.slIsIdr,
      r.slNalRefIdcNonzero⟩ ?_ hsome rfl ⟨rfl,rfl⟩ hfinish hother
    have hthis : c.ending r t=[⟨t,(heldAfter (portOf r t) (c.held t)).getD [],r.slIsIdr,
        r.slNalRefIdcNonzero⟩] := if_pos hfinish
    rw [Captures.hear,← hthis]
    cases t with
    | none => exact absurd rfl hsome
    | sps =>
      rw [ending_of_not (hother .pps nofun).finish,ending_of_not (hother .slice nofun).finish,
        List.append_nil,List.append_nil]
    | pps =>
      rw [ending_of_not (hother .sps nofun).finish,ending_of_not (hother .slice nofun).finish,
        List.nil_append,List.append_nil]
    | slice =>
      rw [ending_of_not (hother .sps nofun).finish,ending_of_not (hother .pps nofun).finish,
        List.nil_append,List.nil_append]
  have hquiet : ∀ t, (portOf r t).finish=false → (∀ u≠t, Silent (portOf r u)) →
      ∀ u, (portOf r u).finish=false := by
    intro t hfinish hother u
    by_cases hut : u=t
    · rw [hut]
      exact hfinish
    · exact (hother u hut).finish
  cases h with
  | silent hall => exact hnone fun t => (hall t).finish
  | clear t hother hclear hen hfinish => exact hnone (hquiet t hfinish hother)
  | byte t bytes hheld hother hclear hen hfinish => exact hnone (hquiet t hfinish hother)
  | finish t bytes hheld hother hclear hen hfinish =>
    refine hone t ?_ hfinish hother
    rintro rfl
    cases hfinish
  | last bytes hheld hother hclear hen hfinish => exact hone .slice nofun hfinish hother

section Sets

variable {σ ρ : Type} [DecidableEq σ] [DecidableEq ρ] {S : SetParser σ ρ} {p want : Parser σ ρ}
  {bytes : Option (List Byte)} {port : NaluScanner.CapPort}

theorem SetParser.Follows.goes_on (h : S.Follows p want bytes) (hport : PortPulses bytes port)
    (hclear : port.clear=true → ReadsNoMore S.text p) (hgoing : port.finish=false) :
    S.Follows (S.clock p (capWires port)) want
        (if port.finish then none else heldAfter port bytes) ∧
      cameToRest S.text p (S.clock p (capWires port)) ++
        S.ordered.running (S.clock p (capWires port)) = S.ordered.running p := by
  have hlast : (capWires port).last=false := hgoing
  have hbeside : ReadsNoMore S.text p → cameToRest S.text p (S.clock p (capWires port)) ++
      S.ordered.running (S.clock p (capWires port)) = S.ordered.running p := by
    intro hread
    obtain ⟨hsettles,-,hkeeps⟩ := SetParser.settle_clock hread hlast
    have hregs := congrArg (fun q : Parser σ ρ => q.regs) hsettles
    exact S.ordered.running_clock hregs hkeeps
  cases hport with
  | silent hs =>
    obtain ⟨hfollows,hstep⟩ := h.quiet (i := capWires port) hs.clear hs.en hlast
    rw [heldAfter_silent hs]
    refine ⟨hfollows,S.ordered.running_clock ?_ ?_⟩
    · rw [hstep,S.ordered.settling.settle_step]
    · intro hstill
      rw [hstep,show S.text.step p=p from hstill]
      exact hstill
  | clear hc hen _ =>
    have hafter : (if port.finish then none else heldAfter port bytes)=some [] := by
      rw [hgoing,heldAfter,hc,hen]
      rfl
    rw [hafter]
    exact ⟨h.clear (hclear hc) hc hlast,hbeside (hclear hc)⟩
  | byte bs hheld hc hen _ =>
    rw [hheld,heldAfter_byte hc hen hgoing]
    rw [hheld] at h
    exact ⟨h.byte hc hen hlast,hbeside (h.unread (Option.some_ne_none _))⟩
  | finish bs hheld hc hfinish =>
    rw [hfinish] at hgoing
    cases hgoing

theorem SetParser.Follows.starts (h : S.Follows p want bytes) (hport : PortPulses bytes port)
    (hen : port.en=false) (hend : port.finish=true)
    (hready : Still S.text.step p ∧ S.need≤p.walk.mem.length) :
    S.Follows (S.clock p (capWires port))
        (S.settle (S.start (want.holding (((heldAfter port bytes).getD []).take S.size)))) none ∧
      S.ordered.running p=[] ∧ cameToRest S.text p (S.clock p (capWires port))=[] ∧
      S.ordered.running (S.clock p (capWires port)) =
        [(S.settle (S.start (want.holding (((heldAfter port bytes).getD []).take S.size)))).regs] := by
  cases hport with
  | silent hs =>
    rw [hs.finish] at hend
    cases hend
  | clear hc _ hno =>
    rw [hno] at hend
    cases hend
  | byte bs _ _ _ hno =>
    rw [hno] at hend
    cases hend
  | finish bs hheld hc _ =>
    have hafter : heldAfter port bytes=some bs := by
      rw [heldAfter,hc,hen,hheld]
      rfl
    rw [hafter]
    rw [hheld] at h
    obtain ⟨hfollows,hstart⟩ := h.finish (i := capWires port) hready.1 hready.2 hc hen hend
    obtain ⟨hnone,hrunning⟩ := S.ordered.running_start hready.1 (S.start_busy p)
    have hidle : S.ordered.running p=[] := if_pos hready.1
    refine ⟨hfollows,hidle,?_,?_⟩
    · rw [hstart]
      exact hnone
    · have hsettles := hfollows.settles
      rw [hstart] at hsettles ⊢
      rw [hrunning,← SetParser.settle,hsettles]
      rfl

end Sets

/-- The slice parser left alone comes to what the units so far make of it; beside a capture it is
cleared and holds the bytes. -/
def SliceFollows (p want : SliceParser) : Option (List Byte) → Prop
  | none => settleSlice p=want
  | some bytes => p=want.cleared.holding (bytes.take maxB)

variable {p want : SliceParser} {bytes : Option (List Byte)} {i : SlicePort}

theorem still_cleared (want : SliceParser) (mem : List Byte) :
    Still sliceText.step (want.cleared.holding mem) := by
  rfl

theorem slice_step_walks (hclear : i.cap.clear=false) (hlast : i.cap.last=false) :
    p.step i=(sliceText.step p).holding (capture p.walk.mem i.cap) := by
  have hno : ¬i.starts p := by
    rintro ⟨-,hyes,-⟩
    rw [hlast] at hyes
    cases hyes
  rw [SliceParser.step,walkStep_walk hclear hno]
  rfl

/-- A slice that ends is ready: its bytes are enough, both sets are there and kept, and what the
walk latches is what the sets before it come to. -/
structure SliceReady (p : SliceParser) (i : SlicePort) (want : SlicePort) : Prop where
  bytes : 2≤p.walk.mem.length
  /-- A sequence parameter set. -/
  sps : i.spsReady=true
  /-- A picture parameter set. -/
  pps : i.ppsReady=true
  poc : i.pocType≠1
  latched : i.latched=want.latched

theorem SliceFollows.goes_on {port : NaluScanner.CapPort} (h : SliceFollows p want bytes)
    (hport : PortPulses bytes port) (hcap : i.cap=capWires port)
    (hclear : port.clear=true → Still sliceText.step p) (hgoing : port.finish=false) :
    SliceFollows (p.step i) want (if port.finish then none else heldAfter port bytes) ∧
      cameToRest sliceText p (p.step i) ++ sliceOrdered.running (p.step i) =
        sliceOrdered.running p := by
  have hlast : i.cap.last=false := by
    rw [hcap]
    exact hgoing
  have hrests : Still sliceText.step p → Still sliceText.step (p.step i) →
      cameToRest sliceText p (p.step i) ++ sliceOrdered.running (p.step i) =
        sliceOrdered.running p := by
    intro hp hq
    unfold cameToRest Ordered.running
    rw [if_neg (fun hc => hc.1 hp),if_pos hq,if_pos hp]
    rfl
  cases hport with
  | silent hs =>
    have hc : i.cap.clear=false := by
      rw [hcap]
      exact hs.clear
    have hstep : p.step i=sliceText.step p := by
      have hmem : capture p.walk.mem i.cap=p.walk.mem := by
        have hen : i.cap.en=false := by
          rw [hcap]
          exact hs.en
        rw [capture,captureUpTo,hc,hen]
        rfl
      rw [slice_step_walks hc hlast,hmem,← mem_sliceStep p]
      rfl
    rw [heldAfter_silent hs]
    cases bytes with
    | none =>
      refine ⟨?_,sliceOrdered.running_clock ?_ ?_⟩
      · rw [SliceFollows,hstep,← show settleSlice p=want from h]
        exact sliceOrdered.settling.settle_step p
      · rw [hstep,sliceOrdered.settling.settle_step]
      · intro hstill
        rw [hstep,show sliceText.step p=p from hstill]
        exact hstill
    | some bs =>
      have hstill : Still sliceText.step p := by
        rw [show p=want.cleared.holding (bs.take maxB) from h]
        exact still_cleared want _
      have hsame : p.step i=p := hstep.trans hstill
      refine ⟨?_,hrests hstill ?_⟩
      · rw [hsame]
        exact h
      · rw [hsame]
        exact hstill
  | clear hc hen _ =>
    have hstill := hclear hc
    have hstep : p.step i=p.cleared.holding [] := by
      have hic : i.cap.clear=true := by
        rw [hcap]
        exact hc
      rw [SliceParser.step,walkStep_clear hic,capture,captureUpTo,if_pos hic]
      rfl
    have hafter : (if port.finish then none else heldAfter port bytes)=some [] := by
      rw [hgoing,heldAfter,hc,hen]
      rfl
    rw [hafter]
    refine ⟨?_,hrests hstill ?_⟩
    · rw [hstep]
      cases bytes with
      | none =>
        have hhere : p=want := by
          rw [← show settleSlice p=want from h]
          exact (sliceOrdered.settling.settle_of_still hstill).symm
        rw [hhere]
        rfl
      | some bs =>
        rw [show p=want.cleared.holding (bs.take maxB) from h]
        rfl
    · rw [hstep]
      exact still_cleared p []
  | byte bs hheld hc hen _ =>
    rw [hheld] at h
    have hstill : Still sliceText.step p := by
      rw [show p=want.cleared.holding (bs.take maxB) from h]
      exact still_cleared want _
    have hstep : p.step i=want.cleared.holding ((bs ++ [port.data]).take maxB) := by
      have hic : i.cap.clear=false := by
        rw [hcap]
        exact hc
      rw [slice_step_walks hic hlast,show sliceText.step p=p from hstill,hcap,
        show p=want.cleared.holding (bs.take maxB) from h]
      show Parser.holding _ (captureUpTo maxB (bs.take maxB) (capWires port))=_
      rw [captureUpTo_byte (show (capWires port).clear=false from hc) hen]
      rfl
    rw [hheld,heldAfter_byte hc hen hgoing]
    refine ⟨hstep,hrests hstill ?_⟩
    rw [hstep]
    exact still_cleared want _
  | finish bs _ _ hfinish =>
    rw [hfinish] at hgoing
    cases hgoing

theorem SliceFollows.starts {port : NaluScanner.CapPort} {wanted : SlicePort}
    (h : SliceFollows p want bytes) (hport : PortPulses bytes port) (hcap : i.cap=capWires port)
    (hend : port.finish=true) (hready : SliceReady p i wanted) :
    let started := SliceParser.start
      (want.cleared.holding (((heldAfter port bytes).getD []).take maxB)) wanted
    SliceFollows (p.step i) (settleSlice started) none ∧ sliceOrdered.running p=[] ∧
      cameToRest sliceText p (p.step i)=[] ∧
      sliceOrdered.running (p.step i)=[(settleSlice started).regs] := by
  cases hport with
  | silent hs =>
    rw [hs.finish] at hend
    cases hend
  | clear hc _ hno =>
    rw [hno] at hend
    cases hend
  | byte bs _ _ _ hno =>
    rw [hno] at hend
    cases hend
  | finish bs hheld hc _ =>
    rw [hheld] at h
    have hstill : Still sliceText.step p := by
      rw [show p=want.cleared.holding (bs.take maxB) from h]
      exact still_cleared want _
    have hic : i.cap.clear=false := by
      rw [hcap]
      exact hc
    have hstarts : i.starts p := by
      refine ⟨sliceOrdered.idle_of_still hstill,?_,hready.bytes,hready.sps,hready.pps,
        hready.poc⟩
      rw [hcap]
      exact hend
    have hmem : capture (bs.take maxB) (capWires port) =
        (((heldAfter port bytes).getD []).take maxB) := by
      rw [heldAfter,hc,hheld]
      cases hen : port.en with
      | true =>
        rw [capture,captureUpTo_byte (show (capWires port).clear=false from hc) hen]
        rfl
      | false =>
        rw [capture,captureUpTo,if_neg (by rw [show (capWires port).clear=false from hc]; decide),
          show (capWires port).en=false from hen]
        rfl
    have hstep : p.step i=SliceParser.start
        (want.cleared.holding (((heldAfter port bytes).getD []).take maxB)) wanted := by
      rw [SliceParser.step,walkStep_start hic hstarts,← hmem,hcap,
        show p=want.cleared.holding (bs.take maxB) from h,SliceParser.start,SliceParser.start,
        hready.latched]
      rfl
    have hbusy : (p.step i).walk.st ≠ .own sliceOrdered.idle := by
      rw [hstep]
      intro hidle
      cases hidle
    obtain ⟨hnone,hrunning⟩ := sliceOrdered.running_start hstill hbusy
    refine ⟨?_,if_pos hstill,hnone,?_⟩
    · rw [SliceFollows,hstep]
    · rw [hrunning,hstep]
      rfl

section Cycle

variable {c : Captures}

/-- What a parser of sets is known to do under the pulses of its port, it does for the units
captured so far. -/
theorem SetParser.Follows.hears {σ ρ : Type} [DecidableEq σ] [DecidableEq ρ] {S : SetParser σ ρ}
    {p : Parser σ ρ} {t : CapTarget} {shown : List ρ} (own : Parsers → Parser σ ρ)
    (hset : t ≠ .slice)
    (hparse : ∀ P u, u.target=t →
      own (P.parse u)=S.settle (S.start ((own P).holding (u.bytes.take S.size))))
    (hother : ∀ P u, u.target≠t → own (P.parse u)=own P) (hpulses : Pulses c.held r)
    (hclear : (portOf r t).clear=true → ReadsNoMore S.text p)
    (hend : (portOf r t).finish=true → Still S.text.step p ∧ S.need≤p.walk.mem.length)
    (h : S.Follows p (own (parsed c.units)) (c.held t))
    (hshown : shown ++ S.ordered.running p =
      shownFor t (fun P => (own P).regs) Parsers.reset c.units) :
    S.Follows (S.clock p (capWires (portOf r t))) (own (parsed (c.hear r).units))
        ((c.hear r).held t) ∧
      shown ++ cameToRest S.text p (S.clock p (capWires (portOf r t))) ++
          S.ordered.running (S.clock p (capWires (portOf r t))) =
        shownFor t (fun P => (own P).regs) Parsers.reset (c.hear r).units := by
  have hport := hpulses.port t
  have hgoes : (portOf r t).finish=false → own (parsed (c.hear r).units)=own (parsed c.units) →
      shownFor t (fun P => (own P).regs) Parsers.reset (c.hear r).units =
        shownFor t (fun P => (own P).regs) Parsers.reset c.units →
      S.Follows (S.clock p (capWires (portOf r t))) (own (parsed (c.hear r).units))
          ((c.hear r).held t) ∧
        shown ++ cameToRest S.text p (S.clock p (capWires (portOf r t))) ++
            S.ordered.running (S.clock p (capWires (portOf r t))) =
          shownFor t (fun P => (own P).regs) Parsers.reset (c.hear r).units := by
    intro hgoing hsame hlist
    obtain ⟨hfollows,hrunning⟩ := h.goes_on hport hclear hgoing
    rw [← hsame] at hfollows
    refine ⟨hfollows,?_⟩
    rw [List.append_assoc,hrunning,hlist]
    exact hshown
  cases hpulses.ends with
  | none hunits hfinish => exact hgoes (hfinish t) (by rw [hunits]) (by rw [hunits])
  | one u hunits hsome hbytes hflags hfinish hsilent =>
    by_cases htu : u.target=t
    · subst htu
      obtain ⟨hfollows,hidle,hcame,hrunning⟩ :=
        h.starts hport (hpulses.end_without_byte hset hfinish) hfinish (hend hfinish)
      have hnext : own (parsed (c.hear r).units)=S.settle (S.start
          ((own (parsed c.units)).holding
            (((heldAfter (portOf r u.target) (c.held u.target)).getD []).take S.size))) := by
        rw [hunits,parsed_concat,hparse _ u rfl,hbytes]
      have hheld : (c.hear r).held u.target=none := if_pos hfinish
      rw [← hnext] at hfollows hrunning
      rw [hheld]
      refine ⟨hfollows,?_⟩
      rw [hidle,List.append_nil] at hshown
      rw [hcame,List.append_nil,hrunning,hshown,hunits,shownFor_concat,if_pos rfl,
        parsed_concat]
      rfl
    · refine hgoes (hsilent t fun ht => htu ht.symm).finish ?_ ?_
      · rw [hunits,parsed_concat,hother _ u htu]
      · rw [hunits,shownFor_concat,if_neg htu,List.append_nil]

/-- What the slice parser is known to do under the pulses of its port, it does for the units
captured so far. -/
theorem SliceFollows.hears {p : SliceParser} {i wanted : SlicePort} {shown : List SliceRegs}
    (hcap : i.cap=capWires r.sl) (hpulses : Pulses c.held r)
    (hclear : r.sl.clear=true → Still sliceText.step p)
    (hend : r.sl.finish=true → SliceReady p i wanted)
    (hwanted : ∀ cap, wanted.latched=(slicePort cap r.slIsIdr r.slNalRefIdcNonzero
      (parsed c.units).sps.regs (parsed c.units).pps.regs.out).latched)
    (h : SliceFollows p (parsed c.units).slice (c.held .slice))
    (hshown : shown ++ sliceOrdered.running p = sliceParses c.units) :
    SliceFollows (p.step i) (parsed (c.hear r).units).slice ((c.hear r).held .slice) ∧
      shown ++ cameToRest sliceText p (p.step i) ++ sliceOrdered.running (p.step i) =
        sliceParses (c.hear r).units := by
  have hport := hpulses.port .slice
  have hgoes : r.sl.finish=false → (parsed (c.hear r).units).slice=(parsed c.units).slice →
      sliceParses (c.hear r).units=sliceParses c.units →
      SliceFollows (p.step i) (parsed (c.hear r).units).slice ((c.hear r).held .slice) ∧
        shown ++ cameToRest sliceText p (p.step i) ++ sliceOrdered.running (p.step i) =
          sliceParses (c.hear r).units := by
    intro hgoing hsame hlist
    obtain ⟨hfollows,hrunning⟩ := h.goes_on hport hcap hclear hgoing
    rw [← hsame] at hfollows
    refine ⟨hfollows,?_⟩
    rw [List.append_assoc,hrunning,hlist]
    exact hshown
  cases hpulses.ends with
  | none hunits hfinish => exact hgoes (hfinish .slice) (by rw [hunits]) (by rw [hunits])
  | one u hunits hsome hbytes hflags hfinish hsilent =>
    have hlist := shownFor_concat .slice (·.slice.regs) Parsers.reset c.units u
    by_cases htu : u.target = .slice
    · rw [htu] at hfinish hbytes
      have hready : SliceReady p i (slicePort CapPort.close u.isIdr u.nalRef
          (parsed c.units).sps.regs (parsed c.units).pps.regs.out) := by
        obtain ⟨hlen,hs,hp,hpoc,hlatched⟩ := hend hfinish
        rw [hwanted CapPort.close,← hflags.1,← hflags.2] at hlatched
        exact ⟨hlen,hs,hp,hpoc,hlatched⟩
      obtain ⟨hfollows,hidle,hcame,hrunning⟩ := h.starts hport hcap hfinish hready
      have hnext : (parsed (c.hear r).units).slice=settleSlice (SliceParser.start
          ((parsed c.units).slice.cleared.holding
            (((heldAfter (portOf r .slice) (c.held .slice)).getD []).take maxB))
          (slicePort CapPort.close u.isIdr u.nalRef (parsed c.units).sps.regs
            (parsed c.units).pps.regs.out)) := by
        rw [hunits,parsed_concat,Parsers.parse,htu,hbytes]
      have hheld : (c.hear r).held .slice=none := if_pos hfinish
      rw [← hnext] at hfollows hrunning
      rw [hheld]
      refine ⟨hfollows,?_⟩
      rw [hidle,List.append_nil] at hshown
      rw [if_pos htu] at hlist
      rw [hcame,List.append_nil,hrunning,hshown,hunits,parsed_concat]
      exact hlist.symm
    · refine hgoes (hsilent .slice fun ht => htu ht.symm).finish ?_ ?_
      · rw [hunits,parsed_concat,Parsers.parse]
        cases hcase : u.target with
        | slice => exact absurd hcase htu
        | _ => rfl
      · rw [if_neg htu,List.append_nil] at hlist
        rw [hunits]
        exact hlist

end Cycle

end Misterplex.Header
