import Misterplex.Header.SliceWalk
import Misterplex.Header.SpsAgreement

/-!
# Delivery of slices

A slice is given to the hardware parser like a set, with the values that the
parser latches when the capture ends. Behind the header nothing writes its
outputs again, so what the parser shows when it is idle is what the walk over
the header has read.
-/

namespace Misterplex.Header

open BitString BitGrammar Cavlc Emulation ParserText

@[simp] theorem mem_startUe {σ : Type} (w : Walk σ) (s : σ) : (w.startUe s).mem=w.mem := rfl

@[simp] theorem mem_startBits {σ : Type} (w : Walk σ) (n : ℕ) (s : σ) :
    (w.startBits n s).mem=w.mem := rfl

variable (w : Walk SliceSt)

@[simp] theorem mem_goto (s : SliceSt) : (w.goto s).mem=w.mem := rfl

@[simp] theorem mem_toMarking (p : SliceParser) : p.toMarking.walk.mem=p.walk.mem := by
  rw [SliceParser.toMarking]
  split <;> rfl

theorem mem_headerOwn (s : SliceSt) (p : SliceParser) :
    (headerOwn s p).walk.mem=p.walk.mem := by
  cases s with
  | fn =>
    simp only [headerOwn]
    split_ifs <;> simp
  | refidxFlag =>
    simp only [headerOwn]
    split_ifs <;> simp
  | nidrRefmark =>
    simp only [headerOwn]
    split_ifs <;> rfl
  | qpd =>
    simp only [headerOwn]
    split_ifs <;> rfl
  | didc =>
    simp only [headerOwn]
    split_ifs <;> rfl
  | refidxL0 => exact mem_toMarking p
  | _ => rfl

@[simp] theorem mem_nextMode (r : SliceRegs) : (nextMode w r).walk.mem=w.mem := by
  rw [nextMode]
  split <;> rfl

theorem mem_mbOwn (s : SliceSt) (p : SliceParser) : (mbOwn s p).walk.mem=p.walk.mem := by
  cases s with
  | mbt =>
    simp only [mbOwn,mbtOwn]
    split_ifs <;> rfl
  | i4mode =>
    simp only [mbOwn,i4modeOwn]
    split_ifs <;> simp
  | chrpred =>
    simp only [mbOwn]
    split_ifs <;> rfl
  | cbp =>
    simp only [mbOwn]
    split_ifs <;> rfl
  | _ => rfl

theorem mem_residualOwn (s : SliceSt) (p : SliceParser) :
    (residualOwn s p).walk.mem=p.walk.mem := by
  cases s with
  | tokBit =>
    simp only [residualOwn,tokBitOwn]
    split_ifs <;> simp
  | tokChk =>
    simp only [residualOwn,tokChkOwn]
    split
    · rfl
    · split_ifs <;> rfl
  | signs =>
    simp only [residualOwn,signsOwn]
    split_ifs <;> simp
  | lvlPre =>
    simp only [residualOwn,lvlPreOwn]
    split_ifs <;> simp
  | lvlNxt =>
    simp only [residualOwn,lvlNxtOwn]
    split_ifs <;> rfl
  | tzBit =>
    simp only [residualOwn,tzBitOwn]
    split_ifs <;> simp
  | tzChk =>
    simp only [residualOwn,tzChkOwn]
    split
    · split_ifs <;> rfl
    · split_ifs <;> rfl
  | runBit =>
    simp only [residualOwn,runBitOwn]
    split_ifs <;> simp
  | runChk =>
    simp only [residualOwn,runChkOwn]
    split
    · split_ifs <;> rfl
    · split_ifs <;> rfl
  | _ => rfl

open Walk

theorem mem_sliceStep (p : SliceParser) : (sliceText.step p).walk.mem=p.walk.mem := by
  rw [ParserText.step]
  split
  · rename_i s hst
    show (sliceOwn s { p with regs := sliceTick p.regs }).walk.mem=p.walk.mem
    rw [sliceOwn]
    split
    · exact mem_headerOwn s _
    · exact mem_mbOwn s _
    · exact mem_residualOwn s _
    · split <;> rfl
  · exact mem_step _ _ _

/-- Where the walk goes to behind what it reads now, its own states being of a given kind. -/
def Heads (kind : SliceSt → Prop) (w : Walk SliceSt) : Prop :=
  match w.st with
  | .own s => kind s
  | .getBits =>
    match w.cont with
    | .own s => kind s
    | _ => kind w.ueCont
  | _ => kind w.ueCont

/-- A state behind the header. -/
def BehindHeader (s : SliceSt) : Prop := s.part ≠ .header

instance : DecidablePred BehindHeader := fun s => inferInstanceAs (Decidable (s.part ≠ .header))

/-- The parser is behind the header, with given outputs. -/
structure PastHeader (out : SliceOut) (p : SliceParser) : Prop where
  heads : Heads BehindHeader p.walk
  out : p.regs.out=out

variable {s : SliceSt}

theorem heads_own {kind : SliceSt → Prop} {w : Walk SliceSt} (hst : w.st = .own s)
    (h : kind s) : Heads kind w := by
  rw [Heads,hst]
  exact h

theorem heads_goto (h : BehindHeader s) : Heads BehindHeader (w.goto s) := h

theorem heads_startUe (h : BehindHeader s) : Heads BehindHeader (w.startUe s) := h

theorem heads_startBits (n : ℕ) (h : BehindHeader s) : Heads BehindHeader (w.startBits n s) := h

theorem heads_advance {w : Walk SliceSt} (h : Heads BehindHeader w) : Heads BehindHeader w.advance := by
  rw [advance]
  split
  · exact h
  · exact h

theorem heads_walkStep (maxZeros : ℕ) {w : Walk SliceSt} (h : Heads BehindHeader w) :
    Heads BehindHeader (w.step maxZeros .fail) := by
  have hfail : BehindHeader .fail := by decide
  rw [Walk.step]
  cases hst : w.st with
  | own s => exact h
  | ueV =>
    rw [Heads,hst] at h
    exact h
  | ueZ =>
    rw [Heads,hst] at h
    dsimp only
    split_ifs
    · exact hfail
    · exact hfail
    · rw [st_advance,hst,ueCont_advance]
      exact h
    · rw [Heads]
      exact h
    · rw [ueCont_advance]
      exact h
  | getBits =>
    rw [Heads,hst] at h
    dsimp only at h ⊢
    split_ifs
    · exact hfail
    · cases hcont : w.cont with
      | own s =>
        rw [hcont] at h
        exact h
      | ueZ =>
        rw [hcont] at h
        rw [ueCont_advance]
        exact h
      | ueV =>
        rw [hcont] at h
        rw [ueCont_advance]
        exact h
      | getBits =>
        rw [hcont] at h
        rw [cont_advance,hcont,ueCont_advance]
        exact h
    · rw [st_advance,hst,cont_advance,ueCont_advance]
      exact h

variable {out : SliceOut} {p : SliceParser}

theorem pastHeader_mbOwn (hpart : s.part = .macroblock)
    (hout : p.regs.out=out) (hst : p.walk.st = .own s) : PastHeader out (mbOwn s p) := by
  have hstay : Heads BehindHeader p.walk := heads_own hst (by rw [BehindHeader,hpart]; decide)
  cases s with
  | mbt =>
    simp only [mbOwn,mbtOwn]
    split_ifs
    · exact ⟨heads_goto _ (by decide),hout⟩
    · exact ⟨heads_startUe _ (by decide),hout⟩
    · exact ⟨heads_startUe _ (by decide),hout⟩
    · exact ⟨heads_goto _ (by decide),hout⟩
    · exact ⟨heads_goto _ (by decide),hout⟩
  | pMbt => exact ⟨heads_goto _ (by decide),hout⟩
  | i4mode =>
    simp only [mbOwn,i4modeOwn,nextMode]
    split_ifs
    · exact ⟨heads_goto _ (by decide),hout⟩
    · exact ⟨heads_startUe _ (by decide),hout⟩
    · exact ⟨heads_advance hstay,hout⟩
    · exact ⟨heads_advance hstay,hout⟩
    · exact ⟨heads_startUe _ (by decide),hout⟩
    · exact ⟨heads_advance hstay,hout⟩
    · exact ⟨heads_advance hstay,hout⟩
  | chrpred =>
    simp only [mbOwn]
    split_ifs
    · exact ⟨heads_startUe _ (by decide),hout⟩
    · exact ⟨heads_startUe _ (by decide),hout⟩
  | cbp =>
    simp only [mbOwn]
    split_ifs
    · exact ⟨heads_goto _ (by decide),hout⟩
    · exact ⟨heads_startUe _ (by decide),hout⟩
  | mbqp => exact ⟨heads_goto _ (by decide),hout⟩
  | _ => cases hpart

theorem pastHeader_residualOwn (hpart : s.part = .residual)
    (hout : p.regs.out=out) (hst : p.walk.st = .own s) : PastHeader out (residualOwn s p) := by
  have hstay : Heads BehindHeader p.walk := heads_own hst (by rw [BehindHeader,hpart]; decide)
  cases s with
  | tokBit =>
    simp only [residualOwn,tokBitOwn]
    split_ifs <;> exact ⟨heads_goto _ (by decide),hout⟩
  | tokChk =>
    simp only [residualOwn,tokChkOwn]
    split
    · refine ⟨heads_goto _ ?_,?_⟩
      · split_ifs <;> decide
      · rw [tokenRegs]
        split_ifs <;> exact hout
    · split_ifs <;> exact ⟨heads_goto _ (by decide),hout⟩
  | signs =>
    simp only [residualOwn,signsOwn]
    by_cases hoob : p.walk.oob=true
    · rw [if_pos hoob]
      exact ⟨heads_goto _ (by decide),hout⟩
    · rw [if_neg hoob]
      by_cases hlast : p.regs.work.signLeft≤1
      · rw [if_pos hlast]
        by_cases hmore : p.regs.work.rT1<p.regs.work.rTc
        · rw [if_pos hmore]
          exact ⟨heads_goto _ (by decide),hout⟩
        · rw [if_neg hmore]
          exact ⟨heads_goto _ (by decide),hout⟩
      · rw [if_neg hlast]
        exact ⟨heads_advance hstay,hout⟩
  | lvlPre =>
    simp only [residualOwn,lvlPreOwn]
    split_ifs
    · exact ⟨heads_goto _ (by decide),hout⟩
    · exact ⟨heads_goto _ (by decide),hout⟩
    · exact ⟨heads_advance hstay,hout⟩
    · exact ⟨heads_goto _ (by decide),hout⟩
    · exact ⟨heads_startBits _ _ (by decide),hout⟩
  | lvlSuf => exact ⟨heads_goto _ (by decide),hout⟩
  | lvlNxt =>
    simp only [residualOwn,lvlNxtOwn]
    split_ifs <;> exact ⟨heads_goto _ (by decide),hout⟩
  | tzBit =>
    simp only [residualOwn,tzBitOwn]
    split_ifs <;> exact ⟨heads_goto _ (by decide),hout⟩
  | tzChk =>
    simp only [residualOwn,tzChkOwn]
    split
    · split_ifs <;> exact ⟨heads_goto _ (by decide),hout⟩
    · split_ifs <;> exact ⟨heads_goto _ (by decide),hout⟩
  | runBit =>
    simp only [residualOwn,runBitOwn]
    split_ifs
    · exact ⟨heads_goto _ (by decide),hout⟩
    · exact ⟨heads_goto _ (by decide),hout⟩
    · exact ⟨heads_startBits _ _ (by decide),hout⟩
    · exact ⟨heads_goto _ (by decide),hout⟩
  | runChk =>
    simp only [residualOwn,runChkOwn]
    split
    · split_ifs <;> exact ⟨heads_goto _ (by decide),hout⟩
    · split_ifs <;> exact ⟨heads_goto _ (by decide),hout⟩
  | place => exact ⟨heads_goto _ (by decide),hout⟩
  | _ => cases hpart

theorem pastHeader_step (h : PastHeader out p) : PastHeader out (sliceText.step p) := by
  have hheads := h.heads
  rw [ParserText.step]
  split
  · rename_i s hst
    rw [Heads,hst] at hheads
    have hown : s.part ≠ .header := hheads
    show PastHeader out (sliceOwn s ⟨p.walk,sliceTick p.regs⟩)
    rw [sliceOwn]
    split
    · rename_i hpart
      exact absurd hpart hown
    · rename_i hpart
      exact pastHeader_mbOwn hpart h.out hst
    · rename_i hpart
      exact pastHeader_residualOwn hpart h.out hst
    · split <;> exact ⟨heads_goto _ (by decide),h.out⟩
  · exact ⟨heads_walkStep _ h.heads,h.out⟩

theorem pastHeader_iterate (h : PastHeader out p) (n : ℕ) :
    PastHeader out (sliceText.step^[n] p) := by
  induction n generalizing p with
  | zero => exact h
  | succ n ih => exact ih (pastHeader_step h)

theorem sliceStep_idle (hst : p.walk.st = .own .idle) :
    sliceText.step p=sliceOwn .idle ⟨p.walk,sliceTick p.regs⟩ := by
  rw [ParserText.step,hst]
  rfl

theorem idle_iterate (hst : p.walk.st = .own .idle) (n : ℕ) :
    (sliceText.step^[n] p).walk.st = .own .idle ∧
      (sliceText.step^[n] p).regs.valid=p.regs.valid := by
  induction n generalizing p with
  | zero => exact ⟨hst,rfl⟩
  | succ n ih =>
    have hstep := sliceStep_idle hst
    obtain ⟨hidle,hvalid⟩ := ih (p := sliceText.step p) (by rw [hstep]; rfl)
    refine ⟨hidle,hvalid.trans ?_⟩
    rw [hstep]
    rfl

theorem fail_iterate (hst : p.walk.st = .own .fail) (hvalid : p.regs.valid=false) (n : ℕ) :
    (sliceText.step^[n] p).regs.valid=false := by
  cases n with
  | zero => exact hvalid
  | succ n =>
    have hstep : sliceText.step p=sliceOwn .fail ⟨p.walk,sliceTick p.regs⟩ := by
      rw [ParserText.step,hst]
      rfl
    have hidle : (sliceText.step p).walk.st = .own .idle := by
      rw [hstep]
      rfl
    refine (idle_iterate hidle n).2.trans ?_
    rw [hstep]
    exact hvalid

variable {i : SlicePort}

/-- A header that is valid in the end was walked over, and its outputs are those of the walk. -/
theorem walk_of_valid {n : ℕ} (hkeeps : InHeader (p.start i).regs)
    (hidle : (sliceText.step^[n] (p.start i)).walk.st = .own .idle)
    (hvalid : (sliceText.step^[n] (p.start i)).regs.valid=true) :
    ∃ r o rest, walkSlice (p.start i).regs (bitsOf p.walk.mem)=some ((r,o),rest) ∧
      (sliceText.step^[n] (p.start i)).regs.out=r.out := by
  obtain ⟨k,hend⟩ := leads_walkSlice hkeeps
  have hlate : (sliceText.step^[k] (p.start i)).walk.st ≠ .own .idle → k≤n := by
    intro hbusy
    by_contra hlt
    obtain ⟨m,rfl⟩ := Nat.exists_eq_add_of_le' (Nat.le_of_not_le hlt)
    rw [Function.iterate_add_apply] at hbusy
    exact hbusy (idle_iterate hidle m).1
  cases hwalk : walkSlice (p.start i).regs (bitsOf p.walk.mem) with
  | none =>
    rw [hwalk] at hend
    obtain ⟨hkept,hst⟩ := hend
    obtain ⟨m,rfl⟩ := Nat.exists_eq_add_of_le' (hlate (by rw [hst]; decide))
    rw [Function.iterate_add_apply,fail_iterate hst hkept.valid m] at hvalid
    cases hvalid
  | some result =>
    obtain ⟨⟨r,o⟩,rest⟩ := result
    refine ⟨r,o,rest,rfl,?_⟩
    rw [hwalk] at hend
    have hpast : PastHeader r.out (sliceText.step^[k] (p.start i)) ∧
        (sliceText.step^[k] (p.start i)).walk.st ≠ .own .idle := by
      cases o with
      | none =>
        obtain ⟨-,hst,hregs⟩ := hend
        exact ⟨⟨heads_own hst (by decide),by rw [hregs]⟩,by rw [hst]; decide⟩
      | some v =>
        obtain ⟨-,hst,hregs,-,-⟩ := hend
        exact ⟨⟨heads_own hst (by decide),by rw [hregs]⟩,by rw [hst]; decide⟩
    obtain ⟨m,rfl⟩ := Nat.exists_eq_add_of_le' (hlate hpast.2)
    rw [Function.iterate_add_apply]
    exact (pastHeader_iterate hpast.1 m).out

/-- A slice is given to the parser, which comes back to its idle state. -/
def SliceDelivers (p : SliceParser) (payload : List Byte) (i : SlicePort) (q : SliceParser) : Prop :=
  ∃ c is js, c.cap = .begin ∧ Brings (is.map SlicePort.cap) (removeEpb payload) ∧ i.cap = .close ∧
    (∀ j∈js, SlicePort.cap j = .quiet) ∧ q.walk.st = .own .idle ∧
    q=Trace.finalState SliceParser.step p (c::is ++ i::js)

/-- Before a walk the parser is idle, its header is not valid, and its outputs are the old ones. -/
structure Waiting (out : SliceOut) (mem : List Byte) (p : SliceParser) : Prop where
  st : p.walk.st = .own .idle
  valid : p.regs.valid=false
  out : p.regs.out=out
  mem : p.walk.mem=mem

variable {mem : List Byte}

theorem walkStep_clear (h : i.cap.clear=true) : p.walkStep i=p.cleared := by
  rw [SliceParser.walkStep,if_pos h]

theorem walkStep_start (h : i.cap.clear=false) (hstarts : i.starts p) :
    p.walkStep i=p.start i := by
  rw [SliceParser.walkStep,if_neg (by rw [h]; exact Bool.false_ne_true),if_pos hstarts]

theorem walkStep_walk (h : i.cap.clear=false) (hstarts : ¬i.starts p) :
    p.walkStep i=sliceText.step p := by
  rw [SliceParser.walkStep,if_neg (by rw [h]; exact Bool.false_ne_true),if_neg hstarts]

theorem waiting_step (h : Waiting out mem p) (hclear : i.cap.clear=false)
    (hlast : i.cap.last=false) : Waiting out (capture mem i.cap) (p.step i) := by
  have hwalk : p.walkStep i=sliceOwn .idle ⟨p.walk,sliceTick p.regs⟩ := by
    rw [walkStep_walk hclear fun hstarts => Bool.noConfusion (hlast.symm.trans hstarts.2.1),
      sliceStep_idle h.st]
  rw [SliceParser.step,hwalk,h.mem]
  exact ⟨rfl,h.valid,h.out,rfl⟩

theorem waiting_capture {is : List SlicePort} {bytes : List Byte}
    (hbrings : Brings (is.map SlicePort.cap) bytes) (h : Waiting out mem p)
    (hlen : mem.length ≤ maxB) :
    Waiting out ((mem ++ bytes).take maxB) (Trace.finalState SliceParser.step p is) := by
  induction is generalizing p bytes mem with
  | nil =>
    have hnone : bytes=[] := hbrings.bytes.symm
    rw [hnone,List.append_nil,List.take_of_length_le hlen]
    exact h
  | cons i is ih =>
    obtain ⟨hclear,hlast⟩ := hbrings.running i.cap (List.mem_cons_self ..)
    obtain ⟨hrest,hshort,hbytes⟩ := hbrings.capture_cons hlen
    have hnext := ih hrest (waiting_step h hclear hlast) hshort
    rw [← hbytes]
    exact hnext

theorem sliceStep_quiet {j : SlicePort} (h : j.cap = .quiet) (p : SliceParser) :
    p.step j=sliceText.step p := by
  have hwalk : p.walkStep j=sliceText.step p := by
    refine walkStep_walk (by rw [h]; rfl) ?_
    rintro ⟨-,hlast,-⟩
    rw [h] at hlast
    cases hlast
  rw [SliceParser.step,hwalk,h]
  show { sliceText.step p with walk := { (sliceText.step p).walk with mem := p.walk.mem } } = _
  rw [← mem_sliceStep p]

theorem run_quiet {js : List SlicePort} (h : ∀ j∈js, SlicePort.cap j = .quiet)
    (p : SliceParser) :
    Trace.finalState SliceParser.step p js=sliceText.step^[js.length] p := by
  induction js generalizing p with
  | nil => rfl
  | cons j js ih =>
    rw [Trace.finalState_cons,sliceStep_quiet (h j (List.mem_cons_self ..)),
      ih fun j' hj => h j' (List.mem_cons_of_mem j hj)]
    rfl

/-- A delivered slice whose header is valid in the end was walked over, from the outputs before. -/
theorem walk_of_delivers {payload : List Byte} {q : SliceParser}
    (h : SliceDelivers p payload i q) (hvalid : q.regs.valid=true)
    (hlog2 : i.log2MaxFrameNum≤16) :
    ∃ m : SliceParser, Waiting p.regs.out (captured payload) m ∧ ∃ r o rest,
      walkSlice (m.start i).regs (bitsOf (captured payload))=some ((r,o),rest) ∧
        q.regs.out=r.out := by
  obtain ⟨c,is,js,hbegin,hbrings,hclose,hquiet,hidle,rfl⟩ := h
  rw [List.cons_append,Trace.finalState_cons,Trace.finalState_append,Trace.finalState_cons,
    run_quiet hquiet] at hidle hvalid ⊢
  have hcleared : Waiting p.regs.out [] (p.step c) := by
    have hwalk : p.walkStep c=p.cleared := walkStep_clear (by rw [hbegin]; rfl)
    rw [SliceParser.step,hwalk,hbegin]
    exact ⟨rfl,rfl,rfl,rfl⟩
  have hwaiting := waiting_capture hbrings hcleared (Nat.zero_le _)
  rw [List.nil_append] at hwaiting
  generalize Trace.finalState SliceParser.step (p.step c) is=m at hidle hvalid hwaiting ⊢
  refine ⟨m,hwaiting,?_⟩
  by_cases hstarts : i.starts m
  · have hstart : m.step i=m.start i := by
      have hwalk : m.walkStep i=m.start i := walkStep_start (by rw [hclose]; rfl) hstarts
      rw [SliceParser.step,hwalk,hclose]
      rfl
    rw [hstart] at hidle hvalid ⊢
    have hkeeps : InHeader (m.start i).regs := by
      refine ⟨rfl,hwaiting.valid,?_,?_⟩
      · show 1 ≤ i.latched.log2
        rw [SlicePort.latched]
        dsimp only
        split <;> omega
      · show i.latched.log2≤16
        rw [SlicePort.latched]
        dsimp only
        split <;> omega
    obtain ⟨r,o,rest,hwalk,hout⟩ := walk_of_valid hkeeps hidle hvalid
    have hmem : m.walk.mem=captured payload := hwaiting.mem
    rw [hmem] at hwalk
    exact ⟨r,o,rest,hwalk,hout⟩
  · have hstep : m.step i=sliceOwn .idle ⟨m.walk,sliceTick m.regs⟩ := by
      have hwalk : m.walkStep i=sliceOwn .idle ⟨m.walk,sliceTick m.regs⟩ := by
        rw [walkStep_walk (by rw [hclose]; rfl) hstarts,sliceStep_idle hwaiting.st]
      rw [SliceParser.step,hwalk,hclose]
      rfl
    rw [hstep,(idle_iterate (p := sliceOwn .idle ⟨m.walk,sliceTick m.regs⟩) rfl _).2] at hvalid
    exact Bool.noConfusion (hwaiting.valid.symm.trans hvalid)

end Misterplex.Header
