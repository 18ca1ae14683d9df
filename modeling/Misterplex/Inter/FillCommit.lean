import Misterplex.Inter.DpbFill
import Misterplex.Lib.Endless

/-!
# The fill and the controller that counts its samples

A fill of the stub and the writeback controller each count the samples of a macroblock. The
controller starts over at every IDR picture that is found, the stub does not. As long as no
IDR picture is found while a sample is written, the counts agree: every macroblock is
committed, and the stub gets the pulse it waits for. One sample that is counted away is
missing when its macroblock is to be committed, unless there is a reset before.
-/

namespace Misterplex.Inter

open Endless

namespace DecodeStub

/-- The stub in a run without end. -/
def during (g : StubParams) (mem : BitVec 18 → BitVec 8) (is : ℕ → StubIn) (n : ℕ) : DecodeStub :=
  stateAt (step g) (start g mem) is n

/-- The macroblock that the controller shows as committed, if there is one. -/
def shown (s : DecodeStub) : List ℕ := if s.wb.wbValid then [s.wb.wbMbAddr] else []

/-- The macroblocks that the controller has shown as committed since the fill began. -/
def committed (run : ℕ → DecodeStub) : ℕ → List ℕ
  | 0 => if (run 0).stub.phase = .dpbFill then (run 0).shown else []
  | n+1 =>
    if (run (n+1)).stub.phase = .dpbFill then committed run n ++ (run (n+1)).shown else []

/-- The stub waits for the end of the picture. -/
def Waits (s : DecodeStub) : Prop := s.stub.phase = .dpbFill ∧ s.stub.fillSampleIdx=386

end DecodeStub

/-- Every fill is whole, and the stub goes on. -/
structure FillsWhole (g : StubParams) (run : ℕ → DecodeStub) : Prop where
  /-- The picture becomes the reference at once when the stub waits for it. -/
  ready : ∀ n, (run n).Waits → (run n).wb.refReadyPulse=true
  /-- No macroblock comes before all its samples. -/
  ordered : ∀ n, (run n).stub.phase = .dpbFill → (run n).wb.commitOrderError=false
  /-- Every macroblock was committed, and none twice. -/
  once : ∀ n, (run n).Waits → DecodeStub.committed run n=List.range g.mbCount
  /-- The stub stays in no phase but the one in which it has nothing to do. -/
  goesOn : ∀ n, (run n).stub.phase ≠ .idle → ∃ m, n < m ∧ (run m).stub.phase≠(run n).stub.phase

/-- There is a macroblock, and their addresses are words of 16 bits. -/
structure StubParams.Counted (g : StubParams) : Prop where
  pos : 0<g.mbCount
  word : g.mbCount≤2^16

namespace StubParams.Counted

variable {g : StubParams}

theorem last (h : g.Counted) : g.lastMbAddr+1=g.mbCount := by
  have hpos := h.pos
  have hword := h.word
  rw [lastMbAddr,Nat.mod_eq_of_lt (by omega)]
  omega

theorem fits {mb : ℕ} (hmb : mb<g.mbCount) : mb%2^g.mbAw=mb := by
  have hbound : g.mbCount≤2^g.mbAw := by
    rw [mbAw]
    split
    · omega
    · exact Nat.le_pow_clog (by omega) g.mbCount
  exact Nat.mod_eq_of_lt (by omega)

end StubParams.Counted

namespace DecodeStub

variable {g : StubParams} {s : DecodeStub} {i : StubIn}

/-- The writeback takes its own step. -/
theorem step_wb (hreset : i.reset=false) : (s.step g i).wb=s.wb.step (s.writebackIn g i) := by
  rw [step,hreset]
  rfl

open StubRegs

theorem sees_nothing (hphase : s.stub.phase ≠ .dpbFill) :
    s.stub.fillSamplePhase=false ∧ s.stub.filteredMbValid=false ∧
      s.stub.frameBoundary=false := by
  have hno : (s.stub.phase == StubPhase.dpbFill)=false := beq_eq_false_iff_ne.mpr hphase
  rw [fillSamplePhase,filteredMbValid,frameBoundary,hno]
  exact ⟨rfl,rfl,rfl⟩

theorem sees_fill (hphase : s.stub.phase = .dpbFill) :
    s.stub.fillSamplePhase=decide (s.stub.fillSampleIdx<384) ∧
      s.stub.filteredMbValid=decide (s.stub.fillSampleIdx=384) ∧
      s.stub.frameBoundary=decide (s.stub.fillSampleIdx=385) := by
  have hyes : (s.stub.phase == StubPhase.dpbFill)=true := beq_iff_eq.mpr hphase
  rw [fillSamplePhase,filteredMbValid,frameBoundary,hyes]
  exact ⟨rfl,rfl,rfl⟩

open Writeback

theorem wb_quiet (hreset : i.reset=false) (hmb : s.stub.filteredMbValid=false)
    (hboundary : s.stub.frameBoundary=false) :
    (s.step g i).wb.wbValid=false ∧ (s.step g i).wb.commitOrderError=false ∧
      (s.step g i).wb.refReadyPulse=false ∧
      (s.step g i).wb.sampleCount =
        if i.idrFound then 0
        else if s.stub.fillSamplePhase ∧ s.wb.sampleCount ≠ 384 then s.wb.sampleCount+1
        else s.wb.sampleCount := by
  rw [step_wb hreset]
  simp [Writeback.step,writebackIn,commitNow,samplesComplete,hmb,
    hboundary]

theorem wb_commit (hreset : i.reset=false) (hmb : s.stub.filteredMbValid=true)
    (hcount : s.wb.sampleCount=384) :
    (s.step g i).wb.wbValid=true ∧ (s.step g i).wb.wbMbAddr=s.stub.fillMbAddr%2^g.mbAw ∧
      (s.step g i).wb.commitOrderError=false ∧ (s.step g i).wb.sampleCount=0 ∧
      (s.stub.fillMbAddr=g.lastMbAddr → s.stub.frameBoundary=false →
        (s.step g i).wb.refPending=true) := by
  rw [step_wb hreset]
  simp [Writeback.step,writebackIn,commitNow,samplesComplete,
    filteredFrameDone,hmb,hcount]
  intro hlast hboundary
  exact ⟨Or.inl hboundary,Or.inl hlast⟩

theorem wb_lacks (hreset : i.reset=false) (hmb : s.stub.filteredMbValid=true)
    (hcount : s.wb.sampleCount≠384) : (s.step g i).wb.commitOrderError=true := by
  rw [step_wb hreset]
  simp [Writeback.step,writebackIn,samplesComplete,hmb,hcount]

theorem wb_boundary (hreset : i.reset=false) (hmb : s.stub.filteredMbValid=false)
    (hboundary : s.stub.frameBoundary=true) :
    (s.step g i).wb.wbValid=false ∧ (s.step g i).wb.commitOrderError=false ∧
      (s.step g i).wb.refReadyPulse=s.wb.refPending ∧ (s.step g i).wb.sampleCount=0 := by
  rw [step_wb hreset]
  simp [Writeback.step,writebackIn,commitNow,hmb,hboundary]

/-- Between a macroblock and the boundary of the picture the controller commits nothing. -/
theorem wb_passes (hreset : i.reset=false) (hphase : s.stub.phase = .dpbFill)
    (hmb : s.stub.fillSampleIdx≠384) (hboundary : s.stub.fillSampleIdx≠385) :
    (s.step g i).wb.wbValid=false ∧ (s.step g i).wb.commitOrderError=false ∧
      (s.step g i).wb.refReadyPulse=false ∧
      (s.step g i).wb.sampleCount =
        if i.idrFound then 0
        else if s.stub.fillSamplePhase ∧ s.wb.sampleCount ≠ 384 then s.wb.sampleCount+1
        else s.wb.sampleCount := by
  obtain ⟨-,hseesMb,hseesBoundary⟩ := sees_fill hphase
  exact wb_quiet hreset (hseesMb.trans (decide_eq_false hmb))
    (hseesBoundary.trans (decide_eq_false hboundary))

theorem step_moves (hg : g.Counted) (hreset : i.reset=false) (hphase : s.stub.phase = .dpbFill)
    (hmb : s.stub.fillMbAddr<g.mbCount) (hidx : s.stub.fillSampleIdx≤386) :
    FillMove g s.stub s.wb.refReadyPulse (s.step g i).stub :=
  fill_move (v := s.view) hg.last hg.word hreset hphase hmb hidx

/-- A sample is followed by the next one of its macroblock. -/
theorem step_sample (hg : g.Counted) (hreset : i.reset=false) (hphase : s.stub.phase = .dpbFill)
    (hmb : s.stub.fillMbAddr<g.mbCount) (hidx : s.stub.fillSampleIdx<384) :
    (s.step g i).stub.phase = .dpbFill ∧ (s.step g i).stub.fillMbAddr=s.stub.fillMbAddr ∧
      (s.step g i).stub.fillSampleIdx=s.stub.fillSampleIdx+1 := by
  have hmove : FillMove g s.stub s.wb.refReadyPulse (s.step g i).stub :=
    step_moves hg hreset hphase hmb (by omega)
  cases hmove with
  | sample _ hnext hsame hidx' => exact ⟨hnext,hsame,hidx'⟩
  | last hidx' => omega
  | macroblock hidx' => omega
  | boundary hidx' => omega
  | ends hidx' => omega
  | waits hidx' => omega

/-- Where a fill stands, and what the controller has got of it. Under the given condition a
reset comes before the macroblock is committed. -/
structure Filling (g : StubParams) (due : Prop) (s : DecodeStub) : Prop where
  /-- A fill is at one of the macroblocks, and at the last one once all are written. -/
  place : s.stub.phase = .dpbFill → s.stub.fillMbAddr<g.mbCount ∧ s.stub.fillSampleIdx≤386 ∧
    (385 ≤ s.stub.fillSampleIdx → s.stub.fillMbAddr+1=g.mbCount)
  /-- The controller has counted the samples that were written. -/
  counted : s.stub.phase = .dpbFill → s.stub.fillSampleIdx≤384 →
    s.wb.sampleCount=s.stub.fillSampleIdx ∨ due
  /-- Behind the last macroblock it counts nothing. -/
  rested : s.stub.phase = .dpbFill → 385 ≤ s.stub.fillSampleIdx → s.wb.sampleCount=0
  quiet : s.stub.phase ≠ .dpbFill → s.wb.sampleCount=0 ∧ s.wb.wbValid=false
  /-- No macroblock came before all its samples. -/
  ordered : s.wb.commitOrderError=false
  /-- At the frame boundary a complete picture waits. -/
  pending : s.stub.phase = .dpbFill → s.stub.fillSampleIdx=385 → s.wb.refPending=true
  /-- Behind it the picture becomes the reference. -/
  ready : s.Waits → s.wb.refReadyPulse=true

/-- The stub starts outside a fill. -/
theorem Filling.start (g : StubParams) (due : Prop) (mem : BitVec 18 → BitVec 8) :
    (DecodeStub.start g mem).Filling g due where
  place := fun hphase => by cases hphase
  counted := fun hphase => by cases hphase
  rested := fun hphase => by cases hphase
  quiet := fun _ => ⟨rfl,rfl⟩
  ordered := rfl
  pending := fun hphase => by cases hphase
  ready := fun hwaits => by cases hwaits.1

/-- A reset leaves the fill. -/
theorem Filling.reset {due : Prop} (hreset : i.reset=true) : (s.step g i).Filling g due := by
  have hnext : s.step g i=DecodeStub.start g (s.step g i).mem := by
    rw [DecodeStub.step,DecodeStub.start,StubRegs.step,DpbRegs.step,dpbIn,hreset]
    rfl
  rw [hnext]
  exact Filling.start g due _

theorem Filling.step_outside {due due' : Prop} (hg : g.Counted) (h : s.Filling g due)
    (hreset : i.reset=false) (hphase : s.stub.phase ≠ .dpbFill) :
    (s.step g i).Filling g due' := by
  obtain ⟨hsample,hmb,hboundary⟩ := sees_nothing hphase
  obtain ⟨hvalid,herror,hpulse,hcount⟩ := wb_quiet (g := g) hreset hmb hboundary
  have hzero : (s.step g i).wb.sampleCount=0 := by
    rw [hcount,hsample,(h.quiet hphase).1]
    simp
  have hbegins : (s.step g i).stub.phase = .dpbFill →
      (s.step g i).stub.fillMbAddr=0 ∧ (s.step g i).stub.fillSampleIdx=0 := fun hnext =>
    step_begins hphase hnext
  constructor
  case place =>
    intro hnext
    obtain ⟨hfirst,hidx⟩ := hbegins hnext
    rw [hfirst,hidx]
    exact ⟨hg.pos,by omega,by omega⟩
  case counted =>
    intro hnext _
    rw [hzero,(hbegins hnext).2]
    exact Or.inl rfl
  case rested => exact fun _ _ => hzero
  case quiet => exact fun _ => ⟨hzero,hvalid⟩
  case ordered => exact herror
  case pending =>
    intro hnext hidx
    rw [(hbegins hnext).2] at hidx
    omega
  case ready =>
    rintro ⟨hnext,hidx⟩
    rw [(hbegins hnext).2] at hidx
    omega

/-- A clock of a fill. An IDR picture that is found while a sample is written makes a reset
due. -/
theorem Filling.step_inside {due due' : Prop} (hg : g.Counted) (h : s.Filling g due)
    (hreset : i.reset=false) (hphase : s.stub.phase = .dpbFill)
    (hsample : s.stub.fillSampleIdx<384 → due ∨ i.idrFound=true → due')
    (hcommit : s.stub.fillSampleIdx=384 → ¬due) : (s.step g i).Filling g due' := by
  obtain ⟨hcount,hlow,hend⟩ := h.place hphase
  obtain ⟨hseesSample,hseesMb,hseesBoundary⟩ := sees_fill hphase
  have hmove : FillMove g s.stub s.wb.refReadyPulse (s.step g i).stub :=
    step_moves hg hreset hphase hcount hlow
  cases hmove with
  | sample hidx hnext hmb hidx' =>
    obtain ⟨_,herror,_,hcount'⟩ := wb_passes (g := g) hreset hphase (by omega) (by omega)
    have hcounted : (s.step g i).wb.sampleCount=s.stub.fillSampleIdx+1 ∨ due' := by
      rcases h.counted hphase (by omega) with hequal | hdue
      · by_cases hidr : i.idrFound=true
        · exact Or.inr (hsample hidx (Or.inr hidr))
        · have hwrites : s.stub.fillSamplePhase=true ∧ s.wb.sampleCount≠384 :=
            ⟨by rw [hseesSample]; simpa using hidx,by omega⟩
          rw [hcount',if_neg hidr,if_pos hwrites,hequal]
          exact Or.inl rfl
      · exact Or.inr (hsample hidx (Or.inl hdue))
    refine ⟨fun _ => ⟨by omega,by omega,by omega⟩,fun _ _ => ?_,by omega,?_,herror,by omega,
      fun hwaits => ?_⟩
    · rw [hidx']
      exact hcounted
    · exact fun hout => absurd hnext hout
    · have hwait := hwaits.2
      omega
  | last hidx hnext hend' hmb hidx' =>
    have hmb1 : s.stub.filteredMbValid=true := by rw [hseesMb]; simpa using hidx
    have hboundary0 : s.stub.frameBoundary=false := by rw [hseesBoundary]; simp; omega
    have hfull := (h.counted hphase (by omega)).resolve_right (hcommit hidx)
    obtain ⟨_,_,herror,hzero,hpending⟩ := wb_commit (g := g) hreset hmb1 (hfull.trans hidx)
    have hlast := hg.last
    refine ⟨fun _ => ⟨by omega,by omega,by omega⟩,by omega,fun _ _ => hzero,?_,herror,
      fun _ _ => hpending (by omega) hboundary0,fun hwaits => ?_⟩
    · exact fun hout => absurd hnext hout
    · have hwait := hwaits.2
      omega
  | macroblock hidx hnext hmb hin hidx' =>
    have hmb1 : s.stub.filteredMbValid=true := by rw [hseesMb]; simpa using hidx
    have hfull := (h.counted hphase (by omega)).resolve_right (hcommit hidx)
    obtain ⟨_,_,herror,hzero,_⟩ := wb_commit (g := g) hreset hmb1 (hfull.trans hidx)
    refine ⟨fun _ => ⟨hin,by omega,by omega⟩,fun _ _ => Or.inl (by omega),fun _ _ => hzero,?_,
      herror,by omega,fun hwaits => ?_⟩
    · exact fun hout => absurd hnext hout
    · have hwait := hwaits.2
      omega
  | boundary hidx hnext hmb hidx' =>
    have hmb0 : s.stub.filteredMbValid=false := by rw [hseesMb]; simp; omega
    have hboundary1 : s.stub.frameBoundary=true := by rw [hseesBoundary]; simpa using hidx
    obtain ⟨_,herror,hpulse,hzero⟩ := wb_boundary (g := g) hreset hmb0 hboundary1
    refine ⟨fun _ => ⟨by omega,by omega,by omega⟩,by omega,fun _ _ => hzero,?_,herror,
      by omega,fun _ => hpulse.trans (h.pending hphase hidx)⟩
    exact fun hout => absurd hnext hout
  | ends hidx _ hnext =>
    obtain ⟨hvalid,herror,_,hcount'⟩ := wb_passes (g := g) hreset hphase (by omega) (by omega)
    have hno : ¬(s.stub.fillSamplePhase=true ∧ s.wb.sampleCount≠384) := by
      rw [hseesSample]
      simp
      omega
    have hzero : (s.step g i).wb.sampleCount=0 := by
      rw [hcount',if_neg hno,h.rested hphase (by omega)]
      split <;> rfl
    have hout : ¬(s.step g i).stub.phase = .dpbFill := by rw [hnext]; exact fun hfill => by cases hfill
    exact ⟨fun hfill => absurd hfill hout,fun hfill => absurd hfill hout,
      fun hfill => absurd hfill hout,fun _ => ⟨hzero,hvalid⟩,herror,
      fun hfill => absurd hfill hout,fun hwaits => absurd hwaits.1 hout⟩
  | waits hidx hpulse _ _ _ =>
    have hready := h.ready ⟨hphase,hidx⟩
    rw [hready] at hpulse
    cases hpulse

/-- A reset comes before the macroblock that is written is committed. -/
def ResetDue (is : ℕ → StubIn) (n : ℕ) (s : DecodeStub) : Prop :=
  ∃ m, n ≤ m ∧ m+s.stub.fillSampleIdx≤n+384 ∧ (is m).reset=true

/-- An IDR picture is found while a sample is written, and no reset comes before the
macroblock is to be committed. -/
def LosesSample (is : ℕ → StubIn) (n : ℕ) (s : DecodeStub) : Prop :=
  s.stub.phase = .dpbFill ∧ s.stub.fillSampleIdx<384 ∧ (is n).idrFound=true ∧
    ¬ResetDue is n s

variable {mem : BitVec 18 → BitVec 8} {is : ℕ → StubIn}

theorem ResetDue.later {n : ℕ} {t : DecodeStub} (h : ResetDue is n s)
    (hreset : (is n).reset=false)
    (hidx : t.stub.fillSampleIdx=s.stub.fillSampleIdx+1) : ResetDue is (n+1) t := by
  obtain ⟨m,hle,hbefore,hm⟩ := h
  have hne : m≠n := fun hmn => by
    rw [hmn,hreset] at hm
    cases hm
  exact ⟨m,by omega,by omega,hm⟩

theorem not_due {n : ℕ} (hreset : (is n).reset=false) (hidx : s.stub.fillSampleIdx=384) :
    ¬ResetDue is n s := by
  rintro ⟨m,hle,hbefore,hm⟩
  have hmn : m=n := by omega
  rw [hmn,hreset] at hm
  cases hm

theorem filling_during (hg : g.Counted) {n : ℕ}
    (hkeep : ∀ m, m<n → ¬LosesSample is m (during g mem is m)) :
    (during g mem is n).Filling g (ResetDue is n (during g mem is n)) := by
  induction n with
  | zero => exact Filling.start g _ mem
  | succ n ih =>
    have ih := ih fun m hm => hkeep m (by omega)
    have hnext : during g mem is (n+1)=(during g mem is n).step g (is n) := rfl
    rw [hnext]
    cases hreset : (is n).reset with
    | true => exact Filling.reset hreset
    | false =>
      by_cases hphase : (during g mem is n).stub.phase = .dpbFill
      · refine ih.step_inside hg hreset hphase (fun hidx hdue => ?_) fun hidx hdue => ?_
        · have hdue' : ResetDue is n (during g mem is n) := by
            rcases hdue with hdue | hidr
            · exact hdue
            · exact Classical.not_not.mp fun hno =>
                hkeep n (Nat.lt_succ_self n) ⟨hphase,hidx,hidr,hno⟩
          exact hdue'.later hreset (step_sample hg hreset hphase (ih.place hphase).1 hidx).2.2
        · exact not_due hreset hidx hdue
      · exact ih.step_outside hg hreset hphase

/-- Number of macroblocks that are complete at the place of a fill. -/
def complete (s : DecodeStub) : ℕ :=
  if 385 ≤ s.stub.fillSampleIdx then s.stub.fillMbAddr+1 else s.stub.fillMbAddr

/-- What a clock of a fill shows as committed is the macroblock that becomes complete. -/
theorem Filling.shown_step {due : Prop} (hg : g.Counted) (h : s.Filling g due)
    (hreset : i.reset=false) (hphase : s.stub.phase = .dpbFill)
    (hcommit : s.stub.fillSampleIdx=384 → ¬due) (hnext : (s.step g i).stub.phase = .dpbFill) :
    List.range s.complete ++ (s.step g i).shown = List.range (s.step g i).complete := by
  obtain ⟨hcount,hlow,hend⟩ := h.place hphase
  obtain ⟨_,hseesMb,hseesBoundary⟩ := sees_fill hphase
  have hmove : FillMove g s.stub s.wb.refReadyPulse (s.step g i).stub :=
    step_moves hg hreset hphase hcount hlow
  rw [shown,complete,complete]
  cases hmove with
  | sample hidx _ hmb hidx' =>
    rw [(wb_passes hreset hphase (by omega) (by omega)).1,if_neg Bool.false_ne_true,
      if_neg (by omega),if_neg (by omega),List.append_nil,hmb]
  | last hidx _ _ hmb hidx' =>
    have hmb1 : s.stub.filteredMbValid=true := by rw [hseesMb]; simpa using hidx
    have hfull := (h.counted hphase (by omega)).resolve_right (hcommit hidx)
    obtain ⟨hvalid,haddr,_⟩ := wb_commit (g := g) hreset hmb1 (hfull.trans hidx)
    rw [hvalid,if_pos rfl,haddr,StubParams.Counted.fits hcount,if_neg (by omega),if_pos (by omega),hmb,
      List.range_succ]
  | macroblock hidx _ hmb _ hidx' =>
    have hmb1 : s.stub.filteredMbValid=true := by rw [hseesMb]; simpa using hidx
    have hfull := (h.counted hphase (by omega)).resolve_right (hcommit hidx)
    obtain ⟨hvalid,haddr,_⟩ := wb_commit (g := g) hreset hmb1 (hfull.trans hidx)
    rw [hvalid,if_pos rfl,haddr,StubParams.Counted.fits hcount,if_neg (by omega),if_neg (by omega),hmb,
      List.range_succ]
  | boundary hidx _ hmb hidx' =>
    have hmb0 : s.stub.filteredMbValid=false := by rw [hseesMb]; simp; omega
    have hboundary1 : s.stub.frameBoundary=true := by rw [hseesBoundary]; simpa using hidx
    rw [(wb_boundary hreset hmb0 hboundary1).1,if_neg Bool.false_ne_true,if_pos (by omega),
      if_pos (by omega),List.append_nil,hmb]
  | ends _ _ hout =>
    rw [hout] at hnext
    cases hnext
  | waits hidx hpulse _ _ _ =>
    have hready := h.ready ⟨hphase,hidx⟩
    rw [hready] at hpulse
    cases hpulse

/-- Where no sample is lost a fill has shown all macroblocks up to its place, each once. -/
theorem committed_during (hg : g.Counted) (hkeep : ∀ n, ¬LosesSample is n (during g mem is n))
    (n : ℕ) (hphase : (during g mem is n).stub.phase = .dpbFill) :
    committed (during g mem is) n=List.range (during g mem is n).complete := by
  induction n with
  | zero => cases hphase
  | succ n ih =>
    have hfilling := filling_during (n := n) hg fun m _ => hkeep m
    have hnext : during g mem is (n+1)=(during g mem is n).step g (is n) := rfl
    rw [committed,if_pos hphase,hnext]
    rw [hnext] at hphase
    cases hreset : (is n).reset with
    | true =>
      have hidle : ((during g mem is n).step g (is n)).stub.phase = .idle := by
        rw [step,StubRegs.step,hreset]
        rfl
      rw [hidle] at hphase
      cases hphase
    | false =>
      by_cases hbefore : (during g mem is n).stub.phase = .dpbFill
      · rw [ih hbefore]
        exact hfilling.shown_step hg hreset hbefore (not_due hreset) hphase
      · obtain ⟨_,hmb,hboundary⟩ := sees_nothing hbefore
        obtain ⟨hfirst,hidx⟩ := step_begins hbefore hphase
        have hnothing : committed (during g mem is) n=[] := by
          cases n with
          | zero => exact if_neg hbefore
          | succ n => exact if_neg hbefore
        have hmb0 : ((during g mem is n).step g (is n)).stub.fillMbAddr=0 := hfirst
        have hidx0 : ((during g mem is n).step g (is n)).stub.fillSampleIdx=0 := hidx
        rw [hnothing,shown,(wb_quiet hreset hmb hboundary).1,if_neg Bool.false_ne_true,complete,
          hmb0,hidx0,if_neg (by omega)]
        rfl

/-- A fill whose controller lacks a sample of the macroblock. -/
def Lacks (s : DecodeStub) : Prop :=
  s.stub.phase = .dpbFill ∧ s.stub.fillSampleIdx≤384 ∧ s.wb.sampleCount<s.stub.fillSampleIdx

/-- One sample of the fill goes by without completing the picture. -/
theorem Lacks.step (hg : g.Counted) (h : s.Lacks) (hreset : i.reset=false)
    (hmb : s.stub.fillMbAddr<g.mbCount) (hidx : s.stub.fillSampleIdx<384) :
    (s.step g i).Lacks ∧ (s.step g i).stub.fillMbAddr<g.mbCount ∧
      (s.step g i).stub.fillSampleIdx=s.stub.fillSampleIdx+1 := by
  obtain ⟨hphase,_,hfewer⟩ := h
  have hcount := (wb_passes (g := g) hreset hphase (by omega) (by omega)).2.2.2
  obtain ⟨hnext,hmb',hidx'⟩ := step_sample hg hreset hphase hmb hidx
  refine ⟨⟨hnext,by omega,?_⟩,by omega,hidx'⟩
  rw [hcount,hidx']
  split
  · omega
  · split <;> omega

theorem Filling.lacks {due : Prop} (hg : g.Counted) (h : s.Filling g due)
    (hreset : i.reset=false) (hphase : s.stub.phase = .dpbFill)
    (hidx : s.stub.fillSampleIdx<384) (hidr : i.idrFound=true) :
    (s.step g i).Lacks ∧ (s.step g i).stub.fillMbAddr<g.mbCount ∧
      (s.step g i).stub.fillSampleIdx=s.stub.fillSampleIdx+1 := by
  have hin := (h.place hphase).1
  have hcount := (wb_passes (g := g) hreset hphase (by omega) (by omega)).2.2.2
  rw [if_pos hidr] at hcount
  obtain ⟨hnext,hmb,hidx'⟩ := step_sample (i := i) hg hreset hphase hin hidx
  exact ⟨⟨hnext,by omega,by omega⟩,by omega,hidx'⟩

/-- A macroblock that lacks a sample raises the error. -/
theorem Lacks.error (hg : g.Counted) (h : s.Lacks) (hreset : i.reset=false)
    (hmb : s.stub.fillMbAddr<g.mbCount) (hidx : s.stub.fillSampleIdx=384) :
    (s.step g i).stub.phase = .dpbFill ∧ (s.step g i).wb.commitOrderError=true := by
  obtain ⟨hphase,hlow,hfewer⟩ := h
  have hmb1 : s.stub.filteredMbValid=true := by
    rw [(sees_fill hphase).2.1]
    simpa using hidx
  have hmove : FillMove g s.stub s.wb.refReadyPulse (s.step g i).stub :=
    step_moves hg hreset hphase hmb (by omega)
  refine ⟨?_,wb_lacks hreset hmb1 (by omega)⟩
  cases hmove with
  | sample hidx' => omega
  | last _ hnext => exact hnext
  | macroblock _ hnext => exact hnext
  | boundary hidx' => omega
  | ends hidx' => omega
  | waits hidx' => omega

theorem lacks_during (hg : g.Counted) {n : ℕ}
    (hfilling : (during g mem is n).Filling g (ResetDue is n (during g mem is n)))
    (hlost : LosesSample is n (during g mem is n)) (j : ℕ)
    (hj : (during g mem is n).stub.fillSampleIdx+j<384) :
    (during g mem is (n+1+j)).Lacks ∧
      (during g mem is (n+1+j)).stub.fillMbAddr<g.mbCount ∧
      (during g mem is (n+1+j)).stub.fillSampleIdx =
        (during g mem is n).stub.fillSampleIdx+1+j := by
  obtain ⟨hphase,hidx,hidr,hnever⟩ := hlost
  have hreset : ∀ m, n ≤ m → m+(during g mem is n).stub.fillSampleIdx≤n+384 →
      (is m).reset=false := fun m hle hbefore =>
    Bool.not_eq_true _ ▸ fun hm => hnever ⟨m,hle,hbefore,hm⟩
  induction j with
  | zero => exact hfilling.lacks hg (hreset n (le_refl n) (by omega)) hphase hidx hidr
  | succ j ih =>
    obtain ⟨hlacks,hmb,hplace⟩ := ih (by omega)
    obtain ⟨hlacks',hmb',hplace'⟩ :=
      hlacks.step hg (hreset (n+1+j) (by omega) (by omega)) hmb (by omega)
    exact ⟨hlacks',hmb',by exact hplace'.trans (by omega)⟩

theorem error_of_lost (hg : g.Counted) {n : ℕ} (hlost : LosesSample is n (during g mem is n)) :
    ∃ m, (during g mem is m).stub.phase = .dpbFill ∧
      (during g mem is m).wb.commitOrderError=true := by
  induction n using Nat.strong_induction_on with
  | _ n ih =>
    by_cases hearlier : ∃ m, m<n ∧ LosesSample is m (during g mem is m)
    · obtain ⟨m,hm,hlost'⟩ := hearlier
      exact ih m hm hlost'
    · have hfilling := filling_during (n := n) hg fun m hm hlost' => hearlier ⟨m,hm,hlost'⟩
      have hidx := hlost.2.1
      have hcommit := lacks_during hg hfilling hlost
        (383-(during g mem is n).stub.fillSampleIdx) (by omega)
      obtain ⟨hlacks,hmb,hplace⟩ := hcommit
      have hreset : (is (n+1+(383-(during g mem is n).stub.fillSampleIdx))).reset=false :=
        Bool.not_eq_true _ ▸ fun hm => hlost.2.2.2 ⟨_,by omega,by omega,hm⟩
      exact ⟨n+1+(383-(during g mem is n).stub.fillSampleIdx)+1,
        hlacks.error hg hreset hmb (hplace.trans (by omega))⟩

end DecodeStub

end Misterplex.Inter
