import Misterplex.Inter.DpbLayout

/-!
# Reference pictures in the memory of the decoder stub

Beside the stub runs a record of what its fills wrote: the samples of the current picture, by
plane, column and row, and those of the picture that became the reference last. A picture is
kept when the address that the buffer forms for a sample shows what the fill wrote there, no
clock changes a sample of the reference, and no two samples have the same cell. Pictures are
kept exactly in the sizes of which two fit the memory.
-/

namespace Misterplex.Inter

open StubParams

/-- The samples of a picture, as far as they have been written. -/
abbrev Samples := PlaneId → ℕ → ℕ → Option (BitVec 8)

/-- What the fills wrote. -/
structure Written where
  current : Samples
  /-- Into the reference picture, when there has been one. -/
  reference : Option Samples

namespace Written

/-- Nothing has been written. -/
def start : Written := ⟨fun _ _ _ => none,none⟩

/-- The current picture takes a sample. -/
def put (w : Written) (p : PlaneId) (x y : ℕ) (v : BitVec 8) : Written :=
  { w with
    current := fun q a b => if q = p ∧ a=x ∧ b = y then some v else w.current q a b }

/-- One clock of the record. -/
def step (g : StubParams) (w : Written) (s : DecodeStub) (i : StubIn) : Written :=
  if i.reset then start
  else if s.wb.refReadyPulse then ⟨fun _ _ _ => none,some w.current⟩
  else if s.stub.fillSamplePhase then
    w.put (filteredPlane s.stub.fillSampleIdx)
      (fillCoord g s.stub.fillMbAddr s.stub.fillSampleIdx).1
      (fillCoord g s.stub.fillMbAddr s.stub.fillSampleIdx).2
      (fillValue g s.stub.fillMbAddr s.stub.fillSampleIdx)
  else w

end Written

/-- The stub beside the record of what its fills wrote. -/
structure Watched where
  sys : DecodeStub
  written : Written

variable (g : StubParams)

/-- One clock of both. -/
def Watched.step (t : Watched) (i : StubIn) : Watched :=
  ⟨t.sys.step g i,t.written.step g t.sys i⟩

/-- Both after a run from a reset. -/
def Watched.after (mem : BitVec 18 → BitVec 8) (is : List StubIn) : Watched :=
  Trace.finalState (Watched.step g) ⟨.start g mem,.start⟩ is

/-- What the memory shows at the address of a sample of the reference picture. -/
def DecodeStub.refSample (s : DecodeStub) (mem : BitVec 18 → BitVec 8)
    (p : PlaneId) (x y : ℕ) : BitVec 8 :=
  dpbMemRdata g mem (i420Addr g.dpb s.dpb.referenceBase p x y)

/-- The reference picture shows what its fill wrote. -/
def Watched.Shows (t : Watched) : Prop :=
  ∀ pic, t.written.reference=some pic → ∀ p x y, x<g.planeW p → y<g.planeH p →
    pic p x y=some (t.sys.refSample g t.sys.mem p x y)

/-- A clock leaves the samples of the reference picture alone. -/
def Watched.Spares (t : Watched) (i : StubIn) : Prop :=
  ∀ p x y, x<g.planeW p → y<g.planeH p →
    t.sys.refSample g (t.step g i).sys.mem p x y=t.sys.refSample g t.sys.mem p x y

/-- The memory keeps the pictures of an instance. -/
structure KeepsPictures (g : StubParams) : Prop where
  /-- The reference picture shows what its fill wrote, in every run. -/
  shows : ∀ mem is, (Watched.after g mem is).Shows g
  /-- No clock of a run changes the reference picture. -/
  spares : ∀ mem is i, (Watched.after g mem is).Spares g i
  /-- Samples that are read have cells of their own. -/
  readCells : ∀ b c p q x y x' y', x<g.planeW p → y<g.planeH p → x'<g.planeW q →
    y'<g.planeH q → sampleCell g b p x y=sampleCell g c q x' y' →
    b=c ∧ p=q ∧ x=x' ∧ y=y'
  /-- Samples that are written have cells of their own. -/
  fillCells : ∀ b c mb mb' n n', mb<g.mbCount → mb'<g.mbCount → n<384 → n'<384 →
    fillCell g b mb n=fillCell g c mb' n' → b=c ∧ mb=mb' ∧ n=n'

open DpbRegs

/-- The banks change places with the picture that becomes the reference, and with nothing
else. -/
theorem DpbRegs.step_banks (g : DpbParams) (s : DpbRegs) (i : DpbIn) :
    (s.step g i).currentBase =
        (if i.reset then g.bank0Base
        else if i.frameDone then
          if s.currentBase = g.bank0Base then g.bank1Base else g.bank0Base
        else s.currentBase) ∧
      (s.step g i).referenceBase =
        (if i.reset then g.bank1Base else if i.frameDone then s.currentBase
        else s.referenceBase) := by
  have hshown : (s.shown g i).currentBase =
        (if i.frameDone then
          if s.currentBase = g.bank0Base then g.bank1Base else g.bank0Base
        else s.currentBase) ∧
      (s.shown g i).referenceBase=(if i.frameDone then s.currentBase else s.referenceBase) := by
    have hpictures : ∀ t : DpbRegs, (answer s t i).currentBase=t.currentBase ∧
        (answer s t i).referenceBase=t.referenceBase := by
      intro t
      unfold answer
      split
      · split <;> exact ⟨rfl,rfl⟩
      · exact ⟨rfl,rfl⟩
    unfold shown
    rw [(hpictures _).1,(hpictures _).2]
    unfold pictures
    cases i.frameDone with
    | true => exact ⟨rfl,rfl⟩
    | false =>
      cases i.idrStart with
      | true => exact ⟨rfl,rfl⟩
      | false => exact ⟨rfl,rfl⟩
  cases hreset : i.reset with
  | true =>
    unfold DpbRegs.step
    rw [hreset]
    exact ⟨rfl,rfl⟩
  | false =>
    rw [← hshown.1,← hshown.2]
    unfold DpbRegs.step
    rw [hreset]
    simp only [Bool.false_eq_true,if_false]
    split
    · unfold idleOwn begin
      split
      · split <;> exact ⟨rfl,rfl⟩
      · exact ⟨rfl,rfl⟩
    · unfold drainOwn
      split <;> exact ⟨rfl,rfl⟩
    · unfold issue
      split
      · split <;> exact ⟨rfl,rfl⟩
      · exact ⟨rfl,rfl⟩

open StubRegs

theorem StubRegs.shown_fill (s : StubRegs) (i : StubIn) (v : StubView) :
    (s.shown i v).phase=s.phase ∧ (s.shown i v).fillMbAddr=s.fillMbAddr ∧
      (s.shown i v).fillSampleIdx=s.fillSampleIdx := by
  unfold shown noteCandidate
  split <;> exact ⟨rfl,rfl,rfl⟩

theorem StubRegs.step_of_fill {g : StubParams} {s : StubRegs} {i : StubIn} {v : StubView}
    (hreset : i.reset=false) (hphase : s.phase = .dpbFill) :
    s.step g i v=StubRegs.fillOwn g s (s.shown i v) v := by
  unfold StubRegs.step
  rw [hreset,hphase]
  rfl

/-- A fill begins at the first sample of the first macroblock. -/
theorem StubRegs.step_begins {g : StubParams} {s : StubRegs} {i : StubIn} {v : StubView}
    (hphase : s.phase ≠ .dpbFill) (hnext : (s.step g i v).phase = .dpbFill) :
    (s.step g i v).fillMbAddr=0 ∧ (s.step g i v).fillSampleIdx=0 := by
  obtain ⟨hshown,-,-⟩ := s.shown_fill i v
  unfold StubRegs.step at hnext ⊢
  cases hreset : i.reset with
  | true =>
    exact ⟨rfl,rfl⟩
  | false =>
    rw [hreset] at hnext
    simp only [Bool.false_eq_true,if_false] at hnext ⊢
    cases hp : s.phase with
    | idle =>
      rw [hp] at hnext hshown
      simp only [idleOwn] at hnext
      split at hnext
      · cases hnext
      · split at hnext
        · cases hnext
        · rw [hshown] at hnext
          cases hnext
    | wait =>
      rw [hp] at hnext hshown
      simp only [waitOwn] at hnext ⊢
      split at hnext
      · rename_i hdone
        rw [if_pos hdone]
        split at hnext
        · cases hnext
        · rename_i hasks
          rw [if_neg hasks]
          cases hidr : s.latIdr with
          | true => exact ⟨rfl,rfl⟩
          | false =>
            rw [hidr] at hnext
            cases hnext
      · rw [hshown] at hnext
        cases hnext
    | paint =>
      rw [hp] at hnext hshown
      simp only [paintOwn] at hnext
      split at hnext
      · cases hnext
      · rw [hshown] at hnext
        cases hnext
    | fetch =>
      rw [hp] at hnext hshown
      simp only [fetchOwn] at hnext
      split at hnext
      · cases hnext
      · rw [hshown] at hnext
        cases hnext
    | dpbFill => exact absurd hp hphase

/-- What a clock of a fill does, by the sample it is at and whether the picture becomes the
reference. -/
inductive FillMove (g : StubParams) (s : StubRegs) (pulse : Bool) (t : StubRegs) : Prop
  | sample (hidx : s.fillSampleIdx<384) (hphase : t.phase = .dpbFill)
      (hmb : t.fillMbAddr=s.fillMbAddr) (hnext : t.fillSampleIdx=s.fillSampleIdx+1)
  | last (hidx : s.fillSampleIdx=384) (hphase : t.phase = .dpbFill)
      (hend : s.fillMbAddr+1=g.mbCount) (hmb : t.fillMbAddr=s.fillMbAddr)
      (hnext : t.fillSampleIdx=385)
  /-- A macroblock is committed, and the next one begins. -/
  | macroblock (hidx : s.fillSampleIdx=384) (hphase : t.phase = .dpbFill)
      (hmb : t.fillMbAddr=s.fillMbAddr+1) (hin : t.fillMbAddr<g.mbCount)
      (hnext : t.fillSampleIdx=0)
  | boundary (hidx : s.fillSampleIdx=385) (hphase : t.phase = .dpbFill)
      (hmb : t.fillMbAddr=s.fillMbAddr) (hnext : t.fillSampleIdx=386)
  /-- The picture becomes the reference. -/
  | ends (hidx : s.fillSampleIdx=386) (hpulse : pulse=true) (hphase : t.phase = .paint)
  /-- The stub waits for the picture to become the reference. -/
  | waits (hidx : s.fillSampleIdx=386) (hpulse : pulse=false) (hphase : t.phase = .dpbFill)
      (hmb : t.fillMbAddr=s.fillMbAddr) (hnext : t.fillSampleIdx=386)

theorem StubRegs.fill_move {g : StubParams} {s : StubRegs} {i : StubIn} {v : StubView}
    (hlast : g.lastMbAddr+1=g.mbCount) (hfit : g.mbCount≤2^16) (hreset : i.reset=false)
    (hphase : s.phase = .dpbFill) (hcount : s.fillMbAddr<g.mbCount)
    (hlow : s.fillSampleIdx≤386) : FillMove g s v.refReadyPulse (s.step g i v) := by
  obtain ⟨hp,hmb,hidx⟩ := s.shown_fill i v
  rw [hphase] at hp
  rw [step_of_fill hreset hphase,fillOwn]
  by_cases hsample : s.fillSampleIdx<384
  · rw [if_pos hsample]
    exact .sample hsample hp hmb rfl
  rw [if_neg hsample]
  by_cases hcommit : s.fillSampleIdx=384
  · rw [if_pos hcommit]
    by_cases hend : s.fillMbAddr=g.lastMbAddr
    · rw [if_pos hend]
      exact .last hcommit hp (by omega) hmb rfl
    · rw [if_neg hend]
      have hword : (s.fillMbAddr+1)%2^16=s.fillMbAddr+1 := Nat.mod_eq_of_lt (by omega)
      have hin : (s.fillMbAddr+1)%2^16<g.mbCount := by omega
      exact .macroblock hcommit hp hword hin rfl
  rw [if_neg hcommit]
  by_cases hboundary : s.fillSampleIdx=385
  · rw [if_pos hboundary]
    exact .boundary hboundary hp hmb rfl
  rw [if_neg hboundary]
  have hwaits : s.fillSampleIdx=386 := by omega
  by_cases hpulse : v.refReadyPulse=true
  · rw [if_pos hpulse]
    exact .ends hwaits hpulse rfl
  · rw [if_neg hpulse]
    exact .waits hwaits (Bool.not_eq_true _ ▸ hpulse) hp hmb (hidx.trans hwaits)

/-- Reading a sample of a bank after a clock shows what a fill writes there, or what was there. -/
theorem read_after_write {g : StubParams} (h : g.Sized) (k : g.Roomy)
    (mem : BitVec 18 → BitVec 8) (we : Bool) (b c : Bool) (wdata : BitVec 8) {p : PlaneId}
    {x y mb n : ℕ} (hx : x<g.planeW p) (hy : y<g.planeH p) (hmb : mb<g.mbCount)
    (hn : n<384) :
    dpbMemRdata g (dpbMemWrite g mem we (fillAddr g (g.bankBase c) mb n) wdata)
        (i420Addr g.dpb (g.bankBase b) p x y) =
      if we = true ∧ b=c ∧ p=filteredPlane n ∧ x=(fillCoord g mb n).1 ∧
          y = (fillCoord g mb n).2 then wdata
      else dpbMemRdata g mem (i420Addr g.dpb (g.bankBase b) p x y) := by
  obtain ⟨hx',hy'⟩ := fillCoord_lt h hmb hn
  have hinside := sampleAddr_inside h k b hx hy
  have hinside' := sampleAddr_inside h k c hx' hy'
  unfold dpbMemRdata dpbMemWrite
  rw [if_pos hinside,if_pos hinside,fillAddr_eq h k _ hmb]
  cases we with
  | false =>
    rw [if_neg (by simp),if_neg (by simp)]
  | true =>
    rw [if_pos (by simpa using hinside')]
    by_cases hsame : b=c ∧ p=filteredPlane n ∧ x=(fillCoord g mb n).1 ∧
        y=(fillCoord g mb n).2
    · rw [if_pos ⟨rfl,hsame⟩]
      obtain ⟨rfl,rfl,rfl,rfl⟩ := hsame
      exact Function.update_self _ _ _
    · rw [if_neg (fun hall => hsame hall.2)]
      refine Function.update_of_ne ?_ _ _
      intro hcell
      exact hsame (sampleCell_inj h k hx hy hx' hy' hcell)

/-- How far a run has come: where the banks are, that a fill goes through the macroblocks in
order and ends before the pictures change, and that memory and record agree. -/
structure Watched.Sound (g : StubParams) (t : Watched) : Prop where
  banks : ∃ b, t.sys.dpb.currentBase=g.bankBase b ∧ t.sys.dpb.referenceBase=g.bankBase !b
  /-- A fill is at one of the macroblocks, and at the last one once all are written. -/
  place : t.sys.stub.phase = .dpbFill → t.sys.stub.fillMbAddr<g.mbCount ∧
    t.sys.stub.fillSampleIdx≤386 ∧
    (385≤t.sys.stub.fillSampleIdx → t.sys.stub.fillMbAddr+1=g.mbCount)
  /-- A complete picture waits only at the frame boundary. -/
  pending : t.sys.wb.refPending=true →
    t.sys.stub.phase = .dpbFill ∧ t.sys.stub.fillSampleIdx=385
  /-- The pictures change only behind it. -/
  pulse : t.sys.wb.refReadyPulse=true →
    t.sys.stub.phase = .dpbFill ∧ t.sys.stub.fillSampleIdx=386
  /-- A fill has written all samples before the one it is at. -/
  soFar : t.sys.stub.phase = .dpbFill → ∀ mb n, n<384 →
    (mb<t.sys.stub.fillMbAddr ∨ mb=t.sys.stub.fillMbAddr ∧ n<t.sys.stub.fillSampleIdx) →
    (t.written.current (filteredPlane n) (fillCoord g mb n).1 (fillCoord g mb n).2).isSome
  held : ∀ p x y v, x<g.planeW p → y<g.planeH p → t.written.current p x y=some v →
    dpbMemRdata g t.sys.mem (i420Addr g.dpb t.sys.dpb.currentBase p x y)=v
  /-- So does the reference bank. -/
  shows : t.Shows g

theorem StubParams.lastMbAddr_eq {g : StubParams} (h : g.Sized) (k : g.Roomy) :
    g.lastMbAddr+1=g.mbCount := by
  have hpos := h.mbCount_pos
  have hcount := k.mbCount_le h
  unfold lastMbAddr
  omega

/-- Before the first picture both banks are sound. -/
theorem Watched.Sound.start (mem : BitVec 18 → BitVec 8) :
    Watched.Sound g ⟨.start g mem,.start⟩ where
  banks := ⟨false,rfl,rfl⟩
  place := fun hphase => by cases hphase
  pending := fun hpending => by cases hpending
  pulse := fun hpulse => by cases hpulse
  soFar := fun hphase => by cases hphase
  held := fun _ _ _ _ _ _ hv => by cases hv
  shows := fun _ hpic => by cases hpic

/-- Reset brings back the start, the memory apart. -/
theorem Watched.step_reset {g : StubParams} {t : Watched} {i : StubIn} (hreset : i.reset=true) :
    t.step g i=⟨.start g (t.step g i).sys.mem,.start⟩ := by
  unfold Watched.step DecodeStub.step DecodeStub.start Written.step StubRegs.step DpbRegs.step
    DecodeStub.dpbIn
  rw [hreset]
  rfl

namespace Watched.Sound

variable {g : StubParams} {t : Watched} {i : StubIn}

theorem other_bank (h : g.Sized) (k : g.Roomy) (b : Bool) :
    (if g.bankBase b = g.dpb.bank0Base then g.dpb.bank1Base else g.dpb.bank0Base) =
      g.bankBase !b := by
  cases b with
  | false => exact if_pos rfl
  | true =>
    refine if_neg ?_
    intro hsame
    have hnat := congrArg BitVec.toNat hsame
    rw [bankBase_toNat h k true] at hnat
    have hbytes := h.frameBytes_eq
    have hpos := h.mbCount_pos
    have hzero : g.dpb.bank0Base.toNat=0 := rfl
    rw [hzero,if_pos rfl] at hnat
    omega

/-- A committed picture exchanges the banks. -/
theorem step_banks (t : Watched) (hreset : i.reset=false) :
    (t.step g i).sys.dpb.currentBase =
        (if t.sys.wb.refReadyPulse then
          if t.sys.dpb.currentBase = g.dpb.bank0Base then g.dpb.bank1Base else g.dpb.bank0Base
        else t.sys.dpb.currentBase) ∧
      (t.step g i).sys.dpb.referenceBase =
        (if t.sys.wb.refReadyPulse then t.sys.dpb.currentBase else t.sys.dpb.referenceBase) := by
  obtain ⟨hcur,href⟩ := DpbRegs.step_banks g.dpb t.sys.dpb (t.sys.dpbIn g i)
  have hquiet : (t.sys.dpbIn g i).reset=false := hreset
  rw [hquiet] at hcur href
  exact ⟨hcur,href⟩

theorem banks_step (hs : t.Sound g) (h : g.Sized) (k : g.Roomy) (hreset : i.reset=false) :
    ∃ b, (t.step g i).sys.dpb.currentBase=g.bankBase b ∧
      (t.step g i).sys.dpb.referenceBase=g.bankBase !b := by
  obtain ⟨b,hcur,href⟩ := hs.banks
  obtain ⟨hcur',href'⟩ := step_banks (g := g) t hreset
  rw [hcur',href',hcur,href,other_bank h k]
  cases t.sys.wb.refReadyPulse with
  | false => exact ⟨b,rfl,rfl⟩
  | true =>
    refine ⟨!b,rfl,?_⟩
    rw [Bool.not_not]
    rfl

/-- What the stub does during a fill, from a sound state. -/
theorem move (hs : t.Sound g) (h : g.Sized) (k : g.Roomy) (hreset : i.reset=false)
    (hphase : t.sys.stub.phase = .dpbFill) :
    FillMove g t.sys.stub t.sys.wb.refReadyPulse (t.step g i).sys.stub := by
  obtain ⟨hcount,hlow,-⟩ := hs.place hphase
  have hbytes := k.mbCount_le h
  exact fill_move (v := t.sys.view) (StubParams.lastMbAddr_eq h k) (by omega) hreset hphase
    hcount hlow

theorem place_step (hs : t.Sound g) (h : g.Sized) (k : g.Roomy) (hreset : i.reset=false)
    (hnext : (t.step g i).sys.stub.phase = .dpbFill) :
    (t.step g i).sys.stub.fillMbAddr<g.mbCount ∧ (t.step g i).sys.stub.fillSampleIdx≤386 ∧
      (385≤(t.step g i).sys.stub.fillSampleIdx →
        (t.step g i).sys.stub.fillMbAddr+1=g.mbCount) := by
  have hpos := h.mbCount_pos
  by_cases hphase : t.sys.stub.phase = .dpbFill
  · obtain ⟨hcount,hlow,hlast⟩ := hs.place hphase
    cases hs.move h k hreset hphase with
    | ends _ _ hpaint =>
      rw [hpaint] at hnext
      cases hnext
    | _ => omega
  · obtain ⟨hmb,hidx⟩ := step_begins hphase hnext
    have hmb' : (t.step g i).sys.stub.fillMbAddr=0 := hmb
    have hidx' : (t.step g i).sys.stub.fillSampleIdx=0 := hidx
    omega

/-- The writeback takes its own step. -/
theorem step_wb (hreset : i.reset=false) :
    (t.step g i).sys.wb=t.sys.wb.step (t.sys.writebackIn g i) := by
  have hquiet : ¬ i.reset=true := by
    rw [hreset]
    exact Bool.false_ne_true
  exact if_neg hquiet

theorem pending_step (hs : t.Sound g) (h : g.Sized) (k : g.Roomy) (hreset : i.reset=false)
    (hnext : (t.step g i).sys.wb.refPending=true) :
    (t.step g i).sys.stub.phase = .dpbFill ∧ (t.step g i).sys.stub.fillSampleIdx=385 := by
  rw [step_wb hreset] at hnext
  simp only [Writeback.step] at hnext
  split at hnext
  · cases hnext
  rename_i hclosed
  have hold : t.sys.wb.refPending=false := by
    cases hpend : t.sys.wb.refPending with
    | false => rfl
    | true =>
      obtain ⟨hphase,hidx⟩ := hs.pending hpend
      refine absurd ?_ hclosed
      simp [DecodeStub.writebackIn,frameBoundary,hphase,hidx,hpend]
  split at hnext
  · rename_i hdone
    simp only [DecodeStub.writebackIn,filteredFrameDone,filteredMbValid,
      Bool.and_eq_true,beq_iff_eq] at hdone
    obtain ⟨⟨-,⟨hphase,hidx⟩,hend⟩,-⟩ := hdone
    have hlast := StubParams.lastMbAddr_eq h k
    cases hs.move h k hreset hphase with
    | last _ hp _ _ hidx' => exact ⟨hp,hidx'⟩
    | _ => omega
  · split at hnext
    · cases hnext
    · rw [hold] at hnext
      cases hnext

theorem pulse_step (hs : t.Sound g) (h : g.Sized) (k : g.Roomy) (hreset : i.reset=false)
    (hnext : (t.step g i).sys.wb.refReadyPulse=true) :
    (t.step g i).sys.stub.phase = .dpbFill ∧ (t.step g i).sys.stub.fillSampleIdx=386 := by
  rw [step_wb hreset] at hnext
  simp only [Writeback.step,Bool.and_eq_true] at hnext
  obtain ⟨hphase,hidx⟩ := hs.pending hnext.2
  cases hs.move h k hreset hphase with
  | boundary _ hp _ hidx' => exact ⟨hp,hidx'⟩
  | _ => omega

theorem fillSamplePhase_iff (s : StubRegs) :
    s.fillSamplePhase=true ↔ s.phase = .dpbFill ∧ s.fillSampleIdx<384 := by
  simp [fillSamplePhase]

theorem mem_step_quiet (hquiet : t.sys.stub.fillSamplePhase=false) :
    (t.step g i).sys.mem=t.sys.mem := by
  have hmem : (t.step g i).sys.mem=dpbMemWrite g t.sys.mem t.sys.stub.fillSamplePhase
      (fillAddr g t.sys.dpb.currentBase t.sys.stub.fillMbAddr t.sys.stub.fillSampleIdx)
      (fillValue g t.sys.stub.fillMbAddr t.sys.stub.fillSampleIdx) := rfl
  rw [hmem,hquiet]
  exact if_neg Bool.false_ne_true

theorem quiet_of_pulse (hs : t.Sound g) (hpulse : t.sys.wb.refReadyPulse=true) :
    t.sys.stub.fillSamplePhase=false := by
  obtain ⟨-,hidx⟩ := hs.pulse hpulse
  rw [← Bool.not_eq_true,fillSamplePhase_iff]
  omega

/-- A read after a clock shows the sample that the fill wrote, or the one before. -/
theorem read_step (hs : t.Sound g) (h : g.Sized) (k : g.Roomy) {b c : Bool}
    (hcur : t.sys.dpb.currentBase=g.bankBase c) {p : PlaneId} {x y : ℕ}
    (hx : x<g.planeW p) (hy : y<g.planeH p) :
    dpbMemRdata g (t.step g i).sys.mem (i420Addr g.dpb (g.bankBase b) p x y) =
      if t.sys.stub.fillSamplePhase = true ∧ b=c ∧ p=filteredPlane t.sys.stub.fillSampleIdx ∧
          x=(fillCoord g t.sys.stub.fillMbAddr t.sys.stub.fillSampleIdx).1 ∧
          y = (fillCoord g t.sys.stub.fillMbAddr t.sys.stub.fillSampleIdx).2 then
        fillValue g t.sys.stub.fillMbAddr t.sys.stub.fillSampleIdx
      else dpbMemRdata g t.sys.mem (i420Addr g.dpb (g.bankBase b) p x y) := by
  cases hwe : t.sys.stub.fillSamplePhase with
  | false =>
    rw [mem_step_quiet hwe,if_neg]
    exact fun hall => Bool.false_ne_true hall.1
  | true =>
    obtain ⟨hphase,hn⟩ := (fillSamplePhase_iff _).mp hwe
    obtain ⟨hmb,-,-⟩ := hs.place hphase
    have hmem : (t.step g i).sys.mem=dpbMemWrite g t.sys.mem t.sys.stub.fillSamplePhase
        (fillAddr g t.sys.dpb.currentBase t.sys.stub.fillMbAddr t.sys.stub.fillSampleIdx)
        (fillValue g t.sys.stub.fillMbAddr t.sys.stub.fillSampleIdx) := rfl
    rw [hmem,hwe,hcur]
    exact read_after_write h k _ _ _ _ _ hx hy hmb hn

theorem spares (hs : t.Sound g) (h : g.Sized) (k : g.Roomy) (i : StubIn) : t.Spares g i := by
  intro p x y hx hy
  obtain ⟨b,hcur,href⟩ := hs.banks
  unfold DecodeStub.refSample
  rw [href,hs.read_step h k hcur hx hy,if_neg]
  intro hall
  exact absurd hall.2.1 (by cases b <;> decide)

/-- What has been written after one clock. -/
theorem written_step (hreset : i.reset=false) :
    (t.step g i).written =
      if t.sys.wb.refReadyPulse then ⟨fun _ _ _ => none,some t.written.current⟩
      else if t.sys.stub.fillSamplePhase then
        t.written.put (filteredPlane t.sys.stub.fillSampleIdx)
          (fillCoord g t.sys.stub.fillMbAddr t.sys.stub.fillSampleIdx).1
          (fillCoord g t.sys.stub.fillMbAddr t.sys.stub.fillSampleIdx).2
          (fillValue g t.sys.stub.fillMbAddr t.sys.stub.fillSampleIdx)
      else t.written := by
  have hquiet : ¬ i.reset=true := by
    rw [hreset]
    exact Bool.false_ne_true
  exact if_neg hquiet

theorem held_step (hs : t.Sound g) (h : g.Sized) (k : g.Roomy) (hreset : i.reset=false)
    {p : PlaneId} {x y : ℕ} {v : BitVec 8} (hx : x<g.planeW p) (hy : y<g.planeH p)
    (hv : (t.step g i).written.current p x y=some v) :
    dpbMemRdata g (t.step g i).sys.mem
      (i420Addr g.dpb (t.step g i).sys.dpb.currentBase p x y)=v := by
  obtain ⟨b,hcur,-⟩ := hs.banks
  obtain ⟨hcur',-⟩ := step_banks (g := g) t hreset
  rw [written_step hreset] at hv
  cases hpulse : t.sys.wb.refReadyPulse with
  | true =>
    rw [hpulse] at hv
    cases hv
  | false =>
    rw [hpulse] at hv hcur'
    simp only [Bool.false_eq_true,if_false] at hv hcur'
    rw [hcur',hcur,hs.read_step h k hcur hx hy]
    cases hwe : t.sys.stub.fillSamplePhase with
    | false =>
      rw [hwe] at hv
      rw [if_neg (fun hall => Bool.false_ne_true hall.1),← hcur]
      exact hs.held p x y v hx hy hv
    | true =>
      rw [hwe] at hv
      simp only [if_true,Written.put] at hv
      split at hv
      · rename_i hsame
        rw [if_pos ⟨rfl,rfl,hsame⟩]
        exact Option.some.inj hv
      · rename_i hother
        rw [if_neg (fun hall => hother hall.2.2),← hcur]
        exact hs.held p x y v hx hy hv

theorem complete (hs : t.Sound g) (h : g.Sized) (hpulse : t.sys.wb.refReadyPulse=true)
    {p : PlaneId} {x y : ℕ} (hx : x<g.planeW p) (hy : y<g.planeH p) :
    (t.written.current p x y).isSome := by
  obtain ⟨hphase,hidx⟩ := hs.pulse hpulse
  obtain ⟨-,-,hlast⟩ := hs.place hphase
  obtain ⟨mb,n,hmb,hn,hp,hc⟩ := exists_fillCoord h hx hy
  have hsome := hs.soFar hphase mb n hn (by omega)
  rw [hp,hc] at hsome
  exact hsome

theorem shows_step (hs : t.Sound g) (h : g.Sized) (k : g.Roomy) (hreset : i.reset=false) :
    (t.step g i).Shows g := by
  intro pic hpic p x y hx hy
  obtain ⟨-,href'⟩ := step_banks (g := g) t hreset
  rw [written_step hreset] at hpic
  unfold DecodeStub.refSample
  cases hpulse : t.sys.wb.refReadyPulse with
  | true =>
    rw [hpulse] at hpic href'
    have hsame : t.written.current=pic := Option.some.inj hpic
    obtain ⟨v,hv⟩ := Option.isSome_iff_exists.mp (hs.complete h hpulse hx hy)
    have hread := hs.held p x y v hx hy hv
    rw [← hsame,hv,href',mem_step_quiet (hs.quiet_of_pulse hpulse)]
    exact congrArg some hread.symm
  | false =>
    rw [hpulse] at hpic href'
    have hold : t.written.reference=some pic := by
      rw [← hpic]
      cases t.sys.stub.fillSamplePhase <;> rfl
    have hspared := hs.spares h k i p x y hx hy
    rw [href']
    refine (hs.shows pic hold p x y hx hy).trans (congrArg some ?_)
    exact hspared.symm

theorem soFar_step (hs : t.Sound g) (h : g.Sized) (k : g.Roomy) (hreset : i.reset=false)
    (hnext : (t.step g i).sys.stub.phase = .dpbFill) {mb n : ℕ} (hn : n<384)
    (hbefore : mb<(t.step g i).sys.stub.fillMbAddr ∨
      mb=(t.step g i).sys.stub.fillMbAddr ∧ n<(t.step g i).sys.stub.fillSampleIdx) :
    ((t.step g i).written.current (filteredPlane n) (fillCoord g mb n).1
      (fillCoord g mb n).2).isSome := by
  by_cases hphase : t.sys.stub.phase = .dpbFill
  · have hpulse : t.sys.wb.refReadyPulse=false := by
      cases hp : t.sys.wb.refReadyPulse with
      | false => rfl
      | true =>
        obtain ⟨-,hidx⟩ := hs.pulse hp
        cases hs.move h k hreset hphase with
        | ends _ _ hpaint =>
          rw [hpaint] at hnext
          cases hnext
        | waits _ hno =>
          rw [hp] at hno
          cases hno
        | _ => omega
    have hwas : mb<t.sys.stub.fillMbAddr ∨
        mb=t.sys.stub.fillMbAddr ∧ n<t.sys.stub.fillSampleIdx ∨
        mb=t.sys.stub.fillMbAddr ∧ n=t.sys.stub.fillSampleIdx := by
      cases hs.move h k hreset hphase with
      | ends _ _ hpaint =>
        rw [hpaint] at hnext
        cases hnext
      | _ => omega
    rw [written_step hreset,hpulse]
    simp only [Bool.false_eq_true,if_false]
    obtain hold | hold | ⟨rfl,rfl⟩ := hwas
    · have hsome := hs.soFar hphase mb n hn (Or.inl hold)
      split
      · unfold Written.put
        simp only
        split
        · rfl
        · exact hsome
      · exact hsome
    · have hsome := hs.soFar hphase mb n hn (Or.inr hold)
      split
      · unfold Written.put
        simp only
        split
        · rfl
        · exact hsome
      · exact hsome
    · rw [if_pos ((fillSamplePhase_iff _).mpr ⟨hphase,hn⟩)]
      unfold Written.put
      simp only [and_self,if_true]
      rfl
  · obtain ⟨hmb,hidx⟩ := step_begins hphase hnext
    have hmb' : (t.step g i).sys.stub.fillMbAddr=0 := hmb
    have hidx' : (t.step g i).sys.stub.fillSampleIdx=0 := hidx
    omega

/-- A clock keeps both banks sound. -/
theorem step (hs : t.Sound g) (h : g.Sized) (k : g.Roomy) (i : StubIn) : (t.step g i).Sound g := by
  cases hreset : i.reset with
  | true =>
    rw [step_reset hreset]
    exact Sound.start g _
  | false =>
    constructor
    case banks => exact hs.banks_step h k hreset
    case place => exact hs.place_step h k hreset
    case pending => exact hs.pending_step h k hreset
    case pulse => exact hs.pulse_step h k hreset
    case soFar => exact fun hnext mb n hn hbefore => hs.soFar_step h k hreset hnext hn hbefore
    case held => exact fun p x y v hx hy hv => hs.held_step h k hreset hx hy hv
    case shows => exact hs.shows_step h k hreset

/-- Both banks are sound after any clocks. -/
theorem after (h : g.Sized) (k : g.Roomy) (mem : BitVec 18 → BitVec 8) (is : List StubIn) :
    (Watched.after g mem is).Sound g := by
  unfold Watched.after
  induction is using List.reverseRecOn with
  | nil => exact Sound.start g mem
  | append_singleton is i ih =>
    rw [Trace.finalState_append]
    exact ih.step h k i

end Watched.Sound

/-- The memory keeps the pictures of an instance exactly when two of them fit and the words for
macroblock columns and rows are wide enough. -/
theorem keepsPictures_iff (g : StubParams) (h : g.Sized) : KeepsPictures g ↔ g.Roomy := by
  constructor
  · intro hkeeps
    exact roomy_of_fillCell_inj h hkeeps.fillCells
  · intro k
    constructor
    case shows => exact fun mem is => (Watched.Sound.after h k mem is).shows
    case spares => exact fun mem is i => (Watched.Sound.after h k mem is).spares h k i
    case readCells =>
      intro b c p q x y x' y' hx hy hx' hy' heq
      exact sampleCell_inj h k hx hy hx' hy' heq
    case fillCells =>
      intro b c mb mb' n n' hmb hmb' hn hn' heq
      exact fillCell_inj h k hmb hmb' hn hn' heq

/-- The default size of the stream path. -/
def quarter : StubParams := ⟨320,240⟩

/-- Two pictures of the default size fit. -/
theorem keepsPictures_quarter : KeepsPictures quarter :=
  (keepsPictures_iff quarter ⟨by decide,by decide,by decide,by decide⟩).mpr
    ⟨by decide,by decide,by decide⟩

/-- The size of the product. -/
def product : StubParams := ⟨640,480⟩

/-- Pictures of the product's size are not kept: the first luma sample and the one in column
384 of row 409 have one cell. -/
theorem not_keepsPictures_product : ¬ KeepsPictures product := by
  intro hkeeps
  have hshared : sampleCell product false .y 0 0=sampleCell product false .y 384 409 := by decide
  obtain ⟨-,-,hcolumn,-⟩ := hkeeps.readCells false false .y .y 0 0 384 409 (by decide)
    (by decide) (by decide) (by decide) hshared
  omega

end Misterplex.Inter
