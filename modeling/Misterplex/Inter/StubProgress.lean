import Misterplex.Inter.DpbFetch
import Misterplex.Inter.FillCommit

/-!
# The stub goes on

In every phase but the one without work the stub counts something down: the clocks it
still waits, the requests of a fetch, the samples of a fill, the pixels that are not
painted. So it comes to another phase, provided that a fill gets the pulse it waits for.
-/

namespace Misterplex.Inter

open Endless

namespace DpbRegs

/-- Clocks up to the end of a fetch that begins or is under way. -/
def clocksLeft (d : DpbRegs) : ℕ :=
  match d.phase with
  | .idle => 605
  | .luma => 604-d.issueIdx
  | .u => 163-d.issueIdx
  | .v => 82-d.issueIdx
  | .drain => 1

theorem clocksLeft_beat {d : DpbRegs} {k : ℕ} (hphase : d.phase=beatPhase k) (hk : k≤603)
    (hidx : k<603 → d.issueIdx=beatIdx k) : d.clocksLeft=604-k := by
  rw [clocksLeft,hphase,beatPhase]
  by_cases hluma : k<441
  · have hplace := hidx (by omega)
    rw [beatIdx,if_pos hluma] at hplace
    rw [if_pos hluma,hplace]
  · by_cases hu : k<522
    · have hplace := hidx (by omega)
      rw [beatIdx,if_neg hluma,if_pos hu] at hplace
      rw [if_neg hluma,if_pos hu,hplace]
      exact (by omega : 163-(k-441)=604-k)
    · by_cases hv : k<603
      · have hplace := hidx hv
        rw [beatIdx,if_neg hluma,if_neg hu] at hplace
        rw [if_neg hluma,if_neg hu,if_pos hv,hplace]
        exact (by omega : 82-(k-522)=604-k)
      · rw [if_neg hluma,if_neg hu,if_neg hv]
        exact (by omega : 1=604-k)

end DpbRegs

namespace DecodeStub

variable {g : StubParams} {s : DecodeStub} {i : StubIn}

/-- A fetch has made its first `k` requests. -/
structure Asked (k : ℕ) (s : DecodeStub) : Prop where
  few : k≤603
  phase : s.dpb.phase=beatPhase k
  idx : k<603 → s.dpb.issueIdx=beatIdx k
  /-- The last request is under way. -/
  asked : 0<k → s.dpb.memRd=true ∧ s.dpb.pendingValid=true
  answered : 1<k → s.stub.memRvalid=true

open StubRegs

theorem step_memRvalid (hreset : i.reset=false) :
    (s.step g i).stub.memRvalid=s.dpb.memRd := by
  rw [step,StubRegs.step,hreset,if_neg Bool.false_ne_true]
  cases s.stub.phase with
  | idle =>
    simp only [StubRegs.idleOwn]
    split
    · rfl
    · split <;> rfl
  | wait =>
    simp only [waitOwn]
    split
    · split <;> rfl
    · rfl
  | fetch =>
    simp only [fetchOwn]
    split <;> rfl
  | dpbFill =>
    simp only [fillOwn]
    split
    · rfl
    · split
      · split <;> rfl
      · split
        · rfl
        · split <;> rfl
  | paint =>
    simp only [paintOwn]
    split <;> rfl

open DpbRegs

/-- Another sample of the fetch is asked for. -/
theorem Asked.step {k : ℕ} (h : s.Asked k) (hreset : i.reset=false) (hk : k<603) :
    (s.step g i).Asked (k+1) := by
  have hbusy : s.dpb.phase ≠ .idle ∧ s.dpb.phase ≠ .drain := h.phase ▸ beatPhase_busy hk
  have hissue : (s.step g i).dpb =
      issue g.dpb s.dpb (s.dpb.shown g.dpb (s.dpbIn g i)) :=
    step_issue hreset hbusy.1 hbusy.2
  have hnext := issue_next (g := g.dpb) hk h.phase (h.idx hk)
    (shown_phase g.dpb s.dpb (s.dpbIn g i))
  have hasks := issue_asks g.dpb s.dpb (s.dpb.shown g.dpb (s.dpbIn g i))
  constructor
  case few => exact hk
  case phase => rw [hissue]; exact hnext.1
  case idx => rw [hissue]; exact hnext.2
  case asked =>
    intro _
    rw [hissue]
    exact ⟨hasks.1,hasks.2.1⟩
  case answered =>
    intro hmore
    rw [step_memRvalid hreset]
    exact (h.asked (by omega)).1

theorem Asked.drain (h : s.Asked 603) (hreset : i.reset=false) :
    (s.step g i).dpb.phase = .idle ∧ (s.step g i).dpb.fetchDone=true := by
  have hanswer : ((s.dpbIn g i).memRvalid && s.dpb.pendingValid)=true :=
    Bool.and_eq_true_iff.mpr ⟨h.answered (by omega),(h.asked (by omega)).2⟩
  have hstep : (s.step g i).dpb=_ := step_drain (g := g.dpb) hreset h.phase hanswer
  rw [hstep]
  exact ⟨rfl,rfl⟩

theorem shown_fetchDone (g : DpbParams) (d : DpbRegs) (i : DpbIn) :
    (d.shown g i).fetchDone=d.fetchDone := by
  have hpictures : (pictures g d.quieted i).fetchDone=d.fetchDone := by
    rw [pictures]
    split
    · rfl
    · split <;> rfl
  rw [DpbRegs.shown,DpbRegs.answer]
  split
  · cases d.pendingPlane <;> exact hpictures
  · exact hpictures

/-- A clock that begins a fetch comes to its first request, or without a reference to its end. -/
theorem step_started (hreset : i.reset=false) (hidle : s.dpb.phase = .idle)
    (hstart : s.stub.dpbFetchStart=true) :
    (s.step g i).Asked 0 ∨
      (s.step g i).dpb.phase = .idle ∧ (s.step g i).dpb.fetchDone=true := by
  have hbegin : (s.step g i).dpb=begin s.dpb
      { s.dpb.shown g.dpb (s.dpbIn g i) with pendingValid := false, fetchBusy := false }
      (s.dpbIn g i).request := step_begin hreset hidle hstart
  have hphase := shown_phase g.dpb s.dpb (s.dpbIn g i)
  rw [hidle] at hphase
  cases href : s.dpb.refReady with
  | true =>
    rw [begin,href,if_pos rfl] at hbegin
    refine Or.inl ⟨by omega,?_,fun _ => ?_,by omega,by omega⟩
    · rw [hbegin]
      rfl
    · rw [hbegin]
      rfl
  | false =>
    rw [begin,href,if_neg Bool.false_ne_true] at hbegin
    rw [hbegin]
    exact Or.inr ⟨hphase,rfl⟩

theorem step_unstarted (hreset : i.reset=false) (hidle : s.dpb.phase = .idle)
    (hstart : s.stub.dpbFetchStart=false) :
    (s.step g i).dpb.phase = .idle ∧ (s.step g i).dpb.fetchDone=s.dpb.fetchDone := by
  have hstay : (s.step g i).dpb = { s.dpb.shown g.dpb (s.dpbIn g i) with
      pendingValid := false, fetchBusy := false } := by
    have hseen : (s.dpbIn g i).fetchStart=false := hstart
    have hquiet : (s.dpbIn g i).reset=false := hreset
    rw [step,DpbRegs.step,hquiet,if_neg Bool.false_ne_true,hidle]
    simp only [DpbRegs.idleOwn,hseen,Bool.false_eq_true,if_false]
  rw [hstay]
  exact ⟨(shown_phase g.dpb s.dpb _).trans hidle,shown_fetchDone g.dpb s.dpb _⟩

theorem shown_stubPhase (r : StubRegs) (i : StubIn) (v : StubView) :
    (r.shown i v).phase=r.phase := by
  rw [StubRegs.shown,StubRegs.noteCandidate]
  split <;> rfl

/-- What a clock without a reset does to the phase. -/
inductive StubMove (g : StubParams) (r : StubRegs) (v : StubView) (t : StubRegs) : Prop
  | rests (hphase : r.phase = .idle) (hnext : t.phase = .idle)
  | found (hphase : r.phase = .idle) (hnext : t.phase = .wait)
  | counts (hphase : r.phase = .wait) (hleft : r.waitCnt≠0) (hnext : t.phase = .wait)
      (hcount : t.waitCnt=r.waitCnt-1)
  | asks (hphase : r.phase ≠ .fetch) (hnext : t.phase = .fetch) (hstart : t.dpbFetchStart=true)
  | fetches (hphase : r.phase = .fetch) (hdone : v.fetchDone=false) (hnext : t.phase = .fetch)
  | fills (hnext : t.phase = .dpbFill)
  | paints (hphase : r.phase ≠ .paint) (hnext : t.phase = .paint) (hfirst : t.pixI=0)
  | pixel (hphase : r.phase = .paint) (hmore : r.pixI≠g.pixels-1) (hnext : t.phase = .paint)
      (hpixel : t.pixI=r.pixI+1)
  | finishes (hphase : r.phase = .paint) (hnext : t.phase = .idle)

theorem stub_move {r : StubRegs} {v : StubView} (hreset : i.reset=false) :
    StubMove g r v (r.step g i v) := by
  have hshown := shown_stubPhase r i v
  rw [StubRegs.step,hreset,if_neg Bool.false_ne_true]
  cases hphase : r.phase with
  | idle =>
    rw [hphase] at hshown
    simp only [StubRegs.idleOwn]
    by_cases hvcl : i.vclPulse=true
    · rw [if_pos hvcl]
      exact .found hphase rfl
    · rw [if_neg hvcl]
      by_cases hpending : (r.pendingPFetch && v.refReady)=true
      · rw [if_pos hpending]
        exact .asks (by rw [hphase]; decide) rfl rfl
      · rw [if_neg hpending]
        exact .rests hphase hshown
  | wait =>
    rw [hphase] at hshown
    have hother : r.phase ≠ .fetch ∧ r.phase ≠ .paint := by rw [hphase]; decide
    simp only [waitOwn]
    by_cases hdone : (i.residualValid || r.waitCnt == 0)=true
    · rw [if_pos hdone]
      by_cases hasks : (i.pFetchCandidate && v.refReady)=true
      · rw [if_pos hasks]
        exact .asks hother.1 rfl rfl
      · rw [if_neg hasks]
        cases hidr : r.latIdr with
        | true => exact .fills rfl
        | false => exact .paints hother.2 rfl rfl
    · rw [if_neg hdone]
      have hleft : r.waitCnt≠0 := fun hzero => hdone (by rw [hzero]; simp)
      exact .counts hphase hleft hshown (if_neg hleft)
  | fetch =>
    rw [hphase] at hshown
    simp only [fetchOwn]
    by_cases hdone : v.fetchDone=true
    · rw [if_pos hdone]
      exact .paints (by rw [hphase]; decide) rfl rfl
    · rw [if_neg hdone]
      exact .fetches hphase (Bool.not_eq_true _ ▸ hdone) hshown
  | dpbFill =>
    rw [hphase] at hshown
    simp only [fillOwn]
    by_cases hsample : r.fillSampleIdx<384
    · rw [if_pos hsample]
      exact .fills hshown
    · rw [if_neg hsample]
      by_cases hcommit : r.fillSampleIdx=384
      · rw [if_pos hcommit]
        split <;> exact .fills hshown
      · rw [if_neg hcommit]
        by_cases hboundary : r.fillSampleIdx=385
        · rw [if_pos hboundary]
          exact .fills hshown
        · rw [if_neg hboundary]
          by_cases hpulse : v.refReadyPulse=true
          · rw [if_pos hpulse]
            exact .paints (by rw [hphase]; decide) rfl rfl
          · rw [if_neg hpulse]
            exact .fills hshown
  | paint =>
    rw [hphase] at hshown
    simp only [paintOwn]
    by_cases hlast : r.pixI=g.pixels-1
    · rw [if_pos hlast]
      exact .finishes hphase rfl
    · rw [if_neg hlast]
      exact .pixel hphase hlast hshown rfl

/-- A fetch that the stub waits for has ended, runs or is about to start; its requests follow
one another. -/
structure Underway (g : StubParams) (s : DecodeStub) : Prop where
  /-- The requests of a fetch follow one another. -/
  asked : s.dpb.phase ≠ .idle → ∃ k, s.Asked k
  waited : s.stub.phase = .fetch →
    s.dpb.fetchDone=true ∨ s.stub.dpbFetchStart=true ∨ s.dpb.phase ≠ .idle
  unpainted : s.stub.phase = .paint → s.stub.pixI≤g.pixels-1

namespace Underway

/-- The stub starts outside a fetch. -/
theorem start (g : StubParams) (mem : BitVec 18 → BitVec 8) :
    (DecodeStub.start g mem).Underway g where
  asked := fun hbusy => absurd rfl hbusy
  waited := fun hphase => by cases hphase
  unpainted := fun hphase => by cases hphase

/-- A reset leaves nothing under way. -/
theorem reset (hreset : i.reset=true) : (s.step g i).Underway g := by
  have hnext : s.step g i=DecodeStub.start g (s.step g i).mem := by
    rw [DecodeStub.step,DecodeStub.start,StubRegs.step,DpbRegs.step,dpbIn,hreset]
    rfl
  rw [hnext]
  exact start g _

/-- A fetch comes nearer its end or ends. -/
theorem fetch_step (h : s.Underway g) (hreset : i.reset=false)
    (hwaited : s.stub.dpbFetchStart=true ∨ s.dpb.phase ≠ .idle) :
    (∃ k, (s.step g i).Asked k) ∧ (s.step g i).dpb.clocksLeft<s.dpb.clocksLeft ∨
      (s.step g i).dpb.phase = .idle ∧ (s.step g i).dpb.fetchDone=true := by
  by_cases hidle : s.dpb.phase = .idle
  · have hstart := hwaited.resolve_right (fun hbusy => hbusy hidle)
    rcases step_started (g := g) hreset hidle hstart with hasked | hended
    · refine Or.inl ⟨⟨0,hasked⟩,?_⟩
      rw [clocksLeft_beat hasked.phase hasked.few hasked.idx,clocksLeft,hidle]
      exact Nat.lt_succ_self 604
    · exact Or.inr hended
  · obtain ⟨k,hasked⟩ := h.asked hidle
    by_cases hmore : k<603
    · have hnext := hasked.step (g := g) hreset hmore
      refine Or.inl ⟨⟨k+1,hnext⟩,?_⟩
      rw [clocksLeft_beat hasked.phase hasked.few hasked.idx,
        clocksLeft_beat hnext.phase hnext.few hnext.idx]
      omega
    · have hall : k=603 := le_antisymm hasked.few (Nat.le_of_not_lt hmore)
      rw [hall] at hasked
      exact Or.inr (hasked.drain hreset)

theorem busy_of_asked {k : ℕ} (h : s.Asked k) : s.dpb.phase ≠ .idle := by
  rw [h.phase,beatPhase]
  split
  · decide
  · split
    · decide
    · split <;> decide

/-- A clock keeps a fetch under way until it is done. -/
theorem step (h : s.Underway g) (hreset : i.reset=false) : (s.step g i).Underway g := by
  have hmove : StubMove g s.stub s.view (s.step g i).stub := stub_move hreset
  constructor
  case asked =>
    intro hbusy
    by_cases hwaited : s.stub.dpbFetchStart=true ∨ s.dpb.phase ≠ .idle
    · rcases h.fetch_step hreset hwaited with hasked | hended
      · exact hasked.1
      · exact absurd hended.1 hbusy
    · have hidle : s.dpb.phase = .idle := not_not.mp fun hno => hwaited (Or.inr hno)
      have hstart : s.stub.dpbFetchStart=false :=
        Bool.not_eq_true _ ▸ fun hyes => hwaited (Or.inl hyes)
      exact absurd (step_unstarted hreset hidle hstart).1 hbusy
  case waited =>
    intro hphase
    cases hmove with
    | asks _ _ hstart => exact Or.inr (Or.inl hstart)
    | fetches hfetch hdone _ =>
      have hrunning : s.dpb.fetchDone=false := hdone
      have hwaited := (h.waited hfetch).resolve_left (by rw [hrunning]; exact Bool.false_ne_true)
      rcases h.fetch_step hreset hwaited with hasked | hended
      · obtain ⟨⟨k,hasked⟩,_⟩ := hasked
        exact Or.inr (Or.inr (busy_of_asked hasked))
      · exact Or.inl hended.2
    | rests _ hnext | found _ hnext | counts _ _ hnext | fills hnext | paints _ hnext
    | pixel _ _ hnext | finishes _ hnext => exact absurd (hphase.symm.trans hnext) (by decide)
  case unpainted =>
    intro hphase
    cases hmove with
    | paints _ _ hfirst => omega
    | pixel hpaint hmore _ hpixel =>
      have hbefore := h.unpainted hpaint
      omega
    | rests _ hnext | found _ hnext | counts _ _ hnext | asks _ hnext | fetches _ _ hnext
    | fills hnext | finishes _ hnext => exact absurd (hphase.symm.trans hnext) (by decide)

end Underway

variable {mem : BitVec 18 → BitVec 8} {is : ℕ → StubIn}

theorem underway_during (g : StubParams) (mem : BitVec 18 → BitVec 8) (is : ℕ → StubIn) (n : ℕ) :
    (during g mem is n).Underway g := by
  refine always (P := fun _ (s : DecodeStub) => s.Underway g) (Underway.start g mem) (fun n s h => ?_) n
  cases hreset : (is n).reset with
  | true => exact Underway.reset hreset
  | false => exact h.step hreset

/-- Upper bound for the clocks the stub stays in its phase. -/
def clocksInPhase (g : StubParams) (s : DecodeStub) : ℕ :=
  match s.stub.phase with
  | .idle => 0
  | .wait => s.stub.waitCnt
  | .fetch => if s.dpb.fetchDone then 0 else s.dpb.clocksLeft
  | .dpbFill => 400*(g.mbCount-s.stub.fillMbAddr)+(386-s.stub.fillSampleIdx)
  | .paint => g.pixels-s.stub.pixI

theorem Asked.clocks_pos {k : ℕ} (h : s.Asked k) : 0<s.dpb.clocksLeft := by
  rw [clocksLeft_beat h.phase h.few h.idx]
  have hfew := h.few
  omega

theorem phase_falls {due : Prop} (hg : g.Counted) (hu : s.Underway g) (hf : s.Filling g due)
    (hbusy : s.stub.phase ≠ .idle) (hstays : (s.step g i).stub.phase=s.stub.phase) :
    (s.step g i).clocksInPhase g<s.clocksInPhase g := by
  cases hreset : i.reset with
  | true =>
    have hidle : (s.step g i).stub.phase = .idle := by
      rw [step,StubRegs.step,hreset]
      rfl
    exact absurd (hstays.symm.trans hidle) hbusy
  | false =>
    have hmove : StubMove g s.stub s.view (s.step g i).stub := stub_move hreset
    rw [clocksInPhase,clocksInPhase,hstays]
    cases hphase : s.stub.phase with
    | idle => exact absurd hphase hbusy
    | wait =>
      rw [hphase] at hstays
      cases hmove with
      | counts _ hleft _ hcount => exact hcount.trans_lt (Nat.pred_lt hleft)
      | found hidle => exact absurd (hidle.symm.trans hphase) (by decide)
      | rests _ hnext | asks _ hnext | fetches _ _ hnext | fills hnext | paints _ hnext
      | pixel _ _ hnext | finishes _ hnext => exact absurd (hstays.symm.trans hnext) (by decide)
    | fetch =>
      rw [hphase] at hstays
      cases hmove with
      | fetches _ hdone _ =>
        have hrunning : s.dpb.fetchDone=false := hdone
        have hwaited := (hu.waited hphase).resolve_left (by rw [hrunning]; exact Bool.false_ne_true)
        simp only [hrunning,Bool.false_eq_true,if_false]
        rcases hu.fetch_step hreset hwaited with hasked | hended
        · obtain ⟨⟨k,hasked⟩,hless⟩ := hasked
          split
          · exact lt_of_le_of_lt (Nat.zero_le _) hless
          · exact hless
        · rw [hended.2,if_pos rfl]
          by_cases hidle : s.dpb.phase = .idle
          · rw [clocksLeft,hidle]
            exact Nat.succ_pos 604
          · obtain ⟨k,hasked⟩ := hu.asked hidle
            exact hasked.clocks_pos
      | asks hother => exact absurd hphase hother
      | rests _ hnext | found _ hnext | counts _ _ hnext | fills hnext | paints _ hnext
      | pixel _ _ hnext | finishes _ hnext => exact absurd (hstays.symm.trans hnext) (by decide)
    | dpbFill =>
      rw [hphase] at hstays
      obtain ⟨hcount,hlow,hend⟩ := hf.place hphase
      have hfill : FillMove g s.stub s.wb.refReadyPulse (s.step g i).stub :=
        fill_move (v := s.view) hg.last hg.word hreset hphase hcount hlow
      simp only
      cases hfill with
      | sample hidx _ hmb hnext => omega
      | last hidx _ _ hmb hnext => omega
      | macroblock hidx _ hmb hin hnext => omega
      | boundary hidx _ hmb hnext => omega
      | ends _ _ hnext => exact absurd (hstays.symm.trans hnext) (by decide)
      | waits hidx hpulse =>
        have hready := hf.ready ⟨hphase,hidx⟩
        exact absurd (hready.symm.trans hpulse) (by decide)
    | paint =>
      rw [hphase] at hstays
      cases hmove with
      | pixel _ hmore _ hpixel =>
        have hbefore := hu.unpainted hphase
        simp only
        omega
      | paints hother => exact absurd hphase hother
      | rests _ hnext | found _ hnext | counts _ _ hnext | asks _ hnext | fetches _ _ hnext
      | fills hnext | finishes _ hnext => exact absurd (hstays.symm.trans hnext) (by decide)

end DecodeStub

open DecodeStub in
/-- Every fill is whole and the stub goes on exactly in the runs in which no IDR picture is
found while a sample is written, unless a reset follows before the macroblock's commit. -/
theorem fillsWhole_iff {g : StubParams} (hg : g.Counted) (mem : BitVec 18 → BitVec 8)
    (is : ℕ → StubIn) :
    FillsWhole g (during g mem is) ↔ ∀ n, ¬LosesSample is n (during g mem is n) := by
  constructor
  · intro hwhole n hlost
    obtain ⟨m,hphase,herror⟩ := error_of_lost hg hlost
    rw [hwhole.ordered m hphase] at herror
    cases herror
  · intro hkeep
    have hfilling := fun n => filling_during (n := n) hg fun m _ => hkeep m
    constructor
    case ready => exact fun n => (hfilling n).ready
    case ordered => exact fun n _ => (hfilling n).ordered
    case once =>
      intro n hwaits
      obtain ⟨hphase,hidx⟩ := hwaits
      have hend := ((hfilling n).place hphase).2.2 (by omega)
      rw [committed_during hg hkeep n hphase,complete,if_pos (by omega),hend]
    case goesOn =>
      intro n hbusy
      have hfall : ∀ m, (during g mem is m).stub.phase=(during g mem is n).stub.phase →
          (during g mem is (m+1)).stub.phase=(during g mem is n).stub.phase →
          clocksInPhase g (during g mem is (m+1))<clocksInPhase g (during g mem is m) := by
        intro m hm hnext
        have hstays : ((during g mem is m).step g (is m)).stub.phase =
            (during g mem is m).stub.phase := hnext.trans hm.symm
        exact phase_falls hg (underway_during g mem is m) (hfilling m) (hm ▸ hbusy) hstays
      exact @left_again DecodeStub (during g mem is)
        (fun s => s.stub.phase=(during g mem is n).stub.phase) (clocksInPhase g) hfall n rfl

/-- Nothing is found in the stream. -/
def quietClock : StubIn where
  reset := false
  vclPulse := false
  lastNalType := 0x65#8
  mbW := 20
  sliceIsI := true
  sliceValid := true
  firstMbAddr := 0
  hasMbType := true
  firstMbPartMode := 0
  firstMbIntra := true
  residualValid := false

/-- A slice of an IDR picture is found at the first clock, its residual later. -/
def oneSlice (n : ℕ) : StubIn :=
  { quietClock with vclPulse := n=0, residualValid := n=20 }

/-- A second slice of the picture is found while the first one's fill is under way. -/
def twoSlices (n : ℕ) : StubIn :=
  { oneSlice n with vclPulse := n=0 ∨ n=40 }

theorem counted_quarter : quarter.Counted := ⟨by decide,by decide⟩

/-- An IDR picture in one slice is filled whole. -/
theorem fillsWhole_oneSlice :
    FillsWhole quarter (DecodeStub.during quarter (fun _ => 0) oneSlice) := by
  refine (fillsWhole_iff counted_quarter _ oneSlice).mpr fun n hlost => ?_
  have hfirst : n=0 := by
    have hfound := hlost.2.2.1
    simp only [StubIn.idrFound,oneSlice,Bool.and_eq_true,decide_eq_true_eq] at hfound
    exact hfound.1
  have hphase := hlost.1
  rw [hfirst] at hphase
  cases hphase

/-- The second slice of an IDR picture takes a sample from the first one's fill. -/
theorem not_fillsWhole_twoSlices :
    ¬FillsWhole quarter (DecodeStub.during quarter (fun _ => 0) twoSlices) := by
  intro hwhole
  have hplace : (DecodeStub.during quarter (fun _ => 0) twoSlices 40).stub.phase = .dpbFill ∧
      (DecodeStub.during quarter (fun _ => 0) twoSlices 40).stub.fillSampleIdx<384 := by
    decide
  have hnever : ¬DecodeStub.ResetDue twoSlices 40
      (DecodeStub.during quarter (fun _ => 0) twoSlices 40) := by
    rintro ⟨m,_,_,hreset⟩
    cases hreset
  obtain ⟨m,hphase,herror⟩ :=
    DecodeStub.error_of_lost counted_quarter ⟨hplace.1,hplace.2,by decide,hnever⟩
  rw [hwhole.ordered m hphase] at herror
  cases herror

end Misterplex.Inter
