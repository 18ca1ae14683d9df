import Misterplex.Present.PipelineRing

/-!
# What the pipelined presenter kicks

The numbers of the frames kicked and the pictures in the banks, as long as a frame
is sent ahead only when the ring is empty and it looks as it would from the ring, a
prefetched frame is committed only as it is to be shown, and no send writes a bank
that is in use.
-/

namespace Misterplex.Pipeline

open BankRelease List
open Present (AvAction)

variable {α O : Type*}

/-- Numbers of the frames kicked, without the repaints. -/
def Fpga.movie (f : Fpga α O) : List ℕ :=
  (f.kicks.filter fun k => !k.repaint).map Kick.number

/-- Every kick showed the frame that it was to show, with its overlay. -/
def Fpga.Shows (c : Settings α O) (f : Fpga α O) : Prop :=
  ∀ k∈f.kicks, k.picture=c.shown k.overlay (c.prep (c.src k.number))

/-- The frame of the present thread is kicked or passed over. -/
def PresentPc.done : PresentPc α O → Bool
  | .kicked .. | .releasing => true
  | _ => false

/-- The frame of the present thread is no more as it was read. -/
def PresentPc.prepared : PresentPc α O → Bool
  | .copied .. | .kicked .. | .releasing => true
  | _ => false

/-- What the present thread keeps of the frame that it sends. -/
def PresentPc.drawn : PresentPc α O → Option (Drawn α O)
  | .copied _ _ drawn => some drawn
  | .kicked _ drawn => some drawn
  | _ => none

/-- The present thread is about to send. -/
def PresentPc.presents : PresentPc α O → Bool
  | .presenting => true
  | _ => false

/-- Frames read ahead and not sent. -/
def MainPc.frames : MainPc α → List (ℕ × α)
  | .readingAhead _ _ frames => frames
  | .sendingAhead _ frames => frames
  | _ => []

/-- The frame of a slot is still to be kicked. -/
def State.Waits (s : State α O) (j : Fin 2) : Prop :=
  (j=s.presentSlot ∧ 1 ≤ s.fullCount ∧ s.present.done=false) ∨
    (j=s.presentSlot+1 ∧ 2 ≤ s.fullCount)

/-- The frame of a slot is as it was read. -/
def State.Raw (s : State α O) (j : Fin 2) : Prop :=
  (j=s.presentSlot ∧ 1 ≤ s.fullCount ∧ s.present.prepared=false) ∨
    (j=s.presentSlot+1 ∧ 2 ≤ s.fullCount)

/-- The slot of the next frame that is as it was read. -/
def State.nextRaw (s : State α O) : Fin 2 :=
  if s.present.prepared then s.presentSlot+1 else s.presentSlot

/-- A bank holds a frame that is still to be kicked, or one is read into it. -/
def State.InUse (s : State α O) (b : ℕ) : Prop :=
  (∃ j, s.Waits j ∧ (s.slot j).ptr=some b) ∨ s.readBank=some b

/-- The frame read ahead that is sent next. -/
def MainPc.nextAhead : MainPc α → Option α
  | .sendingAhead _ ((_,x)::_) => some x
  | _ => none

/-- The bank that holds a copy to be kicked. -/
def PresentPc.copiedBank : PresentPc α O → Option ℕ
  | .copied b _ _ => some b
  | _ => none

instance (s : State α O) (j : Fin 2) : Decidable (s.Waits j) :=
  inferInstanceAs (Decidable (_ ∨ _))

instance (s : State α O) (b : ℕ) : Decidable (s.InUse b) :=
  inferInstanceAs (Decidable (_ ∨ _))

/-- The step keeps the frames in order and their pictures right. A frame read ahead is rung only
when the ring is empty, and looks as the present thread would show it. No send writes a bank in
use, and the reader takes no bank that holds a copy to be kicked. A prefetched frame is rung only
while its bank is untouched, and with no overlay to be seen on it. No bank is rung twice. -/
def State.Clean (c : Settings α O) (s : State α O) : Action α O → Prop
  | .sendAhead overlay i k =>
    ∀ x∈s.main.nextAhead, k.Single (s.fpga.begin i).kickMode ∧
      (k.Rings c.policy (s.fpga.begin i).kickMode →
        s.fullCount=0 ∧ c.shown overlay (c.prep x)=x)
  | .repaint visible _ i k =>
    s.Repaints c visible → k.Single (s.fpga.begin i).kickMode ∧
      ∀ target∈(s.fpga.begin i).target c.policy s.localBank i, ¬s.InUse target.1
  | .takeBank reading =>
    ∀ b∈s.present.copiedBank, takeIngestBank reading s.bankHeld≠some b
  | .prepare overlay _ i k =>
    s.present.presents=true →
      (s.ingested c≠none → k.Single s.fpga.kickMode) ∧
      (s.ingested c=none → s.prefetched≠none → k.Single s.fpga.kickMode ∧
        (k.Rings .bestEffort s.fpga.kickMode → s.overlapKept=true ∧
          c.shown overlay (c.prep (s.pixels s.presentSlot))=c.prep (s.pixels s.presentSlot))) ∧
      (s.ingested c=none → s.prefetched=none →
        ∀ target∈(s.fpga.begin i).target c.policy s.localBank i, ¬s.InUse target.1)
  | .ring k => s.present.copiedBank≠none → k.Single s.fpga.kickMode
  | _ => True

instance [DecidableEq α] (c : Settings α O) (s : State α O) (a : Action α O) :
    Decidable (s.Clean c a) :=
  match a with
  | .sendAhead overlay i k =>
    inferInstanceAs (Decidable (∀ x∈s.main.nextAhead, k.Single (s.fpga.begin i).kickMode ∧
      (k.Rings c.policy (s.fpga.begin i).kickMode →
        s.fullCount=0 ∧ c.shown overlay (c.prep x)=x)))
  | .repaint visible _ i k =>
    inferInstanceAs (Decidable (s.Repaints c visible → k.Single (s.fpga.begin i).kickMode ∧
      ∀ target∈(s.fpga.begin i).target c.policy s.localBank i, ¬s.InUse target.1))
  | .takeBank reading =>
    inferInstanceAs (Decidable (∀ b∈s.present.copiedBank,
      takeIngestBank reading s.bankHeld≠some b))
  | .prepare _ _ _ _ => inferInstanceAs (Decidable (_ = true → _ ∧ _ ∧ _))
  | .ring k => inferInstanceAs (Decidable (_ ≠ _ → k.Single _))
  | .requestStop | .prefill _ | .readAhead _ | .startThread | .seek | .claim | .readSome _
  | .readEnd _ _ | .take | .gate _ | .prefetch _ _ | .finish _ | .release => isTrue trivial

/-- The frames kicked and to be kicked stand in their order. -/
structure State.Lined (s : State α O) : Prop where
  /-- Frames were kicked in order, each once. -/
  rising : s.fpga.movie.Pairwise (· < ·)
  reached : ∀ n∈s.fpga.movie, n ≤ s.frameIndex
  /-- Frames to be kicked come after them. -/
  below : ∀ j, s.Waits j → ∀ n∈s.fpga.movie, n<(s.slot j).frameIndex
  /-- The second full slot comes after the first. -/
  inLine : 2 ≤ s.fullCount →
    (s.slot s.presentSlot).frameIndex<(s.slot (s.presentSlot+1)).frameIndex
  numbered : ∀ j, s.Full j → (s.slot j).frameIndex ≤ s.frameIndex
  aheadRising : (s.main.frames.map Prod.fst).Pairwise (· < ·)
  /-- They were delivered, and come after the frames kicked. -/
  ahead : ∀ frame∈s.main.frames, frame.1 ≤ s.frameIndex ∧ ∀ n∈s.fpga.movie, n<frame.1

/-- What the slots, the banks and the copies hold. -/
structure State.Exact (c : Settings α O) (s : State α O) : Prop where
  shows : s.fpga.Shows c
  ahead : ∀ frame∈s.main.frames, frame.2=c.src frame.1
  /-- So are those in the full slots. -/
  raw : ∀ j, s.Raw j → s.pixels j=c.src (s.slot j).frameIndex
  /-- The frame that is sent is prepared and drawn. -/
  drawn : ∀ drawn, s.present.drawn=some drawn →
    drawn.before=c.prep (c.src (s.slot s.presentSlot).frameIndex) ∧
      s.pixels s.presentSlot=c.shown drawn.overlay drawn.before
  /-- Its copy is the same, and nothing is read over it. -/
  copy : ∀ b sample drawn, s.present = .copied b sample drawn →
    s.fpga.bank b=c.shown drawn.overlay drawn.before ∧ s.readBank≠some b
  prefetch : ∀ b, s.overlapBank=some b →
    (c.hd=true ∧ c.wantStickIngest=false) ∧ s.Raw s.nextRaw ∧
    (s.overlapKept=true → s.fpga.bank b=c.prep (c.src (s.slot s.nextRaw).frameIndex))
  /-- Nothing is prefetched or kept before the present thread starts. -/
  cold : s.present = .notStarted → s.overlapBank=none ∧ s.lastPresentedFrameValid=false
  last : s.lastPresentedFrameValid=true → s.lastPresentedFrame=c.prep (c.src s.lastPresented)
  /-- Nothing writes to where a frame is read. -/
  untouched : s.main ≠ .reading true

variable {c : Settings α O} {s t : State α O}

theorem State.Raw.waits {j : Fin 2} (h : s.Raw j) : s.Waits j := by
  rcases h with ⟨hfirst,hone,hpresent⟩ | hsecond
  · refine Or.inl ⟨hfirst,hone,?_⟩
    cases hpc : s.present with
    | kicked ok drawn =>
      rw [hpc] at hpresent
      cases hpresent
    | releasing =>
      rw [hpc] at hpresent
      cases hpresent
    | _ => rfl
  · exact Or.inr hsecond

theorem State.Waits.full {j : Fin 2} (h : s.Waits j) : s.Full j :=
  h.imp (fun hfirst => ⟨hfirst.1,hfirst.2.1⟩) id

theorem Fpga.movie_ring (f : Fpga α O) (policy : DdrBankWritePolicy) (b : ℕ)
    (sample : Option BankReleaseStatus) (number : ℕ) (overlay : Option O) (k : KickInput) :
    (f.ring policy b sample number false overlay k).movie =
      f.movie ++ List.replicate (kick policy f.kickMode k).rings number := by
  unfold Fpga.movie Fpga.ring
  simp

theorem Fpga.movie_repaint (f : Fpga α O) (policy : DdrBankWritePolicy) (b : ℕ)
    (sample : Option BankReleaseStatus) (number : ℕ) (overlay : Option O) (k : KickInput) :
    (f.ring policy b sample number true overlay k).movie=f.movie := by
  unfold Fpga.movie Fpga.ring
  simp

theorem Fpga.Shows.ring {f : Fpga α O} (h : f.Shows c) {policy : DdrBankWritePolicy} {b : ℕ}
    (sample : Option BankReleaseStatus) {number : ℕ} (repaint : Bool) {overlay : Option O}
    {k : KickInput}
    (hbank : k.Rings policy f.kickMode → f.bank b=c.shown overlay (c.prep (c.src number))) :
    (f.ring policy b sample number repaint overlay k).Shows c := by
  intro k' hk'
  rcases mem_append.mp hk' with hold | hnew
  · exact h k' hold
  · obtain ⟨hrings,rfl⟩ := mem_replicate.mp hnew
    exact hbank hrings

theorem rising_append {ns : List ℕ} (h : ns.Pairwise (· < ·)) {r n : ℕ} (hr : r≤1)
    (hn : r≠0 → ∀ m∈ns, m<n) : (ns ++ List.replicate r n).Pairwise (· < ·) := by
  rw [pairwise_append]
  refine ⟨h,?_,?_⟩
  · rcases Nat.le_one_iff_eq_zero_or_eq_one.mp hr with rfl | rfl
    · exact List.Pairwise.nil
    · exact pairwise_singleton _ n
  · intro m hm n' hn'
    obtain ⟨hrings,rfl⟩ := mem_replicate.mp hn'
    exact hn hrings m hm

theorem MainPc.frames_nil {m : MainPc α} (h : m.warms=false) : m.frames=[] := by
  cases m with
  | readingAhead loop left frames => cases h
  | sendingAhead loop frames => cases h
  | _ => rfl

theorem State.Lined.congr (h : s.Lined) (hmovie : t.fpga.movie=s.fpga.movie)
    (hindex : t.frameIndex=s.frameIndex) (hpresent : t.presentSlot=s.presentSlot)
    (hcount : t.fullCount=s.fullCount)
    (hnumber : ∀ j, s.Full j → (t.slot j).frameIndex=(s.slot j).frameIndex)
    (hdone : t.present.done=false → s.present.done=false)
    (hframes : t.main.frames.Sublist s.main.frames) : t.Lined := by
  have hfull : ∀ j, t.Full j → s.Full j := by
    intro j hj
    unfold State.Full at hj
    rw [hpresent,hcount] at hj
    exact hj
  have hwaits : ∀ j, t.Waits j → s.Waits j := by
    intro j hj
    unfold State.Waits at hj
    rw [hpresent,hcount] at hj
    exact hj.imp (fun hfirst => ⟨hfirst.1,hfirst.2.1,hdone hfirst.2.2⟩) id
  refine ⟨?_,?_,?_,?_,?_,?_,?_⟩
  · rw [hmovie]
    exact h.rising
  · rw [hmovie,hindex]
    exact h.reached
  · intro j hj
    rw [hmovie,hnumber j (hwaits j hj).full]
    exact h.below j (hwaits j hj)
  · intro htwo
    rw [hcount] at htwo
    rw [hpresent,hnumber _ (Or.inl ⟨rfl,by omega⟩),hnumber _ (Or.inr ⟨rfl,htwo⟩)]
    exact h.inLine htwo
  · intro j hj
    rw [hindex,hnumber j (hfull j hj)]
    exact h.numbered j (hfull j hj)
  · exact h.aheadRising.sublist (hframes.map Prod.fst)
  · intro frame hframe
    rw [hmovie,hindex]
    exact h.ahead frame (hframes.subset hframe)

theorem State.setPixels_number (s : State α O) (j : Fin 2) (x : α) (i : Fin 2) :
    ((s.setPixels j x).slot i).frameIndex=(s.slot i).frameIndex := by
  refine kept_update Slot.frameIndex ?_ i
  rfl

theorem State.kicks_setPixels (s : State α O) (j : Fin 2) (x : α) :
    (s.setPixels j x).fpga.kicks=s.fpga.kicks := by
  unfold State.setPixels
  cases (s.slot j).ptr <;> rfl

theorem State.movie_setPixels (s : State α O) (j : Fin 2) (x : α) :
    (s.setPixels j x).fpga.movie=s.fpga.movie := by
  unfold Fpga.movie
  rw [s.kicks_setPixels]

theorem State.ingested_setPixels (c : Settings α O) (s : State α O) (j : Fin 2) (x : α) :
    (s.setPixels j x).ingested c=s.ingested c := by
  have hfront : (s.setPixels j x).presentSlot=s.presentSlot := rfl
  unfold State.ingested
  rw [hfront,(s.sameRing_setPixels j x).ingestBank]

theorem State.writer_setPixels (s : State α O) (j : Fin 2) (x : α) :
    (s.setPixels j x).fpga.kickMode=s.fpga.kickMode ∧
      (s.setPixels j x).fpga.strictDdrRelease=s.fpga.strictDdrRelease := by
  unfold State.setPixels
  cases (s.slot j).ptr <;> exact ⟨rfl,rfl⟩

/-- The bank that a send writes depends on how banks are rung and what strict writes rely on. -/
theorem Fpga.target_congr {f g : Fpga α O} (hmode : g.kickMode=f.kickMode)
    (hstrict : g.strictDdrRelease=f.strictDdrRelease) (policy : DdrBankWritePolicy) (bank : ℕ)
    (i : CopyInput) : (g.begin i).target policy bank i=(f.begin i).target policy bank i := by
  unfold Fpga.begin
  rw [hmode]
  by_cases hprobe : f.kickMode = .unavailable ∧ i.reprobe=true
  · rw [if_pos hprobe,if_pos hprobe]
    rfl
  · rw [if_neg hprobe,if_neg hprobe]
    unfold Fpga.target
    rw [hmode,hstrict]

theorem State.publish_other (s : State α O) (x : α) {j : Fin 2} (hj : j≠s.readSlot) :
    ((s.setPixels s.readSlot x).publish.slot j).frameIndex=(s.slot j).frameIndex := by
  have hslot : (s.setPixels s.readSlot x).publish.slot j=(s.setPixels s.readSlot x).slot j :=
    Function.update_of_ne hj _ _
  rw [hslot]
  exact congrArg Slot.frameIndex (Function.update_of_ne hj _ _)

theorem State.publish_self (s : State α O) (x : α) :
    ((s.setPixels s.readSlot x).publish.slot s.readSlot).frameIndex=s.frameIndex+1 := by
  have hslot : (s.setPixels s.readSlot x).publish.slot s.readSlot =
      { (s.setPixels s.readSlot x).slot s.readSlot with frameIndex := s.frameIndex+1 } :=
    Function.update_self _ _ _
  rw [hslot]

theorem State.Lined.publish (h : s.Lined) (hlaid : s.Laid c) (hroom : s.fullCount≤1) (x : α)
    {m : MainPc α} (hframes : m.frames=[]) :
    ({ (s.setPixels s.readSlot x).publish with main := m } : State α O).Lined := by
  have hturn := hlaid.turn
  have hmovie : ((s.setPixels s.readSlot x).publish).fpga.movie=s.fpga.movie :=
    s.movie_setPixels s.readSlot x
  have hnew : ∀ j, s.Full j → j≠s.readSlot := by
    rintro j hj rfl
    exact hlaid.not_full hroom hj
  have hslots : ∀ j, ({ (s.setPixels s.readSlot x).publish with main := m } :
      State α O).Waits j → s.Waits j ∨ j=s.readSlot := by
    intro j hj
    rcases hj with ⟨hfirst,hone,hdone⟩ | ⟨hsecond,hboth⟩
    · have hfirst' : j=s.presentSlot := hfirst
      by_cases hcount : s.fullCount=1
      · exact Or.inl (Or.inl ⟨hfirst',by omega,hdone⟩)
      · rw [if_neg hcount] at hturn
        exact Or.inr (hfirst'.trans hturn.symm)
    · have hsecond' : j=s.presentSlot+1 := hsecond
      have hboth' : 2 ≤ s.fullCount+1 := hboth
      rw [if_pos (by omega)] at hturn
      exact Or.inr (hsecond'.trans hturn.symm)
  refine ⟨?_,?_,?_,?_,?_,?_,?_⟩
  case refine_1 =>
    rw [hmovie]
    exact h.rising
  case refine_2 =>
    rw [hmovie]
    exact fun n hn => (h.reached n hn).trans (Nat.le_succ _)
  case refine_3 =>
    intro j hj
    rw [hmovie]
    intro n hn
    rcases hslots j hj with hold | rfl
    · rw [s.publish_other x (hnew j hold.full)]
      exact h.below j hold n hn
    · rw [s.publish_self x]
      exact Nat.lt_succ_of_le (h.reached n hn)
  case refine_4 =>
    intro htwo
    have htwo' : 2 ≤ s.fullCount+1 := htwo
    have hone : s.fullCount=1 := by omega
    rw [if_pos hone] at hturn
    have hfirst : s.Full s.presentSlot := Or.inl ⟨rfl,by omega⟩
    have hgoal : ((s.setPixels s.readSlot x).publish.slot s.presentSlot).frameIndex <
        ((s.setPixels s.readSlot x).publish.slot (s.presentSlot+1)).frameIndex := by
      rw [s.publish_other x (hnew _ hfirst),← hturn,s.publish_self x]
      exact Nat.lt_succ_of_le (h.numbered _ hfirst)
    exact hgoal
  case refine_5 =>
    intro j hj
    by_cases hread : j=s.readSlot
    · rw [hread]
      exact (s.publish_self x).le
    · refine (s.publish_other x hread).le.trans ((h.numbered j ?_).trans (Nat.le_succ _))
      rcases hj with ⟨hfirst,_⟩ | ⟨hsecond,hboth⟩
      · have hfirst' : j=s.presentSlot := hfirst
        by_cases hcount : s.fullCount=1
        · exact Or.inl ⟨hfirst',by omega⟩
        · rw [if_neg hcount] at hturn
          exact absurd (hfirst'.trans hturn.symm) hread
      · have hsecond' : j=s.presentSlot+1 := hsecond
        have hboth' : 2 ≤ s.fullCount+1 := hboth
        rw [if_pos (by omega)] at hturn
        exact absurd (hsecond'.trans hturn.symm) hread
  case refine_6 =>
    have hnil : (m.frames.map Prod.fst).Pairwise (· < ·) := by
      rw [hframes]
      exact List.Pairwise.nil
    exact hnil
  case refine_7 =>
    intro frame hframe
    have hframe' : frame∈m.frames := hframe
    rw [hframes] at hframe'
    cases hframe'

theorem State.Lined.readAhead (h : s.Lined) {loop : AheadLoop} {left : ℕ}
    {frames : List (ℕ × α)} (hmain : s.main = .readingAhead loop left frames) (left' : ℕ) (x : α) :
    ({ s with
      frameIndex := s.frameIndex+1
      main := .readingAhead loop left' (frames ++ [(s.frameIndex+1,x)]) } : State α O).Lined := by
  have hrising := h.aheadRising
  have hahead := h.ahead
  rw [hmain] at hrising hahead
  refine ⟨h.rising,?_,h.below,h.inLine,?_,?_,?_⟩
  · exact fun n hn => (h.reached n hn).trans (Nat.le_succ _)
  · exact fun j hj => (h.numbered j hj).trans (Nat.le_succ _)
  · have hmap : ((frames ++ [(s.frameIndex+1,x)]).map Prod.fst).Pairwise (· < ·) := by
      rw [map_append,pairwise_append]
      refine ⟨hrising,pairwise_singleton _ _,?_⟩
      intro n hn m hm
      obtain ⟨frame,hframe,rfl⟩ := mem_map.mp hn
      have hm' : m=s.frameIndex+1 := mem_singleton.mp hm
      rw [hm']
      exact Nat.lt_succ_of_le (hahead frame hframe).1
    exact hmap
  · intro frame hframe
    rcases mem_append.mp hframe with hold | hnew
    · exact ⟨(hahead frame hold).1.trans (Nat.le_succ _),(hahead frame hold).2⟩
    · rw [mem_singleton.mp hnew]
      exact ⟨Nat.le_refl _,fun n hn => Nat.lt_succ_of_le (h.reached n hn)⟩

theorem State.Lined.kick (h : s.Lined) (hwaits : s.Waits s.presentSlot) {r : ℕ} (hr : r≤1)
    (hmovie : t.fpga.movie = s.fpga.movie ++ List.replicate r (s.slot s.presentSlot).frameIndex)
    (hindex : t.frameIndex=s.frameIndex) (hpresent : t.presentSlot=s.presentSlot)
    (hcount : t.fullCount=s.fullCount)
    (hnumber : ∀ j, s.Full j → (t.slot j).frameIndex=(s.slot j).frameIndex)
    (hdone : t.present.done=true) (hframes : t.main.frames=[]) : t.Lined := by
  have hsecond : ∀ j, t.Waits j → j=s.presentSlot+1 ∧ 2 ≤ s.fullCount := by
    intro j hj
    rcases hj with ⟨_,_,hno⟩ | hsecond
    · rw [hdone] at hno
      cases hno
    · rw [hpresent,hcount] at hsecond
      exact hsecond
  refine ⟨?_,?_,?_,?_,?_,?_,?_⟩
  · rw [hmovie]
    exact rising_append h.rising hr fun _ => h.below _ hwaits
  · rw [hmovie,hindex]
    intro n hn
    rcases mem_append.mp hn with hold | hnew
    · exact h.reached n hold
    · rw [(mem_replicate.mp hnew).2]
      exact h.numbered _ hwaits.full
  · intro j hj n hn
    obtain ⟨rfl,htwo⟩ := hsecond j hj
    have hlater : s.Waits (s.presentSlot+1) := Or.inr ⟨rfl,htwo⟩
    rw [hnumber _ hlater.full]
    rw [hmovie] at hn
    rcases mem_append.mp hn with hold | hnew
    · exact h.below _ hlater n hold
    · rw [(mem_replicate.mp hnew).2]
      exact h.inLine htwo
  · intro htwo
    rw [hcount] at htwo
    rw [hpresent,hnumber _ hwaits.full,hnumber _ (Or.inr ⟨rfl,htwo⟩)]
    exact h.inLine htwo
  · intro j hj
    have hj' : s.Full j := by
      unfold State.Full at hj
      rw [hpresent,hcount] at hj
      exact hj
    rw [hindex,hnumber j hj']
    exact h.numbered j hj'
  · rw [hframes]
    exact List.Pairwise.nil
  · rw [hframes]
    exact nofun

theorem State.Lined.sendAhead (h : s.Lined) {number : ℕ} {x : α} {rest : List (ℕ × α)}
    (hmain : s.main.frames=(number,x)::rest) {r : ℕ} (hr : r≤1)
    (hempty : r≠0 → s.fullCount=0)
    (hmovie : t.fpga.movie = s.fpga.movie ++ List.replicate r number)
    (hindex : t.frameIndex=s.frameIndex) (hpresent : t.presentSlot=s.presentSlot)
    (hcount : t.fullCount=s.fullCount) (hslot : t.slot=s.slot)
    (hdone : t.present=s.present) (hframes : t.main.frames.Sublist rest) : t.Lined := by
  have hrising := h.aheadRising
  have hahead := h.ahead
  rw [hmain] at hrising hahead
  obtain ⟨hafter,hrest⟩ := pairwise_cons.mp hrising
  obtain ⟨hdelivered,hlater⟩ := hahead _ mem_cons_self
  refine ⟨?_,?_,?_,?_,?_,?_,?_⟩
  · rw [hmovie]
    exact rising_append h.rising hr fun _ => hlater
  · rw [hmovie,hindex]
    intro n hn
    rcases mem_append.mp hn with hold | hnew
    · exact h.reached n hold
    · rw [(mem_replicate.mp hnew).2]
      exact hdelivered
  · intro j hj n hn
    have hj' : s.Waits j := by
      unfold State.Waits at hj
      rw [hpresent,hcount,hdone] at hj
      exact hj
    rw [hslot]
    rw [hmovie] at hn
    rcases mem_append.mp hn with hold | hnew
    · exact h.below j hj' n hold
    · have hzero := hempty (mem_replicate.mp hnew).1
      rcases hj' with ⟨_,hone,_⟩ | ⟨_,htwo⟩
      · omega
      · omega
  · rw [hcount,hpresent,hslot]
    exact h.inLine
  · intro j hj
    have hj' : s.Full j := by
      unfold State.Full at hj
      rw [hpresent,hcount] at hj
      exact hj
    rw [hslot,hindex]
    exact h.numbered j hj'
  · exact hrest.sublist (hframes.map Prod.fst)
  · intro frame hframe
    have hframe' := hframes.subset hframe
    obtain ⟨hle,hbefore⟩ := hahead frame (mem_cons_of_mem _ hframe')
    rw [hindex,hmovie]
    refine ⟨hle,fun n hn => ?_⟩
    rcases mem_append.mp hn with hold | hnew
    · exact hbefore n hold
    · rw [(mem_replicate.mp hnew).2]
      exact hafter _ (mem_map_of_mem hframe')

theorem State.Lined.release (h : s.Lined) (hlaid : s.Laid c)
    (hmovie : t.fpga.movie=s.fpga.movie) (hindex : t.frameIndex=s.frameIndex)
    (hpresent : t.presentSlot=s.presentSlot+1) (hcount : t.fullCount=s.fullCount-1)
    (hnumber : ∀ j, (t.slot j).frameIndex=(s.slot j).frameIndex)
    (hframes : t.main.frames=s.main.frames) : t.Lined := by
  have hbound := hlaid.bound
  have hsecond : ∀ j, t.Full j → j=s.presentSlot+1 ∧ 2 ≤ s.fullCount := by
    intro j hj
    unfold State.Full at hj
    rw [hpresent,hcount] at hj
    rcases hj with ⟨hj,hone⟩ | ⟨_,htwo⟩
    · exact ⟨hj,by omega⟩
    · omega
  refine ⟨?_,?_,?_,?_,?_,?_,?_⟩
  · rw [hmovie]
    exact h.rising
  · rw [hmovie,hindex]
    exact h.reached
  · intro j hj
    rw [hmovie,hnumber]
    exact h.below j (Or.inr (hsecond j hj.full))
  · omega
  · intro j hj
    rw [hindex,hnumber]
    exact h.numbered j (Or.inr (hsecond j hj))
  · rw [hframes]
    exact h.aheadRising
  · rw [hframes,hindex,hmovie]
    exact h.ahead

end Misterplex.Pipeline
