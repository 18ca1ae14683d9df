import Misterplex.Present.Pipeline
import Mathlib.Tactic.FinCases

/-!
# The ring of the pipelined presenter

Whatever the threads do, the slot that the reader fills is not full, its buffer
or bank is no other slot's, and every slot in use holds its bank.
-/

namespace Misterplex.Pipeline

open BankRelease
open Present (AvAction)

variable {α O : Type*}

theorem slot_cases (p j : Fin 2) : j=p ∨ j=p+1 := by
  revert p j
  decide

theorem slot_turns (p : Fin 2) : p+1+1=p := by
  revert p
  decide

theorem slot_ne (p : Fin 2) : p+1≠p := by
  revert p
  decide

/-- The present thread is not started yet. -/
def MainPc.warms : MainPc α → Bool
  | .prefilling _ | .readingAhead .. | .sendingAhead .. | .starting => true
  | _ => false

/-- The main thread goes to fill a slot. -/
def MainPc.fills : MainPc α → Bool
  | .claiming | .reading _ => true
  | _ => false

/-- The main thread reads a frame into its slot. -/
def MainPc.reads : MainPc α → Bool
  | .reading _ => true
  | _ => false

/-- Reads to go before the ring is filled. -/
def MainPc.toPrefill : MainPc α → ℕ
  | .prefilling left => left
  | _ => 0

/-- The present thread has a full slot. -/
def PresentPc.holds : PresentPc α O → Bool
  | .gating | .presenting | .copied .. | .kicked .. | .releasing => true
  | _ => false

/-- A slot holds a frame that is not freed yet. -/
def State.Full (s : State α O) (j : Fin 2) : Prop :=
  (j=s.presentSlot ∧ 1 ≤ s.fullCount) ∨ (j=s.presentSlot+1 ∧ 2 ≤ s.fullCount)

/-- A slot is in use. -/
def State.Occupied (s : State α O) (j : Fin 2) : Prop :=
  s.Full j ∨ (s.main.reads=true ∧ j=s.readSlot)

/-- How the slots and the threads stand to each other. -/
structure State.Laid (c : Settings α O) (s : State α O) : Prop where
  bound : s.fullCount+s.main.toPrefill≤2
  /-- The slot that is filled next follows the full ones. -/
  turn : s.readSlot = if s.fullCount = 1 then s.presentSlot+1 else s.presentSlot
  /-- A slot is filled only when one is free. -/
  room : s.main.fills=true → s.fullCount≤1
  /-- The present thread has a slot only when one is full. -/
  taken : s.present.holds=true → 1 ≤ s.fullCount
  /-- The present thread starts after the main thread has warmed up. -/
  warm : s.present = .notStarted ↔ s.main.warms=true
  /-- Banks are claimed only when frames are read into banks. -/
  claims : s.main = .claiming → c.wantStickIngest=true
  /-- Without that every slot uses its buffer. -/
  heaps : c.wantStickIngest=false → ∀ j, (s.slot j).ptr=none ∧ (s.slot j).ingestBank=none
  /-- So does every slot before the present thread starts. -/
  warmHeaps : s.present = .notStarted → ∀ j, (s.slot j).ptr=none ∧ (s.slot j).ingestBank=none
  held : ∀ j, s.Occupied j → (s.slot j).ptr=(s.slot j).ingestBank ∧
    ∀ b, (s.slot j).ptr=some b → s.bankHeld b=true ∧ b≤1
  /-- Two slots in use point to different banks. -/
  apart : ∀ j b, s.Occupied j → s.Occupied (j+1) → (s.slot j).ptr=some b →
    (s.slot (j+1)).ptr≠some b

variable {c : Settings α O} {s t : State α O}

theorem State.Laid.not_full (h : s.Laid c) (hroom : s.fullCount≤1) : ¬s.Full s.readSlot := by
  intro hfull
  rw [h.turn] at hfull
  rcases hfull with ⟨hslot,hcount⟩ | ⟨_,hcount⟩
  · rw [if_pos (by omega)] at hslot
    exact slot_ne _ hslot
  · omega

/-- Steps that leave the slots, their banks and the stage of the main thread as they are. -/
structure State.SameRing (s t : State α O) : Prop where
  ptr : ∀ j, (t.slot j).ptr=(s.slot j).ptr
  ingestBank : ∀ j, (t.slot j).ingestBank=(s.slot j).ingestBank
  readSlot : t.readSlot=s.readSlot
  presentSlot : t.presentSlot=s.presentSlot
  fullCount : t.fullCount=s.fullCount
  bankHeld : t.bankHeld=s.bankHeld

theorem State.SameRing.full (h : s.SameRing t) (j : Fin 2) : t.Full j ↔ s.Full j := by
  unfold State.Full
  rw [h.presentSlot,h.fullCount]

theorem State.SameRing.occupied (h : s.SameRing t) {j : Fin 2} (hj : t.Occupied j)
    (hreads : t.main.reads=true → s.main.reads=true) : s.Occupied j := by
  rcases hj with hfull | ⟨hmain,hslot⟩
  · exact Or.inl ((h.full j).mp hfull)
  · exact Or.inr ⟨hreads hmain,hslot.trans h.readSlot⟩

theorem State.Laid.same (h : s.Laid c) (hsame : s.SameRing t)
    (hleft : t.main.toPrefill ≤ s.main.toPrefill)
    (hroom : t.main.fills=true → t.fullCount≤1)
    (hreads : t.main.reads=true → s.main.reads=true)
    (hclaims : t.main = .claiming → c.wantStickIngest=true)
    (htaken : t.present.holds=true → 1≤t.fullCount)
    (hwarm : t.present = .notStarted ↔ t.main.warms=true)
    (hstarted : t.present = .notStarted → s.present = .notStarted) : t.Laid c where
  bound := by
    have hbound := h.bound
    rw [hsame.fullCount]
    omega
  turn := by rw [hsame.readSlot,hsame.fullCount,hsame.presentSlot,h.turn]
  room := hroom
  taken := htaken
  warm := hwarm
  claims := hclaims
  heaps hno j := by
    rw [hsame.ptr,hsame.ingestBank]
    exact h.heaps hno j
  warmHeaps hno j := by
    rw [hsame.ptr,hsame.ingestBank]
    exact h.warmHeaps (hstarted hno) j
  held j hj := by
    rw [hsame.ptr,hsame.ingestBank,hsame.bankHeld]
    exact h.held j (hsame.occupied hj hreads)
  apart j b hj hnext := by
    rw [hsame.ptr,hsame.ptr]
    exact h.apart j b (hsame.occupied hj hreads) (hsame.occupied hnext hreads)

/-- The main thread's place but for what happens to the frame that is read. -/
def MainPc.untouched : MainPc α → MainPc α
  | .reading _ => .reading false
  | m => m

theorem MainPc.stage_eq {m m' : MainPc α} (h : m'.untouched=m.untouched) :
    m'.warms=m.warms ∧ m'.fills=m.fills ∧ m'.reads=m.reads ∧
      m'.toPrefill=m.toPrefill ∧ (m' = .claiming → m = .claiming) := by
  cases m' <;> cases m <;> cases h <;> exact ⟨rfl,rfl,rfl,rfl,fun hsame => by simp_all⟩

/-- The presenter's own steps keep the slots laid out. -/
theorem State.Laid.present (h : s.Laid c) (hsame : s.SameRing t)
    (hmain : t.main.untouched=s.main.untouched) (hstarted : s.present ≠ .notStarted)
    (hpresent : t.present ≠ .notStarted) (htaken : t.present.holds=true → 1 ≤ s.fullCount) :
    t.Laid c := by
  obtain ⟨hwarms,hfills,hreads,hleft,hclaims⟩ := MainPc.stage_eq hmain
  refine h.same hsame hleft.le ?_ ?_ ?_ ?_ ?_ ?_
  · intro hmain
    rw [hsame.fullCount]
    exact h.room (hfills ▸ hmain)
  · intro hmain
    exact hreads ▸ hmain
  · intro hmain
    exact h.claims (hclaims hmain)
  · intro hholds
    rw [hsame.fullCount]
    exact htaken hholds
  · constructor
    · intro hno
      exact absurd hno hpresent
    · intro hyes
      exact absurd (h.warm.mpr (hwarms ▸ hyes)) hstarted
  · intro hno
    exact absurd hno hpresent

theorem kept_update {β : Type*} (f : Slot α → β) {slot : Fin 2 → Slot α} {j : Fin 2} {x : Slot α}
    (hx : f x=f (slot j)) (i : Fin 2) : f (Function.update slot j x i)=f (slot i) := by
  by_cases hi : i=j
  · subst hi
    rw [Function.update_self,hx]
  · rw [Function.update_of_ne hi]

theorem State.sameRing_setPixels (s : State α O) (j : Fin 2) (x : α) :
    s.SameRing (s.setPixels j x) where
  ptr := kept_update Slot.ptr rfl
  ingestBank := kept_update Slot.ingestBank rfl
  readSlot := rfl
  presentSlot := rfl
  fullCount := rfl
  bankHeld := rfl

theorem State.SameRing.refl_of (hslot : t.slot=s.slot) (hread : t.readSlot=s.readSlot)
    (hpresent : t.presentSlot=s.presentSlot) (hcount : t.fullCount=s.fullCount)
    (hheld : t.bankHeld=s.bankHeld) : s.SameRing t where
  ptr _ := by rw [hslot]
  ingestBank _ := by rw [hslot]
  readSlot := hread
  presentSlot := hpresent
  fullCount := hcount
  bankHeld := hheld

/-- Leaving the ring alone is transitive. -/
theorem State.SameRing.trans {u : State α O} (h : s.SameRing t) (h' : t.SameRing u) :
    s.SameRing u where
  ptr j := (h'.ptr j).trans (h.ptr j)
  ingestBank j := (h'.ingestBank j).trans (h.ingestBank j)
  readSlot := h'.readSlot.trans h.readSlot
  presentSlot := h'.presentSlot.trans h.presentSlot
  fullCount := h'.fullCount.trans h.fullCount
  bankHeld := h'.bankHeld.trans h.bankHeld

theorem State.publish_ptr (s : State α O) (j : Fin 2) :
    (s.publish.slot j).ptr=(s.slot j).ptr := by
  refine kept_update Slot.ptr ?_ j
  rfl

theorem State.publish_ingestBank (s : State α O) (j : Fin 2) :
    (s.publish.slot j).ingestBank=(s.slot j).ingestBank := by
  refine kept_update Slot.ingestBank ?_ j
  rfl

open State

/-- The slot to be filled becomes a full one, which points to the bank held for it. -/
theorem State.Laid.publish (h : s.Laid c) (hroom : s.fullCount≤1)
    (hslot : s.main.reads=true ∨ s.present = .notStarted) (x : α) {m : MainPc α}
    (hleft : s.fullCount+1+m.toPrefill≤2) (hfills : m.fills=false)
    (hreads : m.reads=false) (hwarm : s.present = .notStarted ↔ m.warms=true) :
    ({ (s.setPixels s.readSlot x).publish with main := m } : State α O).Laid c := by
  have hsame := s.sameRing_setPixels s.readSlot x
  have hptr : ∀ j, (((s.setPixels s.readSlot x).publish).slot j).ptr=(s.slot j).ptr := fun j =>
    (publish_ptr _ j).trans (hsame.ptr j)
  have hingest : ∀ j, (((s.setPixels s.readSlot x).publish).slot j).ingestBank =
      (s.slot j).ingestBank := fun j =>
    (publish_ingestBank _ j).trans (hsame.ingestBank j)
  have hturn := h.turn
  have hpublished : ∀ j, ({ (s.setPixels s.readSlot x).publish with main := m } :
      State α O).Occupied j → s.Full j ∨ j=s.readSlot := by
    intro j hj
    rcases hj with (⟨hfirst,_⟩ | ⟨hsecond,hboth⟩) | ⟨hmain,_⟩
    · have hfirst' : j=s.presentSlot := hfirst
      by_cases hone : s.fullCount=1
      · exact Or.inl (Or.inl ⟨hfirst',by omega⟩)
      · rw [if_neg hone] at hturn
        exact Or.inr (hfirst'.trans hturn.symm)
    · have hsecond' : j=s.presentSlot+1 := hsecond
      have hboth' : 2 ≤ s.fullCount+1 := hboth
      rw [if_pos (by omega)] at hturn
      exact Or.inr (hsecond'.trans hturn.symm)
    · have hmain' : m.reads=true := hmain
      rw [hreads] at hmain'
      cases hmain'
  have hheld : ∀ j, s.Full j ∨ j=s.readSlot → (s.slot j).ptr=(s.slot j).ingestBank ∧
      ∀ b, (s.slot j).ptr=some b → s.bankHeld b=true ∧ b≤1 := by
    intro j hj
    rcases hj with hfull | hread
    · exact h.held j (Or.inl hfull)
    · rcases hslot with hmain | hno
      · exact h.held j (Or.inr ⟨hmain,hread⟩)
      · obtain ⟨hnone,hnone'⟩ := h.warmHeaps hno j
        rw [hnone,hnone']
        exact ⟨rfl,fun b hb => by cases hb⟩
  refine ⟨?_,?_,?_,?_,hwarm,?_,?_,?_,?_,?_⟩
  case refine_1 => exact hleft
  case refine_2 =>
    have hnext : (({ (s.setPixels s.readSlot x).publish with main := m } : State α O)).readSlot =
        s.readSlot+1 := rfl
    have hcount' : (({ (s.setPixels s.readSlot x).publish with main := m } :
        State α O)).fullCount=s.fullCount+1 := rfl
    have hfront : (({ (s.setPixels s.readSlot x).publish with main := m } :
        State α O)).presentSlot=s.presentSlot := rfl
    rw [hnext,hcount',hfront,hturn]
    by_cases hone : s.fullCount=1
    · rw [if_pos hone,if_neg (by omega),slot_turns]
    · rw [if_neg hone,if_pos (by omega)]
  case refine_3 =>
    intro hmain
    have hmain' : m.fills=true := hmain
    rw [hfills] at hmain'
    cases hmain'
  case refine_4 => exact fun _ => Nat.le_add_left 1 s.fullCount
  case refine_5 =>
    intro hmain
    have hmain' : m = .claiming := hmain
    rw [hmain'] at hfills
    cases hfills
  case refine_6 =>
    intro hno j
    rw [hptr,hingest]
    exact h.heaps hno j
  case refine_7 =>
    intro hno j
    rw [hptr,hingest]
    exact h.warmHeaps hno j
  case refine_8 =>
    intro j hj
    rw [hptr,hingest]
    exact hheld j (hpublished j hj)
  case refine_9 =>
    intro j b hj hnext
    rw [hptr,hptr]
    intro hb
    rcases hslot with hmain | hno
    · have hused : ∀ i, s.Full i ∨ i=s.readSlot → s.Occupied i := fun i hi =>
        hi.imp id fun hread => ⟨hmain,hread⟩
      exact h.apart j b (hused j (hpublished j hj)) (hused _ (hpublished _ hnext)) hb
    · rw [(h.warmHeaps hno j).1] at hb
      cases hb

theorem State.Laid.apart_of_ne (h : s.Laid c) {i j : Fin 2} (hij : i≠j) (hi : s.Occupied i)
    (hj : s.Occupied j) {b : ℕ} (hb : (s.slot i).ptr=some b) : (s.slot j).ptr≠some b := by
  rcases slot_cases i j with hsame | hnext
  · exact absurd hsame.symm hij
  · subst hnext
    exact h.apart i b hi hj hb

theorem State.Laid.held_release (h : s.Laid c) {i j : Fin 2} (hij : i≠j) (hi : s.Occupied i)
    (hj : s.Occupied j) : ((s.releaseIngestBank i).slot j).ptr =
      ((s.releaseIngestBank i).slot j).ingestBank ∧
      ∀ b, ((s.releaseIngestBank i).slot j).ptr=some b →
        (s.releaseIngestBank i).bankHeld b=true ∧ b≤1 := by
  have hslot : (s.releaseIngestBank i).slot j=s.slot j := Function.update_of_ne hij.symm _ _
  obtain ⟨hptr,hbanks⟩ := h.held j hj
  rw [hslot]
  refine ⟨hptr,fun b hb => ?_⟩
  obtain ⟨hheld,hle⟩ := hbanks b hb
  refine ⟨?_,hle⟩
  unfold releaseIngestBank
  cases hbank : (s.slot i).ingestBank with
  | none => exact hheld
  | some b' =>
    have hother : (s.slot j).ptr≠some b' := by
      refine h.apart_of_ne hij hi hj ?_
      rw [(h.held i hi).1,hbank]
    have hne : b≠b' := by
      rintro rfl
      exact hother hb
    dsimp only
    rw [Function.update_of_ne hne,hheld]

theorem State.releaseIngestBank_ptr (s : State α O) (i j : Fin 2) :
    ((s.releaseIngestBank i).slot j).ptr=(s.slot j).ptr := by
  refine kept_update Slot.ptr ?_ j
  rfl

theorem State.releaseIngestBank_none {i j : Fin 2} (hnone : (s.slot j).ingestBank=none) :
    ((s.releaseIngestBank i).slot j).ingestBank=none := by
  by_cases hij : j=i
  · subst hij
    dsimp only [releaseIngestBank]
    rw [Function.update_self]
  · have hslot : (s.releaseIngestBank i).slot j=s.slot j := Function.update_of_ne hij _ _
    rw [hslot,hnone]

theorem State.Laid.giveUp (h : s.Laid c) (hreads : s.main.reads=true)
    (hnot : s.present ≠ .notStarted) : (s.releaseIngestBank s.readSlot).endReader.Laid c := by
  have hfills : s.main.fills=true := by
    cases hmain : s.main with
    | reading touched => rfl
    | _ =>
      rw [hmain] at hreads
      cases hreads
  have hread : s.Occupied s.readSlot := Or.inr ⟨hreads,rfl⟩
  have hfull : ∀ j, (s.releaseIngestBank s.readSlot).endReader.Occupied j →
      s.Full j ∧ s.readSlot≠j := by
    intro j hj
    have hj' : s.Full j := by
      rcases hj with hfull | ⟨hmain,_⟩
      · exact hfull
      · cases hmain
    refine ⟨hj',?_⟩
    rintro rfl
    exact h.not_full (h.room hfills) hj'
  refine ⟨?_,h.turn,nofun,h.taken,?_,nofun,?_,?_,?_,?_⟩
  case refine_1 =>
    have hbound := h.bound
    exact (Nat.le_add_right _ _).trans hbound
  case refine_2 => exact ⟨fun hno => absurd hno hnot,nofun⟩
  case refine_3 =>
    intro hno j
    exact ⟨(s.releaseIngestBank_ptr _ j).trans (h.heaps hno j).1,
      releaseIngestBank_none (h.heaps hno j).2⟩
  case refine_4 =>
    intro hno
    exact absurd hno hnot
  case refine_5 =>
    intro j hj
    obtain ⟨hj',hne⟩ := hfull j hj
    exact h.held_release hne hread (Or.inl hj')
  case refine_6 =>
    intro j b hj hnext hb
    have hb' : (s.slot j).ptr=some b := (s.releaseIngestBank_ptr _ j).symm.trans hb
    have hapart := h.apart j b (Or.inl (hfull j hj).1) (Or.inl (hfull _ hnext).1) hb'
    intro hsome
    exact hapart ((s.releaseIngestBank_ptr _ _).symm.trans hsome)

theorem State.Laid.release (h : s.Laid c) (hholds : s.present = .releasing) :
    ((s.presentStep c .release)).Laid c := by
  have hstep : s.presentStep c .release =
      { s.releaseIngestBank s.presentSlot with
        presentSlot := s.presentSlot+1
        fullCount := s.fullCount-1
        present := if s.pipelineFatal then .finished else .waiting } := by
    unfold State.presentStep
    rw [hholds]
    rfl
  have hone : 1 ≤ s.fullCount := h.taken (by rw [hholds]; rfl)
  have hbound := h.bound
  have hturn := h.turn
  have hstarted : s.present ≠ .notStarted := by
    rw [hholds]
    exact nofun
  have hfirst : s.Occupied s.presentSlot := Or.inl (Or.inl ⟨rfl,hone⟩)
  have hnext : (if s.pipelineFatal then .finished else .waiting : PresentPc α O) ≠ .notStarted ∧
      (if s.pipelineFatal then .finished else .waiting : PresentPc α O).holds=false := by
    cases s.pipelineFatal
    · exact ⟨nofun,rfl⟩
    · exact ⟨nofun,rfl⟩
  rw [hstep]
  have hsecond : ∀ j, State.Occupied { s.releaseIngestBank s.presentSlot with
        presentSlot := s.presentSlot+1
        fullCount := s.fullCount-1
        present := if s.pipelineFatal then .finished else .waiting } j →
      s.Occupied j ∧ s.presentSlot≠j := by
    intro j hj
    rcases hj with (⟨hj,hcount⟩ | ⟨_,hcount⟩) | ⟨hmain,hj⟩
    · have hj' : j=s.presentSlot+1 := hj
      have hcount' : 1 ≤ s.fullCount-1 := hcount
      rw [hj']
      exact ⟨Or.inl (Or.inr ⟨rfl,by omega⟩),(slot_ne _).symm⟩
    · have hcount' : 2 ≤ s.fullCount-1 := hcount
      omega
    · have hmain' : s.main.reads=true := hmain
      have hj' : j=s.readSlot := hj
      have hroom : s.fullCount≤1 := by
        refine h.room ?_
        cases hpc : s.main with
        | reading touched => rfl
        | _ =>
          rw [hpc] at hmain'
          cases hmain'
      refine ⟨Or.inr ⟨hmain',hj'⟩,?_⟩
      rw [hj',hturn,if_pos (by omega)]
      exact (slot_ne _).symm
  refine ⟨?_,?_,?_,?_,?_,h.claims,?_,?_,?_,?_⟩
  case refine_1 =>
    have hle : s.fullCount-1+s.main.toPrefill≤2 := by omega
    exact hle
  case refine_2 =>
    have hgoal : s.readSlot =
        if s.fullCount-1 = 1 then s.presentSlot+1+1 else s.presentSlot+1 := by
      rw [hturn]
      by_cases hcount : s.fullCount=1
      · rw [if_pos hcount,if_neg (by omega)]
      · rw [if_neg hcount,if_pos (by omega),slot_turns]
    exact hgoal
  case refine_3 =>
    intro hmain
    exact (Nat.sub_le _ _).trans (h.room hmain)
  case refine_4 =>
    intro hyes
    rw [hnext.2] at hyes
    cases hyes
  case refine_5 =>
    exact ⟨fun hno => absurd hno hnext.1,fun hyes => absurd (h.warm.mpr hyes) hstarted⟩
  case refine_6 =>
    intro hno j
    exact ⟨(s.releaseIngestBank_ptr _ j).trans (h.heaps hno j).1,
      releaseIngestBank_none (h.heaps hno j).2⟩
  case refine_7 => exact fun hno => absurd hno hnext.1
  case refine_8 =>
    intro j hj
    obtain ⟨hj',hne⟩ := hsecond j hj
    exact h.held_release hne hfirst hj'
  case refine_9 =>
    intro j b hj hother hb hsome
    have hb' : (s.slot j).ptr=some b := (s.releaseIngestBank_ptr _ j).symm.trans hb
    exact h.apart j b (hsecond j hj).1 (hsecond _ hother).1 hb'
      ((s.releaseIngestBank_ptr _ _).symm.trans hsome)

theorem takeIngestBank_free {reading : Option BankReleaseStatus} {held : ℕ → Bool} {b : ℕ}
    (htake : takeIngestBank reading held=some b) : held b=false := by
  unfold takeIngestBank at htake
  dsimp only at htake
  split at htake
  case h_1 bank hfree =>
    cases htake
    cases reading with
    | none => cases hfree
    | some r =>
      have hfound := List.find?_some hfree
      simpa using (Bool.and_eq_true_iff.mp hfound).2
  case h_2 =>
    have hfound := List.find?_some htake
    simpa using hfound

/-- The slot that is read next is pointed to a bank that was not held, or to its buffer. -/
theorem State.Laid.point (h : s.Laid c) (hroom : s.fullCount≤1)
    (hingest : c.wantStickIngest=true) (hstarted : s.present ≠ .notStarted) {bank : Option ℕ}
    {held : ℕ → Bool} (hfresh : ∀ b, bank=some b → b≤1 ∧ s.bankHeld b=false)
    (hheld : ∀ b, bank=some b ∨ s.bankHeld b=true → held b=true) :
    ({ s with
      bankHeld := held
      slot := Function.update s.slot s.readSlot
        { s.slot s.readSlot with ptr := bank, ingestBank := bank }
      main := .reading false } : State α O).Laid c := by
  have hbound : s.fullCount+0≤2 := by omega
  have hother : ∀ j, j≠s.readSlot → Function.update s.slot s.readSlot
      { s.slot s.readSlot with ptr := bank, ingestBank := bank } j=s.slot j := fun j hj =>
    Function.update_of_ne hj _ _
  have hfulls : ∀ j, s.Full j → ∀ b, (s.slot j).ptr=some b → bank≠some b := by
    intro j hfull b hb hbank
    have hfree := (hfresh b hbank).2
    rw [((h.held j (Or.inl hfull)).2 b hb).1] at hfree
    cases hfree
  refine ⟨hbound,h.turn,fun _ => hroom,h.taken,?_,nofun,?_,?_,?_,?_⟩
  case refine_1 => exact ⟨fun hno => absurd hno hstarted,nofun⟩
  case refine_2 =>
    intro hno
    rw [hingest] at hno
    cases hno
  case refine_3 => exact fun hno => absurd hno hstarted
  case refine_4 =>
    intro j hj
    dsimp only
    by_cases hread : j=s.readSlot
    · rw [hread,Function.update_self]
      exact ⟨rfl,fun b hb => ⟨hheld b (Or.inl hb),(hfresh b hb).1⟩⟩
    · rw [hother j hread]
      rcases hj with hfull | ⟨_,hslot⟩
      · obtain ⟨hptr,hbanks⟩ := h.held j (Or.inl hfull)
        exact ⟨hptr,fun b hb => ⟨hheld b (Or.inr (hbanks b hb).1),(hbanks b hb).2⟩⟩
      · exact absurd hslot hread
  case refine_5 =>
    intro j b hj hnext
    dsimp only
    by_cases hread : j=s.readSlot
    · have hread' : j+1≠s.readSlot := by
        rw [hread]
        exact slot_ne _
      rw [hother _ hread',hread,Function.update_self]
      intro hb hsame
      rcases hnext with hfull | ⟨_,hslot⟩
      · rw [hread] at hfull
        exact hfulls _ hfull b hsame hb
      · exact hread' hslot
    · rw [hother j hread]
      intro hb
      have hfull : s.Full j := by
        rcases hj with hfull | ⟨_,hslot⟩
        · exact hfull
        · exact absurd hslot hread
      by_cases hread' : j+1=s.readSlot
      · rw [hread',Function.update_self]
        exact hfulls j hfull b hb
      · rw [hother _ hread']
        rcases hnext with hfull' | ⟨_,hslot'⟩
        · exact h.apart j b (Or.inl hfull) (Or.inl hfull') hb
        · exact absurd hslot' hread'

open State.SameRing

theorem State.Laid.takeBank (h : s.Laid c) (hmain : s.main = .claiming)
    (reading : Option BankReleaseStatus) : (s.takeBank reading).Laid c := by
  have hroom : s.fullCount≤1 := h.room (by rw [hmain]; rfl)
  have hingest : c.wantStickIngest=true := h.claims hmain
  have hstarted : s.present ≠ .notStarted := by
    intro hno
    have hwarm := h.warm.mp hno
    rw [hmain] at hwarm
    cases hwarm
  unfold State.takeBank
  cases htake : takeIngestBank reading s.bankHeld with
  | none =>
    refine h.point hroom hingest hstarted nofun fun b hb => ?_
    exact hb.resolve_left nofun
  | some bank =>
    dsimp only
    have hfree : s.bankHeld bank=false := takeIngestBank_free htake
    by_cases hmapped : bank≤1
    · rw [if_pos hmapped]
      refine h.point hroom hingest hstarted ?_ ?_
      · intro b hb
        cases hb
        exact ⟨hmapped,hfree⟩
      · intro b hb
        by_cases hsame : b = bank
        · rw [hsame,Function.update_self]
        · rw [Function.update_of_ne hsame]
          exact hb.resolve_left fun hbank => hsame (Option.some.inj hbank).symm
    · rw [if_neg hmapped]
      refine h.same (refl_of rfl rfl rfl rfl rfl) (Nat.zero_le _) nofun nofun nofun
        h.taken ?_ id
      exact ⟨fun hno => absurd hno hstarted,nofun⟩

open AheadLoop

theorem AheadLoop.enter_warms (loop : AheadLoop) {after : MainPc α} (hafter : after.warms=true)
    (hleft : after.toPrefill=0) :
    (loop.enter c after).warms=true ∧ (loop.enter c after).toPrefill=0 := by
  unfold enter
  by_cases hwanted : loop.wanted c=true
  · rw [if_pos hwanted]
    exact ⟨rfl,rfl⟩
  · rw [if_neg hwanted]
    exact ⟨hafter,hleft⟩

theorem AheadLoop.next_warms (loop : AheadLoop) :
    (loop.next c).warms=true ∧ (loop.next c).toPrefill=0 := by
  cases loop with
  | ahead => exact enter_warms _ rfl rfl
  | ahead720 => exact ⟨rfl,rfl⟩

theorem Settings.afterPrefill_warms (c : Settings α O) :
    c.afterPrefill.warms=true ∧ c.afterPrefill.toPrefill=0 :=
  enter_warms _ (next_warms _).1 (next_warms _).2

/-- A main thread that warms up neither fills a slot of the running ring nor claims a bank. -/
theorem MainPc.warms_idle {m : MainPc α} (hwarms : m.warms=true) :
    m.fills=false ∧ m.reads=false ∧ m ≠ .claiming := by
  cases m with
  | prefilling left => exact ⟨rfl,rfl,nofun⟩
  | readingAhead loop left frames => exact ⟨rfl,rfl,nofun⟩
  | sendingAhead loop frames => exact ⟨rfl,rfl,nofun⟩
  | starting => exact ⟨rfl,rfl,nofun⟩
  | _ => cases hwarms

theorem State.Laid.warms (h : s.Laid c) (hsame : s.SameRing t) (hwarms : t.main.warms=true)
    (hbefore : s.main.warms=true) (hleft : t.main.toPrefill=0)
    (hpresent : t.present=s.present) : t.Laid c := by
  obtain ⟨hfills,hreads,hclaims⟩ := MainPc.warms_idle hwarms
  have hno : s.present = .notStarted := h.warm.mpr hbefore
  refine h.same hsame ?_ ?_ ?_ ?_ ?_ ?_ ?_
  · rw [hleft]
    exact Nat.zero_le _
  · rw [hfills]
    exact nofun
  · rw [hreads]
    exact nofun
  · exact fun hmain => absurd hmain hclaims
  · rw [hpresent,hno]
    exact nofun
  · rw [hpresent,hno,hwarms]
    exact ⟨fun _ => rfl,fun _ => rfl⟩
  · intro _
    exact hno

theorem State.touch_untouched (s : State α O) (b : ℕ) :
    (s.touch b).untouched=s.main.untouched := by
  unfold touch
  cases s.main <;> rfl

/-- A send leaves the ring, the threads and everything but the writer as it is, except that it
may write to where a frame is read or prefetched. -/
theorem State.send_frame (s : State α O) (picture : α) (number : ℕ) (repaint : Bool)
    (overlay : Option O) (i : CopyInput) (k : KickInput) :
    s.SameRing (s.send c picture number repaint overlay i k).1 ∧
      (s.send c picture number repaint overlay i k).1.main.untouched=s.main.untouched ∧
      (s.send c picture number repaint overlay i k).1.present=s.present := by
  unfold send
  dsimp only
  cases htarget : (s.fpga.begin i).target c.policy s.localBank i with
  | none => exact ⟨refl_of rfl rfl rfl rfl rfl,rfl,rfl⟩
  | some target =>
    exact ⟨refl_of rfl rfl rfl rfl rfl,touch_untouched _ _,rfl⟩

theorem MainPc.eq_of_untouched {m m' : MainPc α} (h : m'.untouched=m.untouched)
    (hreads : m.reads=false) : m'=m := by
  cases m with
  | reading touched => cases hreads
  | _ =>
    cases m' with
    | reading touched' => cases h
    | _ => exact h

theorem State.Laid.sendAhead (h : s.Laid c) (hwarms : s.main.warms=true) (loop : AheadLoop)
    (number : ℕ) (x : α) (rest : List (ℕ × α)) (overlay : Option O) (i : CopyInput)
    (k : KickInput) : (s.sendAhead c loop number x rest overlay i k).Laid c := by
  obtain ⟨hsame,_,hpresent⟩ := s.send_frame (c := c) x number false overlay i k
  unfold State.sendAhead
  cases hsend : s.send c x number false overlay i k with
  | mk sent ok =>
    rw [hsend] at hsame hpresent
    cases ok with
    | true => exact h.warms (hsame.trans (refl_of rfl rfl rfl rfl rfl)) rfl hwarms rfl hpresent
    | false =>
      exact h.warms (hsame.trans (refl_of rfl rfl rfl rfl rfl))
        (next_warms loop).1 hwarms (next_warms loop).2 hpresent

theorem State.Laid.repaint (h : s.Laid c) (visible : Bool) (overlay : Option O) (i : CopyInput)
    (k : KickInput) : (s.repaint c visible overlay i k).Laid c := by
  unfold State.repaint
  by_cases hrepaints : s.Repaints c visible
  · rw [if_pos hrepaints]
    have hstarted : s.present ≠ .notStarted := by
      intro hno
      have hwarm := h.warm.mp hno
      have hservices := hrepaints.1
      cases hmain : s.main with
      | looping =>
        rw [hmain] at hwarm
        cases hwarm
      | reading touched =>
        rw [hmain] at hwarm
        cases hwarm
      | _ =>
        rw [hmain] at hservices
        cases hservices
    obtain ⟨hsame,hmain,hpresent⟩ := s.send_frame (c := c)
      (c.shown overlay s.lastPresentedFrame) s.lastPresented true overlay i k
    cases hsend : s.send c (c.shown overlay s.lastPresentedFrame) s.lastPresented true overlay i k
      with
    | mk sent ok =>
      rw [hsend] at hsame hmain hpresent
      have hkept : sent.Laid c := by
        refine h.present hsame hmain hstarted ?_ ?_
        · rw [hpresent]
          exact hstarted
        · rw [hpresent]
          exact h.taken
      have hkeeps : ∀ t : State α O, sent.SameRing t → t.main=sent.main →
          t.present=sent.present → t.Laid c := by
        intro t hring hthread hother
        refine hkept.present hring (by rw [hthread]) ?_ ?_ ?_
        · rw [hpresent]
          exact hstarted
        · rw [hother,hpresent]
          exact hstarted
        · rw [hother]
          exact hkept.taken
      cases ok with
      | true => exact hkeeps _ (refl_of rfl rfl rfl rfl rfl) rfl rfl
      | false =>
        dsimp only
        by_cases hstrict : c.strictDdrPipeline=true
        · rw [if_pos hstrict]
          exact hkeeps _ (refl_of rfl rfl rfl rfl rfl) rfl rfl
        · rw [if_neg hstrict]
          exact hkept
  · rw [if_neg hrepaints]
    exact h

theorem State.Laid.started (h : s.Laid c) (hmain : s.main.warms=false) :
    s.present ≠ .notStarted := by
  intro hno
  rw [h.warm.mp hno] at hmain
  cases hmain

theorem State.Laid.endReader (h : s.Laid c) (hmain : s.main.warms=false) :
    s.endReader.Laid c := by
  have hstarted := h.started hmain
  refine h.same (refl_of rfl rfl rfl rfl rfl) (Nat.zero_le _) nofun nofun nofun
    h.taken ?_ id
  exact ⟨fun hno => absurd hno hstarted,nofun⟩

theorem State.Laid.readHeap (h : s.Laid c) (hroom : s.fullCount≤1)
    (hingest : c.wantStickIngest=false) (hstarted : s.present ≠ .notStarted) :
    ({ s with main := .reading false } : State α O).Laid c where
  bound := by
    have hbound : s.fullCount+0≤2 := by omega
    exact hbound
  turn := h.turn
  room _ := hroom
  taken := h.taken
  warm := ⟨fun hno => absurd hno hstarted,nofun⟩
  claims := nofun
  heaps := h.heaps
  warmHeaps := h.warmHeaps
  held j _ := by
    obtain ⟨hptr,hbank⟩ := h.heaps hingest j
    rw [hptr,hbank]
    exact ⟨rfl,nofun⟩
  apart j b _ _ hb := by
    have hb' : (s.slot j).ptr=some b := hb
    rw [(h.heaps hingest j).1] at hb'
    cases hb'

theorem State.Laid.mainStep (h : s.Laid c) (a : Action α O) : (s.mainStep c a).Laid c := by
  unfold State.mainStep
  cases a with
  | prefill delivered =>
    cases hmain : s.main with
    | prefilling left =>
      dsimp only
      have hbound := h.bound
      have hwarms : s.main.warms=true := by rw [hmain]; rfl
      have hno := h.warm.mpr hwarms
      rw [hmain] at hbound
      have hbound' : s.fullCount+left≤2 := hbound
      by_cases hread : 0<left ∧ s.stop=false ∧ delivered=true
      · rw [if_pos hread]
        have hleft : s.fullCount+1+(left-1)≤2 := by
          omega
        refine h.publish (by omega) (Or.inr hno) _ hleft rfl rfl ?_
        exact ⟨fun _ => rfl,fun _ => hno⟩
      · rw [if_neg hread]
        obtain ⟨hwarms',hleft⟩ := c.afterPrefill_warms
        exact h.warms (refl_of rfl rfl rfl rfl rfl) hwarms' hwarms hleft rfl
    | _ => exact h
  | readAhead delivered =>
    cases hmain : s.main with
    | readingAhead loop left frames =>
      dsimp only
      have hwarms : s.main.warms=true := by rw [hmain]; rfl
      by_cases hread : 0<left ∧ s.stop=false ∧ delivered=true
      · rw [if_pos hread]
        exact h.warms (refl_of rfl rfl rfl rfl rfl) rfl hwarms rfl rfl
      · rw [if_neg hread]
        exact h.warms (refl_of rfl rfl rfl rfl rfl) rfl hwarms rfl rfl
    | _ => exact h
  | sendAhead overlay i k =>
    cases hmain : s.main with
    | sendingAhead loop frames =>
      have hwarms : s.main.warms=true := by rw [hmain]; rfl
      have hnext : ({ s with main := loop.next c } : State α O).Laid c :=
        h.warms (refl_of rfl rfl rfl rfl rfl) (next_warms loop).1 hwarms
          (next_warms loop).2 rfl
      cases frames with
      | nil => exact hnext
      | cons first rest =>
        dsimp only
        by_cases hstop : s.stop=true
        · rw [if_pos hstop]
          exact hnext
        · rw [if_neg hstop]
          exact h.sendAhead hwarms loop first.1 first.2 rest overlay i k
    | _ => exact h
  | startThread =>
    cases hmain : s.main with
    | starting =>
      refine h.same (refl_of rfl rfl rfl rfl rfl) (Nat.zero_le _) nofun nofun nofun
        nofun ?_ nofun
      exact ⟨nofun,nofun⟩
    | _ => exact h
  | repaint visible overlay i k => exact h.repaint visible overlay i k
  | seek =>
    cases hmain : s.main with
    | looping => exact h.endReader (by rw [hmain]; rfl)
    | _ => exact h
  | claim =>
    cases hmain : s.main with
    | looping =>
      have hwarms : s.main.warms=false := by rw [hmain]; rfl
      by_cases hstop : s.stop=true ∨ s.pipelineFatal=true
      · rw [if_pos hstop]
        exact h.endReader hwarms
      · rw [if_neg hstop]
        by_cases hroom : s.fullCount<2
        · rw [if_pos hroom]
          have hle : s.fullCount≤1 := by omega
          cases hingest : c.wantStickIngest with
          | true =>
            refine h.same (refl_of rfl rfl rfl rfl rfl) (Nat.zero_le _)
              (fun _ => hle) nofun (fun _ => hingest) h.taken ?_ id
            exact ⟨fun hno => absurd hno (h.started hwarms),nofun⟩
          | false => exact h.readHeap hle hingest (h.started hwarms)
        · rw [if_neg hroom]
          exact h
    | _ => exact h
  | takeBank reading =>
    cases hmain : s.main with
    | claiming => exact h.takeBank hmain reading
    | _ => exact h
  | readSome pixels =>
    cases hmain : s.main with
    | reading touched =>
      have hstarted : s.present ≠ .notStarted := h.started (by rw [hmain]; rfl)
      exact h.present (s.sameRing_setPixels _ _) rfl hstarted hstarted h.taken
    | _ => exact h
  | readEnd full pixels =>
    cases hmain : s.main with
    | reading touched =>
      dsimp only
      have hreads : s.main.reads=true := by rw [hmain]; rfl
      have hroom : s.fullCount≤1 := h.room (by rw [hmain]; rfl)
      have hstarted : s.present ≠ .notStarted := h.started (by rw [hmain]; rfl)
      by_cases hends : s.pipelineFatal=true ∨ full=false
      · rw [if_pos hends]
        exact h.giveUp hreads hstarted
      · rw [if_neg hends]
        refine h.publish hroom (Or.inl hreads) _ ?_ rfl rfl ?_
        · exact Nat.succ_le_succ hroom
        · exact ⟨fun hno => absurd hno hstarted,nofun⟩
    | _ => exact h
  | _ => exact h

theorem State.Laid.prepare (h : s.Laid c) (hpresent : s.present = .presenting)
    (overlay : Option O) (live : Bool) (i : CopyInput) (k : KickInput) :
    (s.prepare c overlay live i k).Laid c := by
  have hstarted : s.present ≠ .notStarted := by
    rw [hpresent]
    exact nofun
  have hone : 1 ≤ s.fullCount := h.taken (by rw [hpresent]; rfl)
  unfold State.prepare
  dsimp only
  generalize hpainted : s.setPixels s.presentSlot
    (c.shown overlay (c.prep (s.pixels s.presentSlot)))=painted
  have hring : s.SameRing painted := by
    rw [← hpainted]
    exact s.sameRing_setPixels _ _
  have hmain : painted.main=s.main := by
    rw [← hpainted]
    rfl
  have hcommit : ∀ b after number drawn, (painted.commit b after number drawn k).Laid c := by
    intro b after number drawn
    refine h.present (hring.trans (refl_of rfl rfl rfl rfl rfl)) ?_ hstarted nofun
      fun _ => hone
    exact congrArg MainPc.untouched hmain
  cases painted.ingested c with
  | some b => exact hcommit _ _ _ _
  | none =>
    cases painted.prefetched with
    | some b => exact hcommit _ _ _ _
    | none =>
      unfold copyFrame
      dsimp only
      cases htarget : (painted.fpga.begin i).target c.policy painted.localBank i with
      | none =>
        refine h.present (hring.trans (refl_of rfl rfl rfl rfl rfl)) ?_ hstarted
          nofun fun _ => hone
        exact congrArg MainPc.untouched hmain
      | some target =>
        refine h.present (hring.trans (refl_of rfl rfl rfl rfl rfl)) ?_ hstarted
          nofun fun _ => hone
        exact (touch_untouched _ _).trans (congrArg MainPc.untouched hmain)

theorem State.Laid.prefetch (h : s.Laid c) {ok : Bool} {drawn : Drawn α O}
    (hpresent : s.present = .kicked ok drawn) (visible : Bool)
    (reading : Option BankReleaseStatus) : (s.prefetch c visible reading).Laid c := by
  have hstarted : s.present ≠ .notStarted := by rw [hpresent]; exact nofun
  unfold State.prefetch
  by_cases hmay : s.overlapBank=none ∧ c.wantStickIngest=false ∧ visible=false ∧
      c.hd=true ∧ c.bank960=false ∧ 2 ≤ s.fullCount
  · rw [if_pos hmay]
    cases reading with
    | none => exact h
    | some r =>
      dsimp only
      cases r.freeBank with
      | none => exact h
      | some dest =>
        dsimp only
        by_cases hdisplayed : dest=r.dispBank.toNat
        · rw [if_pos hdisplayed]
          exact h
        · rw [if_neg hdisplayed]
          exact h.present (refl_of rfl rfl rfl rfl rfl)
            (touch_untouched _ _) hstarted hstarted h.taken
  · rw [if_neg hmay]
    exact h

theorem State.Laid.finish (h : s.Laid c) {ok : Bool} {drawn : Drawn α O}
    (hpresent : s.present = .kicked ok drawn) (visible : Bool) :
    (s.finish c ok drawn visible).Laid c := by
  have hstarted : s.present ≠ .notStarted := by rw [hpresent]; exact nofun
  have hone : 1 ≤ s.fullCount := h.taken (by rw [hpresent]; rfl)
  unfold State.finish
  generalize hrestored : (if drawn.overlay.isSome = true then
    s.setPixels s.presentSlot drawn.before else s)=restored
  have hkept : s.SameRing restored ∧ restored.main=s.main := by
    rw [← hrestored]
    by_cases hdrawn : drawn.overlay.isSome=true
    · rw [if_pos hdrawn]
      exact ⟨s.sameRing_setPixels _ _,rfl⟩
    · rw [if_neg hdrawn]
      exact ⟨refl_of rfl rfl rfl rfl rfl,rfl⟩
  have hmain : restored.main.untouched=s.main.untouched := congrArg _ hkept.2
  cases ok with
  | true =>
    exact h.present (hkept.1.trans (refl_of rfl rfl rfl rfl rfl)) hmain hstarted
      nofun fun _ => hone
  | false =>
    exact h.present (hkept.1.trans (refl_of rfl rfl rfl rfl rfl)) hmain hstarted
      nofun fun _ => hone

theorem State.Laid.presentStep (h : s.Laid c) (a : Action α O) : (s.presentStep c a).Laid c := by
  have hstays : ∀ t : State α O, s.SameRing t → t.main=s.main → s.present ≠ .notStarted →
      t.present ≠ .notStarted → (t.present.holds=true → 1 ≤ s.fullCount) → t.Laid c :=
    fun t hring hmain hstarted hpresent htaken =>
      h.present hring (by rw [hmain]) hstarted hpresent htaken
  cases a with
  | take =>
    unfold State.presentStep
    cases hpresent : s.present with
    | waiting =>
      have hstarted : s.present ≠ .notStarted := by rw [hpresent]; exact nofun
      by_cases hempty : s.fullCount=0
      · rw [if_pos hempty]
        by_cases hends : s.readerEof=true ∨ s.stop=true ∨ s.pipelineFatal = true
        · rw [if_pos hends]
          exact hstays _ (refl_of rfl rfl rfl rfl rfl) rfl hstarted nofun nofun
        · rw [if_neg hends]
          exact h
      · rw [if_neg hempty]
        exact hstays _ (refl_of rfl rfl rfl rfl rfl) rfl hstarted nofun
          fun _ => by omega
    | _ => exact h
  | gate action =>
    unfold State.presentStep
    cases hpresent : s.present with
    | gating =>
      dsimp only
      have hstarted : s.present ≠ .notStarted := by rw [hpresent]; exact nofun
      have hone : 1 ≤ s.fullCount := h.taken (by rw [hpresent]; rfl)
      have hreleases : ({ s with present := .releasing } : State α O).Laid c :=
        hstays _ (refl_of rfl rfl rfl rfl rfl) rfl hstarted nofun fun _ => hone
      have hpresents : ({ s with present := .presenting } : State α O).Laid c :=
        hstays _ (refl_of rfl rfl rfl rfl rfl) rfl hstarted nofun fun _ => hone
      by_cases hstrict : c.strictDdrPipeline=true
      · rw [if_pos hstrict]
        by_cases hends : s.stop=true ∨ s.pipelineFatal=true
        · rw [if_pos hends]
          exact hreleases
        · rw [if_neg hends]
          cases action with
          | hold => exact h
          | drop => exact hreleases
          | present => exact hpresents
      · rw [if_neg hstrict]
        exact hpresents
    | _ => exact h
  | prepare overlay live i k =>
    unfold State.presentStep
    cases hpresent : s.present with
    | presenting => exact h.prepare hpresent overlay live i k
    | _ => exact h
  | ring k =>
    unfold State.presentStep
    cases hpresent : s.present with
    | copied b sample drawn =>
      have hstarted : s.present ≠ .notStarted := by rw [hpresent]; exact nofun
      have hone : 1 ≤ s.fullCount := h.taken (by rw [hpresent]; rfl)
      exact hstays _ (refl_of rfl rfl rfl rfl rfl) rfl hstarted nofun fun _ => hone
    | _ => exact h
  | prefetch visible reading =>
    unfold State.presentStep
    cases hpresent : s.present with
    | kicked ok drawn =>
      cases ok with
      | false => exact h
      | true =>
        dsimp only
        by_cases hlive : drawn.live=true
        · rw [if_pos hlive]
          exact h.prefetch hpresent visible reading
        · rw [if_neg hlive]
          exact h
    | _ => exact h
  | finish visible =>
    unfold State.presentStep
    cases hpresent : s.present with
    | kicked ok drawn => exact h.finish hpresent visible
    | _ => exact h
  | release =>
    cases hpresent : s.present with
    | releasing => exact h.release hpresent
    | _ =>
      unfold State.presentStep
      rw [hpresent]
      exact h
  | _ => exact h

/-- Every step keeps the ring laid out. -/
theorem State.Laid.step (h : s.Laid c) (a : Action α O) : (s.step c a).Laid c := by
  have hmain := h.mainStep a
  have hpresent := h.presentStep a
  cases a with
  | requestStop =>
    exact { h with }
  | _ => first | exact hmain | exact hpresent

theorem Settings.startMain_warms (c : Settings α O) :
    c.startMain.warms=true ∧ c.startMain.toPrefill≤2 := by
  unfold Settings.startMain
  by_cases hprefills : c.prefills=true
  · rw [if_pos hprefills]
    exact ⟨rfl,Nat.le_refl 2⟩
  · rw [if_neg hprefills,c.afterPrefill_warms.2]
    exact ⟨c.afterPrefill_warms.1,Nat.zero_le 2⟩

theorem State.laid_start (c : Settings α O) (fpga : Fpga α O) (heap : Fin 2 → α) (last : α)
    (localBank : ℕ) : (State.start c fpga heap last localBank).Laid c := by
  obtain ⟨hwarms,hleft⟩ := c.startMain_warms
  obtain ⟨_,hreads,hclaims⟩ := MainPc.warms_idle hwarms
  have hempty : ∀ j, ¬(start c fpga heap last localBank).Occupied j := by
    rintro j ((⟨_,hcount⟩ | ⟨_,hcount⟩) | ⟨hmain,_⟩)
    · cases hcount
    · cases hcount
    · have hmain' : c.startMain.reads=true := hmain
      rw [hreads] at hmain'
      cases hmain'
  refine ⟨?_,rfl,?_,nofun,?_,?_,?_,?_,?_,?_⟩
  · have hbound : 0+c.startMain.toPrefill≤2 := by omega
    exact hbound
  · exact fun _ => Nat.zero_le 1
  · exact ⟨fun _ => hwarms,fun _ => rfl⟩
  · exact fun hmain => absurd hmain hclaims
  · exact fun _ _ => ⟨rfl,rfl⟩
  · exact fun _ _ => ⟨rfl,rfl⟩
  · exact fun j hj => absurd hj (hempty j)
  · exact fun j _ hj => absurd hj (hempty j)

end Misterplex.Pipeline
