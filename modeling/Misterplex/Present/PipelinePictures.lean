import Misterplex.Present.PipelineOrder

/-!
# What the banks of the pipelined presenter hold

One lemma for each thing that a step does to the pictures: a bank is written, a
frame is read, prepared, kicked, prefetched, restored or freed.
-/

namespace Misterplex.Pipeline

open BankRelease
open Present (AvAction)

variable {α O : Type*} {c : Settings α O} {s t : State α O}

open State

theorem State.pixels_congr {j : Fin 2} (hslot : t.slot j=s.slot j)
    (hbank : ∀ b, (s.slot j).ptr=some b → t.fpga.bank b=s.fpga.bank b) :
    t.pixels j=s.pixels j := by
  unfold pixels
  rw [hslot]
  cases hptr : (s.slot j).ptr with
  | none => rfl
  | some b => exact hbank b hptr

theorem State.pixels_setPixels_self (s : State α O) (j : Fin 2) (x : α) :
    (s.setPixels j x).pixels j=x := by
  unfold pixels setPixels
  dsimp only
  rw [Function.update_self]
  cases hptr : (s.slot j).ptr with
  | none => rfl
  | some b => exact Function.update_self _ _ _

theorem State.pixels_setPixels_ne {i j : Fin 2} (hij : i≠j) (x : α)
    (hapart : ∀ b, (s.slot j).ptr=some b → (s.slot i).ptr≠some b) :
    (s.setPixels j x).pixels i=s.pixels i := by
  have hslot : (s.setPixels j x).slot i=s.slot i := Function.update_of_ne hij _ _
  refine pixels_congr hslot fun b hb => ?_
  unfold setPixels
  cases hptr : (s.slot j).ptr with
  | none => rfl
  | some b' =>
    have hne : b≠b' := by
      rintro rfl
      exact hapart b hptr hb
    exact Function.update_of_ne hne _ _

theorem State.bank_setPixels {j : Fin 2} (x : α) {b : ℕ} (hb : (s.slot j).ptr≠some b) :
    (s.setPixels j x).fpga.bank b=s.fpga.bank b := by
  unfold setPixels
  cases hptr : (s.slot j).ptr with
  | none => rfl
  | some b' =>
    have hne : b≠b' := by
      rintro rfl
      exact hb hptr
    exact Function.update_of_ne hne _ _

variable {drawn : Drawn α O}

theorem State.Laid.full_of_drawn (h : s.Laid c)
    (hdrawn : s.present.drawn=some drawn) : s.Full s.presentSlot := by
  refine Or.inl ⟨rfl,h.taken ?_⟩
  cases hpc : s.present with
  | copied b sample d => rfl
  | kicked ok d => rfl
  | _ =>
    rw [hpc] at hdrawn
    cases hdrawn

theorem PresentPc.drawn_of_copied {p : PresentPc α O} {b : ℕ} {sample : Option BankReleaseStatus}
    (h : p = .copied b sample drawn) : p.drawn=some drawn := by
  rw [h]
  rfl

theorem State.Exact.congr (h : s.Exact c) (hlaid : s.Laid c)
    (hbank : t.fpga.bank=s.fpga.bank) (hshows : t.fpga.Shows c)
    (hslot : ∀ j, s.Full j → t.slot j=s.slot j) (hpresent : t.presentSlot=s.presentSlot)
    (hcount : t.fullCount=s.fullCount)
    (hoverlap : t.overlapBank=s.overlapBank ∧ t.overlapKept=s.overlapKept)
    (hprepared : t.present.prepared=s.present.prepared)
    (hdrawn : ∀ drawn, t.present.drawn=some drawn → s.present.drawn=some drawn)
    (hcopy : ∀ b sample drawn, t.present = .copied b sample drawn →
      s.present = .copied b sample drawn ∧ t.readBank≠some b)
    (hcold : t.present = .notStarted → t.overlapBank=none ∧ t.lastPresentedFrameValid=false)
    (hlast : t.lastPresentedFrameValid=true →
      t.lastPresentedFrame=c.prep (c.src t.lastPresented))
    (hframes : ∀ frame∈t.main.frames, frame.2=c.src frame.1)
    (huntouched : t.main ≠ .reading true) : t.Exact c := by
  have hraw : ∀ j, t.Raw j ↔ s.Raw j := by
    intro j
    unfold State.Raw
    rw [hpresent,hcount,hprepared]
  have hnext : t.nextRaw=s.nextRaw := by
    unfold nextRaw
    rw [hpresent,hprepared]
  have hpixels : ∀ j, s.Full j → t.pixels j=s.pixels j := fun j hj =>
    pixels_congr (hslot j hj) fun b _ => congrFun hbank b
  refine ⟨hshows,hframes,?_,?_,?_,?_,hcold,hlast,huntouched⟩
  · intro j hj
    have hj' := (hraw j).mp hj
    rw [hpixels j hj'.waits.full,hslot j hj'.waits.full]
    exact h.raw j hj'
  · intro drawn hd
    have hd' := hdrawn drawn hd
    have hfull := hlaid.full_of_drawn hd'
    rw [hpresent,hpixels _ hfull,hslot _ hfull]
    exact h.drawn drawn hd'
  · intro b sample drawn hcopied
    obtain ⟨hcopied',hread⟩ := hcopy b sample drawn hcopied
    rw [hbank]
    exact ⟨(h.copy b sample drawn hcopied').1,hread⟩
  · intro b hb
    rw [hoverlap.1] at hb
    obtain ⟨hingest,hnextRaw,hpicture⟩ := h.prefetch b hb
    rw [hnext,hraw,hoverlap.2,hbank,hslot _ hnextRaw.waits.full]
    exact ⟨hingest,hnextRaw,hpicture⟩

theorem State.Exact.writeBank (h : s.Exact c) {b : ℕ} (hfree : ¬s.InUse b)
    (hunlocked : s.present.locked=false) (x : α) : (s.writeBank b x).Exact c := by
  have hbank : ∀ b', b'≠b → (s.writeBank b x).fpga.bank b'=s.fpga.bank b' := fun b' hne =>
    Function.update_of_ne hne _ _
  have hnone : s.present.drawn=none := by
    cases hpc : s.present with
    | copied b' sample d =>
      rw [hpc] at hunlocked
      cases hunlocked
    | kicked ok d =>
      rw [hpc] at hunlocked
      cases hunlocked
    | _ => rfl
  have hframes : (s.touch b).frames=s.main.frames := by
    unfold touch
    cases s.main <;> rfl
  refine ⟨h.shows,?_,?_,?_,?_,?_,h.cold,h.last,?_⟩
  · have hgoal : ∀ frame∈(s.touch b).frames, frame.2=c.src frame.1 := by
      rw [hframes]
      exact h.ahead
    exact hgoal
  · intro j hj
    have hj' : s.Raw j := hj
    have hpixels : (s.writeBank b x).pixels j=s.pixels j := by
      refine pixels_congr rfl fun b' hb' => hbank b' ?_
      rintro rfl
      exact hfree (Or.inl ⟨j,hj'.waits,hb'⟩)
    rw [hpixels]
    exact h.raw j hj'
  · intro drawn hd
    have hd' : s.present.drawn=some drawn := hd
    rw [hnone] at hd'
    cases hd'
  · intro b' sample drawn hcopied
    have hd' := PresentPc.drawn_of_copied hcopied
    have hd'' : s.present.drawn=some drawn := hd'
    rw [hnone] at hd''
    cases hd''
  · intro b' hb'
    obtain ⟨hingest,hraw,hpicture⟩ := h.prefetch b' hb'
    refine ⟨hingest,hraw,fun hkept => ?_⟩
    obtain ⟨hkept',hother⟩ := Bool.and_eq_true_iff.mp hkept
    have hne : b'≠b := by
      rintro rfl
      have hb'' : s.overlapBank=some b' := hb'
      rw [hb''] at hother
      simp at hother
    rw [hbank b' hne]
    exact hpicture hkept'
  · have hgoal : s.touch b ≠ .reading true := by
      unfold touch
      have huntouched := h.untouched
      cases hmain : s.main with
      | reading touched =>
        rw [hmain] at huntouched
        have hread : (s.slot s.readSlot).ptr≠some b := by
          intro hptr
          refine hfree (Or.inr ?_)
          unfold readBank
          rw [hmain]
          exact hptr
        cases touched with
        | true => exact absurd rfl huntouched
        | false => simpa using hread
      | _ => exact nofun
    exact hgoal

theorem State.Exact.setRead (h : s.Exact c) (hlaid : s.Laid c) (hroom : s.fullCount≤1)
    (hread : s.main.reads=true ∨ s.present = .notStarted) (x : α) :
    (s.setPixels s.readSlot x).Exact c := by
  have hne : ∀ j, s.Full j → j≠s.readSlot := by
    rintro j hj rfl
    exact hlaid.not_full hroom hj
  have hapart : ∀ j, s.Full j → ∀ b, (s.slot s.readSlot).ptr=some b →
      (s.slot j).ptr≠some b := by
    intro j hj b hb
    rcases hread with hmain | hno
    · exact hlaid.apart_of_ne (hne j hj).symm (Or.inr ⟨hmain,rfl⟩) (Or.inl hj) hb
    · rw [(hlaid.warmHeaps hno _).1] at hb
      cases hb
  have hslot : ∀ j, s.Full j → (s.setPixels s.readSlot x).slot j=s.slot j := fun j hj =>
    Function.update_of_ne (hne j hj) _ _
  have hpixels : ∀ j, s.Full j → (s.setPixels s.readSlot x).pixels j=s.pixels j := fun j hj =>
    pixels_setPixels_ne (hne j hj) x (hapart j hj)
  have hptr := (s.sameRing_setPixels s.readSlot x).ptr s.readSlot
  refine ⟨?_,h.ahead,?_,?_,?_,?_,h.cold,h.last,h.untouched⟩
  · intro k hk
    rw [kicks_setPixels] at hk
    exact h.shows k hk
  · intro j hj
    have hj' : s.Raw j := hj
    rw [hpixels j hj'.waits.full,hslot j hj'.waits.full]
    exact h.raw j hj'
  · intro drawn hd
    have hfull := hlaid.full_of_drawn hd
    have hfront : (s.setPixels s.readSlot x).presentSlot=s.presentSlot := rfl
    rw [hfront,hpixels _ hfull,hslot _ hfull]
    exact h.drawn drawn hd
  · intro b sample drawn hcopied
    have hcopied' : s.present = .copied b sample drawn := hcopied
    obtain ⟨hpicture,hother⟩ := h.copy b sample drawn hcopied'
    have hstarted : s.main.reads=true := hread.resolve_right fun hno => by
      rw [hcopied'] at hno
      cases hno
    have hbank : (s.slot s.readSlot).ptr≠some b := by
      intro hb
      apply hother
      unfold readBank
      cases hmain : s.main with
      | reading touched => exact hb
      | _ =>
        rw [hmain] at hstarted
        cases hstarted
    rw [bank_setPixels x hbank]
    refine ⟨hpicture,?_⟩
    have hsame : (s.setPixels s.readSlot x).readBank=s.readBank := by
      have hmain' : (s.setPixels s.readSlot x).main=s.main := rfl
      have hread' : (s.setPixels s.readSlot x).readSlot=s.readSlot := rfl
      unfold readBank
      rw [hmain',hread',hptr]
    rw [hsame]
    exact hother
  · intro b hb
    obtain ⟨hingest,hraw,hpicture⟩ := h.prefetch b hb
    refine ⟨hingest,hraw,fun hkept => ?_⟩
    have hheap : (s.slot s.readSlot).ptr≠some b := by
      rw [(hlaid.heaps hingest.2 _).1]
      exact nofun
    have hnext : (s.setPixels s.readSlot x).nextRaw=s.nextRaw := rfl
    rw [bank_setPixels x hheap,hnext,hslot _ hraw.waits.full]
    exact hpicture hkept

theorem State.Exact.publish (h : s.Exact c) (hlaid : s.Laid c) (hroom : s.fullCount≤1)
    (hpixels : s.pixels s.readSlot=c.src (s.frameIndex+1)) {m : MainPc α}
    (hframes : m.frames=[]) (hreads : m.reads=false) :
    ({ s.publish with main := m } : State α O).Exact c := by
  have hturn := hlaid.turn
  have hne : ∀ j, s.Full j → j≠s.readSlot := by
    rintro j hj rfl
    exact hlaid.not_full hroom hj
  have hslot : ∀ j, s.Full j → s.publish.slot j=s.slot j := fun j hj =>
    Function.update_of_ne (hne j hj) _ _
  have hself : s.publish.slot s.readSlot =
      { s.slot s.readSlot with frameIndex := s.frameIndex+1 } := Function.update_self _ _ _
  have hsame : ∀ j, s.Full j → ({ s.publish with main := m } : State α O).pixels j=s.pixels j :=
    fun j hj => pixels_congr (hslot j hj) fun _ _ => rfl
  have hraw : ∀ j, ({ s.publish with main := m } : State α O).Raw j → s.Raw j ∨ j=s.readSlot := by
    intro j hj
    rcases hj with ⟨hfirst,hone,hpresent⟩ | ⟨hsecond,hboth⟩
    · have hfirst' : j=s.presentSlot := hfirst
      by_cases hcount : s.fullCount=1
      · exact Or.inl (Or.inl ⟨hfirst',by omega,hpresent⟩)
      · rw [if_neg hcount] at hturn
        exact Or.inr (hfirst'.trans hturn.symm)
    · have hsecond' : j=s.presentSlot+1 := hsecond
      have hboth' : 2 ≤ s.fullCount+1 := hboth
      rw [if_pos (by omega)] at hturn
      exact Or.inr (hsecond'.trans hturn.symm)
  have hmore : ∀ j, s.Raw j → ({ s.publish with main := m } : State α O).Raw j := by
    intro j hj
    rcases hj with ⟨hfirst,hone,hpresent⟩ | ⟨hsecond,hboth⟩
    · exact Or.inl ⟨hfirst,hone.trans (Nat.le_succ _),hpresent⟩
    · exact Or.inr ⟨hsecond,hboth.trans (Nat.le_succ _)⟩
  have hnoread : ∀ b, ({ s.publish with main := m } : State α O).readBank≠some b := by
    cases hmain : m with
    | reading touched =>
      rw [hmain] at hreads
      cases hreads
    | _ => exact nofun
  refine ⟨h.shows,?_,?_,?_,?_,?_,h.cold,h.last,?_⟩
  · intro frame hframe
    have hframe' : frame∈m.frames := hframe
    rw [hframes] at hframe'
    cases hframe'
  · intro j hj
    rcases hraw j hj with hold | rfl
    · have hnumber : ({ s.publish with main := m } : State α O).slot j=s.slot j :=
        hslot j hold.waits.full
      rw [hsame j hold.waits.full,hnumber]
      exact h.raw j hold
    · have hnumber : ({ s.publish with main := m } : State α O).slot s.readSlot =
          { s.slot s.readSlot with frameIndex := s.frameIndex+1 } := hself
      have hread : ({ s.publish with main := m } : State α O).pixels s.readSlot =
          s.pixels s.readSlot := by
        unfold pixels
        rw [hnumber]
        rfl
      rw [hread,hnumber,hpixels]
  · intro drawn hd
    have hfull := hlaid.full_of_drawn hd
    have hfront : ({ s.publish with main := m } : State α O).presentSlot=s.presentSlot := rfl
    have hnumber : ({ s.publish with main := m } : State α O).slot s.presentSlot =
        s.slot s.presentSlot := hslot _ hfull
    rw [hfront,hsame _ hfull,hnumber]
    exact h.drawn drawn hd
  · intro b sample drawn hcopied
    exact ⟨(h.copy b sample drawn hcopied).1,hnoread b⟩
  · intro b hb
    obtain ⟨hingest,hnext,hpicture⟩ := h.prefetch b hb
    have hsameNext : ({ s.publish with main := m } : State α O).nextRaw=s.nextRaw := rfl
    have hnumber : ({ s.publish with main := m } : State α O).slot s.nextRaw =
        s.slot s.nextRaw := hslot _ hnext.waits.full
    rw [hsameNext,hnumber]
    exact ⟨hingest,hmore _ hnext,hpicture⟩
  · rintro hmain
    have hmain' : m = .reading true := hmain
    rw [hmain'] at hreads
    cases hreads

theorem State.Exact.prepared (h : s.Exact c) (hlaid : s.Laid c)
    (hpresenting : s.present = .presenting) (hshows : t.fpga.Shows c)
    (hmain : t.main.untouched=s.main.untouched ∧ t.main ≠ .reading true)
    (hpresent : t.presentSlot=s.presentSlot) (hcount : t.fullCount=s.fullCount)
    (hnumber : ∀ j, (t.slot j).frameIndex=(s.slot j).frameIndex)
    (hnext : 2 ≤ s.fullCount → t.pixels (s.presentSlot+1)=s.pixels (s.presentSlot+1))
    (hoverlap : t.overlapBank=none)
    (hlast : t.lastPresentedFrameValid=s.lastPresentedFrameValid ∧
      t.lastPresentedFrame=s.lastPresentedFrame ∧ t.lastPresented=s.lastPresented)
    (hprepared : t.present.prepared=true)
    (hdrawn : ∀ drawn, t.present.drawn=some drawn →
      drawn.before=c.prep (s.pixels s.presentSlot) ∧
        t.pixels s.presentSlot=c.shown drawn.overlay drawn.before)
    (hcopy : ∀ b sample drawn, t.present = .copied b sample drawn →
      t.fpga.bank b=c.shown drawn.overlay drawn.before ∧ t.readBank≠some b) : t.Exact c := by
  have hone : 1 ≤ s.fullCount := hlaid.taken (by rw [hpresenting]; rfl)
  have hfront : s.pixels s.presentSlot=c.src (s.slot s.presentSlot).frameIndex :=
    h.raw _ (Or.inl ⟨rfl,hone,by rw [hpresenting]; rfl⟩)
  have hwarms : t.main.warms=false := by
    have hstarted : s.present ≠ .notStarted := by rw [hpresenting]; exact nofun
    rw [(MainPc.stage_eq hmain.1).1]
    cases hcold : s.main.warms with
    | false => rfl
    | true => exact absurd (hlaid.warm.mpr hcold) hstarted
  refine ⟨hshows,?_,?_,?_,hcopy,?_,?_,?_,hmain.2⟩
  · rw [MainPc.frames_nil hwarms]
    exact nofun
  · intro j hj
    rcases hj with ⟨_,_,hno⟩ | ⟨hj,htwo⟩
    · rw [hprepared] at hno
      cases hno
    · rw [hpresent] at hj
      rw [hcount] at htwo
      rw [hj,hnext htwo,hnumber]
      exact h.raw _ (Or.inr ⟨rfl,htwo⟩)
  · intro drawn hd
    obtain ⟨hbefore,hpixels⟩ := hdrawn drawn hd
    rw [hpresent,hnumber,hbefore,hfront]
    rw [hbefore,hfront] at hpixels
    exact ⟨rfl,hpixels⟩
  · intro b hb
    rw [hoverlap] at hb
    cases hb
  · intro hno
    rw [hno] at hprepared
    cases hprepared
  · intro hvalid
    rw [hlast.1] at hvalid
    rw [hlast.2.1,hlast.2.2]
    exact h.last hvalid

theorem State.Exact.prefetched (h : s.Exact c) (hlaid : s.Laid c) {ok : Bool}
    (hkicked : s.present = .kicked ok drawn)
    (hhd : c.hd=true) (hingest : c.wantStickIngest=false) (htwo : 2 ≤ s.fullCount) (dest : ℕ) :
    ({ s.writeBank dest (c.prep (s.pixels (s.presentSlot+1))) with
      overlapBank := some dest
      overlapKept := true
      localBank := dest } : State α O).Exact c := by
  have hheaps := fun j => (hlaid.heaps hingest j).1
  have hsame : ∀ j, ({ s.writeBank dest (c.prep (s.pixels (s.presentSlot+1))) with
      overlapBank := some dest
      overlapKept := true
      localBank := dest } : State α O).pixels j=s.pixels j := fun j =>
    pixels_congr rfl fun b hb => by
      rw [hheaps j] at hb
      cases hb
  have hraw : s.Raw (s.presentSlot+1) := Or.inr ⟨rfl,htwo⟩
  have hframes : (s.touch dest).frames=s.main.frames := by
    unfold touch
    cases s.main <;> rfl
  refine ⟨h.shows,?_,?_,?_,?_,?_,?_,h.last,?_⟩
  · have hgoal : ∀ frame∈(s.touch dest).frames, frame.2=c.src frame.1 := by
      rw [hframes]
      exact h.ahead
    exact hgoal
  · intro j hj
    rw [hsame j]
    exact h.raw j hj
  · intro drawn' hd
    have hfront := h.drawn drawn' hd
    rw [hsame]
    exact hfront
  · intro b sample drawn' hcopied
    have hcopied' : s.present = .copied b sample drawn' := hcopied
    rw [hkicked] at hcopied'
    cases hcopied'
  · intro b hb
    cases hb
    have hnext : s.nextRaw=s.presentSlot+1 := by
      unfold nextRaw
      rw [hkicked]
      rfl
    have hgoal : (c.hd=true ∧ c.wantStickIngest=false) ∧ s.Raw s.nextRaw ∧
        (true=true → (s.fpga.write dest (c.prep (s.pixels (s.presentSlot+1)))).bank dest =
          c.prep (c.src (s.slot s.nextRaw).frameIndex)) := by
      rw [hnext]
      refine ⟨⟨hhd,hingest⟩,hraw,fun _ => ?_⟩
      rw [← h.raw _ hraw]
      exact Function.update_self _ _ _
    exact hgoal
  · intro hno
    have hno' : s.present = .notStarted := hno
    rw [hkicked] at hno'
    cases hno'
  · have hgoal : s.touch dest ≠ .reading true := by
      unfold touch
      have huntouched := h.untouched
      cases hmain : s.main with
      | reading touched =>
        rw [hmain] at huntouched
        rw [hheaps]
        cases touched with
        | true => exact absurd rfl huntouched
        | false => simp
      | _ => exact nofun
    exact hgoal

theorem State.Exact.finish (h : s.Exact c) (hlaid : s.Laid c) {ok : Bool}
    (hkicked : s.present = .kicked ok drawn) (visible : Bool) :
    (s.finish c ok drawn visible).Exact c := by
  have hd : s.present.drawn=some drawn := by rw [hkicked]; rfl
  obtain ⟨hbefore,hpixels⟩ := h.drawn drawn hd
  have hfull := hlaid.full_of_drawn hd
  unfold State.finish
  generalize hrestored : (if drawn.overlay.isSome = true then
    s.setPixels s.presentSlot drawn.before else s)=restored
  have hfront : restored.pixels s.presentSlot=drawn.before := by
    rw [← hrestored]
    cases hoverlay : drawn.overlay with
    | none =>
      rw [hoverlay] at hpixels
      exact hpixels
    | some overlay => exact s.pixels_setPixels_self _ _
  have hkept : restored.fpga.kicks=s.fpga.kicks ∧ restored.main=s.main ∧
      restored.presentSlot=s.presentSlot ∧ restored.fullCount=s.fullCount ∧
      restored.readSlot=s.readSlot ∧ restored.overlapBank=s.overlapBank ∧
      restored.overlapKept=s.overlapKept ∧ restored.present=s.present ∧
      (∀ j, (restored.slot j).frameIndex=(s.slot j).frameIndex) ∧
      (restored.lastPresentedFrameValid=s.lastPresentedFrameValid ∧
        restored.lastPresentedFrame=s.lastPresentedFrame ∧
        restored.lastPresented=s.lastPresented) := by
    rw [← hrestored]
    by_cases hdrawn : drawn.overlay.isSome=true
    · rw [if_pos hdrawn]
      exact ⟨s.kicks_setPixels _ _,rfl,rfl,rfl,rfl,rfl,rfl,rfl,
        kept_update Slot.frameIndex rfl,rfl,rfl,rfl⟩
    · rw [if_neg hdrawn]
      exact ⟨rfl,rfl,rfl,rfl,rfl,rfl,rfl,rfl,fun _ => rfl,rfl,rfl,rfl⟩
  obtain ⟨hkicks,hmain,hslot,hcount,hreadSlot,hbank,hoverlapKept,_,hnumber,hlast⟩ := hkept
  have hsecond : 2 ≤ s.fullCount →
      restored.pixels (s.presentSlot+1)=s.pixels (s.presentSlot+1) := by
    intro htwo
    rw [← hrestored]
    by_cases hdrawn : drawn.overlay.isSome = true
    · rw [if_pos hdrawn]
      refine pixels_setPixels_ne (slot_ne _) _ fun b hb => ?_
      exact hlaid.apart _ b (Or.inl hfull) (Or.inl (Or.inr ⟨rfl,htwo⟩)) hb
    · rw [if_neg hdrawn]
  have hoverlap : ∀ b, s.overlapBank=some b → restored.fpga.bank b=s.fpga.bank b := by
    intro b hb
    obtain ⟨hingest,_⟩ := h.prefetch b hb
    rw [← hrestored]
    by_cases hdrawn : drawn.overlay.isSome=true
    · rw [if_pos hdrawn]
      refine bank_setPixels _ ?_
      rw [(hlaid.heaps hingest.2 _).1]
      exact nofun
    · rw [if_neg hdrawn]
  have hdone : ∀ u : State α O, u.fpga=restored.fpga → u.slot=restored.slot →
      u.presentSlot=restored.presentSlot → u.fullCount=restored.fullCount →
      u.overlapBank=restored.overlapBank → u.overlapKept=restored.overlapKept →
      u.main=restored.main → u.present = .releasing →
      (u.lastPresentedFrameValid=true →
        u.lastPresentedFrame=c.prep (c.src u.lastPresented)) → u.Exact c := by
    intro u hufpga huslot hupresent hucount huoverlap hukept humain hureleasing hulast
    have hpix : ∀ j, u.pixels j=restored.pixels j := fun j =>
      pixels_congr (congrFun huslot j) fun b _ => by rw [hufpga]
    have hunext : u.nextRaw=s.nextRaw := by
      unfold nextRaw
      rw [hureleasing,hkicked,hupresent,hslot]
      rfl
    have huraw : ∀ j, u.Raw j → j=s.presentSlot+1 ∧ 2 ≤ s.fullCount := by
      intro j hj
      rcases hj with ⟨_,_,hno⟩ | hsecond
      · rw [hureleasing] at hno
        cases hno
      · rw [hupresent,hucount,hslot,hcount] at hsecond
        exact hsecond
    refine ⟨?_,?_,?_,?_,?_,?_,?_,hulast,?_⟩
    · intro k hk
      rw [hufpga,hkicks] at hk
      exact h.shows k hk
    · rw [humain,hmain]
      exact h.ahead
    · intro j hj
      obtain ⟨rfl,htwo⟩ := huraw j hj
      rw [hpix,hsecond htwo,huslot,hnumber]
      exact h.raw _ (Or.inr ⟨rfl,htwo⟩)
    · intro drawn' hd'
      rw [hureleasing] at hd'
      cases hd'
    · intro b sample drawn' hcopied
      rw [hureleasing] at hcopied
      cases hcopied
    · intro b hb
      rw [huoverlap,hbank] at hb
      obtain ⟨hingest,hraw,hpicture⟩ := h.prefetch b hb
      rw [hunext,hukept,hoverlapKept,hufpga,hoverlap b hb,huslot,hnumber]
      refine ⟨hingest,?_,hpicture⟩
      rcases hraw with ⟨_,_,hno⟩ | hlater
      · rw [hkicked] at hno
        cases hno
      · refine Or.inr ?_
        rw [hupresent,hucount,hslot,hcount]
        exact hlater
    · intro hno
      rw [hureleasing] at hno
      cases hno
    · rw [humain,hmain]
      exact h.untouched
  cases ok with
  | true =>
    refine hdone _ rfl rfl rfl rfl rfl rfl rfl rfl fun hvalid => ?_
    have hkeeps : (!c.skipLastPresented && (drawn.overlay.isSome || visible))=true := hvalid
    have hgoal : (if (!c.skipLastPresented && (drawn.overlay.isSome || visible)) = true then
        restored.pixels restored.presentSlot else restored.lastPresentedFrame) =
        c.prep (c.src (restored.slot restored.presentSlot).frameIndex) := by
      rw [if_pos hkeeps,hslot,hfront,hnumber]
      exact hbefore
    exact hgoal
  | false =>
    refine hdone _ rfl rfl rfl rfl rfl rfl rfl rfl fun hvalid => ?_
    have hvalid' : restored.lastPresentedFrameValid=true := hvalid
    have hgoal : restored.lastPresentedFrame=c.prep (c.src restored.lastPresented) := by
      rw [hlast.2.1,hlast.2.2]
      exact h.last (hlast.1 ▸ hvalid')
    exact hgoal

theorem State.Exact.release (h : s.Exact c) (hlaid : s.Laid c)
    (hreleasing : s.present = .releasing) : (s.presentStep c .release).Exact c := by
  have hstep : s.presentStep c .release =
      { s.releaseIngestBank s.presentSlot with
        presentSlot := s.presentSlot+1
        fullCount := s.fullCount-1
        present := if s.pipelineFatal then .finished else .waiting } := by
    unfold presentStep
    rw [hreleasing]
    rfl
  have hnext : ∀ p : PresentPc α O, p=(if s.pipelineFatal then .finished else .waiting) →
      p.prepared=false ∧ p.drawn=none ∧ p ≠ .notStarted := by
    rintro p rfl
    cases s.pipelineFatal
    · exact ⟨rfl,rfl,nofun⟩
    · exact ⟨rfl,rfl,nofun⟩
  have hbound := hlaid.bound
  rw [hstep]
  generalize hfreed : ({ s.releaseIngestBank s.presentSlot with
        presentSlot := s.presentSlot+1
        fullCount := s.fullCount-1
        present := if s.pipelineFatal then .finished else .waiting } : State α O)=freed
  have hfpga : freed.fpga=s.fpga := by rw [← hfreed]; rfl
  have hmain : freed.main=s.main := by rw [← hfreed]; rfl
  have hslot : freed.presentSlot=s.presentSlot+1 := by rw [← hfreed]
  have hcount : freed.fullCount=s.fullCount-1 := by rw [← hfreed]
  have hpresent : freed.present = if s.pipelineFatal then .finished else .waiting := by
    rw [← hfreed]
  have hother : freed.slot (s.presentSlot+1)=s.slot (s.presentSlot+1) := by
    rw [← hfreed]
    exact Function.update_of_ne (slot_ne _) _ _
  have hoverlap : freed.overlapBank=s.overlapBank ∧ freed.overlapKept=s.overlapKept := by
    rw [← hfreed]
    exact ⟨rfl,rfl⟩
  have hlast : freed.lastPresentedFrameValid=s.lastPresentedFrameValid ∧
      freed.lastPresentedFrame=s.lastPresentedFrame ∧
      freed.lastPresented=s.lastPresented := by
    rw [← hfreed]
    exact ⟨rfl,rfl,rfl⟩
  obtain ⟨hprepared,hdrawn,hstarted⟩ := hnext _ hpresent
  have hraw : ∀ j, freed.Raw j → j=s.presentSlot+1 ∧ 2 ≤ s.fullCount := by
    intro j hj
    unfold State.Raw at hj
    rw [hslot,hcount] at hj
    rcases hj with ⟨hj,hone,_⟩ | ⟨_,htwo⟩
    · exact ⟨hj,by omega⟩
    · omega
  refine ⟨?_,?_,?_,?_,?_,?_,?_,?_,?_⟩
  · rw [hfpga]
    exact h.shows
  · rw [hmain]
    exact h.ahead
  · intro j hj
    obtain ⟨rfl,htwo⟩ := hraw j hj
    have hpixels : freed.pixels (s.presentSlot+1)=s.pixels (s.presentSlot+1) :=
      pixels_congr hother fun b _ => by rw [hfpga]
    rw [hpixels,hother]
    exact h.raw _ (Or.inr ⟨rfl,htwo⟩)
  · intro drawn hd
    rw [hdrawn] at hd
    cases hd
  · intro b sample drawn hcopied
    rw [PresentPc.drawn_of_copied hcopied] at hdrawn
    cases hdrawn
  · intro b hb
    rw [hoverlap.1] at hb
    obtain ⟨hingest,hnextRaw,hpicture⟩ := h.prefetch b hb
    have hbefore : s.nextRaw=s.presentSlot+1 := by
      unfold nextRaw
      rw [hreleasing]
      rfl
    have hafter : freed.nextRaw=s.presentSlot+1 := by
      unfold nextRaw
      rw [hprepared,hslot]
      rfl
    rw [hbefore] at hnextRaw hpicture
    rw [hafter,hoverlap.2,hfpga,hother]
    refine ⟨hingest,Or.inl ⟨hslot.symm,?_,hprepared⟩,hpicture⟩
    rcases hnextRaw with ⟨hsame,_⟩ | ⟨_,htwo⟩
    · exact absurd hsame (slot_ne _)
    · omega
  · exact fun hno => absurd hno hstarted
  · intro hvalid
    rw [hlast.1] at hvalid
    rw [hlast.2.1,hlast.2.2]
    exact h.last hvalid
  · rw [hmain]
    exact h.untouched

theorem PresentPc.locked_of_copied {p : PresentPc α O} {b : ℕ}
    {sample : Option BankReleaseStatus} (h : p = .copied b sample drawn) : p.locked=true := by
  rw [h]
  rfl

theorem State.Exact.send (h : s.Exact c) (hlaid : s.Laid c) (hunlocked : s.present.locked=false)
    {picture : α} {number : ℕ} (repaint : Bool) {overlay : Option O} {i : CopyInput}
    {k : KickInput}
    (hfree : ∀ target∈(s.fpga.begin i).target c.policy s.localBank i, ¬s.InUse target.1)
    (hpicture : k.Rings c.policy (s.fpga.begin i).kickMode →
      picture=c.shown overlay (c.prep (c.src number))) :
    (s.send c picture number repaint overlay i k).1.Exact c := by
  obtain ⟨hbank,hkicks⟩ := s.fpga.begin_same i
  have hno : ∀ (u : State α O), u.present=s.present → ∀ b sample drawn,
      u.present = .copied b sample drawn → False := by
    intro u hu b sample drawn hcopied
    rw [hu] at hcopied
    rw [PresentPc.locked_of_copied hcopied] at hunlocked
    cases hunlocked
  have hbegin : ({ s with fpga := s.fpga.begin i } : State α O).Exact c := by
    refine h.congr hlaid hbank ?_ (fun _ _ => rfl) rfl rfl ⟨rfl,rfl⟩ rfl (fun _ => id) ?_ h.cold
      h.last h.ahead h.untouched
    · intro k' hk'
      have hk'' : k'∈(s.fpga.begin i).kicks := hk'
      rw [hkicks] at hk''
      exact h.shows k' hk''
    · exact fun b sample drawn hcopied => (hno _ rfl b sample drawn hcopied).elim
  have hlaid' : ({ s with fpga := s.fpga.begin i } : State α O).Laid c :=
    hlaid.same (State.SameRing.refl_of rfl rfl rfl rfl rfl) (Nat.le_refl _) hlaid.room id
      hlaid.claims hlaid.taken hlaid.warm id
  unfold State.send
  dsimp only
  cases htarget : (s.fpga.begin i).target c.policy s.localBank i with
  | none => exact hbegin
  | some target =>
    dsimp only
    have hnot : ¬s.InUse target.1 := hfree target htarget
    have hwritten := hbegin.writeBank hnot hunlocked picture
    have hlaid'' : (({ s with fpga := s.fpga.begin i } : State α O).writeBank target.1
        picture).Laid c := by
      obtain ⟨hwarms,hfills,hreads,hleft,hclaims⟩ :=
        MainPc.stage_eq (s.touch_untouched target.1)
      refine hlaid'.same (State.SameRing.refl_of rfl rfl rfl rfl rfl) hleft.le ?_ ?_ ?_
        hlaid.taken ?_ id
      · exact fun hmain => hlaid.room (hfills.symm.trans hmain)
      · exact fun hmain => hreads.symm.trans hmain
      · exact fun hmain => hlaid.claims (hclaims hmain)
      · exact hlaid.warm.trans (by rw [← hwarms]; exact Iff.rfl)
    refine hwritten.congr hlaid'' rfl ?_ (fun _ _ => rfl) rfl rfl ⟨rfl,rfl⟩ rfl (fun _ => id) ?_
      hwritten.cold hwritten.last hwritten.ahead hwritten.untouched
    · refine Fpga.Shows.ring hwritten.shows target.2 repaint fun hrings => ?_
      rw [← hpicture hrings]
      exact Function.update_self _ _ _
    · exact fun b sample drawn hcopied => (hno _ rfl b sample drawn hcopied).elim

end Misterplex.Pipeline
