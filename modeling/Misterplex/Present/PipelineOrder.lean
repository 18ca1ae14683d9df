import Misterplex.Present.PipelineKicks

/-!
# The order of the frames over the steps of the pipelined presenter

Every clean step keeps the frames kicked, in the ring and read ahead in the order
in which they were delivered.
-/

namespace Misterplex.Pipeline

open BankRelease List
open Present (AvAction)

variable {α O : Type*} {c : Settings α O} {s t : State α O}

theorem Fpga.begin_same (f : Fpga α O) (i : CopyInput) :
    (f.begin i).bank=f.bank ∧ (f.begin i).kicks=f.kicks := by
  unfold Fpga.begin
  by_cases hprobe : f.kickMode = .unavailable ∧ i.reprobe=true
  · rw [if_pos hprobe]
    exact ⟨rfl,rfl⟩
  · rw [if_neg hprobe]
    exact ⟨rfl,rfl⟩

open State

theorem State.send_numbers (s : State α O) (picture : α) (number : ℕ) (overlay : Option O)
    (i : CopyInput) (k : KickInput) (hsingle : k.Single (s.fpga.begin i).kickMode) :
    ∃ r≤1, (r≠0 → k.Rings c.policy (s.fpga.begin i).kickMode) ∧
      (s.send c picture number false overlay i k).1.fpga.movie =
        s.fpga.movie ++ List.replicate r number := by
  have hkicks : (s.fpga.begin i).movie=s.fpga.movie := by
    unfold Fpga.movie
    rw [(s.fpga.begin_same i).2]
  unfold send
  dsimp only
  cases (s.fpga.begin i).target c.policy s.localBank i with
  | none =>
    refine ⟨0,Nat.zero_le 1,fun hno => absurd rfl hno,?_⟩
    rw [replicate_zero,append_nil]
    exact hkicks
  | some target =>
    refine ⟨_,kick_rings_le hsingle c.policy,id,?_⟩
    rw [← hkicks]
    exact Fpga.movie_ring _ _ _ _ _ _ _

theorem State.send_repaint (s : State α O) (picture : α) (number : ℕ) (overlay : Option O)
    (i : CopyInput) (k : KickInput) :
    (s.send c picture number true overlay i k).1.fpga.movie=s.fpga.movie := by
  have hkicks : (s.fpga.begin i).movie=s.fpga.movie := by
    unfold Fpga.movie
    rw [(s.fpga.begin_same i).2]
  unfold send
  dsimp only
  cases (s.fpga.begin i).target c.policy s.localBank i with
  | none => exact hkicks
  | some target =>
    rw [← hkicks]
    exact Fpga.movie_repaint _ _ _ _ _ _ _

/-- Everything but the writer, and what uses the bank, is as it was after a send. -/
theorem State.send_rest (s : State α O) (picture : α) (number : ℕ) (repaint : Bool)
    (overlay : Option O) (i : CopyInput) (k : KickInput) :
    (s.send c picture number repaint overlay i k).1.frameIndex=s.frameIndex ∧
      (s.send c picture number repaint overlay i k).1.slot=s.slot ∧
      (s.send c picture number repaint overlay i k).1.overlapBank=s.overlapBank ∧
      (s.send c picture number repaint overlay i k).1.lastPresentedFrameValid =
        s.lastPresentedFrameValid := by
  unfold send
  dsimp only
  cases (s.fpga.begin i).target c.policy s.localBank i <;> exact ⟨rfl,rfl,rfl,rfl⟩

open AheadLoop

theorem AheadLoop.enter_frames (loop : AheadLoop) {after : MainPc α} (h : after.frames=[]) :
    (loop.enter c after).frames=[] := by
  unfold enter
  by_cases hwanted : loop.wanted c=true
  · rw [if_pos hwanted]
    rfl
  · rw [if_neg hwanted]
    exact h

theorem AheadLoop.next_frames (loop : AheadLoop) : (loop.next c).frames=[] := by
  cases loop with
  | ahead => exact enter_frames _ rfl
  | ahead720 => rfl

theorem Settings.afterPrefill_frames (c : Settings α O) : c.afterPrefill.frames=[] :=
  enter_frames _ (next_frames _)

theorem State.Lined.moves (h : s.Lined) {m : MainPc α} (hframes : m.frames.Sublist s.main.frames) :
    ({ s with main := m } : State α O).Lined :=
  h.congr rfl rfl rfl rfl (fun _ _ => rfl) id hframes

open List.Sublist

theorem State.Lined.sent (h : s.Lined) {loop : AheadLoop} {number : ℕ} {x : α}
    {rest : List (ℕ × α)} (hmain : s.main = .sendingAhead loop ((number,x)::rest))
    {overlay : Option O} {i : CopyInput} {k : KickInput}
    (hclean : s.Clean c (.sendAhead overlay i k)) :
    (s.sendAhead c loop number x rest overlay i k).Lined := by
  obtain ⟨hsingle,hempty⟩ := hclean x (by rw [hmain]; rfl)
  obtain ⟨r,hr,hrings,hmovie⟩ := s.send_numbers (c := c) x number overlay i k hsingle
  obtain ⟨hsame,_,hpresent⟩ := s.send_frame (c := c) x number false overlay i k
  obtain ⟨hindex,hslot,_,_⟩ := s.send_rest (c := c) x number false overlay i k
  have hframes : s.main.frames=(number,x)::rest := by rw [hmain]; rfl
  have hzero : r≠0 → s.fullCount=0 := fun hno => (hempty (hrings hno)).1
  unfold State.sendAhead
  cases hsend : s.send c x number false overlay i k with
  | mk sent ok =>
    rw [hsend] at hmovie hsame hpresent hindex hslot
    cases ok with
    | true =>
      exact h.sendAhead hframes hr hzero hmovie hindex hsame.presentSlot hsame.fullCount hslot
        hpresent (refl rest)
    | false =>
      refine h.sendAhead hframes hr hzero hmovie hindex hsame.presentSlot hsame.fullCount hslot
        hpresent ?_
      have hnil : ({ sent with main := loop.next c } : State α O).main.frames=[] :=
        next_frames loop
      rw [hnil]
      exact nil_sublist rest

theorem State.Lined.repaint (h : s.Lined) (visible : Bool) (overlay : Option O) (i : CopyInput)
    (k : KickInput) : (s.repaint c visible overlay i k).Lined := by
  unfold State.repaint
  by_cases hrepaints : s.Repaints c visible
  · rw [if_pos hrepaints]
    have hmovie := s.send_repaint (c := c) (c.shown overlay s.lastPresentedFrame) s.lastPresented
      overlay i k
    obtain ⟨hsame,hmain,hpresent⟩ := s.send_frame (c := c)
      (c.shown overlay s.lastPresentedFrame) s.lastPresented true overlay i k
    obtain ⟨hindex,hslot,_,_⟩ := s.send_rest (c := c)
      (c.shown overlay s.lastPresentedFrame) s.lastPresented true overlay i k
    cases hsend : s.send c (c.shown overlay s.lastPresentedFrame) s.lastPresented true overlay i k
      with
    | mk sent ok =>
      rw [hsend] at hmovie hsame hmain hpresent hindex hslot
      have hframes : sent.main.frames=s.main.frames := by
        have hservices := hrepaints.1
        have hnil : ∀ m : MainPc α, m.servicesPause c=true → m.frames=[] := by
          intro m hm
          cases m with
          | readingAhead loop left frames => cases hm
          | sendingAhead loop frames => cases hm
          | _ => rfl
        rw [hnil _ hservices]
        cases hsmain : s.main with
        | looping =>
          rw [hsmain] at hmain
          rw [MainPc.eq_of_untouched hmain rfl]
          rfl
        | reading touched =>
          rw [hsmain] at hmain
          cases hrmain : sent.main with
          | reading touched' => rfl
          | _ =>
            rw [hrmain] at hmain
            cases hmain
        | _ =>
          rw [hsmain] at hservices
          cases hservices
      have hkept : ∀ u : State α O, u.fpga=sent.fpga → u.frameIndex=sent.frameIndex →
          u.presentSlot=sent.presentSlot → u.fullCount=sent.fullCount →
          u.slot=sent.slot → u.present=sent.present → u.main=sent.main → u.Lined := by
        intro u hfpga huindex hupresent hucount huslot hupc humain
        refine h.congr ?_ (huindex.trans hindex) (hupresent.trans hsame.presentSlot)
          (hucount.trans hsame.fullCount) ?_ ?_ ?_
        · rw [hfpga,hmovie]
        · intro j _
          rw [huslot,hslot]
        · rw [hupc,hpresent]
          exact id
        · rw [humain,hframes]
      cases ok with
      | true => exact hkept _ rfl rfl rfl rfl rfl rfl rfl
      | false =>
        dsimp only
        by_cases hstrict : c.strictDdrPipeline=true
        · rw [if_pos hstrict]
          exact hkept _ rfl rfl rfl rfl rfl rfl rfl
        · rw [if_neg hstrict]
          exact hkept _ rfl rfl rfl rfl rfl rfl rfl
  · rw [if_neg hrepaints]
    exact h

theorem State.Lined.mainStep (h : s.Lined) (hlaid : s.Laid c) {a : Action α O}
    (hclean : s.Clean c a) : (s.mainStep c a).Lined := by
  have hidle : ∀ m : MainPc α, m.frames=[] → ({ s with main := m } : State α O).Lined := by
    intro m hm
    refine h.moves ?_
    rw [hm]
    exact nil_sublist _
  have hends : s.endReader.Lined :=
    h.congr rfl rfl rfl rfl (fun _ _ => rfl) id (nil_sublist _)
  cases a with
  | prefill delivered =>
    unfold State.mainStep
    cases hmain : s.main with
    | prefilling left =>
      dsimp only
      by_cases hread : 0<left ∧ s.stop=false ∧ delivered=true
      · rw [if_pos hread]
        have hbound := hlaid.bound
        rw [hmain] at hbound
        have hbound' : s.fullCount+left≤2 := hbound
        exact h.publish hlaid (by omega) _ rfl
      · rw [if_neg hread]
        exact hidle _ c.afterPrefill_frames
    | _ => exact h
  | readAhead delivered =>
    unfold State.mainStep
    cases hmain : s.main with
    | readingAhead loop left frames =>
      dsimp only
      by_cases hread : 0<left ∧ s.stop=false ∧ delivered=true
      · rw [if_pos hread]
        exact h.readAhead hmain _ _
      · rw [if_neg hread]
        refine h.moves ?_
        rw [hmain]
        exact refl frames
    | _ => exact h
  | sendAhead overlay i k =>
    unfold State.mainStep
    cases hmain : s.main with
    | sendingAhead loop frames =>
      cases frames with
      | nil => exact hidle _ (next_frames loop)
      | cons first rest =>
        dsimp only
        by_cases hstop : s.stop=true
        · rw [if_pos hstop]
          exact hidle _ (next_frames loop)
        · rw [if_neg hstop]
          exact h.sent hmain hclean
    | _ => exact h
  | startThread =>
    unfold State.mainStep
    cases hmain : s.main with
    | starting =>
      have hno : s.present = .notStarted := hlaid.warm.mpr (by rw [hmain]; rfl)
      refine h.congr rfl rfl rfl rfl (fun _ _ => rfl) (fun _ => ?_) (nil_sublist _)
      rw [hno]
      rfl
    | _ => exact h
  | repaint visible overlay i k => exact h.repaint visible overlay i k
  | seek =>
    unfold State.mainStep
    cases hmain : s.main with
    | looping => exact hends
    | _ => exact h
  | claim =>
    unfold State.mainStep
    cases hmain : s.main with
    | looping =>
      by_cases hstop : s.stop=true ∨ s.pipelineFatal=true
      · rw [if_pos hstop]
        exact hends
      · rw [if_neg hstop]
        by_cases hroom : s.fullCount<2
        · rw [if_pos hroom]
          refine hidle _ ?_
          cases c.wantStickIngest <;> rfl
        · rw [if_neg hroom]
          exact h
    | _ => exact h
  | takeBank reading =>
    unfold State.mainStep
    cases hmain : s.main with
    | claiming =>
      have hnumber : ∀ (bank : Option ℕ) (j : Fin 2), (Function.update s.slot s.readSlot
          { s.slot s.readSlot with ptr := bank, ingestBank := bank } j).frameIndex =
          (s.slot j).frameIndex := by
        intro bank j
        refine kept_update Slot.frameIndex ?_ j
        rfl
      dsimp only
      unfold takeBank
      cases takeIngestBank reading s.bankHeld with
      | none =>
        exact h.congr rfl rfl rfl rfl (fun j _ => hnumber none j) id (nil_sublist _)
      | some b =>
        dsimp only
        by_cases hmapped : b≤1
        · rw [if_pos hmapped]
          exact h.congr rfl rfl rfl rfl (fun j _ => hnumber (some b) j) id (nil_sublist _)
        · rw [if_neg hmapped]
          exact h.congr rfl rfl rfl rfl (fun _ _ => rfl) id (nil_sublist _)
    | _ => exact h
  | readSome pixels =>
    unfold State.mainStep
    cases hmain : s.main with
    | reading touched =>
      exact h.congr (s.movie_setPixels _ _) rfl rfl rfl (fun j _ => s.setPixels_number _ _ j) id
        (refl _)
    | _ => exact h
  | readEnd full pixels =>
    unfold State.mainStep
    cases hmain : s.main with
    | reading touched =>
      dsimp only
      have hroom : s.fullCount≤1 := hlaid.room (by rw [hmain]; rfl)
      by_cases hstops : s.pipelineFatal=true ∨ full=false
      · rw [if_pos hstops]
        refine h.congr rfl rfl rfl rfl (fun j _ => ?_) id (nil_sublist _)
        refine kept_update Slot.frameIndex ?_ j
        rfl
      · rw [if_neg hstops]
        exact h.publish hlaid hroom _ rfl
    | _ => exact h
  | _ => exact h

theorem State.Lined.prepare (h : s.Lined) (hlaid : s.Laid c) (hpresent : s.present = .presenting)
    {overlay : Option O} {live : Bool} {i : CopyInput} {k : KickInput}
    (hclean : s.Clean c (.prepare overlay live i k)) :
    (s.prepare c overlay live i k).Lined := by
  have hone : 1 ≤ s.fullCount := hlaid.taken (by rw [hpresent]; rfl)
  have hwaits : s.Waits s.presentSlot := Or.inl ⟨rfl,hone,by rw [hpresent]; rfl⟩
  have hstarted : s.present ≠ .notStarted := by rw [hpresent]; exact nofun
  have hframes : s.main.frames=[] := by
    refine MainPc.frames_nil ?_
    cases hwarm : s.main.warms with
    | false => rfl
    | true => exact absurd (hlaid.warm.mpr hwarm) hstarted
  obtain ⟨hingest,hprefetch,_⟩ := hclean (by rw [hpresent]; rfl)
  unfold State.prepare
  dsimp only
  generalize hpainted : s.setPixels s.presentSlot
    (c.shown overlay (c.prep (s.pixels s.presentSlot)))=painted
  have hnumber : ∀ j, (painted.slot j).frameIndex=(s.slot j).frameIndex := by
    rw [← hpainted]
    exact s.setPixels_number _ _
  have hkicks : painted.fpga.kicks=s.fpga.kicks := by
    rw [← hpainted]
    exact s.kicks_setPixels _ _
  have hsame : painted.frameIndex=s.frameIndex ∧ painted.presentSlot=s.presentSlot ∧
      painted.fullCount=s.fullCount ∧ painted.main=s.main ∧
      painted.fpga.kickMode=s.fpga.kickMode ∧ painted.ingested c=s.ingested c ∧
      painted.prefetched=s.prefetched := by
    rw [← hpainted]
    exact ⟨rfl,rfl,rfl,rfl,(s.writer_setPixels _ _).1,s.ingested_setPixels c _ _,rfl⟩
  obtain ⟨hindex,hslot,hcount,hmain,hmode,hingested,hprefetched⟩ := hsame
  have hcommit : k.Single s.fpga.kickMode → ∀ b after drawn,
      (painted.commit b after (s.slot s.presentSlot).frameIndex drawn k).Lined := by
    intro hsingle b after drawn
    refine h.kick hwaits (kick_rings_le hsingle .bestEffort) ?_ hindex hslot hcount
      (fun j _ => hnumber j) rfl ?_
    · have hring := painted.fpga.movie_ring .bestEffort b none
        (s.slot s.presentSlot).frameIndex drawn.overlay k
      have hmovie : painted.fpga.movie=s.fpga.movie := by
        rw [← hpainted]
        exact s.movie_setPixels _ _
      rw [hmode,hmovie] at hring
      exact hring
    · have hgoal : painted.main.frames=[] := by rw [hmain,hframes]
      exact hgoal
  rw [hingested,hprefetched]
  cases hroute : s.ingested c with
  | some b => exact hcommit (hingest (by rw [hroute]; exact nofun)) _ _ _
  | none =>
    cases hroute' : s.prefetched with
    | some b => exact hcommit (hprefetch hroute (by rw [hroute']; exact nofun)).1 _ _ _
    | none =>
      unfold copyFrame
      dsimp only
      have hbegin : (painted.fpga.begin i).movie=s.fpga.movie := by
        unfold Fpga.movie
        rw [(painted.fpga.begin_same i).2,hkicks]
      cases (painted.fpga.begin i).target c.policy painted.localBank i with
      | none =>
        refine h.congr hbegin hindex hslot hcount (fun j _ => hnumber j) nofun ?_
        have hgoal : painted.main.frames.Sublist s.main.frames := by rw [hmain]
        exact hgoal
      | some target =>
        refine h.congr hbegin hindex hslot hcount (fun j _ => hnumber j) (fun _ => ?_) ?_
        · rw [hpresent]
          rfl
        · have hgoal : (touch { painted with
              fpga := painted.fpga.begin i
              overlapBank := none } target.1).frames.Sublist s.main.frames := by
            rw [hmain]
            cases s.main <;> exact refl _
          exact hgoal

theorem State.Lined.presentStep (h : s.Lined) (hlaid : s.Laid c) {a : Action α O}
    (hclean : s.Clean c a) : (s.presentStep c a).Lined := by
  have hstays : ∀ p : PresentPc α O, (p.done=false → s.present.done=false) →
      ({ s with present := p } : State α O).Lined := fun p hdone =>
    h.congr rfl rfl rfl rfl (fun _ _ => rfl) hdone (refl _)
  cases a with
  | take =>
    unfold State.presentStep
    cases hpresent : s.present with
    | waiting =>
      have hdone : s.present.done=false := by rw [hpresent]; rfl
      by_cases hempty : s.fullCount=0
      · rw [if_pos hempty]
        by_cases hends : s.readerEof=true ∨ s.stop=true ∨ s.pipelineFatal = true
        · rw [if_pos hends]
          exact hstays _ fun _ => hdone
        · rw [if_neg hends]
          exact h
      · rw [if_neg hempty]
        exact hstays _ fun _ => hdone
    | _ => exact h
  | gate action =>
    unfold State.presentStep
    cases hpresent : s.present with
    | gating =>
      dsimp only
      have hdone : s.present.done=false := by rw [hpresent]; rfl
      by_cases hstrict : c.strictDdrPipeline=true
      · rw [if_pos hstrict]
        by_cases hends : s.stop=true ∨ s.pipelineFatal = true
        · rw [if_pos hends]
          exact hstays _ fun _ => hdone
        · rw [if_neg hends]
          cases action with
          | hold => exact h
          | drop => exact hstays _ fun _ => hdone
          | present => exact hstays _ fun _ => hdone
      · rw [if_neg hstrict]
        exact hstays _ fun _ => hdone
    | _ => exact h
  | prepare overlay live i k =>
    unfold State.presentStep
    cases hpresent : s.present with
    | presenting => exact h.prepare hlaid hpresent hclean
    | _ => exact h
  | ring k =>
    unfold State.presentStep
    cases hpresent : s.present with
    | copied b sample drawn =>
      have hone : 1 ≤ s.fullCount := hlaid.taken (by rw [hpresent]; rfl)
      have hwaits : s.Waits s.presentSlot := Or.inl ⟨rfl,hone,by rw [hpresent]; rfl⟩
      have hsingle : k.Single s.fpga.kickMode := hclean (by rw [hpresent]; exact nofun)
      have hstarted : s.present ≠ .notStarted := by rw [hpresent]; exact nofun
      have hframes : s.main.frames=[] := by
        refine MainPc.frames_nil ?_
        cases hwarm : s.main.warms with
        | false => rfl
        | true => exact absurd (hlaid.warm.mpr hwarm) hstarted
      exact h.kick hwaits (kick_rings_le hsingle c.policy)
        (s.fpga.movie_ring c.policy b sample _ drawn.overlay k) rfl rfl rfl (fun _ _ => rfl) rfl
        hframes
    | _ => exact h
  | prefetch visible reading =>
    unfold State.presentStep
    cases hpresent : s.present with
    | kicked ok drawn =>
      cases ok with
      | false => exact h
      | true =>
        dsimp only
        by_cases hlive : drawn.live=true
        · rw [if_pos hlive]
          unfold prefetch
          by_cases hmay : s.overlapBank=none ∧ c.wantStickIngest=false ∧ visible=false ∧
              c.hd=true ∧ c.bank960=false ∧ 2 ≤ s.fullCount
          · rw [if_pos hmay]
            cases reading with
            | none => exact h
            | some r =>
              dsimp only
              cases r.freeBank with
              | none => exact h
              | some dest =>
                dsimp only
                by_cases hdisplayed : dest=r.dispBank.toNat
                · rw [if_pos hdisplayed]
                  exact h
                · rw [if_neg hdisplayed]
                  refine h.congr rfl rfl rfl rfl (fun _ _ => rfl) id ?_
                  have hgoal : (s.touch dest).frames.Sublist s.main.frames := by
                    unfold touch
                    cases s.main <;> exact refl _
                  exact hgoal
          · rw [if_neg hmay]
            exact h
        · rw [if_neg hlive]
          exact h
    | _ => exact h
  | finish visible =>
    unfold State.presentStep
    cases hpresent : s.present with
    | kicked ok drawn =>
      dsimp only
      unfold finish
      dsimp only
      generalize hrestored : (if drawn.overlay.isSome = true then
        s.setPixels s.presentSlot drawn.before else s)=restored
      have hkept : restored.fpga.movie=s.fpga.movie ∧ restored.frameIndex=s.frameIndex ∧
          restored.presentSlot=s.presentSlot ∧ restored.fullCount=s.fullCount ∧
          restored.main=s.main ∧ ∀ j, (restored.slot j).frameIndex=(s.slot j).frameIndex := by
        rw [← hrestored]
        by_cases hdrawn : drawn.overlay.isSome=true
        · rw [if_pos hdrawn]
          exact ⟨s.movie_setPixels _ _,rfl,rfl,rfl,rfl,s.setPixels_number _ _⟩
        · rw [if_neg hdrawn]
          exact ⟨rfl,rfl,rfl,rfl,rfl,fun _ => rfl⟩
      obtain ⟨hmovie,hindex,hslot,hcount,hmain,hnumber⟩ := hkept
      have hframes : restored.main.frames.Sublist s.main.frames := by rw [hmain]
      cases ok with
      | true => exact h.congr hmovie hindex hslot hcount (fun j _ => hnumber j) nofun hframes
      | false => exact h.congr hmovie hindex hslot hcount (fun j _ => hnumber j) nofun hframes
    | _ => exact h
  | release =>
    unfold State.presentStep
    cases hpresent : s.present with
    | releasing =>
      refine h.release hlaid rfl rfl rfl rfl (fun j => ?_) rfl
      refine kept_update Slot.frameIndex ?_ j
      rfl
    | _ => exact h
  | _ => exact h

end Misterplex.Pipeline
