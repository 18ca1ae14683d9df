import Misterplex.Present.PipelinePictures

/-!
# The steps of the pipelined presenter keep its pictures

Every clean step keeps what the slots, the banks and the copies hold, and with it
everything that holds of a playback.
-/

namespace Misterplex.Pipeline

open BankRelease
open Present (AvAction)

variable {α O : Type*} {c : Settings α O} {s t : State α O}

open State

theorem State.Laid.not_inUse (h : s.Laid c) (hwarms : s.main.warms=true) (b : ℕ) :
    ¬s.InUse b := by
  have hno := h.warm.mpr hwarms
  rintro (⟨j,_,hptr⟩ | hread)
  · rw [(h.warmHeaps hno j).1] at hptr
    cases hptr
  · unfold readBank at hread
    cases hmain : s.main with
    | reading touched =>
      rw [hmain] at hwarms
      cases hwarms
    | _ =>
      rw [hmain] at hread
      cases hread

theorem State.Laid.setPixels (h : s.Laid c) (j : Fin 2) (x : α) : (s.setPixels j x).Laid c :=
  h.same (s.sameRing_setPixels j x) (Nat.le_refl _) h.room id h.claims h.taken h.warm id

theorem State.Exact.moves (h : s.Exact c) (hlaid : s.Laid c) {m : MainPc α}
    (hframes : ∀ frame∈m.frames, frame.2=c.src frame.1)
    (hread : ∀ b, ({ s with main := m } : State α O).readBank=some b → s.readBank=some b)
    (huntouched : m ≠ .reading true) : ({ s with main := m } : State α O).Exact c := by
  refine h.congr hlaid rfl h.shows (fun _ _ => rfl) rfl rfl ⟨rfl,rfl⟩ rfl (fun _ => id) ?_ h.cold
    h.last hframes huntouched
  intro b sample drawn hcopied
  exact ⟨hcopied,fun hsome => (h.copy b sample drawn hcopied).2 (hread b hsome)⟩

theorem State.Exact.idles (h : s.Exact c) (hlaid : s.Laid c) {m : MainPc α}
    (hframes : m.frames=[]) (hreads : m.reads=false) :
    ({ s with main := m } : State α O).Exact c := by
  refine h.moves hlaid ?_ ?_ ?_
  · rw [hframes]
    exact nofun
  · intro b hsome
    cases hmain : m with
    | reading touched =>
      rw [hmain] at hreads
      cases hreads
    | _ =>
      rw [hmain] at hsome
      cases hsome
  · rintro rfl
    cases hreads

theorem State.Exact.endReader (h : s.Exact c) (hlaid : s.Laid c) : s.endReader.Exact c := by
  have hidle : ({ s with main := .ended } : State α O).Exact c := h.idles hlaid rfl rfl
  exact { hidle with }

theorem State.Laid.send (h : s.Laid c) (picture : α) (number : ℕ) (repaint : Bool)
    (overlay : Option O) (i : CopyInput) (k : KickInput) :
    (s.send c picture number repaint overlay i k).1.Laid c := by
  obtain ⟨hsame,hmain,hpresent⟩ := s.send_frame (c := c) picture number repaint overlay i k
  obtain ⟨hwarms,hfills,hreads,hleft,hclaims⟩ := MainPc.stage_eq hmain
  refine h.same hsame hleft.le ?_ ?_ ?_ ?_ ?_ ?_
  · intro hyes
    rw [hsame.fullCount]
    exact h.room (hfills ▸ hyes)
  · exact fun hyes => hreads ▸ hyes
  · exact fun hyes => h.claims (hclaims hyes)
  · rw [hpresent,hsame.fullCount]
    exact h.taken
  · rw [hpresent,hwarms]
    exact h.warm
  · rw [hpresent]
    exact id

variable {overlay : Option O}

theorem State.Exact.sendAhead (h : s.Exact c) (hlaid : s.Laid c) {loop : AheadLoop} {number : ℕ}
    {x : α} {rest : List (ℕ × α)} (hmain : s.main = .sendingAhead loop ((number,x)::rest))
    {i : CopyInput} {k : KickInput}
    (hclean : s.Clean c (.sendAhead overlay i k)) :
    (s.sendAhead c loop number x rest overlay i k).Exact c := by
  have hwarms : s.main.warms=true := by rw [hmain]; rfl
  have hno : s.present = .notStarted := hlaid.warm.mpr hwarms
  have hahead := h.ahead
  rw [hmain] at hahead
  have hx : x=c.src number := hahead (number,x) List.mem_cons_self
  have hsent : (s.send c x number false overlay i k).1.Exact c :=
    h.send hlaid (by rw [hno]; rfl) false (fun target _ => hlaid.not_inUse hwarms target.1)
      fun hrings => by
        have hlooks := ((hclean x (by rw [hmain]; rfl)).2 hrings).2
        rw [hx] at hlooks
        rw [hx,hlooks]
  have hlaid' := hlaid.send x number false overlay i k
  obtain ⟨_,_,hpresent⟩ := s.send_frame (c := c) x number false overlay i k
  unfold State.sendAhead
  cases hsend : s.send c x number false overlay i k with
  | mk sent ok =>
    rw [hsend] at hsent hlaid' hpresent
    cases ok with
    | true =>
      have hcopy : ∀ b sample drawn, sent.present = .copied b sample drawn → False := by
        intro b sample drawn hcopied
        rw [hpresent,hno] at hcopied
        cases hcopied
      refine hsent.congr hlaid' rfl hsent.shows (fun _ _ => rfl) rfl rfl ⟨rfl,rfl⟩ rfl
        (fun _ => id) (fun b sample drawn hcopied => (hcopy b sample drawn hcopied).elim)
        hsent.cold ?_ ?_ nofun
      · intro hvalid
        have hvalid' : sent.lastPresentedFrameValid=true := hvalid
        rw [(hsent.cold (hpresent.trans hno)).2] at hvalid'
        cases hvalid'
      · exact fun frame hframe => hahead frame (List.mem_cons_of_mem _ hframe)
    | false =>
      exact hsent.idles hlaid' (AheadLoop.next_frames loop)
        (MainPc.warms_idle (AheadLoop.next_warms loop).1).2.1

theorem State.Exact.repaint (h : s.Exact c) (hlaid : s.Laid c) {visible : Bool} {i : CopyInput}
    {k : KickInput}
    (hclean : s.Clean c (.repaint visible overlay i k)) :
    (s.repaint c visible overlay i k).Exact c := by
  unfold State.repaint
  by_cases hrepaints : s.Repaints c visible
  · rw [if_pos hrepaints]
    obtain ⟨_,hfree⟩ := hclean hrepaints
    obtain ⟨_,hunlocked,hvalid,_⟩ := hrepaints
    have hsent : (s.send c (c.shown overlay s.lastPresentedFrame) s.lastPresented true overlay i
        k).1.Exact c :=
      h.send hlaid hunlocked true hfree fun _ => by rw [h.last hvalid]
    have hlaid' := hlaid.send (c.shown overlay s.lastPresentedFrame) s.lastPresented true overlay
      i k
    cases hsend : s.send c (c.shown overlay s.lastPresentedFrame) s.lastPresented true overlay i k
      with
    | mk sent ok =>
      rw [hsend] at hsent hlaid'
      have hcopy : ∀ b sample drawn, sent.present = .copied b sample drawn →
          sent.present = .copied b sample drawn ∧ sent.readBank≠some b := fun b sample drawn hb =>
        ⟨hb,(hsent.copy b sample drawn hb).2⟩
      cases ok with
      | true =>
        exact hsent.congr hlaid' rfl hsent.shows (fun _ _ => rfl) rfl rfl ⟨rfl,rfl⟩ rfl
          (fun _ => id) hcopy hsent.cold hsent.last hsent.ahead hsent.untouched
      | false =>
        dsimp only
        by_cases hstrict : c.strictDdrPipeline=true
        · rw [if_pos hstrict]
          exact hsent.congr hlaid' rfl hsent.shows (fun _ _ => rfl) rfl rfl ⟨rfl,rfl⟩ rfl
            (fun _ => id) hcopy hsent.cold hsent.last hsent.ahead hsent.untouched
        · rw [if_neg hstrict]
          exact hsent
  · rw [if_neg hrepaints]
    exact h

theorem State.Exact.takeBank (h : s.Exact c) (hlaid : s.Laid c) (hmain : s.main = .claiming)
    {reading : Option BankReleaseStatus} (hclean : s.Clean c (.takeBank reading)) :
    (s.takeBank reading).Exact c := by
  have hroom : s.fullCount≤1 := hlaid.room (by rw [hmain]; rfl)
  have hpoint : ∀ (bank : Option ℕ) (held : ℕ → Bool),
      (∀ b sample drawn, s.present = .copied b sample drawn → bank≠some b) →
      ({ s with
        bankHeld := held
        slot := Function.update s.slot s.readSlot
          { s.slot s.readSlot with ptr := bank, ingestBank := bank }
        main := .reading false } : State α O).Exact c := by
    intro bank held hother
    refine h.congr hlaid rfl h.shows ?_ rfl rfl ⟨rfl,rfl⟩ rfl (fun _ => id) ?_ h.cold h.last nofun
      nofun
    · intro j hfull
      refine Function.update_of_ne ?_ _ _
      rintro rfl
      exact hlaid.not_full hroom hfull
    · intro b sample drawn hcopied
      refine ⟨hcopied,fun hread => hother b sample drawn hcopied ?_⟩
      have hread' : (Function.update s.slot s.readSlot
          { s.slot s.readSlot with ptr := bank, ingestBank := bank } s.readSlot).ptr =
          some b := hread
      rw [Function.update_self] at hread'
      exact hread'
  unfold State.takeBank
  cases htake : takeIngestBank reading s.bankHeld with
  | none => exact hpoint none s.bankHeld fun _ _ _ _ => nofun
  | some bank =>
    dsimp only
    by_cases hmapped : bank ≤ 1
    · rw [if_pos hmapped]
      refine hpoint (some bank) _ fun b sample drawn hcopied hsame => ?_
      exact hclean b (by rw [hcopied]; rfl) (htake.trans hsame)
    · rw [if_neg hmapped]
      have hended := h.endReader hlaid
      exact { hended with }

theorem State.Exact.deliver (h : s.Exact c) (hlaid : s.Laid c) (hroom : s.fullCount≤1)
    (hread : s.main.reads=true ∨ s.present = .notStarted) {m : MainPc α}
    (hframes : m.frames=[]) (hreads : m.reads=false) :
    ({ (s.setPixels s.readSlot (c.src (s.frameIndex+1))).publish with main := m } :
      State α O).Exact c :=
  (h.setRead hlaid hroom hread _).publish (hlaid.setPixels _ _) hroom
    (s.pixels_setPixels_self _ _) hframes hreads

theorem State.Exact.mainStep (h : s.Exact c) (hlaid : s.Laid c) {a : Action α O}
    (hclean : s.Clean c a) : (s.mainStep c a).Exact c := by
  cases a with
  | prefill delivered =>
    unfold State.mainStep
    cases hmain : s.main with
    | prefilling left =>
      dsimp only
      by_cases hread : 0<left ∧ s.stop=false ∧ delivered=true
      · rw [if_pos hread]
        have hbound := hlaid.bound
        rw [hmain] at hbound
        have hbound' : s.fullCount+left≤2 := hbound
        have hno : s.present = .notStarted := hlaid.warm.mpr (by rw [hmain]; rfl)
        exact h.deliver hlaid (by omega) (Or.inr hno) rfl rfl
      · rw [if_neg hread]
        exact h.idles hlaid c.afterPrefill_frames (MainPc.warms_idle c.afterPrefill_warms.1).2.1
    | _ => exact h
  | readAhead delivered =>
    unfold State.mainStep
    cases hmain : s.main with
    | readingAhead loop left frames =>
      dsimp only
      have hahead := h.ahead
      rw [hmain] at hahead
      by_cases hread : 0<left ∧ s.stop=false ∧ delivered=true
      · rw [if_pos hread]
        have hmoves := h.moves hlaid (m := .readingAhead loop (left-1)
          (frames ++ [(s.frameIndex+1,c.src (s.frameIndex+1))])) ?_ nofun nofun
        · exact { hmoves with }
        · intro frame hframe
          rcases List.mem_append.mp hframe with hold | hnew
          · exact hahead frame hold
          · rw [List.mem_singleton.mp hnew]
      · rw [if_neg hread]
        exact h.moves hlaid hahead nofun nofun
    | _ => exact h
  | sendAhead overlay i k =>
    unfold State.mainStep
    cases hmain : s.main with
    | sendingAhead loop frames =>
      have hnext : ({ s with main := loop.next c } : State α O).Exact c :=
        h.idles hlaid (AheadLoop.next_frames loop)
          (MainPc.warms_idle (AheadLoop.next_warms loop).1).2.1
      cases frames with
      | nil => exact hnext
      | cons first rest =>
        dsimp only
        by_cases hstop : s.stop=true
        · rw [if_pos hstop]
          exact hnext
        · rw [if_neg hstop]
          exact h.sendAhead hlaid hmain hclean
    | _ => exact h
  | startThread =>
    unfold State.mainStep
    cases hmain : s.main with
    | starting =>
      have hno : s.present = .notStarted := hlaid.warm.mpr (by rw [hmain]; rfl)
      refine h.congr hlaid rfl h.shows (fun _ _ => rfl) rfl rfl ⟨rfl,rfl⟩ ?_ nofun nofun nofun
        h.last nofun nofun
      rw [hno]
      rfl
    | _ => exact h
  | repaint visible overlay i k => exact h.repaint hlaid hclean
  | seek =>
    unfold State.mainStep
    cases hmain : s.main with
    | looping => exact h.endReader hlaid
    | _ => exact h
  | claim =>
    unfold State.mainStep
    cases hmain : s.main with
    | looping =>
      by_cases hstop : s.stop=true ∨ s.pipelineFatal=true
      · rw [if_pos hstop]
        exact h.endReader hlaid
      · rw [if_neg hstop]
        by_cases hroom : s.fullCount<2
        · rw [if_pos hroom]
          cases hingest : c.wantStickIngest with
          | true => exact h.idles hlaid rfl rfl
          | false =>
            refine h.moves hlaid nofun (fun b hread => ?_) nofun
            have hread' : (s.slot s.readSlot).ptr=some b := hread
            rw [(hlaid.heaps hingest _).1] at hread'
            cases hread'
        · rw [if_neg hroom]
          exact h
    | _ => exact h
  | takeBank reading =>
    unfold State.mainStep
    cases hmain : s.main with
    | claiming => exact h.takeBank hlaid hmain hclean
    | _ => exact h
  | readSome pixels =>
    unfold State.mainStep
    cases hmain : s.main with
    | reading touched =>
      have hroom : s.fullCount≤1 := hlaid.room (by rw [hmain]; rfl)
      exact h.setRead hlaid hroom (Or.inl (by rw [hmain]; rfl)) pixels
    | _ => exact h
  | readEnd full pixels =>
    unfold State.mainStep
    cases hmain : s.main with
    | reading touched =>
      dsimp only
      have hreads : s.main.reads=true := by rw [hmain]; rfl
      have hroom : s.fullCount≤1 := hlaid.room (by rw [hmain]; rfl)
      by_cases hstops : s.pipelineFatal=true ∨ full = false
      · rw [if_pos hstops]
        refine h.congr hlaid rfl h.shows ?_ rfl rfl ⟨rfl,rfl⟩ rfl (fun _ => id) ?_ h.cold h.last
          nofun nofun
        · intro j hfull
          refine Function.update_of_ne ?_ _ _
          rintro rfl
          exact hlaid.not_full hroom hfull
        · exact fun b sample drawn hcopied => ⟨hcopied,nofun⟩
      · rw [if_neg hstops]
        have huntouched : touched=false := by
          have hnot := h.untouched
          rw [hmain] at hnot
          cases touched with
          | false => rfl
          | true => exact absurd rfl hnot
        rw [huntouched]
        exact h.deliver hlaid hroom (Or.inl hreads) rfl rfl
    | _ => exact h
  | _ => exact h

theorem State.readBank_touch (s : State α O) (b : ℕ) :
    ({ s with main := s.touch b } : State α O).readBank=s.readBank := by
  unfold readBank touch
  cases s.main <;> rfl

/-- A send that writes another bank than the reader's does not touch what is read. -/
theorem State.touch_ne (huntouched : s.main ≠ .reading true) {b : ℕ}
    (hread : s.readBank≠some b) : s.touch b ≠ .reading true := by
  unfold touch
  unfold readBank at hread
  cases hmain : s.main with
  | reading touched =>
    rw [hmain] at huntouched hread
    cases touched with
    | true => exact absurd rfl huntouched
    | false => simpa using hread
  | _ => exact nofun

theorem State.Exact.copied (h : s.Exact c) (hlaid : s.Laid c)
    (hpresenting : s.present = .presenting) {b : ℕ} {sample : Option BankReleaseStatus}
    {drawn : Drawn α O} (hfree : ¬s.InUse b) (hshows : t.fpga.Shows c) (hmain : t.main=s.main)
    (hread : t.readSlot=s.readSlot) (hpresent : t.presentSlot=s.presentSlot)
    (hcount : t.fullCount=s.fullCount)
    (hnumber : ∀ j, (t.slot j).frameIndex=(s.slot j).frameIndex)
    (hptr : ∀ j, (t.slot j).ptr=(s.slot j).ptr) (hoverlap : t.overlapBank=none)
    (hlast : t.lastPresentedFrameValid=s.lastPresentedFrameValid ∧
      t.lastPresentedFrame=s.lastPresentedFrame ∧ t.lastPresented=s.lastPresented)
    (hbefore : drawn.before=c.prep (s.pixels s.presentSlot))
    (hself : t.pixels s.presentSlot=c.shown drawn.overlay drawn.before)
    (hnext : 2 ≤ s.fullCount → t.pixels (s.presentSlot+1)=s.pixels (s.presentSlot+1)) :
    ({ t.writeBank b (t.pixels t.presentSlot) with present := .copied b sample drawn } :
      State α O).Exact c := by
  have hone : 1 ≤ s.fullCount := hlaid.taken (by rw [hpresenting]; rfl)
  have hwaits : s.Waits s.presentSlot := Or.inl ⟨rfl,hone,by rw [hpresenting]; rfl⟩
  have hkeeps : ∀ j, (s.slot j).ptr≠some b →
      pixels { t.writeBank b (t.pixels t.presentSlot) with
        present := .copied b sample drawn } j=t.pixels j := by
    intro j hj
    refine pixels_congr rfl fun b' hb' => ?_
    have hgoal : b'≠b → (t.fpga.write b (t.pixels t.presentSlot)).bank b'=t.fpga.bank b' :=
      fun hne => Function.update_of_ne hne _ _
    refine hgoal ?_
    rintro rfl
    rw [hptr] at hb'
    exact hj hb'
  have hbanks : t.readBank=s.readBank := by
    unfold readBank
    rw [hmain,hread,hptr]
  have hnotRead : t.readBank≠some b := by
    rw [hbanks]
    exact fun hsame => hfree (Or.inr hsame)
  refine h.prepared hlaid hpresenting hshows ?_ hpresent hcount hnumber ?_ hoverlap hlast rfl ?_ ?_
  · have hgoal : (t.touch b).untouched=s.main.untouched ∧ t.touch b ≠ .reading true := by
      refine ⟨by rw [t.touch_untouched,hmain],touch_ne ?_ hnotRead⟩
      rw [hmain]
      exact h.untouched
    exact hgoal
  · intro htwo
    exact (hkeeps _ fun hsame => hfree (Or.inl ⟨_,Or.inr ⟨rfl,htwo⟩,hsame⟩)).trans (hnext htwo)
  · intro drawn' hd
    cases hd
    refine ⟨hbefore,?_⟩
    exact (hkeeps _ fun hsame => hfree (Or.inl ⟨_,hwaits,hsame⟩)).trans hself
  · intro b' sample' drawn' hcopied
    cases hcopied
    constructor
    · have hgoal : (t.fpga.write b (t.pixels t.presentSlot)).bank b =
          c.shown drawn.overlay drawn.before := by
        rw [hpresent,hself]
        exact Function.update_self _ _ _
      exact hgoal
    · intro hsome
      exact hnotRead ((t.readBank_touch b).symm.trans hsome)

theorem State.Exact.prepare (h : s.Exact c) (hlaid : s.Laid c) (hpresent : s.present = .presenting)
    {live : Bool} {i : CopyInput} {k : KickInput}
    (hclean : s.Clean c (.prepare overlay live i k)) : (s.prepare c overlay live i k).Exact c := by
  have hone : 1 ≤ s.fullCount := hlaid.taken (by rw [hpresent]; rfl)
  have hfull : s.Full s.presentSlot := Or.inl ⟨rfl,hone⟩
  have hraw : s.Raw s.presentSlot := Or.inl ⟨rfl,hone,by rw [hpresent]; rfl⟩
  have hsrc := h.raw _ hraw
  obtain ⟨_,hprefetch,hcopies⟩ := hclean (by rw [hpresent]; rfl)
  unfold State.prepare
  dsimp only
  generalize hbefore : c.prep (s.pixels s.presentSlot)=before
  generalize hpainted : s.setPixels s.presentSlot (c.shown overlay before)=painted
  have hself : painted.pixels s.presentSlot=c.shown overlay before := by
    rw [← hpainted]
    exact s.pixels_setPixels_self _ _
  have hnext : 2 ≤ s.fullCount →
      painted.pixels (s.presentSlot+1)=s.pixels (s.presentSlot+1) := by
    intro htwo
    rw [← hpainted]
    refine pixels_setPixels_ne (slot_ne _) _ fun b hb => ?_
    exact hlaid.apart _ b (Or.inl hfull) (Or.inl (Or.inr ⟨rfl,htwo⟩)) hb
  have hnumber : ∀ j, (painted.slot j).frameIndex=(s.slot j).frameIndex := by
    rw [← hpainted]
    exact s.setPixels_number _ _
  have hptr : ∀ j, (painted.slot j).ptr=(s.slot j).ptr := by
    rw [← hpainted]
    exact (s.sameRing_setPixels _ _).ptr
  have hkicks : painted.fpga.Shows c := by
    rw [← hpainted]
    intro k' hk'
    rw [kicks_setPixels] at hk'
    exact h.shows k' hk'
  have hbanks : ∀ b, (s.slot s.presentSlot).ptr≠some b →
      painted.fpga.bank b=s.fpga.bank b := by
    intro b hb
    rw [← hpainted]
    exact bank_setPixels _ hb
  have hkept : painted.presentSlot=s.presentSlot ∧ painted.fullCount=s.fullCount ∧
      painted.main=s.main ∧ painted.readSlot=s.readSlot ∧ painted.localBank=s.localBank ∧
      (painted.lastPresentedFrameValid=s.lastPresentedFrameValid ∧
        painted.lastPresentedFrame=s.lastPresentedFrame ∧
        painted.lastPresented=s.lastPresented) ∧ painted.prefetched=s.prefetched := by
    rw [← hpainted]
    exact ⟨rfl,rfl,rfl,rfl,rfl,⟨rfl,rfl,rfl⟩,rfl⟩
  obtain ⟨hslot,hcount,hmain,hreadSlot,hlocal,hlast,hprefetched⟩ := hkept
  have hingested : painted.ingested c=s.ingested c := by
    rw [← hpainted]
    exact s.ingested_setPixels c _ _
  have hwriter : painted.fpga.kickMode=s.fpga.kickMode ∧
      painted.fpga.strictDdrRelease=s.fpga.strictDdrRelease := by
    rw [← hpainted]
    exact s.writer_setPixels _ _
  have hcommit : ∀ b after live', (k.Rings .bestEffort s.fpga.kickMode →
      painted.fpga.bank b=c.shown overlay before) →
      (painted.commit b after (s.slot s.presentSlot).frameIndex ⟨overlay,before,live'⟩
        k).Exact c := by
    intro b after live' hbank
    refine h.prepared hlaid hpresent ?_ ?_ hslot hcount hnumber ?_ rfl hlast rfl ?_ nofun
    · refine Fpga.Shows.ring hkicks none false fun hrings => ?_
      rw [hwriter.1] at hrings
      rw [hbank hrings,← hbefore,hsrc]
    · have hgoal : painted.main.untouched=s.main.untouched ∧ painted.main ≠ .reading true := by
        rw [hmain]
        exact ⟨rfl,h.untouched⟩
      exact hgoal
    · exact hnext
    · intro drawn hd
      cases hd
      exact ⟨hbefore.symm,hself⟩
  rw [hingested,hprefetched]
  cases hroute : s.ingested c with
  | some b =>
    refine hcommit _ _ _ fun _ => ?_
    have hbank : (s.slot s.presentSlot).ptr=some b := by
      rw [(hlaid.held _ (Or.inl hfull)).1]
      unfold ingested at hroute
      cases hingest : (s.slot s.presentSlot).ingestBank with
      | none =>
        rw [hingest] at hroute
        cases hroute
      | some b' =>
        rw [hingest] at hroute
        dsimp only at hroute
        by_cases hmapped : c.wantStickIngest=true ∧ b'≤1
        · rw [if_pos hmapped] at hroute
          exact hroute
        · rw [if_neg hmapped] at hroute
          cases hroute
    rw [← hself]
    unfold pixels
    rw [hptr,hbank]
  | none =>
    cases hroute' : s.prefetched with
    | some b =>
      obtain ⟨_,hshown⟩ := hprefetch hroute (by rw [hroute']; exact nofun)
      refine hcommit _ _ _ fun hrings => ?_
      obtain ⟨hwas,hlooks⟩ := hshown hrings
      have hoverlap : s.overlapBank=some b := by
        unfold State.prefetched at hroute'
        cases hbank : s.overlapBank with
        | none =>
          rw [hbank] at hroute'
          cases hroute'
        | some b' =>
          rw [hbank] at hroute'
          dsimp only at hroute'
          by_cases hlocalBank : b'=s.localBank
          · rw [if_pos hlocalBank] at hroute'
            exact hroute'
          · rw [if_neg hlocalBank] at hroute'
            cases hroute'
      obtain ⟨hingest,_,hpicture⟩ := h.prefetch b hoverlap
      have hfront : s.nextRaw=s.presentSlot := by
        unfold nextRaw
        rw [hpresent]
        rfl
      rw [hfront] at hpicture
      have hheap : (s.slot s.presentSlot).ptr≠some b := by
        rw [(hlaid.heaps hingest.2 _).1]
        exact nofun
      rw [hbanks b hheap,hpicture hwas,← hsrc,hbefore,← hbefore,hlooks]
    | none =>
      unfold copyFrame
      dsimp only
      have hbegin : (painted.fpga.begin i).Shows c := by
        intro k' hk'
        rw [(painted.fpga.begin_same i).2] at hk'
        exact hkicks k' hk'
      have hpixels : ∀ j, pixels { painted with
          fpga := painted.fpga.begin i
          overlapBank := none } j=painted.pixels j := fun j =>
        pixels_congr rfl fun b _ => congrFun (painted.fpga.begin_same i).1 b
      have htarget : (painted.fpga.begin i).target c.policy painted.localBank i =
          (s.fpga.begin i).target c.policy s.localBank i := by
        rw [hlocal]
        exact Fpga.target_congr hwriter.1 hwriter.2 _ _ _
      rw [htarget]
      cases hchosen : (s.fpga.begin i).target c.policy s.localBank i with
      | none =>
        refine h.prepared hlaid hpresent hbegin ?_ hslot hcount hnumber ?_ rfl hlast rfl ?_ nofun
        · have hgoal : painted.main.untouched=s.main.untouched ∧
              painted.main ≠ .reading true := by
            rw [hmain]
            exact ⟨rfl,h.untouched⟩
          exact hgoal
        · intro htwo
          exact (hpixels _).trans (hnext htwo)
        · intro drawn hd
          cases hd
          exact ⟨hbefore.symm,(hpixels _).trans hself⟩
      | some target =>
        have hfree : ¬s.InUse target.1 := hcopies hroute hroute' target hchosen
        refine h.copied hlaid hpresent hfree hbegin hmain hreadSlot hslot hcount hnumber hptr rfl
          hlast hbefore.symm ((hpixels _).trans hself) fun htwo => ?_
        exact (hpixels _).trans (hnext htwo)

theorem State.Exact.proceeds (h : s.Exact c) (hlaid : s.Laid c) {p : PresentPc α O}
    (hprepared : p.prepared=s.present.prepared) (hdrawn : p.drawn=none)
    (hstarted : p ≠ .notStarted) : ({ s with present := p } : State α O).Exact c := by
  refine h.congr hlaid rfl h.shows (fun _ _ => rfl) rfl rfl ⟨rfl,rfl⟩ hprepared ?_ ?_ ?_ h.last
    h.ahead h.untouched
  · intro drawn hd
    have hd' : p.drawn=some drawn := hd
    rw [hdrawn] at hd'
    cases hd'
  · intro b sample drawn hcopied
    have hd : p.drawn=some drawn := PresentPc.drawn_of_copied hcopied
    rw [hdrawn] at hd
    cases hd
  · exact fun hno => absurd hno hstarted

theorem State.Exact.passes (h : s.Exact c) (hstrict : c.strictDdrPipeline=true) :
    ({ s with present := .releasing } : State α O).Exact c := by
  refine ⟨h.shows,h.ahead,?_,nofun,nofun,?_,nofun,h.last,h.untouched⟩
  · intro j hj
    rcases hj with ⟨_,_,hno⟩ | hlater
    · cases hno
    · exact h.raw j (Or.inr hlater)
  · intro b hb
    obtain ⟨⟨hhd,_⟩,_⟩ := h.prefetch b hb
    have hstrict' : c.geometry = .plex480 := beq_iff_eq.mp hstrict
    have hhd' : c.geometry = .plex720 := beq_iff_eq.mp hhd
    rw [hstrict'] at hhd'
    cases hhd'

theorem State.Exact.presentStep (h : s.Exact c) (hlaid : s.Laid c) {a : Action α O}
    (hclean : s.Clean c a) : (s.presentStep c a).Exact c := by
  cases a with
  | take =>
    unfold State.presentStep
    cases hpresent : s.present with
    | waiting =>
      dsimp only
      by_cases hempty : s.fullCount=0
      · rw [if_pos hempty]
        by_cases hends : s.readerEof=true ∨ s.stop=true ∨ s.pipelineFatal=true
        · rw [if_pos hends]
          exact h.proceeds hlaid (by rw [hpresent]; rfl) rfl nofun
        · rw [if_neg hends]
          exact h
      · rw [if_neg hempty]
        exact h.proceeds hlaid (by rw [hpresent]; rfl) rfl nofun
    | _ => exact h
  | gate action =>
    unfold State.presentStep
    cases hpresent : s.present with
    | gating =>
      dsimp only
      have hpresents : ({ s with present := .presenting } : State α O).Exact c :=
        h.proceeds hlaid (by rw [hpresent]; rfl) rfl nofun
      by_cases hstrict : c.strictDdrPipeline=true
      · rw [if_pos hstrict]
        have hreleases : ({ s with present := .releasing } : State α O).Exact c :=
          h.passes hstrict
        by_cases hends : s.stop=true ∨ s.pipelineFatal=true
        · rw [if_pos hends]
          exact hreleases
        · rw [if_neg hends]
          cases action with
          | hold => exact h
          | drop => exact hreleases
          | present => exact hpresents
      · rw [if_neg hstrict]
        exact hpresents
    | _ => exact h
  | prepare overlay live i k =>
    unfold State.presentStep
    cases hpresent : s.present with
    | presenting => exact h.prepare hlaid hpresent hclean
    | _ => exact h
  | ring k =>
    unfold State.presentStep
    cases hpresent : s.present with
    | copied b sample drawn =>
      have hd : s.present.drawn=some drawn := PresentPc.drawn_of_copied hpresent
      obtain ⟨hbank,_⟩ := h.copy b sample drawn hpresent
      obtain ⟨hbefore,_⟩ := h.drawn drawn hd
      refine h.congr hlaid rfl ?_ (fun _ _ => rfl) rfl rfl ⟨rfl,rfl⟩ ?_ ?_ nofun nofun h.last
        h.ahead h.untouched
      · refine Fpga.Shows.ring h.shows sample false fun _ => ?_
        rw [hbank,hbefore]
      · rw [hpresent]
        rfl
      · intro drawn' hd'
        cases hd'
        exact hd
    | _ => exact h
  | prefetch visible reading =>
    unfold State.presentStep
    cases hpresent : s.present with
    | kicked ok drawn =>
      cases ok with
      | false => exact h
      | true =>
        dsimp only
        by_cases hlive : drawn.live=true
        · rw [if_pos hlive]
          unfold State.prefetch
          by_cases hmay : s.overlapBank=none ∧ c.wantStickIngest=false ∧ visible=false ∧
              c.hd=true ∧ c.bank960=false ∧ 2 ≤ s.fullCount
          · rw [if_pos hmay]
            obtain ⟨_,hingest,_,hhd,_,htwo⟩ := hmay
            cases reading with
            | none => exact h
            | some r =>
              dsimp only
              cases r.freeBank with
              | none => exact h
              | some dest =>
                dsimp only
                by_cases hdisplayed : dest=r.dispBank.toNat
                · rw [if_pos hdisplayed]
                  exact h
                · rw [if_neg hdisplayed]
                  exact h.prefetched hlaid hpresent hhd hingest htwo dest
          · rw [if_neg hmay]
            exact h
        · rw [if_neg hlive]
          exact h
    | _ => exact h
  | finish visible =>
    unfold State.presentStep
    cases hpresent : s.present with
    | kicked ok drawn => exact h.finish hlaid hpresent visible
    | _ => exact h
  | release =>
    cases hpresent : s.present with
    | releasing => exact h.release hlaid hpresent
    | _ =>
      unfold State.presentStep
      rw [hpresent]
      exact h
  | _ => exact h

/-- Everything that holds as long as the steps are clean. -/
structure State.Sound (c : Settings α O) (s : State α O) : Prop where
  /-- How the slots and the threads stand to each other. -/
  laid : s.Laid c
  /-- The frames stand in their order. -/
  lined : s.Lined
  /-- What the slots, the banks and the copies hold. -/
  exact : s.Exact c

/-- Every clean step is sound. -/
theorem State.Sound.step (h : s.Sound c) {a : Action α O} (hclean : s.Clean c a) :
    (s.step c a).Sound c := by
  have hlaid := h.laid.step a
  have hlined := h.lined.mainStep h.laid hclean
  have hlined' := h.lined.presentStep h.laid hclean
  have hexact := h.exact.mainStep h.laid hclean
  have hexact' := h.exact.presentStep h.laid hclean
  refine ⟨hlaid,?_,?_⟩
  · cases a with
    | requestStop =>
      exact h.lined.congr rfl rfl rfl rfl (fun _ _ => rfl) id (List.Sublist.refl _)
    | _ => first | exact hlined | exact hlined'
  · cases a with
    | requestStop =>
      exact ⟨h.exact.shows,h.exact.ahead,h.exact.raw,h.exact.drawn,h.exact.copy,
        h.exact.prefetch,h.exact.cold,h.exact.last,h.exact.untouched⟩
    | _ => first | exact hexact | exact hexact'

theorem State.sound_start (c : Settings α O) (fpga : Fpga α O) (heap : Fin 2 → α) (last : α)
    (localBank : ℕ) : (State.start c fpga heap last localBank).Sound c := by
  have hlaid := laid_start c fpga heap last localBank
  have hempty : ∀ j, ¬(start c fpga heap last localBank).Full j := by
    rintro j (⟨_,hcount⟩ | ⟨_,hcount⟩)
    · cases hcount
    · cases hcount
  have hframes : (start c fpga heap last localBank).main.frames=[] := by
    have hgoal : c.startMain.frames=[] := by
      unfold Settings.startMain
      by_cases hprefills : c.prefills=true
      · rw [if_pos hprefills]
        rfl
      · rw [if_neg hprefills]
        exact c.afterPrefill_frames
    exact hgoal
  have hreads : c.startMain.reads=false := (MainPc.warms_idle c.startMain_warms.1).2.1
  refine ⟨hlaid,⟨List.Pairwise.nil,nofun,?_,nofun,?_,?_,?_⟩,
    ⟨nofun,?_,?_,nofun,nofun,nofun,fun _ => ⟨rfl,rfl⟩,nofun,?_⟩⟩
  · exact fun _ _ => nofun
  · exact fun j hj => absurd hj (hempty j)
  · rw [hframes]
    exact List.Pairwise.nil
  · rw [hframes]
    exact nofun
  · rw [hframes]
    exact nofun
  · exact fun j hj => absurd hj.waits.full (hempty j)
  · intro hmain
    have hmain' : c.startMain = .reading true := hmain
    rw [hmain'] at hreads
    cases hreads

end Misterplex.Pipeline
