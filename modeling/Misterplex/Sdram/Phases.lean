import Misterplex.Sdram.Seats

/-!
# The reader and the swap on their way

While the reader sends a frame no swap is outstanding. A swap that was taken is
the last command until the frame is shown: it is on its way to the state machine,
its toggle is on its way back, or the frame waits for the vertical sync. From the
toggle on every command has been carried out.
-/

namespace Misterplex.FrameSdram

open List

open AsyncFifo (Synced held)

variable {g : Geometry}

/-- The toggle of the last swap has been seen. -/
def System.Settled (s : System g) : Prop :=
  s.video.swapDoneS1=s.writer.swapDoneT ∧ s.video.swapDoneS2=s.writer.swapDoneT ∧
    s.video.swapDoneSeen=s.writer.swapDoneT

/-- The swap is acknowledged in the swap state alone. -/
theorem System.toggle_step (s : System g) (m : Moment) :
    (s.step m).writer.swapDoneT =
      (s.writer.swapDoneT != (m.sdram.isSome && s.writer.state == .swap)) := by
  unfold System.step
  cases m.sdram with
  | none => simp
  | some ready => simp [Writer.step]

open Video

theorem System.pushSwap_refused {s : System g} (h : s.acceptCmd=false) (p : ClkIn) :
    s.video.pushSwap (s.videoPort p)=false := by
  have hno : s.video.acceptCmd (s.videoPort p).cmdAlmostFull=false := h
  simp [pushSwap,hno]

namespace Tracked

variable {t : Tracked g} {m : Moment} {f : ℕ}

/-- No swap is outstanding. -/
structure Calm (t : Tracked g) (f : ℕ) : Prop where
  pending : t.sys.video.swapPending=false
  wait : t.sys.video.swapCommitWait=false
  /-- The toggle has been seen. -/
  settled : t.sys.Settled
  /-- No swap was taken since a frame was shown. -/
  noSwap : ∀ i word, f ≤ i → t.words[i]?=some word → commandOf word ≠ .swap

/-- The way of a swap. -/
inductive Display (t : Tracked g) (f : ℕ) : Prop
  | calm (h : t.Calm f)
  /-- The swap is on its way to the state machine. -/
  | sent (hwait : t.sys.video.swapCommitWait=true) (hpending : t.sys.video.swapPending=false)
      (hsettled : t.sys.Settled) (hleft : t.left<t.words.length)
      (hlast : t.words[t.words.length-1]?=some cmdSwap)
      (honly : ∀ i word, f ≤ i → t.words[i]?=some word → commandOf word = .swap →
        i+1=t.words.length)
  /-- The toggle is on its way back. -/
  | returned (hwait : t.sys.video.swapCommitWait=true)
      (hpending : t.sys.video.swapPending=false)
      (hnew : t.sys.video.swapDoneSeen≠t.sys.writer.swapDoneT)
      (hsync : t.sys.video.swapDoneS2=t.sys.writer.swapDoneT →
        t.sys.video.swapDoneS1=t.sys.writer.swapDoneT)
      (hdrained : t.sys.Fresh t.words.length)
  /-- The frame waits for the vertical sync. -/
  | pending (hwait : t.sys.video.swapCommitWait=false)
      (hpending : t.sys.video.swapPending=true) (hsettled : t.sys.Settled)
      (hdrained : t.sys.Fresh t.words.length)

theorem Display.calm_of_accept (h : t.Display f) (haccept : t.sys.acceptCmd=true) : t.Calm f := by
  unfold System.acceptCmd acceptCmd at haccept
  simp only [Bool.and_eq_true,Bool.not_eq_true'] at haccept
  cases h with
  | calm h => exact h
  | sent hwait _ _ _ _ _ =>
    rw [hwait] at haccept
    exact absurd haccept.2 (by decide)
  | returned hwait _ _ _ _ =>
    rw [hwait] at haccept
    exact absurd haccept.2 (by decide)
  | pending _ hpending _ _ =>
    rw [hpending] at haccept
    exact absurd haccept.1.2 (by decide)

theorem pending_of_flips (h : t.sys.flips m=true) : t.sys.video.swapPending=true := by
  unfold System.flips at h
  cases hclk : m.clk with
  | none => rw [hclk] at h; exact absurd h Bool.false_ne_true
  | some p =>
    rw [hclk,Option.elim_some] at h
    simp only [Video.flips,Bool.and_eq_true] at h
    exact h.1.2

/-- No swap is acknowledged while all is calm. -/
theorem Calm.toggle_step (h : t.Calm f) (hseat : t.Seat f) (m : Moment) :
    (t.step m).sys.writer.swapDoneT=t.sys.writer.swapDoneT := by
  have hstate : (t.sys.writer.state == .swap)=false := by
    refine beq_eq_false_iff_ne.mpr fun hswap => ?_
    obtain ⟨_,word,_,hword,hcommand,hle⟩ := hseat.swap_word hswap
    exact h.noSwap t.left word hle hword hcommand
  have hnext := t.sys.toggle_step m
  rw [hstate,Bool.and_false,Bool.bne_false] at hnext
  exact hnext

/-- A settled toggle stays settled. -/
theorem settled_step (h : t.sys.Settled)
    (htoggle : (t.step m).sys.writer.swapDoneT=t.sys.writer.swapDoneT) :
    (t.step m).sys.Settled := by
  obtain ⟨hs1,hs2,hseen⟩ := h
  unfold System.Settled
  rw [htoggle]
  cases hclk : m.clk with
  | none =>
    have hvideo : (t.step m).sys.video=t.sys.video := by simp [step,System.step,hclk]
    rw [hvideo]
    exact ⟨hs1,hs2,hseen⟩
  | some p =>
    have hvideo : (t.step m).sys.video=t.sys.video.step g (t.sys.videoPort p) := by
      simp [step,System.step,hclk]
    have hdone : t.sys.video.swapDone=false := by simp [swapDone,hs2,hseen]
    rw [hvideo]
    exact ⟨rfl,hs1,by simp [Video.step,hdone,hseen]⟩

/-- What waits for vertical sync goes on waiting. -/
theorem waits_step (h : t.sys.Settled) (hflips : t.sys.flips m=false) :
    (t.step m).sys.video.swapPending=t.sys.video.swapPending ∧
      (t.step m).sys.video.swapCommitWait =
        (t.sys.video.swapCommitWait ||
          m.clk.elim false fun p => t.sys.video.pushSwap (t.sys.videoPort p)) := by
  obtain ⟨_,hs2,hseen⟩ := h
  unfold System.flips at hflips
  cases hclk : m.clk with
  | none => simp [step,System.step,hclk]
  | some p =>
    rw [hclk,Option.elim_some] at hflips
    have hdone : t.sys.video.swapDone=false := by simp [swapDone,hs2,hseen]
    simp [step,System.step,hclk,Video.step,hdone,hflips,Bool.or_comm]

/-- A moment without a swap keeps the calm. -/
theorem Calm.step (h : t.Calm f) (hseat : t.Seat f)
    (hnone : ∀ p∈m.clk, t.sys.video.pushSwap (t.sys.videoPort p)=false)
    (hwords : ∀ word∈t.sys.pushed m, commandOf word ≠ .swap) : (t.step m).Calm f := by
  have hflips : t.sys.flips m=false := by
    cases hflips : t.sys.flips m with
    | false => rfl
    | true =>
      have hpending := pending_of_flips hflips
      rw [h.pending] at hpending
      exact absurd hpending (by decide)
  have hwaits := waits_step h.settled hflips
  have hpush : (m.clk.elim false fun p => t.sys.video.pushSwap (t.sys.videoPort p))=false := by
    cases hclk : m.clk with
    | none => rfl
    | some p => exact hnone p hclk
  constructor
  · rw [hwaits.1]
    exact h.pending
  · rw [hwaits.2,h.wait,hpush]
    rfl
  · exact settled_step h.settled (h.toggle_step hseat m)
  · intro i word hi hword
    rw [words_step] at hword
    rcases Nat.lt_or_ge i t.words.length with hless | hge
    · rw [getElem?_append_left hless] at hword
      exact h.noSwap i word hi hword
    · rw [getElem?_append_right hge] at hword
      exact hwords word (mem_of_getElem? hword)

variable {w1 w2 r1 r2 : ℕ}

open Display

/-- A swap that is pushed begins the display. -/
theorem Calm.step_swap (h : t.Calm f) (hseat : t.Seat f)
    (hsync : Synced t.sys.cmds w1 w2 r1 r2) {p : ClkIn} (hclk : m.clk=some p)
    (hpush : t.sys.video.pushSwap (t.sys.videoPort p)=true)
    (hpushed : t.sys.pushed m=[cmdSwap]) : (t.step m).Display f := by
  have hflips : t.sys.flips m=false := by
    cases hflips : t.sys.flips m with
    | false => rfl
    | true =>
      have hpending := pending_of_flips hflips
      rw [h.pending] at hpending
      exact absurd hpending (by decide)
  have hwaits := waits_step h.settled hflips
  have hwords : (t.step m).words = t.words ++ [cmdSwap] := by rw [words_step,hpushed]
  have hlength : (t.step m).words.length=t.words.length+1 := by
    rw [hwords,length_append,length_singleton]
  have hleft : (t.step m).left≤t.words.length := by
    have hnow := left_le hsync
    rw [left_step]
    unfold System.popped
    split
    · rcases t.sys.held_cases with hnone | ⟨word,hheld⟩
      · rw [hnone]
        exact hnow
      · obtain ⟨_,_,hless⟩ := word_of_held hsync hheld
        rw [hheld]
        exact hless
    · exact hnow
  refine sent ?_ ?_ (settled_step h.settled (h.toggle_step hseat m)) (by omega) ?_ ?_
  · rw [hwaits.2,hclk,Option.elim_some,hpush,Bool.or_true]
  · rw [hwaits.1]
    exact h.pending
  · rw [hlength,Nat.add_sub_cancel,hwords,getElem?_concat_length]
  · intro i word hi hword hswap
    rw [hwords] at hword
    rcases getElem?_push hword with ⟨_,hold⟩ | ⟨hnew,_⟩
    · exact absurd hswap (h.noSwap i word hi hold)
    · rw [hnew,hlength]

/-- A swap that is on its way stays the last command until it is carried out, and then its
toggle is on its way back. -/
theorem step_sent (hsync : Synced t.sys.cmds w1 w2 r1 r2)
    (hordered : t.Ordered f) (hseat : t.Seat f) (hwait : t.sys.video.swapCommitWait=true)
    (hpending : t.sys.video.swapPending=false) (hsettled : t.sys.Settled)
    (hleft : t.left<t.words.length) (hlast : t.words[t.words.length-1]?=some cmdSwap)
    (honly : ∀ i word, f ≤ i → t.words[i]?=some word → commandOf word = .swap →
      i+1=t.words.length) : (t.step m).Display f := by
  have haccept : t.sys.acceptCmd=false := by
    simp [System.acceptCmd,acceptCmd,hwait]
  have hpushed := System.pushed_refused haccept m
  have hwords : (t.step m).words=t.words := by rw [words_step,hpushed,append_nil]
  have hflips : t.sys.flips m=false := by
    cases hflips : t.sys.flips m with
    | false => rfl
    | true =>
      rw [pending_of_flips hflips] at hpending
      exact absurd hpending (by decide)
  have hwaits := waits_step hsettled hflips
  have hwaitNext : (t.step m).sys.video.swapCommitWait=true := by
    rw [hwaits.2,hwait,Bool.true_or]
  have hpendingNext : (t.step m).sys.video.swapPending=false := by
    rw [hwaits.1]
    exact hpending
  have htoggle := t.sys.toggle_step m
  cases hexec : m.sdram.isSome && t.sys.writer.state == .swap with
  | true =>
    rw [hexec,Bool.bne_true] at htoggle
    rw [Bool.and_eq_true,beq_iff_eq] at hexec
    obtain ⟨hsome,hstate⟩ := hexec
    obtain ⟨ready,hsdram⟩ := Option.isSome_iff_exists.mp hsome
    obtain ⟨hpop,word,hheld,hword,hswap,hle⟩ := hseat.swap_word hstate
    have hend := honly t.left word hle hword hswap
    have hpopped : t.sys.popped m=[word] := by rw [popped_eq hsdram hpop,hheld]
    have hwriter := writer_step (t := t) hsdram
    have htakes := Writer.takes_none (t.sys.writerPort ready) (by rw [hstate]; decide)
    obtain ⟨hs1,hs2,hseen⟩ := hsettled
    have hne : t.sys.writer.swapDoneT≠(t.step m).sys.writer.swapDoneT := by
      have hsame : (t.step m).sys.writer.swapDoneT = !t.sys.writer.swapDoneT := htoggle
      rw [hsame]
      cases t.sys.writer.swapDoneT with
      | false => decide
      | true => decide
    refine returned hwaitNext hpendingNext ?_ ?_ ?_
    · cases hclk : m.clk with
      | none =>
        have hvideo : (t.step m).sys.video=t.sys.video := by simp [step,System.step,hclk]
        rw [hvideo,hseen]
        exact hne
      | some p =>
        have hvideo : (t.step m).sys.video=t.sys.video.step g (t.sys.videoPort p) := by
          simp [step,System.step,hclk]
        have hdone : t.sys.video.swapDone=false := by simp [swapDone,hs2,hseen]
        have hsame : (t.step m).sys.video.swapDoneSeen=t.sys.writer.swapDoneT := by
          rw [hvideo]
          simp [Video.step,hdone,hseen]
        rw [hsame]
        exact hne
    · intro hnew
      have hold : (t.step m).sys.video.swapDoneS2=t.sys.writer.swapDoneT := by
        cases hclk : m.clk with
        | none => simpa [step,System.step,hclk] using hs2
        | some p => simpa [step,System.step,hclk,Video.step] using hs1
      exact absurd (hold.symm.trans hnew) hne
    · rw [hwords]
      constructor
      · have hmore : (t.step m).left=t.left+1 := by rw [left_step,hpopped]; rfl
        exact hmore.trans hend
      · rw [hwriter]
        simp [Writer.writing,Writer.step,Writer.nextState,hstate]
      · rw [hwriter]
        simp [Writer.step,Writer.nextState,hstate]
      · rw [hwriter]
        simp [Writer.step,htakes]
      · rw [hwriter]
        simp [Writer.step,Writer.writes,hstate]
  | false =>
    rw [hexec,Bool.bne_false] at htoggle
    refine sent hwaitNext hpendingNext (settled_step hsettled htoggle) ?_ ?_ ?_
    · rw [hwords]
      by_contra hno
      have hmore := t.left_step m
      unfold System.popped at hmore
      split at hmore
      · rename_i hcond
        rw [Bool.and_eq_true] at hcond
        rcases t.sys.held_cases with hnone | ⟨word,hheld⟩
        · rw [hnone,length_nil] at hmore
          omega
        · rw [hheld,length_singleton] at hmore
          obtain ⟨hword,_,_⟩ := word_of_held hsync hheld
          have hindex : t.left=t.words.length-1 := by omega
          rw [hindex,hlast] at hword
          have hswap : commandOf word = .swap := by
            rw [← Option.some.inj hword,commandOf_cmdSwap]
          have hstate := hseat.popped_swap hsync hordered hcond.2 hheld hswap
          rw [hcond.1,hstate] at hexec
          exact absurd hexec (by decide)
      · rw [length_nil] at hmore
        omega
    · rw [hwords]
      exact hlast
    · rw [hwords]
      exact honly

/-- An acknowledged swap waits for vertical sync. -/
theorem step_returned (hg : g.Sized) (hsync : Synced t.sys.cmds w1 w2 r1 r2)
    (hwait : t.sys.video.swapCommitWait=true) (hpending : t.sys.video.swapPending=false)
    (hnew : t.sys.video.swapDoneSeen≠t.sys.writer.swapDoneT)
    (hfollow : t.sys.video.swapDoneS2=t.sys.writer.swapDoneT →
      t.sys.video.swapDoneS1=t.sys.writer.swapDoneT)
    (hdrained : t.sys.Fresh t.words.length) : (t.step m).Display f := by
  have haccept : t.sys.acceptCmd=false := by
    simp [System.acceptCmd,acceptCmd,hwait]
  have hpushed := System.pushed_refused haccept m
  have hwords : (t.step m).words=t.words := by rw [words_step,hpushed,append_nil]
  obtain ⟨htoggle,hnext⟩ := hdrained.step_begun hg hsync rfl m
  have htoggle' : (t.step m).sys.writer.swapDoneT=t.sys.writer.swapDoneT := htoggle
  have hdrainedNext : (t.step m).sys.Fresh (t.step m).words.length := by
    rw [hwords]
    exact hnext
  cases hclk : m.clk with
  | none =>
    have hvideo : (t.step m).sys.video=t.sys.video := by simp [step,System.step,hclk]
    refine returned ?_ ?_ ?_ ?_ hdrainedNext
    · rw [hvideo]
      exact hwait
    · rw [hvideo]
      exact hpending
    · rw [hvideo,htoggle']
      exact hnew
    · rw [hvideo,htoggle']
      exact hfollow
  | some p =>
    have hvideo : (t.step m).sys.video=t.sys.video.step g (t.sys.videoPort p) := by
      simp [step,System.step,hclk]
    by_cases hcome : t.sys.video.swapDoneS2=t.sys.writer.swapDoneT
    · have hdone : t.sys.video.swapDone=true := by
        unfold swapDone
        rw [bne_iff_ne,hcome]
        exact hnew.symm
      refine pending ?_ ?_ ?_ hdrainedNext
      · rw [hvideo]
        simp [Video.step,hdone]
      · rw [hvideo]
        simp [Video.step,Video.flips,hdone,hpending]
      · unfold System.Settled
        rw [htoggle',hvideo]
        exact ⟨rfl,hfollow hcome,by simp [Video.step,hdone,hcome]⟩
    · have hstill : t.sys.video.swapDoneS2=t.sys.video.swapDoneSeen := by
        revert hcome hnew
        cases t.sys.video.swapDoneS2 with
        | false =>
          cases t.sys.video.swapDoneSeen with
          | false => exact fun _ _ => rfl
          | true =>
            cases t.sys.writer.swapDoneT with
            | false => exact fun _ h => absurd rfl h
            | true => exact fun h _ => absurd rfl h
        | true =>
          cases t.sys.video.swapDoneSeen with
          | true => exact fun _ _ => rfl
          | false =>
            cases t.sys.writer.swapDoneT with
            | true => exact fun _ h => absurd rfl h
            | false => exact fun h _ => absurd rfl h
      have hdone : t.sys.video.swapDone=false := by simp [swapDone,hstill]
      refine returned ?_ ?_ ?_ ?_ hdrainedNext
      · rw [hvideo]
        simp [Video.step,hdone,hwait]
      · rw [hvideo]
        simp [Video.step,hdone,hpending]
      · rw [hvideo,htoggle']
        simpa [Video.step,hdone] using hnew
      · intro _
        rw [hvideo,htoggle']
        rfl

/-- A frame that waits for the vertical sync is shown there, with every command carried out. -/
theorem step_pending (hg : g.Sized) (hsync : Synced t.sys.cmds w1 w2 r1 r2)
    (hwait : t.sys.video.swapCommitWait=false) (hpending : t.sys.video.swapPending=true)
    (hsettled : t.sys.Settled) (hdrained : t.sys.Fresh t.words.length) :
    t.sys.pushed m=[] ∧ (t.step m).sys.Fresh (t.step m).words.length ∧
      (t.sys.flips m=false → (t.step m).Display f) ∧
      (t.sys.flips m=true → (t.step m).Calm (t.step m).words.length) := by
  have haccept : t.sys.acceptCmd=false := by
    simp [System.acceptCmd,acceptCmd,hpending]
  have hpushed := System.pushed_refused haccept m
  have hwords : (t.step m).words=t.words := by rw [words_step,hpushed,append_nil]
  obtain ⟨htoggle,hnext⟩ := hdrained.step_begun hg hsync rfl m
  have hdrainedNext : (t.step m).sys.Fresh (t.step m).words.length := by
    rw [hwords]
    exact hnext
  have hsettledNext := settled_step (t := t) hsettled htoggle
  have hpush : (m.clk.elim false fun p => t.sys.video.pushSwap (t.sys.videoPort p))=false := by
    cases m.clk with
    | none => rfl
    | some p => exact System.pushSwap_refused haccept p
  refine ⟨hpushed,hdrainedNext,fun hflips => ?_,fun hflips => ?_⟩
  · have hwaits := waits_step hsettled hflips
    refine pending ?_ ?_ hsettledNext hdrainedNext
    · rw [hwaits.2,hwait,hpush]
      rfl
    · rw [hwaits.1]
      exact hpending
  · cases hclk : m.clk with
    | none =>
      rw [System.flips,hclk] at hflips
      exact absurd hflips Bool.false_ne_true
    | some p =>
      rw [System.flips,hclk,Option.elim_some] at hflips
      rw [hclk,Option.elim_some] at hpush
      have hvideo : (t.step m).sys.video=t.sys.video.step g (t.sys.videoPort p) := by
        simp [step,System.step,hclk]
      constructor
      · rw [hvideo]
        simp [Video.step,hflips]
      · rw [hvideo]
        simp [Video.step,hpush,hwait]
      · exact hsettledNext
      · intro i word hi hword
        rw [getElem?_eq_none hi] at hword
        exact absurd hword (by simp)

end Tracked

end Misterplex.FrameSdram
