import Misterplex.Sdram.Phases

/-!
# The stages of the reader

As long as the frame store takes the reset of every transfer, the reader strobes a
reset, then pixels of which at most every other one is refused, then a swap, and
no swap is outstanding while it sends the pixels.
-/

namespace Misterplex.FrameSdram

open List

open AsyncFifo (Synced)

variable {g : Geometry}

/-- The reset of a transfer is taken. -/
def System.Admits (s : System g) (m : Moment) : Prop :=
  m.clk.isSome=true → s.reader.wrResetPtr=true → s.acceptCmd=true

instance (s : System g) (m : Moment) : Decidable (s.Admits m) :=
  inferInstanceAs (Decidable (m.clk.isSome=true → s.reader.wrResetPtr=true →
    s.acceptCmd=true))

namespace Tracked

variable {t : Tracked g} {m : Moment} {f : ℕ}

/-- No transfer is running and nothing is strobed. -/
structure Resting (t : Tracked g) : Prop where
  ended : t.sys.reader.active=false ∧ t.sys.reader.busy=false
  strobes : t.sys.reader.wrResetPtr=false ∧ t.sys.reader.swapReq=false
  /-- The last reset is far. -/
  spaced : 2≤trail t.words

/-- A transfer was launched, and `need` says whether its reset is still to be strobed. -/
structure Started (t : Tracked g) (need : Bool) : Prop where
  running : t.sys.reader.active=true ∧ t.sys.reader.busy=true
  reset : t.sys.reader.needReset=need ∧ t.sys.reader.wrResetPtr = !need
  /-- No pixel has been sent. -/
  nothing : t.sys.reader.wrEn=false ∧ t.sys.reader.swapReq=false ∧
    t.sys.reader.haveBeat=false ∧ t.sys.reader.qwordsWritten=0 ∧ t.sys.reader.pixI=0
  /-- The last reset is far. -/
  spaced : 2≤trail t.words

/-- The reader sends the pixels of a transfer whose reset was taken. -/
structure Reading (t : Tracked g) (f : ℕ) : Prop where
  running : t.sys.reader.active=true ∧ t.sys.reader.busy=true
  /-- The reset has been sent, the swap has not. -/
  strobes : t.sys.reader.needReset=false ∧ t.sys.reader.wrResetPtr=false ∧
    t.sys.reader.swapReq=false
  left : t.sys.reader.qwordsWritten<g.qwords
  next : t.sys.reader.pixI≤3
  /-- At most every other pixel is refused. -/
  count : t.sys.reader.sent ≤ 2*trail t.words+if t.sys.reader.wrEn then 1 else 0
  /-- A pixel is refused only after one that was taken. -/
  refusal : t.sys.reader.wrEn=true → t.sys.acceptCmd=false →
    t.sys.reader.sent≤2*trail t.words
  /-- Its reset was taken after a frame was shown. -/
  shown : f<t.words.length
  last : t.tags.getLast?=some t.transfer

/-- The reader asks for the swap. -/
structure Closing (t : Tracked g) (f : ℕ) : Prop where
  ended : t.sys.reader.active=false ∧ t.sys.reader.busy=false
  strobes : t.sys.reader.wrResetPtr=false ∧ t.sys.reader.swapReq=true
  /-- The last reset is far. -/
  spaced : 2≤trail t.words
  /-- Its reset was taken after a frame was shown. -/
  shown : f<t.words.length
  last : t.tags.getLast?=some t.transfer

/-- The stage of the reader. While it sends a frame no swap is outstanding. -/
inductive Work (t : Tracked g) (f : ℕ) : Prop
  | resting (h : t.Resting) (hdisplay : t.Display f)
  | started (need : Bool) (h : t.Started need) (hdisplay : t.Display f)
  | reading (h : t.Reading f) (hcalm : t.Calm f)
  | closing (h : t.Closing f) (hcalm : t.Calm f)

open Video

theorem pushed_idle (hen : t.sys.fsWrEn=false) (hreset : t.sys.reader.wrResetPtr=false)
    (hswap : t.sys.reader.swapReq=false) : t.sys.pushed m=[] := by
  unfold System.pushed
  cases m.clk with
  | none => rfl
  | some p =>
    simp [cmdPush,pushReset,pushSwap,pushPixel,System.videoPort,
      hen,hreset,hswap]

theorem pushSwap_idle (hswap : t.sys.reader.swapReq=false) (p : ClkIn) :
    t.sys.video.pushSwap (t.sys.videoPort p)=false := by
  simp [pushSwap,System.videoPort,hswap]

/-- The words stay spaced. -/
theorem spaced_step (h : 2≤trail t.words)
    (hpushed : t.sys.pushed m=[] ∨ t.sys.pushed m=[cmdSwap]) : 2≤trail (t.step m).words := by
  rw [words_step]
  rcases hpushed with hnone | hswap
  · rw [hnone,append_nil]
    exact h
  · rw [hswap,trail_append,commandOf_cmdSwap,if_neg (by decide)]
    omega

/-- A resting reader rests on or starts. -/
theorem rest_step (hactive : t.sys.reader.active=false) (hbusy : t.sys.reader.busy=false)
    {p : ClkIn} (hclk : m.clk=some p) (hspaced : 2≤trail (t.step m).words) :
    (t.step m).Resting ∨ (t.step m).Started true := by
  have hreader : (t.step m).sys.reader=t.sys.reader.step g (t.sys.readerPort p) := by
    simp [step,System.step,hclk]
  have hstrobes : t.sys.reader.strobes (t.sys.readerPort p)=false := by
    simp [Reader.strobes,hactive]
  have hends : t.sys.reader.endsFrame g (t.sys.readerPort p)=false := by
    simp [Reader.endsFrame,Reader.endsBeat,hstrobes]
  cases hlaunch : t.sys.reader.launch (t.sys.readerPort p) with
  | none =>
    refine Or.inl ⟨?_,?_,hspaced⟩
    · rw [hreader]
      simp [Reader.step,hlaunch,hactive,hbusy]
    · rw [hreader]
      simp [Reader.step,hactive,hends]
  | some bank =>
    refine Or.inr ⟨?_,?_,?_,hspaced⟩
    · rw [hreader]
      simp [Reader.step,hlaunch]
    · rw [hreader]
      simp [Reader.step,hlaunch,hactive]
    · rw [hreader]
      simp [Reader.step,hlaunch,hstrobes,hends]

theorem reader_step_none (hclk : m.clk=none) : (t.step m).sys.reader=t.sys.reader := by
  simp [step,System.step,hclk]

variable {w1 w2 r1 r2 w1' w2' r1' r2' : ℕ}

open AsyncFifo

/-- A store that accepts goes on accepting. -/
theorem accept_step (hg : g.Sized)
    (hsync : Synced t.sys.cmds w1 w2 r1 r2) (hnext : Synced (t.step m).sys.cmds w1' w2' r1' r2')
    (hseen : r2≤r2') (hpushed : t.sys.pushed m=[]) (hcalm : (t.step m).Calm f)
    (haccept : t.sys.acceptCmd=true) : (t.step m).sys.acceptCmd=true := by
  have hwords : (t.step m).sys.cmds.accepted.length=t.sys.cmds.accepted.length := by
    have hsame := t.words_step m
    rw [hpushed,append_nil] at hsame
    exact congrArg length hsame
  have halmost : t.sys.cmdAlmostFull=false := by
    unfold System.acceptCmd acceptCmd at haccept
    simp only [Bool.and_eq_true,Bool.not_eq_true'] at haccept
    exact haccept.1.1
  unfold System.cmdAlmostFull wrAlmostFull at halmost
  rw [Bool.or_eq_false_iff] at halmost
  have hfull : wrFull (t.step m).sys.cmds.fifo=false := by
    cases hf : wrFull (t.step m).sys.cmds.fifo with
    | false => rfl
    | true =>
      have heq := (hnext.full_iff hg.deep).mp hf
      have horder := hsync.order
      have hold : wrFull t.sys.cmds.fifo=true := (hsync.full_iff hg.deep).mpr (by omega)
      rw [hold] at halmost
      exact absurd halmost.1 (by decide)
  have hlevel : (afLevelEn g.cmdFifoAw afHeadroom &&
      decide (occAf g.cmdFifoAw afHeadroom≤wrOcc (t.step m).sys.cmds.fifo)) =
      false := by
    cases hen : afLevelEn g.cmdFifoAw afHeadroom with
    | false => rfl
    | true =>
      rw [hen,Bool.true_and,decide_eq_false_iff_not,BitVec.le_def,hsync.wrOcc_eq] at halmost
      rw [Bool.true_and,decide_eq_false_iff_not,BitVec.le_def,hnext.wrOcc_eq]
      omega
  unfold System.acceptCmd acceptCmd System.cmdAlmostFull wrAlmostFull
  rw [hfull,hlevel,hcalm.pending,hcalm.wait]
  rfl

/-- The number of commands that were taken when a frame was shown last. -/
def shownAt (t : Tracked g) (f : ℕ) (m : Moment) : ℕ :=
  if t.sys.flips m then (t.step m).words.length else f

theorem Calm.flips (h : t.Calm f) (m : Moment) : t.sys.flips m=false := by
  cases hflips : t.sys.flips m with
  | false => rfl
  | true =>
    have hpending := pending_of_flips hflips
    rw [h.pending] at hpending
    exact absurd hpending (by decide)

theorem Calm.shownAt (h : t.Calm f) (m : Moment) : t.shownAt f m=f := by
  unfold Tracked.shownAt
  rw [h.flips m]
  rfl

/-- One moment of the display. -/
theorem Display.step (hg : g.Sized) {w1 w2 r1 r2 : ℕ} (hsync : Synced t.sys.cmds w1 w2 r1 r2)
    (hordered : t.Ordered f) (hseat : t.Seat f) (h : t.Display f)
    (hnone : ∀ p∈m.clk, t.sys.video.pushSwap (t.sys.videoPort p)=false)
    (hwords : ∀ word∈t.sys.pushed m, commandOf word ≠ .swap) :
    (t.step m).Display (t.shownAt f m) ∧
      (t.sys.flips m=true → t.sys.pushed m=[] ∧
        (t.step m).sys.Fresh (t.step m).words.length) := by
  have hcases : ∀ {d : Prop}, t.sys.video.swapPending=false → t.sys.flips m=true → d := by
    intro d hpending hflips
    rw [pending_of_flips hflips] at hpending
    exact absurd hpending (by decide)
  have hstay : t.sys.video.swapPending=false → t.shownAt f m=f := by
    intro hpending
    unfold Tracked.shownAt
    cases hflips : t.sys.flips m with
    | false => rfl
    | true => exact hcases hpending hflips
  cases h with
  | calm hcalm =>
    rw [hstay hcalm.pending]
    exact ⟨Display.calm (hcalm.step hseat hnone hwords),hcases hcalm.pending⟩
  | sent hwait hpending hsettled hleft hlast honly =>
    rw [hstay hpending]
    exact ⟨step_sent hsync hordered hseat hwait hpending hsettled hleft hlast honly,
      hcases hpending⟩
  | returned hwait hpending hnew hfollow hdrained =>
    exact ⟨step_returned hg hsync hwait hpending hnew hfollow hdrained,hcases hpending⟩
  | pending hwait hpending hsettled hdrained =>
    obtain ⟨hpushed,hfresh,hgoes,hshows⟩ :=
      step_pending (m := m) (f := f) hg hsync hwait hpending hsettled hdrained
    refine ⟨?_,fun _ => ⟨hpushed,hfresh⟩⟩
    unfold Tracked.shownAt
    cases hflips : t.sys.flips m with
    | false => exact hgoes hflips
    | true => exact Display.calm (hshows hflips)

/-- One moment of the resting reader. -/
theorem Resting.step (hg : g.Sized) {w1 w2 r1 r2 : ℕ} (hsync : Synced t.sys.cmds w1 w2 r1 r2)
    (hordered : t.Ordered f) (hseat : t.Seat f) (h : t.Resting) (hdisplay : t.Display f) :
    t.Pushes f m ∧ (t.step m).Work (t.shownAt f m) ∧
      (t.sys.flips m=true → t.sys.pushed m=[] ∧
        (t.step m).sys.Fresh (t.step m).words.length) := by
  have hen : t.sys.fsWrEn=false := by simp [System.fsWrEn,h.ended.2]
  have hpushed := pushed_idle (m := m) hen h.strobes.1 h.strobes.2
  obtain ⟨hnext,hshows⟩ := hdisplay.step (m := m) hg hsync hordered hseat
    (fun p _ => pushSwap_idle h.strobes.2 p)
    (by rw [hpushed]; exact fun word hword => absurd hword not_mem_nil)
  refine ⟨Pushes.nothing hpushed,?_,hshows⟩
  have hspaced := spaced_step h.spaced (Or.inl hpushed)
  cases hclk : m.clk with
  | none =>
    have hreader := reader_step_none (t := t) hclk
    exact Work.resting ⟨by rw [hreader]; exact h.ended,by rw [hreader]; exact h.strobes,hspaced⟩
      hnext
  | some p =>
    rcases rest_step h.ended.1 h.ended.2 hclk hspaced with hrest | hstart
    · exact Work.resting hrest hnext
    · exact Work.started true hstart hnext

/-- One moment of the started reader. -/
theorem Started.step (hg : g.Sized) {w1 w2 r1 r2 : ℕ} (hsync : Synced t.sys.cmds w1 w2 r1 r2)
    (hordered : t.Ordered f) (hseat : t.Seat f) {need : Bool} (h : t.Started need)
    (hdisplay : t.Display f) (hadmits : t.sys.Admits m) :
    t.Pushes f m ∧ (t.step m).Work (t.shownAt f m) ∧
      (t.sys.flips m=true → t.sys.pushed m=[] ∧
        (t.step m).sys.Fresh (t.step m).words.length) := by
  obtain ⟨hactive,hbusy⟩ := h.running
  obtain ⟨hneed,hreset⟩ := h.reset
  obtain ⟨hen,hswap,hbeat,hqw,hpix⟩ := h.nothing
  have hen' : t.sys.fsWrEn=false := by simp [System.fsWrEn,hen]
  have hnoSwap : ∀ p∈m.clk, t.sys.video.pushSwap (t.sys.videoPort p)=false :=
    fun p _ => pushSwap_idle hswap p
  cases hclk : m.clk with
  | none =>
    have hpushed := t.sys.pushed_none hclk
    obtain ⟨hnext,hshows⟩ := hdisplay.step (m := m) hg hsync hordered hseat hnoSwap
      (by rw [hpushed]; exact fun word hword => absurd hword not_mem_nil)
    have hreader := reader_step_none (t := t) hclk
    refine ⟨Pushes.nothing hpushed,Work.started need ⟨?_,?_,?_,?_⟩ hnext,hshows⟩
    · rw [hreader]
      exact h.running
    · rw [hreader]
      exact h.reset
    · rw [hreader]
      exact h.nothing
    · exact spaced_step h.spaced (Or.inl hpushed)
  | some p =>
    have hreader : (t.step m).sys.reader=t.sys.reader.step g (t.sys.readerPort p) := by
      simp [Tracked.step,System.step,hclk]
    have hlaunch := Reader.launch_active hactive (t.sys.readerPort p)
    have hstrobes : t.sys.reader.strobes (t.sys.readerPort p)=false := by
      simp [Reader.strobes,hbeat]
    have hends : t.sys.reader.endsFrame g (t.sys.readerPort p)=false := by
      simp [Reader.endsFrame,Reader.endsBeat,hstrobes]
    have hrunning : (t.step m).sys.reader.active=true ∧ (t.step m).sys.reader.busy=true := by
      rw [hreader]
      simp [Reader.step,hlaunch,hactive,hbusy,hends]
    cases need with
    | true =>
      have hpushed := pushed_idle (m := m) hen' hreset hswap
      obtain ⟨hnext,hshows⟩ := hdisplay.step (m := m) hg hsync hordered hseat hnoSwap
        (by rw [hpushed]; exact fun word hword => absurd hword not_mem_nil)
      refine ⟨Pushes.nothing hpushed,Work.started false ⟨hrunning,?_,?_,?_⟩ hnext,hshows⟩
      · rw [hreader]
        simp [Reader.step,hlaunch,hactive,hneed]
      · rw [hreader]
        simp [Reader.step,hlaunch,hstrobes,hends,Reader.endsBeat,Reader.takesBeat,hneed,hbeat,
          hqw,hpix]
      · exact spaced_step h.spaced (Or.inl hpushed)
    | false =>
      have haccept := hadmits (by rw [hclk]; rfl) hreset
      have hcalm := hdisplay.calm_of_accept haccept
      have hpush : t.sys.video.pushReset (t.sys.videoPort p)=true := by
        unfold pushReset
        rw [Bool.and_eq_true]
        exact ⟨hreset,haccept⟩
      have hpushed : t.sys.pushed m=[cmdReset] := by
        unfold System.pushed
        rw [hclk,Option.elim_some]
        simp [cmdPush,cmdWdata,hpush]
      have hwords : (t.step m).words = t.words ++ [cmdReset] := by rw [words_step,hpushed]
      have htransfer : (t.step m).transfer=t.transfer := by
        simp [Tracked.step,System.launches,hclk,hlaunch]
      have hshown := hordered.shown
      have hlarge := hg.large
      rw [hcalm.shownAt m]
      refine ⟨Pushes.reset hpushed h.spaced,Work.reading ⟨hrunning,?_,?_,?_,?_,?_,?_,?_⟩
        (hcalm.step hseat hnoSwap ?_),?_⟩
      · rw [hreader]
        simp [Reader.step,hlaunch,hneed,hends]
      · rw [hreader]
        have hleft : 0<g.qwords := Nat.div_pos (by omega) (by decide)
        simp [Reader.step,hlaunch,Reader.endsBeat,hstrobes,hqw,hleft]
      · rw [hreader]
        simp [Reader.step,hlaunch,hstrobes,hpix]
      · rw [hreader]
        simp [Reader.sent,Reader.step,hlaunch,hstrobes,Reader.endsBeat,hqw,hpix,hbeat]
      · intro hyes
        rw [hreader] at hyes
        rw [show (t.sys.reader.step g (t.sys.readerPort p)).wrEn=false from hstrobes] at hyes
        exact absurd hyes (by decide)
      · rw [hwords,length_append,length_singleton]
        omega
      · rw [htransfer]
        simp [Tracked.step,hpushed]
      · rw [hpushed]
        intro word hword
        rw [mem_singleton.mp hword,commandOf_cmdReset]
        decide
      · intro hflips
        rw [hcalm.flips m] at hflips
        exact absurd hflips (by decide)

/-- While pixels are sent the frame store takes the pixel that is strobed, if it accepts
commands. -/
theorem Reading.pushes (h : t.Reading f) {p : ClkIn} (hclk : m.clk=some p) :
    t.Pushes f m ∧ (∀ word∈t.sys.pushed m, commandOf word ≠ .swap) ∧
      (t.step m).tags.getLast?=some t.transfer ∧ f<(t.step m).words.length ∧
      (t.sys.reader.wrEn=true → t.sys.acceptCmd=true →
        trail (t.step m).words=trail t.words+1) ∧
      ((t.sys.reader.wrEn && t.sys.acceptCmd)=false →
        t.sys.pushed m=[] ∧ (t.step m).words=t.words) := by
  obtain ⟨_,hbusy⟩ := h.running
  obtain ⟨_,hreset,hswap⟩ := h.strobes
  cases htake : t.sys.reader.wrEn && t.sys.acceptCmd with
  | true =>
    rw [Bool.and_eq_true] at htake
    have hpixel : t.sys.video.pushPixel (t.sys.videoPort p)=true := by
      unfold pushPixel
      rw [Bool.and_eq_true]
      refine ⟨?_,htake.2⟩
      simp [System.videoPort,System.fsWrEn,hbusy,htake.1]
    have hnoReset : t.sys.video.pushReset (t.sys.videoPort p)=false := by
      simp [pushReset,System.videoPort,hreset]
    have hpushed : t.sys.pushed m=[cmdPixel t.sys.reader.wrPixel] := by
      unfold System.pushed
      rw [hclk,Option.elim_some]
      have hpix : (t.sys.videoPort p).wrPixel=t.sys.reader.wrPixel := rfl
      simp [cmdPush,cmdWdata,hpixel,hnoReset,pushSwap_idle hswap p,hpix]
    have hwords : (t.step m).words = t.words ++ [cmdPixel t.sys.reader.wrPixel] := by
      rw [words_step,hpushed]
    refine ⟨Pushes.pixel hpushed (commandOf_cmdPixel _) h.last h.shown,?_,?_,?_,?_,?_⟩
    · rw [hpushed]
      intro word hword
      rw [mem_singleton.mp hword,commandOf_cmdPixel]
      decide
    · simp [Tracked.step,hpushed]
    · rw [hwords,length_append]
      exact Nat.lt_add_right _ h.shown
    · intro _ _
      rw [hwords,trail_append,commandOf_cmdPixel,if_neg (by decide)]
    · intro hno
      exact absurd hno (by decide)
  | false =>
    have hpixel : t.sys.video.pushPixel (t.sys.videoPort p)=false := by
      unfold pushPixel
      rw [Bool.and_eq_false_iff] at htake ⊢
      rcases htake with hen | haccept
      · exact Or.inl (by simp [System.videoPort,System.fsWrEn,hen])
      · exact Or.inr haccept
    have hnoReset : t.sys.video.pushReset (t.sys.videoPort p)=false := by
      simp [pushReset,System.videoPort,hreset]
    have hpushed : t.sys.pushed m=[] := by
      unfold System.pushed
      rw [hclk,Option.elim_some]
      simp [cmdPush,hpixel,hnoReset,pushSwap_idle hswap p]
    have hwords : (t.step m).words=t.words := by rw [words_step,hpushed,append_nil]
    refine ⟨Pushes.nothing hpushed,?_,?_,?_,?_,fun _ => ⟨hpushed,hwords⟩⟩
    · rw [hpushed]
      exact fun word hword => absurd hword not_mem_nil
    · simpa [Tracked.step,hpushed] using h.last
    · rw [hwords]
      exact h.shown
    · intro hen haccept
      rw [hen,haccept] at htake
      exact absurd htake (by decide)

theorem accept_of_strobes {p : ClkIn} (h : t.sys.reader.strobes (t.sys.readerPort p)=true) :
    t.sys.acceptCmd=true := by
  simp only [Reader.strobes,System.readerPort,Bool.and_eq_true] at h
  exact h.1.2.1

theorem Reading.fair (h : t.Reading f) {p : ClkIn} (hclk : m.clk=some p) :
    t.sys.reader.sent+(if t.sys.reader.strobes (t.sys.readerPort p) then 1 else 0) ≤
      2*trail (t.step m).words +
        if t.sys.reader.strobes (t.sys.readerPort p) && !t.sys.reader.wrEn then 1 else 0 := by
  obtain ⟨_,_,_,_,htaken,huntaken⟩ := h.pushes hclk
  have hcount := h.count
  have hrefusal := h.refusal
  cases hen : t.sys.reader.wrEn with
  | false =>
    have hsame := (huntaken (by rw [hen]; rfl)).2
    rw [hen] at hcount
    rw [hsame,Bool.not_false,Bool.and_true]
    simpa using hcount
  | true =>
    rw [hen,if_pos rfl] at hcount
    cases haccept : t.sys.acceptCmd with
    | true =>
      have hone : (if t.sys.reader.strobes (t.sys.readerPort p) = true then 1 else 0)≤1 := by
        split
        · exact Nat.le_refl 1
        · exact Nat.zero_le 1
      rw [htaken hen haccept]
      omega
    | false =>
      have hno : t.sys.reader.strobes (t.sys.readerPort p)=false := by
        cases hs : t.sys.reader.strobes (t.sys.readerPort p) with
        | false => rfl
        | true =>
          rw [accept_of_strobes hs] at haccept
          exact absurd haccept (by decide)
      have hless := hrefusal hen haccept
      rw [(huntaken (by rw [haccept,Bool.and_false])).2,hno]
      simpa using hless

/-- The pixels that are sent are taken or refused, and the last one is followed by the swap. -/
theorem Reading.step (hg : g.Sized)
    (hsync : Synced t.sys.cmds w1 w2 r1 r2) (hnext : Synced (t.step m).sys.cmds w1' w2' r1' r2')
    (hseen : r2≤r2') (hseat : t.Seat f) (h : t.Reading f) (hcalm : t.Calm f) :
    t.Pushes f m ∧ (t.step m).Work f := by
  obtain ⟨hactive,hbusy⟩ := h.running
  obtain ⟨hneed,hreset,hswap⟩ := h.strobes
  have hcount := h.count
  have hrefusal := h.refusal
  have hnoSwap : ∀ p∈m.clk, t.sys.video.pushSwap (t.sys.videoPort p)=false :=
    fun p _ => pushSwap_idle hswap p
  cases hclk : m.clk with
  | none =>
    have hpushed := t.sys.pushed_none hclk
    have hwords : (t.step m).words=t.words := by rw [words_step,hpushed,append_nil]
    have hreader := reader_step_none (t := t) hclk
    have hcalmNext := hcalm.step (m := m) hseat hnoSwap
      (by rw [hpushed]; exact fun word hword => absurd hword not_mem_nil)
    refine ⟨Pushes.nothing hpushed,Work.reading ⟨?_,?_,?_,?_,?_,?_,?_,?_⟩ hcalmNext⟩
    · rw [hreader]
      exact h.running
    · rw [hreader]
      exact h.strobes
    · rw [hreader]
      exact h.left
    · rw [hreader]
      exact h.next
    · rw [hreader,hwords]
      exact hcount
    · rw [hreader,hwords]
      intro hen hrefused
      refine hrefusal hen ?_
      cases haccept : t.sys.acceptCmd with
      | false => rfl
      | true =>
        rw [accept_step hg hsync hnext hseen hpushed hcalmNext haccept] at hrefused
        exact absurd hrefused (by decide)
    · rw [hwords]
      exact h.shown
    · simpa [Tracked.step,hpushed,System.launches,hclk] using h.last
  | some p =>
    have hreader : (t.step m).sys.reader=t.sys.reader.step g (t.sys.readerPort p) := by
      simp [Tracked.step,System.step,hclk]
    have hlaunch := Reader.launch_active hactive (t.sys.readerPort p)
    have htransfer : (t.step m).transfer=t.transfer := by
      simp [Tracked.step,System.launches,hclk,hlaunch]
    obtain ⟨hpush,hnot,hlast,hshown,htaken,huntaken⟩ := h.pushes hclk
    have hcalmNext := hcalm.step (m := m) hseat hnoSwap hnot
    have hfair := h.fair hclk
    obtain ⟨hgoes,hstops⟩ := Reader.sent_step hactive h.left h.next (t.sys.readerPort p)
    have hresetNext : (t.step m).sys.reader.wrResetPtr=false := by
      rw [hreader]
      simp [Reader.step,hneed]
    have henNext : (t.step m).sys.reader.wrEn=t.sys.reader.strobes (t.sys.readerPort p) := by
      rw [hreader]
      rfl
    cases hends : t.sys.reader.endsFrame g (t.sys.readerPort p) with
    | true =>
      obtain ⟨hstrobes,hall⟩ := hstops hends
      have hlarge := hg.large
      have hquads : 2≤g.qwords := (Nat.le_div_iff_mul_le (by decide)).mpr hlarge
      refine ⟨hpush,Work.closing ⟨?_,⟨hresetNext,?_⟩,?_,hshown,?_⟩ hcalmNext⟩
      · rw [hreader]
        simp [Reader.step,hlaunch,hends]
      · rw [hreader]
        exact hends
      · rw [hstrobes] at hfair
        have hone : (if (true && !t.sys.reader.wrEn) = true then 1 else 0)≤1 := by
          split
          · exact Nat.le_refl 1
          · exact Nat.zero_le 1
        omega
      · rw [htransfer]
        exact hlast
    | false =>
      obtain ⟨hsent,hleft,hpix⟩ := hgoes hends
      refine ⟨hpush,Work.reading ⟨?_,⟨?_,hresetNext,?_⟩,?_,?_,?_,?_,hshown,?_⟩ hcalmNext⟩
      · rw [hreader]
        simp [Reader.step,hlaunch,hactive,hbusy,hends]
      · rw [hreader]
        simp [Reader.step,hlaunch,hneed]
      · rw [hreader]
        exact hends
      · rw [hreader]
        exact hleft
      · rw [hreader]
        exact hpix
      · rw [henNext,hreader,hsent]
        cases hs : t.sys.reader.strobes (t.sys.readerPort p) with
        | false =>
          rw [hs] at hfair
          simpa using hfair
        | true =>
          rw [hs] at hfair
          have hone : (if (true && !t.sys.reader.wrEn) = true then 1 else 0)≤1 := by
            split
            · exact Nat.le_refl 1
            · exact Nat.zero_le 1
          rw [if_pos rfl] at hfair ⊢
          omega
      · rw [henNext,hreader,hsent]
        intro hs hrefused
        rw [hs,Bool.true_and] at hfair
        cases hen : t.sys.reader.wrEn with
        | true =>
          rw [hen] at hfair
          rw [hs]
          simpa using hfair
        | false =>
          have hpushed := (huntaken (by rw [hen]; rfl)).1
          rw [accept_step hg hsync hnext hseen hpushed hcalmNext (accept_of_strobes hs)] at hrefused
          exact absurd hrefused (by decide)
      · rw [htransfer]
        exact hlast

/-- The swap that is asked for is taken or refused, and the reader rests or launches the next
transfer. -/
theorem Closing.step {w1 w2 r1 r2 : ℕ} (hsync : Synced t.sys.cmds w1 w2 r1 r2) (hseat : t.Seat f)
    (h : t.Closing f) (hcalm : t.Calm f) : t.Pushes f m ∧ (t.step m).Work f := by
  obtain ⟨hactive,hbusy⟩ := h.ended
  obtain ⟨hreset,hswap⟩ := h.strobes
  have hen : t.sys.fsWrEn=false := by simp [System.fsWrEn,hbusy]
  cases hclk : m.clk with
  | none =>
    have hpushed := t.sys.pushed_none hclk
    have hwords : (t.step m).words=t.words := by rw [words_step,hpushed,append_nil]
    have hreader := reader_step_none (t := t) hclk
    have hcalmNext := hcalm.step (m := m) hseat (by rw [hclk]; exact fun p hp => absurd hp (by simp))
      (by rw [hpushed]; exact fun word hword => absurd hword not_mem_nil)
    refine ⟨Pushes.nothing hpushed,Work.closing ⟨?_,?_,?_,?_,?_⟩ hcalmNext⟩
    · rw [hreader]
      exact h.ended
    · rw [hreader]
      exact h.strobes
    · rw [hwords]
      exact h.spaced
    · rw [hwords]
      exact h.shown
    · simpa [Tracked.step,hpushed,System.launches,hclk] using h.last
  | some p =>
    have hnoReset : t.sys.video.pushReset (t.sys.videoPort p)=false := by
      simp [pushReset,System.videoPort,hreset]
    have hnoPixel : t.sys.video.pushPixel (t.sys.videoPort p)=false := by
      simp [pushPixel,System.videoPort,hen]
    cases hpush : t.sys.video.pushSwap (t.sys.videoPort p) with
    | true =>
      have hpushed : t.sys.pushed m=[cmdSwap] := by
        unfold System.pushed
        rw [hclk,Option.elim_some]
        simp [cmdPush,cmdWdata,hpush,hnoReset]
      have hdisplay := hcalm.step_swap hseat hsync hclk hpush hpushed
      refine ⟨Pushes.swap hpushed h.spaced h.last h.shown,?_⟩
      rcases rest_step hactive hbusy hclk (spaced_step h.spaced (Or.inr hpushed)) with hrest | hstart
      · exact Work.resting hrest hdisplay
      · exact Work.started true hstart hdisplay
    | false =>
      have hpushed : t.sys.pushed m=[] := by
        unfold System.pushed
        rw [hclk,Option.elim_some]
        simp [cmdPush,hpush,hnoReset,hnoPixel]
      have hcalmNext := hcalm.step (m := m) hseat
        (by intro q hq; exact hpush)
        (by rw [hpushed]; exact fun word hword => absurd hword not_mem_nil)
      refine ⟨Pushes.nothing hpushed,?_⟩
      rcases rest_step hactive hbusy hclk (spaced_step h.spaced (Or.inl hpushed)) with hrest | hstart
      · exact Work.resting hrest (Display.calm hcalmNext)
      · exact Work.started true hstart (Display.calm hcalmNext)

/-- One moment of the reader, whatever it does. -/
theorem Work.step (hg : g.Sized)
    (hsync : Synced t.sys.cmds w1 w2 r1 r2) (hnext : Synced (t.step m).sys.cmds w1' w2' r1' r2')
    (hseen : r2≤r2') (hordered : t.Ordered f) (hseat : t.Seat f) (h : t.Work f)
    (hadmits : t.sys.Admits m) : t.Pushes f m ∧ (t.step m).Work (t.shownAt f m) ∧
      (t.sys.flips m=true → t.sys.pushed m=[] ∧
        (t.step m).sys.Fresh (t.step m).words.length) := by
  cases h with
  | resting h hdisplay => exact h.step hg hsync hordered hseat hdisplay
  | started need h hdisplay => exact h.step hg hsync hordered hseat hdisplay hadmits
  | reading h hcalm =>
    obtain ⟨hpushes,hwork⟩ := h.step hg hsync hnext hseen hseat hcalm
    refine ⟨hpushes,by rw [hcalm.shownAt m]; exact hwork,fun hflips => ?_⟩
    rw [hcalm.flips m] at hflips
    exact absurd hflips (by decide)
  | closing h hcalm =>
    obtain ⟨hpushes,hwork⟩ := h.step (m := m) hsync hseat hcalm
    refine ⟨hpushes,by rw [hcalm.shownAt m]; exact hwork,fun hflips => ?_⟩
    rw [hcalm.flips m] at hflips
    exact absurd hflips (by decide)

end Tracked

end Misterplex.FrameSdram
