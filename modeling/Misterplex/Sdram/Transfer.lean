import Misterplex.Lib.Raster
import Misterplex.Sdram.Counting

/-!
# One transfer

From an idle system a transfer first resets the write pointer, then sends its
pixels, then asks for the swap. The strobe of the last pixel comes together with
the end of busy, so the frame store takes one pixel fewer than the frame has and
the last word of the new bank is never written.
-/

namespace Misterplex.FrameSdram

open AsyncFifo (Synced held)
open Trace

variable {g : Geometry} {s : System g} {m : Moment} {n : ℕ}

/-- No transfer and no swap is outstanding, and every command has been carried out. -/
structure System.Idle (s : System g) : Prop where
  /-- No transfer is running and nothing is strobed. -/
  reader : s.reader.active=false ∧ s.reader.busy=false ∧ s.reader.wrResetPtr=false ∧
    s.reader.swapReq=false
  video : s.video.swapPending=false ∧ s.video.swapCommitWait=false
  toggles : s.video.swapDoneS1=s.writer.swapDoneT ∧ s.video.swapDoneS2=s.writer.swapDoneT ∧
    s.video.swapDoneSeen=s.writer.swapDoneT
  /-- No command is being carried out. -/
  writer : s.writer.writing=false ∧ s.writer.state ≠ .swap ∧ s.writer.cmdPop=false ∧
    s.writer.sdramWr=false
  /-- The command FIFO is in order and every command has left it. -/
  cmds : s.cmds.delivered=s.cmds.accepted ∧ ∃ w1 w2 r1 r2, Synced s.cmds w1 w2 r1 r2

namespace System

/-- No command has been carried out since word number `n`. -/
structure Fresh (s : System g) (n : ℕ) : Prop where
  /-- Just `n` words have left the FIFO. -/
  delivered : s.cmds.delivered.length=n
  /-- Nothing is being written. -/
  writing : s.writer.writing=false
  /-- No swap is being carried out. -/
  state : s.writer.state ≠ .swap
  /-- No word is being popped. -/
  cmdPop : s.writer.cmdPop=false
  /-- Nothing is put on the port. -/
  sdramWr : s.writer.sdramWr=false

variable {w1 w2 r1 r2 : ℕ}

/-- The command FIFO stays in step. -/
theorem synced_step (hg : g.Sized) (h : Synced s.cmds w1 w2 r1 r2) (m : Moment) :
    ∃ w1' w2', Synced (s.step m).cmds w1' w2'
      (if m.clk.isSome then AsyncFifo.fetched s.cmds else r1) (if m.clk.isSome then r1 else r2) := by
  have hnext := h.step hg.deep (s.cmdEdge_running m)
  have hclk : (s.cmdEdge m).wr.isSome=m.clk.isSome := by simp [cmdEdge]
  rw [hclk] at hnext
  exact ⟨_,_,hnext⟩

theorem head_of_held (h : Synced s.cmds w1 w2 r1 r2) {word : BitVec 18}
    (hword : held s.cmds.fifo=[word]) :
    (s.cmds.accepted.drop s.cmds.delivered.length).head?=some word := by
  rw [← h.inOrder,hword,List.append_assoc,List.drop_left]
  rfl

/-- The first command that is carried out is the reset of the write pointer, if that is the
first one that is taken. -/
theorem Fresh.step (hg : g.Sized) (hsync : Synced s.cmds w1 w2 r1 r2)
    (h : s.Fresh n) (hfirst : ∀ word∈(s.cmds.accepted.drop n).head?, word=cmdReset)
    (m : Moment) : (s.step m).writer.swapDoneT=s.writer.swapDoneT ∧
      ((s.step m).Fresh n ∨ (s.step m).Behind n ∧ s.cmds.accepted.length≠n) := by
  have hpopped : s.popped m=[] := by simp [popped,h.cmdPop]
  have hdelivered : (s.step m).cmds.delivered=s.cmds.delivered := by
    rw [s.step_delivered m,hpopped,List.append_nil]
  cases hsdram : m.sdram with
  | none =>
    have hwriter : (s.step m).writer=s.writer := by simp [System.step,hsdram]
    refine ⟨by rw [hwriter],Or.inl ?_⟩
    constructor
    · rw [hdelivered]
      exact h.delivered
    · rw [hwriter]
      exact h.writing
    · rw [hwriter]
      exact h.state
    · rw [hwriter]
      exact h.cmdPop
    · rw [hwriter]
      exact h.sdramWr
  | some ready =>
    have hwriter : (s.step m).writer=s.writer.step g (s.writerPort ready) := by
      simp [System.step,hsdram]
    have htoggle : (s.step m).writer.swapDoneT=s.writer.swapDoneT := by
      have hstate : (s.writer.state == .swap)=false := beq_eq_false_iff_ne.mpr h.state
      rw [hwriter]
      simp [Writer.step,hstate]
    refine ⟨htoggle,?_⟩
    cases htakes : s.writer.takes (s.writerPort ready) with
    | none =>
      have hpixel : ¬s.writer.takesPixel (s.writerPort ready) := by
        intro htaken
        cases htaken with
        | intro word hword =>
          rw [htakes] at hword
          exact absurd hword.1 (by simp)
      have hwriting : (s.step m).writer.writing=false := by
        rw [hwriter]
        cases hnext : (s.writer.step g (s.writerPort ready)).writing with
        | false => rfl
        | true =>
          have hold := Writer.writing_step hpixel hnext
          rw [h.writing] at hold
          exact absurd hold (by decide)
      refine Or.inl ⟨by rw [hdelivered]; exact h.delivered,hwriting,?_,?_,?_⟩
      · intro hswap
        rw [hwriter] at hswap
        have htaken := Writer.swap_step hswap
        cases htaken with
        | intro word hword =>
          rw [htakes] at hword
          exact absurd hword.1 (by simp)
      · rw [hwriter]
        simp [Writer.step,htakes]
      · have hold := h.writing
        unfold Writer.writing at hold
        rw [Bool.or_eq_false_iff] at hold
        rw [hwriter]
        simp [Writer.step,Writer.writes,hold.1]
    | some word =>
      have hheld := command_some (Writer.takes_some htakes).2.2
      have hhead := head_of_held hsync hheld
      rw [h.delivered] at hhead
      have hreset := hfirst word hhead
      have hresets : s.writer.resets (s.writerPort ready)=true :=
        Writer.resets_iff.mpr ⟨word,htakes,by rw [hreset,commandOf_cmdReset]⟩
      have hplaced := Writer.placed_resets hg hresets
      have hlength : s.cmds.accepted.length≠n := by
        intro hsame
        rw [List.drop_of_length_le (by omega)] at hhead
        exact absurd hhead (by simp)
      refine Or.inr ⟨⟨by rw [hwriter]; exact hplaced.1,?_,Or.inl ?_⟩,hlength⟩
      · rw [hdelivered,h.delivered]
      · rw [hwriter,hplaced.2]
        exact Nat.zero_le _

/-- With every command carried out, nothing is carried out until another one is taken. -/
theorem Fresh.step_begun (hg : g.Sized) (hsync : Synced s.cmds w1 w2 r1 r2)
    (h : s.Fresh n) (hnone : s.cmds.accepted.length=n) (m : Moment) :
    (s.step m).writer.swapDoneT=s.writer.swapDoneT ∧ (s.step m).Fresh n := by
  have hfirst : ∀ word∈(s.cmds.accepted.drop n).head?, word=cmdReset := by
    rw [List.drop_of_length_le (Nat.le_of_eq hnone)]
    intro word hword
    exact absurd hword (by simp)
  obtain ⟨htoggle,hfresh | ⟨_,hsome⟩⟩ := h.step hg hsync hfirst m
  · exact ⟨htoggle,hfresh⟩
  · exact absurd hnone hsome

end System

/-- Pixels of the frame that were sent. -/
def Reader.sent (r : Reader) : ℕ := 4*r.qwordsWritten+if r.haveBeat then r.pixI else 0

theorem Reader.launch_active {r : Reader} (h : r.active=true) (p : ReaderPort) :
    r.launch p = none := by
  simp [launch,freshDb,freshSpi,heldGo,freeForDma,h]

/-- A strobe sends a pixel, and the last one ends the frame. -/
theorem Reader.sent_step {r : Reader} (hactive : r.active=true) (hleft : r.qwordsWritten<g.qwords)
    (hnext : r.pixI≤3) (p : ReaderPort) :
    (r.endsFrame g p=false → (r.step g p).sent=r.sent+(if r.strobes p then 1 else 0) ∧
      (r.step g p).qwordsWritten<g.qwords ∧ (r.step g p).pixI≤3) ∧
    (r.endsFrame g p=true → r.strobes p=true ∧ r.sent+1=4*g.qwords) := by
  have hlaunch := launch_active hactive p
  cases hstrobes : r.strobes p with
  | false =>
    constructor
    · intro _
      refine ⟨?_,?_,?_⟩
      · cases htakes : r.takesBeat p with
        | true =>
          have hbeat : r.haveBeat=false := by
            unfold takesBeat at htakes
            simp only [Bool.and_eq_true,Bool.not_eq_true'] at htakes
            exact htakes.1.2
          simp [sent,step,hlaunch,endsBeat,hstrobes,htakes,hbeat]
        | false => simp [sent,step,hlaunch,endsBeat,hstrobes,htakes]
      · simp [step,hlaunch,endsBeat,hstrobes,hleft]
      · simp only [step,hlaunch,hstrobes]
        split
        · exact Nat.zero_le _
        · exact hnext
    · intro hends
      simp [endsFrame,endsBeat,hstrobes] at hends
  | true =>
    have hbeat : r.haveBeat=true := by
      unfold strobes at hstrobes
      rw [Bool.and_eq_true] at hstrobes
      exact hstrobes.2
    have htakes : r.takesBeat p=false := by simp [takesBeat,hbeat]
    by_cases hlast : r.pixI=3
    · constructor
      · intro hends
        have hframe : r.qwordsWritten+1≠g.qwords := by
          simpa [endsFrame,endsBeat,hstrobes,hlast] using hends
        refine ⟨?_,?_,?_⟩
        · simp [sent,step,hlaunch,endsBeat,hstrobes,htakes,hbeat,hlast]
          omega
        · simp [step,hlaunch,endsBeat,hstrobes,hlast]
          omega
        · simp [step,hlaunch,htakes,hstrobes,hlast]
      · intro hends
        have hframe : r.qwordsWritten+1=g.qwords := by
          simpa [endsFrame,endsBeat,hstrobes,hlast] using hends
        simp [sent,hbeat,hlast]
        omega
    · constructor
      · intro _
        refine ⟨?_,?_,?_⟩
        · simp [sent,step,hlaunch,endsBeat,hstrobes,htakes,hbeat,hlast]
          omega
        · simp [step,hlaunch,endsBeat,hlast,hleft]
        · simp [step,hlaunch,htakes,hstrobes,hlast]
          omega
      · intro hends
        simp [endsFrame,endsBeat,hlast] at hends

namespace System

/-- The commands that the frame store has taken since word number `n`. -/
def since (s : System g) (n : ℕ) : List (BitVec 18) := s.cmds.accepted.drop n

/-- The reader is reading a frame, and `need` says whether the write pointer is to be reset. -/
structure Begun (s : System g) (n : ℕ) (need : Bool) : Prop where
  running : s.reader.active=true ∧ s.reader.busy=true
  reset : s.reader.needReset=need ∧ s.reader.wrResetPtr = !need
  /-- No pixel has been sent. -/
  nothing : s.reader.wrEn=false ∧ s.reader.swapReq=false ∧ s.reader.haveBeat=false ∧
    s.reader.qwordsWritten=0 ∧ s.reader.pixI=0
  video : s.video.swapPending=false ∧ s.video.swapCommitWait=false
  toggles : s.video.swapDoneS1=s.writer.swapDoneT ∧ s.video.swapDoneS2=s.writer.swapDoneT ∧
    s.video.swapDoneSeen=s.writer.swapDoneT
  /-- No command has been taken. -/
  accepted : s.cmds.accepted.length=n

/-- The reader sends the pixels. -/
structure Sending (g : Geometry) (s : System g) (n : ℕ) : Prop where
  running : s.reader.active=true ∧ s.reader.busy=true
  strobes : s.reader.needReset=false ∧ s.reader.wrResetPtr=false ∧ s.reader.swapReq=false
  left : s.reader.qwordsWritten<g.qwords
  next : s.reader.pixI≤3
  /-- No more pixels are taken than sent. -/
  count : pixelCount (s.since n)+(if s.reader.wrEn then 1 else 0) ≤ s.reader.sent

/-- The reader has sent the last pixel and asks for the swap. -/
structure Asking (g : Geometry) (s : System g) (n : ℕ) : Prop where
  ended : s.reader.active=false ∧ s.reader.busy=false
  strobes : s.reader.wrResetPtr=false ∧ s.reader.swapReq=true
  count : pixelCount (s.since n)+1≤4*g.qwords

/-- The swap is on its way or waits for the vertical sync. -/
structure Waiting (g : Geometry) (s : System g) (n : ℕ) : Prop where
  refused : s.video.swapPending=true ∨ s.video.swapCommitWait=true
  count : pixelCount (s.since n)+1≤4*g.qwords

/-- The stages of a transfer from its reset on. -/
inductive Stage (g : Geometry) (s : System g) (n : ℕ) : Prop
  | sending (h : s.Sending g n)
  | asking (h : s.Asking g n)
  | waiting (h : s.Waiting g n)

/-- The words pushed since a moment. -/
theorem since_step (hn : n ≤ s.cmds.accepted.length) (m : Moment) :
    (s.step m).since n = s.since n ++ s.pushed m := by
  unfold since
  rw [s.step_accepted m,List.drop_append_of_le_length hn]

theorem pushed_none (s : System g) (h : m.clk=none) : s.pushed m=[] := by simp [pushed,h]

theorem pushed_refused (h : s.acceptCmd=false) (m : Moment) : s.pushed m=[] := by
  unfold pushed
  cases m.clk with
  | none => rfl
  | some p =>
    have hno : s.video.cmdPush (s.videoPort p)≠true := fun hpush => by
      rw [acceptCmd_of_cmdPush hpush] at h
      exact absurd h (by decide)
    rw [Option.elim_some,if_neg hno]

open Video

/-- While pixels are sent the frame store takes pixels only, one for each strobe. -/
theorem pushed_sending (hreset : s.reader.wrResetPtr=false) (hswap : s.reader.swapReq=false)
    (m : Moment) : pixelCount (s.pushed m) ≤ if s.reader.wrEn then 1 else 0 := by
  unfold pushed
  cases m.clk with
  | none => exact Nat.zero_le _
  | some p =>
    rw [Option.elim_some]
    cases hen : s.reader.wrEn with
    | false =>
      have hpush : s.video.cmdPush (s.videoPort p)=false := by
        simp [cmdPush,pushReset,Video.pushSwap,pushPixel,videoPort,fsWrEn,
          hreset,hswap,hen]
      simp [hpush,pixelCount]
    | true =>
      split
      · exact List.countP_le_length
      · exact Nat.zero_le _

theorem video_calm (hvideo : s.video.swapPending=false ∧ s.video.swapCommitWait=false)
    (htoggles : s.video.swapDoneS1=s.writer.swapDoneT ∧ s.video.swapDoneS2=s.writer.swapDoneT ∧
      s.video.swapDoneSeen=s.writer.swapDoneT) (hswap : s.reader.swapReq=false) {m : Moment}
    (htoggle : (s.step m).writer.swapDoneT=s.writer.swapDoneT) :
    ((s.step m).video.swapPending=false ∧ (s.step m).video.swapCommitWait=false) ∧
      (s.step m).video.swapDoneS1=(s.step m).writer.swapDoneT ∧
      (s.step m).video.swapDoneS2=(s.step m).writer.swapDoneT ∧
      (s.step m).video.swapDoneSeen=(s.step m).writer.swapDoneT := by
  obtain ⟨hpending,hwait⟩ := hvideo
  obtain ⟨hs1,hs2,hseen⟩ := htoggles
  rw [htoggle]
  cases hclk : m.clk with
  | none =>
    have hsame : (s.step m).video=s.video := by simp [System.step,hclk]
    rw [hsame]
    exact ⟨⟨hpending,hwait⟩,hs1,hs2,hseen⟩
  | some p =>
    have hnext : (s.step m).video=s.video.step g (s.videoPort p) := by
      simp [System.step,hclk]
    have hdone : s.video.swapDone=false := by simp [swapDone,hs2,hseen]
    rw [hnext]
    refine ⟨⟨?_,?_⟩,?_,?_,?_⟩
    · simp [Video.step,hdone,hpending]
    · simp [Video.step,Video.pushSwap,videoPort,hdone,hwait,hswap]
    · rfl
    · exact hs1
    · simp [Video.step,hdone,hseen]

/-- The restart is strobed. -/
theorem Begun.strobe_step (h : s.Begun n true) {m : Moment} (hclk : m.clk.isSome=true)
    (htoggle : (s.step m).writer.swapDoneT=s.writer.swapDoneT) : (s.step m).Begun n false := by
  obtain ⟨hactive,hbusy⟩ := h.running
  obtain ⟨hneed,hreset⟩ := h.reset
  obtain ⟨hen,hswap,hbeat,hqw,hpix⟩ := h.nothing
  have hvideo := video_calm h.video h.toggles hswap htoggle
  have hpushed : s.pushed m=[] := by
    unfold pushed
    cases m.clk with
    | none => rfl
    | some p =>
      simp [cmdPush,pushReset,Video.pushSwap,pushPixel,videoPort,fsWrEn,
        hreset,hswap,hen]
  cases hp : m.clk with
  | none => rw [hp] at hclk; exact absurd hclk (by decide)
  | some p =>
    have hreader : (s.step m).reader=s.reader.step g (s.readerPort p) := by
      simp [System.step,hp]
    have hlaunch := Reader.launch_active hactive (s.readerPort p)
    constructor
    · rw [hreader]
      simp [Reader.step,hlaunch,hactive,hbusy,Reader.endsFrame,Reader.endsBeat,
        Reader.strobes,hneed]
    · rw [hreader]
      simp [Reader.step,hlaunch,hactive,hneed]
    · rw [hreader]
      simp [Reader.step,hlaunch,Reader.endsFrame,Reader.endsBeat,Reader.strobes,
        Reader.takesBeat,hneed,hbeat,hqw,hpix]
    · exact hvideo.1
    · exact hvideo.2
    · rw [s.step_accepted m,hpushed,List.append_nil]
      exact h.accepted

/-- The restart is taken. -/
theorem Begun.taken_step (hg : g.Sized) (h : s.Begun n false) {m : Moment} {p : ClkIn}
    (hclk : m.clk=some p) (haccept : s.acceptCmd=true) :
    (s.step m).since n=[cmdReset] ∧ (s.step m).Sending g n := by
  obtain ⟨hactive,hbusy⟩ := h.running
  obtain ⟨hneed,hreset⟩ := h.reset
  obtain ⟨hen,hswap,hbeat,hqw,hpix⟩ := h.nothing
  have hpush : s.video.pushReset (s.videoPort p)=true := by
    unfold pushReset
    rw [Bool.and_eq_true]
    exact ⟨hreset,haccept⟩
  have hpushed : s.pushed m=[cmdReset] := by
    unfold pushed
    rw [hclk,Option.elim_some]
    simp [cmdPush,cmdWdata,hpush]
  have hsince : (s.step m).since n=[cmdReset] := by
    rw [since_step (Nat.le_of_eq h.accepted.symm) m,hpushed,since,
      List.drop_of_length_le (Nat.le_of_eq h.accepted),List.nil_append]
  have hreader : (s.step m).reader=s.reader.step g (s.readerPort p) := by
    simp [System.step,hclk]
  have hlaunch := Reader.launch_active hactive (s.readerPort p)
  have hlarge := hg.large
  refine ⟨hsince,?_⟩
  constructor
  · rw [hreader]
    simp [Reader.step,hlaunch,hactive,hbusy,Reader.endsFrame,Reader.endsBeat,
      Reader.strobes,hbeat]
  · rw [hreader]
    simp [Reader.step,hlaunch,hneed,Reader.endsFrame,Reader.endsBeat,Reader.strobes,hbeat]
  · rw [hreader]
    have hleft : 0<g.qwords := Nat.div_pos (by omega) (by decide)
    simp [Reader.step,hlaunch,Reader.endsBeat,Reader.strobes,hbeat,hqw,hleft]
  · rw [hreader]
    simp [Reader.step,hlaunch,Reader.strobes,hbeat,hpix]
  · rw [hsince,pixelCount_singleton,commandOf_cmdReset,hreader]
    simp [Reader.step,Reader.strobes,hbeat]

/-- One moment of sending pixels. -/
theorem Sending.step (hn : n ≤ s.cmds.accepted.length) (h : s.Sending g n) (m : Moment) :
    (s.step m).Stage g n := by
  obtain ⟨hactive,hbusy⟩ := h.running
  obtain ⟨hneed,hreset,hswap⟩ := h.strobes
  have hcount := h.count
  have hpushed := pushed_sending hreset hswap m
  have hsince := congrArg pixelCount (since_step hn m)
  rw [pixelCount_append] at hsince
  cases hclk : m.clk with
  | none =>
    have hreader : (s.step m).reader=s.reader := by simp [System.step,hclk]
    rw [pushed_none s hclk] at hsince
    refine Stage.sending ⟨by rw [hreader]; exact h.running,by rw [hreader]; exact h.strobes,
      by rw [hreader]; exact h.left,by rw [hreader]; exact h.next,?_⟩
    rw [hreader,hsince]
    exact hcount
  | some p =>
    have hreader : (s.step m).reader=s.reader.step g (s.readerPort p) := by
      simp [System.step,hclk]
    have hlaunch := Reader.launch_active hactive (s.readerPort p)
    have hen : (s.step m).reader.wrEn=s.reader.strobes (s.readerPort p) := by rw [hreader]; rfl
    have hresetNext : (s.step m).reader.wrResetPtr=false := by
      rw [hreader]
      simp [Reader.step,hneed]
    obtain ⟨hgoes,hstops⟩ := Reader.sent_step hactive h.left h.next (s.readerPort p)
    cases hends : s.reader.endsFrame g (s.readerPort p) with
    | true =>
      obtain ⟨_,hall⟩ := hstops hends
      refine Stage.asking ⟨?_,⟨hresetNext,?_⟩,?_⟩
      · rw [hreader]
        simp [Reader.step,hlaunch,hends]
      · rw [hreader]
        exact hends
      · omega
    | false =>
      obtain ⟨hsent,hleft,hnext⟩ := hgoes hends
      refine Stage.sending ⟨?_,⟨?_,hresetNext,?_⟩,by rw [hreader]; exact hleft,
        by rw [hreader]; exact hnext,?_⟩
      · rw [hreader]
        simp [Reader.step,hlaunch,hactive,hbusy,hends]
      · rw [hreader]
        simp [Reader.step,hlaunch,hneed]
      · rw [hreader]
        exact hends
      · rw [hen,hsince,hreader,hsent]
        omega

/-- One moment of waiting for the flip. -/
theorem Waiting.step (hn : n ≤ s.cmds.accepted.length) (h : s.Waiting g n) {m : Moment}
    (hflips : s.flips m=false) : (s.step m).Waiting g n := by
  have haccept : s.acceptCmd=false := by
    unfold System.acceptCmd Video.acceptCmd
    rcases h.refused with hrefused | hrefused
    · simp [hrefused]
    · simp [hrefused]
  constructor
  · cases hclk : m.clk with
    | none =>
      have hvideo : (s.step m).video=s.video := by simp [System.step,hclk]
      rw [hvideo]
      exact h.refused
    | some p =>
      have hvideo : (s.step m).video=s.video.step g (s.videoPort p) := by
        simp [System.step,hclk]
      have hno : s.video.flips (s.videoPort p)=false := by
        simpa [flips,hclk] using hflips
      rw [hvideo]
      cases hdone : s.video.swapDone with
      | true => exact Or.inl (by simp [Video.step,hno,hdone])
      | false =>
        rcases h.refused with hrefused | hrefused
        · exact Or.inl (by simp [Video.step,hno,hrefused])
        · exact Or.inr (by simp [Video.step,hdone,hrefused])
  · rw [since_step hn m,pushed_refused haccept m,List.append_nil]
    exact h.count

/-- One moment of asking for the swap. -/
theorem Asking.step (hn : n ≤ s.cmds.accepted.length) (h : s.Asking g n) {m : Moment}
    (hflips : s.flips m=false) (haccept : m.clk.isSome=true → s.acceptCmd=true) :
    (s.step m).Stage g n := by
  obtain ⟨hreset,hswap⟩ := h.strobes
  cases hclk : m.clk with
  | none =>
    have hreader : (s.step m).reader=s.reader := by simp [System.step,hclk]
    refine Stage.asking ⟨by rw [hreader]; exact h.ended,by rw [hreader]; exact h.strobes,?_⟩
    rw [since_step hn m,pushed_none s hclk,List.append_nil]
    exact h.count
  | some p =>
    have hvideo : (s.step m).video=s.video.step g (s.videoPort p) := by
      simp [System.step,hclk]
    have hno : s.video.flips (s.videoPort p)=false := by simpa [System.flips,hclk] using hflips
    have hpush : s.video.pushSwap (s.videoPort p)=true := by
      unfold Video.pushSwap
      rw [Bool.and_eq_true]
      exact ⟨hswap,haccept (by rw [hclk]; rfl)⟩
    have hpushReset : s.video.pushReset (s.videoPort p)=false := by
      simp [pushReset,videoPort,hreset]
    have hpushed : s.pushed m=[cmdSwap] := by
      unfold pushed
      rw [hclk,Option.elim_some]
      simp [cmdPush,cmdWdata,hpush,hpushReset]
    refine Stage.waiting ⟨?_,?_⟩
    · rw [hvideo]
      cases hdone : s.video.swapDone with
      | true => exact Or.inl (by simp [Video.step,hno,hdone])
      | false => exact Or.inr (by simp [Video.step,hdone,hpush])
    · rw [since_step hn m,hpushed,pixelCount_append,pixelCount_singleton,commandOf_cmdSwap]
      exact h.count

end System

end Misterplex.FrameSdram
