import Misterplex.Sdram.Order

/-!
# The command that is carried out next

Between two frames the state machine has carried out no reset, or its write
pointer belongs to the transfer of the last command that left the FIFO. A reset
is carried out once more while it is popped, and the word after it, or the one
after that, may be popped without being carried out; these are pixels.
-/

namespace Misterplex.FrameSdram

open AsyncFifo (Synced held)

variable {g : Geometry}

namespace Tracked

variable {t : Tracked g} {m : Moment} {f : ℕ}

/-- The number of commands that left the FIFO. -/
def left (t : Tracked g) : ℕ := t.sys.cmds.delivered.length

/-- What the state machine did with the first command that has not left the FIFO. -/
inductive Taken (t : Tracked g) (f : ℕ) : Prop
  | next (hpop : t.sys.writer.cmdPop=false) (hstate : t.sys.writer.state ≠ .swap)
      (hless : f<t.left) (howner : t.tags[t.left-1]?=some t.owner)
  /-- It was carried out and is being popped. -/
  | popping {word : BitVec 18} (hpop : t.sys.writer.cmdPop=true)
      (hheld : held t.sys.cmds.fifo=[word]) (hword : t.words[t.left]?=some word)
      (hle : f≤t.left) (howner : t.tags[t.left]?=some t.owner)
      (hstate : t.sys.writer.state = .decide ∧ commandOf word = .reset ∨
        t.sys.writer.state = .writeIssue ∧ commandOf word = .pixel ∨
        t.sys.writer.state = .swap ∧ commandOf word = .swap)
  /-- It is popped after a reset that was carried out twice. -/
  | twice (hpop : t.sys.writer.cmdPop=true) (hstate : t.sys.writer.state = .decide)
      (htrail : trail (t.words.take t.left)=0) (hless : f<t.left)
      (howner : t.tags[t.left-1]?=some t.owner)
  /-- It is popped after the first pixel. -/
  | lost (hpop : t.sys.writer.cmdPop=true) (hstate : t.sys.writer.state = .writeIssue)
      (htrail : trail (t.words.take t.left)≤1) (hless : f<t.left)
      (howner : t.tags[t.left-1]?=some t.owner)

/-- The write pointer since the last frame was shown. -/
inductive Seat (t : Tracked g) (f : ℕ) : Prop
  /-- No reset was carried out. -/
  | unset (hleft : t.left=f) (hpop : t.sys.writer.cmdPop=false)
      (hwriting : t.sys.writer.writing=false) (hwr : t.sys.writer.sdramWr=false)
      (hstate : t.sys.writer.state ≠ .swap)
  | set (hplaced : t.sys.writer.Placed g) (hbank : t.sys.writer.wrBank = !t.sys.video.dispBank)
      (htaken : t.Taken f)

/-- The bank that the state machine sees is the displayed one once it sees a command that was
taken after the last frame was shown. -/
structure Lag (t : Tracked g) (f w1 w2 : ℕ) : Prop where
  first : f<w1 → t.sys.writer.dispBankS1=t.sys.video.dispBank
  second : f<w2 → t.sys.writer.dispBankS2=t.sys.video.dispBank

variable {w1 w2 r1 r2 : ℕ} {word : BitVec 18}

theorem word_of_held (h : Synced t.sys.cmds w1 w2 r1 r2) (hheld : held t.sys.cmds.fifo=[word]) :
    t.words[t.left]?=some word ∧ t.left<w2 ∧ t.left<t.words.length := by
  have hhead := System.head_of_held h hheld
  have horder := h.order
  have hfetched : AsyncFifo.fetched t.sys.cmds=t.left+1 := by
    unfold AsyncFifo.fetched left
    rw [hheld,List.length_singleton]
  rw [List.head?_drop] at hhead
  refine ⟨hhead,by omega,?_⟩
  unfold words
  omega

/-- The words so far stay. -/
theorem take_step (t : Tracked g) (m : Moment) {i : ℕ} (hi : i≤t.words.length) :
    (t.step m).words.take i=t.words.take i := by
  rw [words_step,List.take_append_of_le_length hi]

/-- The words that have left. -/
theorem left_step (t : Tracked g) (m : Moment) :
    (t.step m).left=t.left+(t.sys.popped m).length := by
  have hdelivered := t.sys.step_delivered m
  unfold left
  rw [← List.length_append,← hdelivered]
  rfl

/-- The owner stays without a restart. -/
theorem owner_step (h : t.resets m=false) : (t.step m).owner=t.owner := by
  simp [step,h]

theorem tag_getD (hlength : t.tags.length=t.words.length) (h : t.left<t.words.length) :
    t.tags[t.left]?=some (t.tags.getD t.left 0) := by
  rw [List.getD_eq_getElem?_getD,List.getElem?_eq_getElem (by omega),Option.getD_some]

theorem Ordered.tag_pred (h : t.Ordered f) (hword : t.words[t.left]?=some word)
    (hcommand : commandOf word ≠ .reset) : t.tags[t.left]?=t.tags[t.left-1]? := by
  obtain ⟨k,hk,hsame⟩ := h.tagged t.left word hword hcommand
  rw [hsame,hk,Nat.add_sub_cancel]

section Edge

variable {ready : Bool} (hsdram : m.sdram=some ready)
include hsdram

/-- The writer takes its own step. -/
theorem writer_step : (t.step m).sys.writer=t.sys.writer.step g (t.sys.writerPort ready) := by
  simp [step,System.step,hsdram]

theorem resets_eq : t.resets m=t.sys.writer.resets (t.sys.writerPort ready) := by
  simp [resets,hsdram]

theorem popped_eq (hpop : t.sys.writer.cmdPop=true) :
    t.sys.popped m=held t.sys.cmds.fifo := by
  simp [System.popped,hsdram,hpop]

theorem taken_none (hlength : t.tags.length=t.words.length)
    (htakes : t.sys.writer.takes (t.sys.writerPort ready)=none)
    (hless : f<(t.step m).left) (hold : (t.step m).left≤t.words.length)
    (howner : t.tags[(t.step m).left-1]?=some t.owner) : (t.step m).Taken f := by
  have hwriter := writer_step (t := t) hsdram
  have hresets : t.resets m=false := by
    rw [resets_eq hsdram]
    simp [Writer.resets,htakes]
  refine Taken.next ?_ ?_ hless ?_
  · rw [hwriter]
    simp [Writer.step,htakes]
  · intro hswap
    rw [hwriter] at hswap
    obtain ⟨word,hword,_⟩ := Writer.swap_step hswap
    rw [htakes] at hword
    exact absurd hword (by simp)
  · rw [owner_step hresets,tags_step_of_lt t m (by omega),howner]

/-- A reset that is carried out places the write pointer in the bank that is not displayed. -/
theorem set_resets (hg : g.Sized) {w1 w2 r1 r2 : ℕ} (hsync : Synced t.sys.cmds w1 w2 r1 r2)
    (hordered : t.Ordered f) (hlag : t.Lag f w1 w2) (hle : f≤t.left)
    (hbank : (t.step m).sys.video.dispBank=t.sys.video.dispBank) {word : BitVec 18}
    (htakes : t.sys.writer.takes (t.sys.writerPort ready)=some word)
    (hreset : commandOf word = .reset) :
    (t.step m).sys.writer.Placed g ∧
      ((t.step m).sys.writer.wrBank = !(t.step m).sys.video.dispBank) ∧
      (t.step m).sys.writer.state = .decide ∧ (t.step m).sys.writer.cmdPop=true ∧
      (t.step m).tags[t.left]?=some (t.step m).owner := by
  have hwriter := writer_step (t := t) hsdram
  have hdecide := Writer.takes_some htakes
  obtain ⟨_,hseen,hless⟩ := word_of_held hsync (System.command_some hdecide.2.2)
  have hresets : t.sys.writer.resets (t.sys.writerPort ready)=true :=
    Writer.resets_iff.mpr ⟨word,htakes,hreset⟩
  refine ⟨?_,?_,?_,?_,?_⟩
  · rw [hwriter]
    exact (Writer.placed_resets hg hresets).1
  · rw [hwriter,hbank,← hlag.second (by omega)]
    simp [Writer.step,hresets]
  · rw [hwriter]
    simp [Writer.step,Writer.nextState,hdecide.1,hdecide.2.1,htakes,hreset]
  · rw [hwriter]
    simp [Writer.step,htakes]
  · have hlength := hordered.length
    have howner : (t.step m).owner=t.tags.getD t.left 0 :=
      if_pos ((resets_eq hsdram).trans hresets)
    rw [tags_step_of_lt t m (by omega),tag_getD hordered.length hless,howner]

theorem set_keeps (hg : g.Sized) (hplaced : t.sys.writer.Placed g)
    (hwrBank : t.sys.writer.wrBank = !t.sys.video.dispBank)
    (hbank : (t.step m).sys.video.dispBank=t.sys.video.dispBank)
    (hresets : t.sys.writer.resets (t.sys.writerPort ready)=false) :
    (t.step m).sys.writer.Placed g ∧
      (t.step m).sys.writer.wrBank = !(t.step m).sys.video.dispBank := by
  have hwriter := writer_step (t := t) hsdram
  constructor
  · rw [hwriter]
    exact (Writer.placed_step hg hplaced _).1
  · rw [hwriter,hbank,← hwrBank]
    simp [Writer.step,hresets]

theorem step_none (hg : g.Sized) (hlength : t.tags.length=t.words.length)
    (hplaced : t.sys.writer.Placed g) (hwrBank : t.sys.writer.wrBank = !t.sys.video.dispBank)
    (hbank : (t.step m).sys.video.dispBank=t.sys.video.dispBank)
    (htakes : t.sys.writer.takes (t.sys.writerPort ready)=none) (hless : f<(t.step m).left)
    (hold : (t.step m).left≤t.words.length)
    (howner : t.tags[(t.step m).left-1]?=some t.owner) : (t.step m).Seat f := by
  have hkeeps := set_keeps hsdram hg hplaced hwrBank hbank (by simp [Writer.resets,htakes])
  exact Seat.set hkeeps.1 hkeeps.2 (taken_none hsdram hlength htakes hless hold howner)

/-- A pixel or a swap that is carried out belongs to the transfer of the write pointer. -/
theorem taken_other {w1 w2 r1 r2 : ℕ} (hsync : Synced t.sys.cmds w1 w2 r1 r2)
    (hordered : t.Ordered f) (hpop : t.sys.writer.cmdPop=false) (hless : f<t.left)
    (howner : t.tags[t.left-1]?=some t.owner) {word : BitVec 18}
    (htakes : t.sys.writer.takes (t.sys.writerPort ready)=some word)
    (hcommand : commandOf word ≠ .reset) : (t.step m).Taken f := by
  have hwriter := writer_step (t := t) hsdram
  obtain ⟨hdecide,hfill,hsee⟩ := Writer.takes_some htakes
  have hheld := System.command_some hsee
  obtain ⟨hword,_,hfits⟩ := word_of_held hsync hheld
  have hpopped : t.sys.popped m=[] := by simp [System.popped,hpop]
  have hleft : (t.step m).left=t.left := by rw [left_step,hpopped]; rfl
  have hlength := hordered.length
  have hresets : t.resets m=false := by
    rw [resets_eq hsdram]
    simp [Writer.resets,htakes,hcommand]
  refine @Taken.popping g (t.step m) f word ?_ (System.step_held hheld hpopped) ?_ ?_ ?_ ?_
  · rw [hwriter]
    simp [Writer.step,htakes]
  · rw [hleft,words_step_of_lt t m hfits,hword]
  · rw [hleft]
    exact Nat.le_of_lt hless
  · rw [hleft,tags_step_of_lt t m (by omega),owner_step hresets,
      hordered.tag_pred hword hcommand,howner]
  · rw [hwriter]
    cases hkind : commandOf word with
    | reset => exact absurd hkind hcommand
    | pixel =>
      exact Or.inr (Or.inl ⟨by simp [Writer.step,Writer.nextState,hdecide,hfill,htakes,hkind],
        rfl⟩)
    | swap =>
      exact Or.inr (Or.inr ⟨by simp [Writer.step,Writer.nextState,hdecide,hfill,htakes,hkind],
        rfl⟩)

end Edge

/-- The displayed bank stays without a flip. -/
theorem dispBank_step (h : t.sys.flips m=false) :
    (t.step m).sys.video.dispBank=t.sys.video.dispBank := by
  unfold System.flips at h
  cases hclk : m.clk with
  | none => simp [step,System.step,hclk]
  | some p =>
    rw [hclk,Option.elim_some] at h
    simp [step,System.step,hclk,Video.step,h]

theorem Seat.step_clk (hsync : Synced t.sys.cmds w1 w2 r1 r2)
    (hordered : t.Ordered f) (h : t.Seat f) (hflips : t.sys.flips m=false)
    (hsdram : m.sdram=none) : (t.step m).Seat f := by
  have hwriter : (t.step m).sys.writer=t.sys.writer := by simp [step,System.step,hsdram]
  have hpopped : t.sys.popped m=[] := by simp [System.popped,hsdram]
  have hleft : (t.step m).left=t.left := by rw [left_step,hpopped]; rfl
  have hresets : t.resets m=false := by simp [resets,hsdram]
  have hbank := dispBank_step hflips
  have hlength := hordered.length
  have hfits : t.left≤t.words.length := by
    have horder := hsync.order
    unfold AsyncFifo.fetched at horder
    unfold left words
    omega
  cases h with
  | unset hunset hpop hwriting hwr hstate =>
    refine Seat.unset (hleft.trans hunset) ?_ ?_ ?_ ?_
    · rw [hwriter]
      exact hpop
    · rw [hwriter]
      exact hwriting
    · rw [hwriter]
      exact hwr
    · rw [hwriter]
      exact hstate
  | set hplaced hwrBank htaken =>
    refine Seat.set (by rw [hwriter]; exact hplaced) (by rw [hwriter,hbank]; exact hwrBank) ?_
    cases htaken with
    | next hpop hstate hless howner =>
      refine Taken.next (by rw [hwriter]; exact hpop) (by rw [hwriter]; exact hstate)
        (by rw [hleft]; exact hless) ?_
      rw [hleft,owner_step hresets,tags_step_of_lt t m (by omega),howner]
    | @popping word hpop hheld hword hle howner hstate =>
      obtain ⟨_,_,hfits⟩ := word_of_held hsync hheld
      refine @Taken.popping g (t.step m) f word (by rw [hwriter]; exact hpop)
        (System.step_held hheld hpopped) ?_ (by rw [hleft]; exact hle) ?_
        (by rw [hwriter]; exact hstate)
      · rw [hleft,words_step_of_lt t m hfits,hword]
      · rw [hleft,owner_step hresets,tags_step_of_lt t m (by omega),howner]
    | twice hpop hstate htrail hless howner =>
      refine Taken.twice (by rw [hwriter]; exact hpop) (by rw [hwriter]; exact hstate) ?_
        (by rw [hleft]; exact hless) ?_
      · rw [hleft,take_step t m hfits,htrail]
      · rw [hleft,owner_step hresets,tags_step_of_lt t m (by omega),howner]
    | lost hpop hstate htrail hless howner =>
      refine Taken.lost (by rw [hwriter]; exact hpop) (by rw [hwriter]; exact hstate) ?_
        (by rw [hleft]; exact hless) ?_
      · rw [hleft,take_step t m hfits]
        exact htrail
      · rw [hleft,owner_step hresets,tags_step_of_lt t m (by omega),howner]

/-- Soon after a reset the first command that has not left the FIFO is a pixel, of the transfer of
the command before it. -/
theorem Ordered.pixel_of_trail (h : t.Ordered f)
    (hword : t.words[t.left]?=some word) (htrail : trail (t.words.take t.left)≤1) :
    commandOf word = .pixel ∧ t.tags[t.left]?=t.tags[t.left-1]? := by
  have hpixel : commandOf word = .pixel := by
    by_contra hno
    have hspaced := h.spaced t.left word hword hno
    omega
  exact ⟨hpixel,h.tag_pred hword (by rw [hpixel]; decide)⟩

theorem trail_take_succ {words : List (BitVec 18)} {i : ℕ} (h : words[i]?=some word) :
    trail (words.take (i+1)) = if commandOf word = .reset then 0 else trail (words.take i)+1 := by
  rw [List.take_add_one,h,Option.toList_some,trail_append]

theorem left_le (h : Synced t.sys.cmds w1 w2 r1 r2) : t.left≤t.words.length := by
  have horder := h.order
  unfold AsyncFifo.fetched at horder
  unfold left words
  omega

theorem takes_eq {w : Writer} {p : WriterPort} {word other : BitVec 18} (h : w.takes p=some other)
    (hp : p.command=some word) : w.takes p=some word := by
  rw [h,← (Writer.takes_some h).2.2,hp]

section Cases

variable {ready : Bool} (hsdram : m.sdram=some ready) (hg : g.Sized) {w1 w2 r1 r2 : ℕ}
  (hsync : Synced t.sys.cmds w1 w2 r1 r2) (hordered : t.Ordered f) (hlag : t.Lag f w1 w2)
  (hbank : (t.step m).sys.video.dispBank=t.sys.video.dispBank)
include hsdram hg hsync hordered hlag hbank

theorem step_unset (hunset : t.left=f) (hpop : t.sys.writer.cmdPop=false)
    (hwriting : t.sys.writer.writing=false) : (t.step m).Seat f := by
  have hwriter := writer_step (t := t) hsdram
  have hpopped : t.sys.popped m=[] := by simp [System.popped,hpop]
  have hsame : (t.step m).left=t.left := by rw [left_step,hpopped]; rfl
  cases htakes : t.sys.writer.takes (t.sys.writerPort ready) with
  | none =>
    have hpixel : ¬t.sys.writer.takesPixel (t.sys.writerPort ready) := by
      rintro ⟨word,hword,_⟩
      rw [htakes] at hword
      exact absurd hword (by simp)
    refine Seat.unset (hsame.trans hunset) ?_ ?_ ?_ ?_
    · rw [hwriter]
      simp [Writer.step,htakes]
    · rw [hwriter]
      cases hnext : (t.sys.writer.step g (t.sys.writerPort ready)).writing with
      | false => rfl
      | true =>
        have hold := Writer.writing_step hpixel hnext
        rw [hwriting] at hold
        exact absurd hold (by decide)
    · unfold Writer.writing at hwriting
      rw [Bool.or_eq_false_iff] at hwriting
      rw [hwriter]
      simp [Writer.step,Writer.writes,hwriting.1]
    · intro hswap
      rw [hwriter] at hswap
      obtain ⟨word,hword,_⟩ := Writer.swap_step hswap
      rw [htakes] at hword
      exact absurd hword (by simp)
  | some word =>
    have hheld := System.command_some (Writer.takes_some htakes).2.2
    obtain ⟨hword,_,hless⟩ := word_of_held hsync hheld
    have hreset : commandOf word = .reset := hordered.first word (by rw [← hunset]; exact hword)
    obtain ⟨hplaced,hwrBank,hdecide,hpopNext,howner⟩ :=
      set_resets hsdram hg hsync hordered hlag (Nat.le_of_eq hunset.symm) hbank htakes hreset
    refine Seat.set hplaced hwrBank (Taken.popping hpopNext (System.step_held hheld hpopped)
      ?_ (Nat.le_of_eq (hsame.trans hunset).symm) ?_ (Or.inl ⟨hdecide,hreset⟩))
    · rw [hsame,words_step_of_lt t m hless,hword]
    · rw [hsame]
      exact howner

variable (hplaced : t.sys.writer.Placed g)
  (hwrBank : t.sys.writer.wrBank = !t.sys.video.dispBank)
include hplaced hwrBank

theorem step_next (hpop : t.sys.writer.cmdPop=false) (hless : f<t.left)
    (howner : t.tags[t.left-1]?=some t.owner) : (t.step m).Seat f := by
  have hpopped : t.sys.popped m=[] := by simp [System.popped,hpop]
  have hsame : (t.step m).left=t.left := by rw [left_step,hpopped]; rfl
  have hfits := left_le hsync
  cases htakes : t.sys.writer.takes (t.sys.writerPort ready) with
  | none =>
    exact step_none hsdram hg hordered.length hplaced hwrBank hbank htakes
      (by rw [hsame]; exact hless) (by rw [hsame]; exact hfits) (by rw [hsame]; exact howner)
  | some word =>
    by_cases hreset : commandOf word = .reset
    · have hheld := System.command_some (Writer.takes_some htakes).2.2
      obtain ⟨hword,_,hwithin⟩ := word_of_held hsync hheld
      obtain ⟨hplaced',hwrBank',hdecide,hpopNext,howner'⟩ :=
        set_resets hsdram hg hsync hordered hlag (Nat.le_of_lt hless) hbank htakes hreset
      refine Seat.set hplaced' hwrBank' (Taken.popping hpopNext (System.step_held hheld hpopped)
        ?_ (by rw [hsame]; exact Nat.le_of_lt hless) ?_ (Or.inl ⟨hdecide,hreset⟩))
      · rw [hsame,words_step_of_lt t m hwithin,hword]
      · rw [hsame]
        exact howner'
    · have hkeeps := set_keeps hsdram hg hplaced hwrBank hbank
        (by simp [Writer.resets,htakes,hreset])
      exact Seat.set hkeeps.1 hkeeps.2
        (taken_other hsdram hsync hordered hpop hless howner htakes hreset)

/-- The command that was carried out is popped; a reset is carried out once more. -/
theorem step_popping {word : BitVec 18} (hpop : t.sys.writer.cmdPop=true)
    (hheld : held t.sys.cmds.fifo=[word]) (hle : f≤t.left)
    (howner : t.tags[t.left]?=some t.owner)
    (hstate : t.sys.writer.state = .decide → commandOf word = .reset) : (t.step m).Seat f := by
  have hpopped : t.sys.popped m=[word] := by rw [popped_eq hsdram hpop,hheld]
  have hmore : (t.step m).left=t.left+1 := by rw [left_step,hpopped]; rfl
  obtain ⟨hword,_,hwithin⟩ := word_of_held hsync hheld
  cases htakes : t.sys.writer.takes (t.sys.writerPort ready) with
  | none =>
    refine step_none hsdram hg hordered.length hplaced hwrBank hbank htakes (by omega)
      (by omega) ?_
    rw [hmore,Nat.add_sub_cancel,howner]
  | some other =>
    have hreset := hstate (Writer.takes_some htakes).1
    have hsame := takes_eq htakes (congrArg List.head? hheld)
    obtain ⟨hplaced',hwrBank',hstate',hpopNext,howner'⟩ :=
      set_resets hsdram hg hsync hordered hlag hle hbank hsame hreset
    refine Seat.set hplaced' hwrBank' (Taken.twice hpopNext hstate' ?_ (by omega) ?_)
    · rw [hmore,take_step t m (by omega),trail_take_succ hword,if_pos hreset]
    · rw [hmore,Nat.add_sub_cancel]
      exact howner'

omit hlag in
/-- A command soon after a reset is popped; the first one may be carried out on the way. -/
theorem step_soon (hpop : t.sys.writer.cmdPop=true)
    (htrail : trail (t.words.take t.left)≤1)
    (hstate : t.sys.writer.state = .decide → trail (t.words.take t.left)=0) (hless : f<t.left)
    (howner : t.tags[t.left-1]?=some t.owner) : (t.step m).Seat f := by
  have hwriter := writer_step (t := t) hsdram
  have hlength := hordered.length
  rcases t.sys.held_cases with hnone | ⟨word,hheld⟩
  · have hpopped : t.sys.popped m=[] := by rw [popped_eq hsdram hpop,hnone]
    have hsame : (t.step m).left=t.left := by rw [left_step,hpopped]; rfl
    have htakes : t.sys.writer.takes (t.sys.writerPort ready)=none := by
      cases htakes : t.sys.writer.takes (t.sys.writerPort ready) with
      | none => rfl
      | some word =>
        have hheld := System.command_some (Writer.takes_some htakes).2.2
        rw [hnone] at hheld
        exact absurd hheld (by simp)
    exact step_none hsdram hg hordered.length hplaced hwrBank hbank htakes
      (by rw [hsame]; exact hless) (by rw [hsame]; exact left_le hsync) (by rw [hsame]; exact howner)
  · have hpopped : t.sys.popped m=[word] := by rw [popped_eq hsdram hpop,hheld]
    have hmore : (t.step m).left=t.left+1 := by rw [left_step,hpopped]; rfl
    obtain ⟨hword,_,hwithin⟩ := word_of_held hsync hheld
    obtain ⟨hpixel,htag⟩ := hordered.pixel_of_trail hword htrail
    have hreset : commandOf word ≠ .reset := by rw [hpixel]; decide
    have howner' : t.tags[(t.step m).left-1]?=some t.owner := by
      rw [hmore,Nat.add_sub_cancel,htag,howner]
    cases htakes : t.sys.writer.takes (t.sys.writerPort ready) with
    | none =>
      exact step_none hsdram hg hordered.length hplaced hwrBank hbank htakes (by omega)
        (by omega) howner'
    | some other =>
      obtain ⟨hdecide,hfill,_⟩ := Writer.takes_some htakes
      have hsame := takes_eq htakes (congrArg List.head? hheld)
      have hno : t.sys.writer.resets (t.sys.writerPort ready)=false := by
        simp [Writer.resets,hsame,hpixel]
      have hkeeps := set_keeps hsdram hg hplaced hwrBank hbank hno
      refine Seat.set hkeeps.1 hkeeps.2 (Taken.lost ?_ ?_ ?_ (by omega) ?_)
      · rw [hwriter]
        simp [Writer.step,hsame]
      · rw [hwriter]
        simp [Writer.step,Writer.nextState,hdecide,hfill,hsame,hpixel]
      · rw [hmore,take_step t m (by omega),trail_take_succ hword,if_neg hreset,hstate hdecide]
      · rw [owner_step ((resets_eq hsdram).trans hno),tags_step_of_lt t m (by omega)]
        exact howner'

end Cases

/-- Every moment but that at which a frame is shown keeps what is known of the write pointer. -/
theorem Seat.step (hg : g.Sized) (hsync : Synced t.sys.cmds w1 w2 r1 r2)
    (hordered : t.Ordered f) (hlag : t.Lag f w1 w2) (h : t.Seat f)
    (hflips : t.sys.flips m=false) : (t.step m).Seat f := by
  cases hsdram : m.sdram with
  | none => exact h.step_clk hsync hordered hflips hsdram
  | some ready =>
    have hbank := dispBank_step hflips
    cases h with
    | unset hunset hpop hwriting _ _ =>
      exact step_unset hsdram hg hsync hordered hlag hbank hunset hpop hwriting
    | set hplaced hwrBank htaken =>
      cases htaken with
      | next hpop _ hless howner =>
        exact step_next hsdram hg hsync hordered hlag hbank hplaced hwrBank hpop hless howner
      | popping hpop hheld _ hle howner hstate =>
        refine step_popping hsdram hg hsync hordered hlag hbank hplaced hwrBank hpop hheld hle howner
          fun hdecide => ?_
        rcases hstate with ⟨_,hreset⟩ | ⟨hissue,_⟩ | ⟨hswap,_⟩
        · exact hreset
        · rw [hdecide] at hissue
          exact absurd hissue (by decide)
        · rw [hdecide] at hswap
          exact absurd hswap (by decide)
      | twice hpop _ htrail hless howner =>
        exact step_soon hsdram hg hsync hordered hbank hplaced hwrBank hpop (by omega)
          (fun _ => htrail) hless howner
      | lost hpop hstate htrail hless howner =>
        refine step_soon hsdram hg hsync hordered hbank hplaced hwrBank hpop htrail
          (fun hdecide => ?_) hless howner
        rw [hdecide] at hstate
        exact absurd hstate (by decide)

/-- In S_SWAP the command that is being popped is a swap taken after the last frame was shown. -/
theorem Seat.swap_word (h : t.Seat f) (hstate : t.sys.writer.state = .swap) :
    t.sys.writer.cmdPop=true ∧ ∃ word, held t.sys.cmds.fifo=[word] ∧
      t.words[t.left]?=some word ∧ commandOf word = .swap ∧ f≤t.left := by
  cases h with
  | unset _ _ _ _ hno => exact absurd hstate hno
  | set _ _ htaken =>
    cases htaken with
    | next _ hno _ _ => exact absurd hstate hno
    | @popping word hpop hheld hword hle _ hcases =>
      rcases hcases with ⟨hdecide,_⟩ | ⟨hissue,_⟩ | ⟨_,hswap⟩
      · rw [hstate] at hdecide
        exact absurd hdecide (by decide)
      · rw [hstate] at hissue
        exact absurd hissue (by decide)
      · exact ⟨hpop,word,hheld,hword,hswap,hle⟩
    | twice _ hdecide _ _ _ =>
      rw [hstate] at hdecide
      exact absurd hdecide (by decide)
    | lost _ hissue _ _ _ =>
      rw [hstate] at hissue
      exact absurd hissue (by decide)

theorem Seat.popped_swap (hsync : Synced t.sys.cmds w1 w2 r1 r2)
    (hordered : t.Ordered f) (h : t.Seat f) (hpop : t.sys.writer.cmdPop=true)
    (hheld : held t.sys.cmds.fifo=[word]) (hswap : commandOf word = .swap) :
    t.sys.writer.state = .swap := by
  obtain ⟨hword,_,_⟩ := word_of_held hsync hheld
  cases h with
  | unset _ hno _ _ _ =>
    rw [hno] at hpop
    exact absurd hpop (by decide)
  | set _ _ htaken =>
    cases htaken with
    | next hno _ _ _ =>
      rw [hno] at hpop
      exact absurd hpop (by decide)
    | @popping other _ hother _ _ _ hcases =>
      have hsame : other=word := by
        rw [hheld] at hother
        exact (List.cons.inj hother).1.symm
      rw [hsame,hswap] at hcases
      rcases hcases with ⟨_,hno⟩ | ⟨_,hno⟩ | ⟨hstate,_⟩
      · exact absurd hno (by decide)
      · exact absurd hno (by decide)
      · exact hstate
    | twice _ _ htrail _ _ =>
      obtain ⟨hpixel,_⟩ := hordered.pixel_of_trail hword (by omega)
      rw [hpixel] at hswap
      exact absurd hswap (by decide)
    | lost _ _ htrail _ _ =>
      obtain ⟨hpixel,_⟩ := hordered.pixel_of_trail hword htrail
      rw [hpixel] at hswap
      exact absurd hswap (by decide)

end Tracked

end Misterplex.FrameSdram
