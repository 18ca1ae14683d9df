import Misterplex.Sdram.System

/-!
# Pixels carried out and pixels taken

The state machine carries out no more pixels than have left the FIFO, the one at
its head counted while it is being popped. The write pointer stands behind no
more pixels than were carried out since it was reset, and each pixel is written
to its place in the raster.
-/

namespace Misterplex.FrameSdram

open AsyncFifo (held)

variable {g : Geometry} {s : System g} {m : Moment}

/-- The pixels among some commands. -/
def pixelCount (words : List (BitVec 18)) : ℕ := words.countP fun word => commandOf word == .pixel

@[simp] theorem pixelCount_append (front back : List (BitVec 18)) :
    pixelCount (front ++ back) = pixelCount front+pixelCount back := List.countP_append

theorem pixelCount_singleton (word : BitVec 18) :
    pixelCount [word] = if commandOf word = .pixel then 1 else 0 := by
  simp [pixelCount,List.countP_singleton]

/-- What the parameters of the build fulfil. -/
structure Geometry.Sized (g : Geometry) : Prop where
  stride : g.frameW≤g.frameStride
  /-- A frame has more than one quadword. -/
  large : 8≤g.pixels
  /-- The command FIFO has more than one cell. -/
  deep : 1≤g.cmdFifoAw

theorem Geometry.Sized.positive (hg : g.Sized) : 0<g.frameW ∧ 0<g.frameH := by
  have hlarge := hg.large
  unfold Geometry.pixels at hlarge
  constructor
  · refine Nat.pos_of_ne_zero fun hzero => ?_
    rw [hzero,Nat.zero_mul] at hlarge
    omega
  · refine Nat.pos_of_ne_zero fun hzero => ?_
    rw [hzero,Nat.mul_zero] at hlarge
    omega

namespace Writer

variable {w : Writer} {p : WriterPort}

/-- Number of the pixel at the write pointer. -/
def place (g : Geometry) (w : Writer) : ℕ := w.wrY*g.frameW+w.wrX

/-- A pixel is being written. -/
def writing (w : Writer) : Bool := w.state == .writeIssue || w.state == .writeWait

/-- The pixels up to the write pointer, the one that is being written counted. -/
def reached (g : Geometry) (w : Writer) : ℕ := w.place g+if w.writing then 1 else 0

/-- The write pointer is at a pixel of the raster. -/
structure Placed (g : Geometry) (w : Writer) : Prop where
  column : w.wrX<g.frameW
  row : w.wrY<g.frameH
  addr : w.wrAddr=g.wordOf w.wrBank w.wrY w.wrX
  /-- What is put on the port goes to the pixel that is being written. -/
  port : w.sdramWr=true → w.state = .writeWait ∧ w.sdramAddr=w.wrAddr

theorem resets_iff : w.resets p=true ↔ ∃ word, w.takes p=some word ∧ commandOf word = .reset := by
  unfold resets
  rw [beq_iff_eq,Option.map_eq_some_iff]

theorem decide_of_resets (h : w.resets p=true) : w.state = .decide := by
  have htakes := resets_iff.mp h
  cases htakes with
  | intro word hword => exact (takes_some hword.1).1

theorem resets_eq_false (h : w.state ≠ .decide) : w.resets p=false := by
  cases hresets : w.resets p with
  | false => rfl
  | true => exact absurd (decide_of_resets hresets) h

theorem placed_resets (hg : g.Sized) (h : w.resets p=true) :
    (w.step g p).Placed g ∧ (w.step g p).reached g=0 := by
  have hstate := decide_of_resets h
  have hpositive := hg.positive
  have hnext : (w.step g p).state = .decide := by
    have htakes := resets_iff.mp h
    cases htakes with
    | intro word hword =>
      have hfill := (takes_some hword.1).2.1
      simp only [step,nextState,hstate,hfill,hword.1,hword.2,Option.map_some,
        Option.isSome_none,Bool.false_eq_true,if_false]
  constructor
  · constructor
    · simp only [step,h,if_true]
      exact hpositive.1
    · simp only [step,h,if_true]
      exact hpositive.2
    · simp only [step,h,if_true,Geometry.wordOf,Nat.zero_mul,Nat.add_zero]
    · intro hwr
      simp only [step,writes,hstate] at hwr
      exact absurd hwr (by simp)
  · have hplace : (w.step g p).place g=0 := by
      simp only [place,step,h,if_true,Nat.zero_mul,Nat.add_zero]
    simp only [reached,hplace,writing,hnext]
    rfl

/-- A pixel that is written moves the write pointer on by one pixel of the raster, or back
to the first. -/
theorem placed_written (hp : w.Placed g) (h : w.written p=true) :
    (w.step g p).Placed g ∧ (w.step g p).reached g≤w.reached g := by
  have hcolumn := hp.column
  have hrow := hp.row
  unfold written at h
  rw [Bool.and_eq_true,beq_iff_eq] at h
  have hresets : w.resets p=false := resets_eq_false (by rw [h.1]; decide)
  have hwritten : w.written p=true := by
    unfold written
    rw [h.1,h.2]
    rfl
  have hnext : (w.step g p).state = .idle := by
    simp only [step,nextState,h.1,h.2,if_true]
  have hport : (w.step g p).sdramWr=true →
      (w.step g p).state = .writeWait ∧ (w.step g p).sdramAddr=(w.step g p).wrAddr := by
    intro hwr
    simp only [step,writes,h.1] at hwr
    exact absurd hwr (by simp)
  have hreached : w.reached g=w.place g+1 := by
    unfold reached writing
    rw [h.1]
    rfl
  have hreached' : (w.step g p).reached g=(w.step g p).place g := by
    unfold reached writing
    rw [hnext]
    rfl
  rw [hreached,hreached']
  by_cases hend : w.wrX=g.frameW-1
  · have hx : (w.step g p).wrX=0 := by simp [step,hresets,hwritten,hend]
    by_cases hlast : w.wrY=g.frameH-1
    · have hy : (w.step g p).wrY=0 := by simp [step,hresets,hwritten,hend,hlast]
      refine ⟨⟨by omega,by omega,?_,hport⟩,?_⟩
      · simp [step,hresets,hwritten,hend,hlast,Geometry.wordOf,wrBase]
      · unfold place
        rw [hx,hy,Nat.zero_mul]
        exact Nat.zero_le _
    · have hy : (w.step g p).wrY=w.wrY+1 := by simp [step,hresets,hwritten,hend,hlast]
      refine ⟨⟨by omega,by omega,?_,hport⟩,?_⟩
      · simp [step,hresets,hwritten,hend,hlast,Geometry.wordOf,wrBase]
      · unfold place
        rw [hx,hy,Nat.add_mul]
        omega
  · have hx : (w.step g p).wrX=w.wrX+1 := by simp [step,hresets,hwritten,hend]
    have hy : (w.step g p).wrY=w.wrY := by simp [step,hresets,hend]
    have haddr : (w.step g p).wrAddr=w.wrAddr+1 := by simp [step,hresets,hwritten,hend]
    have hbank : (w.step g p).wrBank=w.wrBank := by simp [step,hresets]
    refine ⟨⟨by omega,by omega,?_,hport⟩,?_⟩
    · rw [haddr,hbank,hy,hx,hp.addr]
      rfl
    · unfold place
      rw [hx,hy,Nat.add_assoc]

/-- A pixel is carried out. -/
def takesPixel (w : Writer) (p : WriterPort) : Prop :=
  ∃ word, w.takes p=some word ∧ commandOf word = .pixel

theorem state_takesPixel (h : w.takesPixel p) :
    w.state = .decide ∧ (w.step g p).state = .writeIssue ∧ (w.step g p).cmdPop=true := by
  cases h with
  | intro word hword =>
    have htakes := takes_some hword.1
    constructor
    · exact htakes.1
    · constructor
      · simp only [step,nextState,htakes.1,htakes.2.1,hword.1,hword.2,Option.map_some,
          Option.isSome_none,Bool.false_eq_true,if_false]
      · simp only [step,hword.1,Option.isSome_some]

/-- A pixel being written was begun before. -/
theorem writing_step (h : ¬w.takesPixel p) (hwriting : (w.step g p).writing=true) :
    w.writing=true := by
  unfold writing at hwriting ⊢
  cases hstate : w.state with
  | idle => simp [step,nextState,hstate] at hwriting
  | readIssue =>
    simp only [step,nextState,hstate] at hwriting
    split at hwriting
    · exact absurd hwriting (by decide)
    · exact absurd hwriting (by decide)
  | readWait =>
    simp only [step,nextState,hstate] at hwriting
    split at hwriting
    · split at hwriting
      · exact absurd hwriting (by decide)
      · exact absurd hwriting (by decide)
    · exact absurd hwriting (by decide)
  | writeIssue => rfl
  | writeWait => rfl
  | swap => simp [step,nextState,hstate] at hwriting
  | decide =>
    simp only [step,nextState,hstate] at hwriting
    split at hwriting
    · exact absurd hwriting (by decide)
    · cases htakes : w.takes p with
      | none => simp [htakes] at hwriting
      | some word =>
        cases hcommand : commandOf word with
        | reset => simp [htakes,hcommand] at hwriting
        | swap => simp [htakes,hcommand] at hwriting
        | pixel => exact absurd ⟨word,htakes,hcommand⟩ h

/-- A swap begins with a swap command. -/
theorem swap_step (h : (w.step g p).state = .swap) :
    ∃ word, w.takes p=some word ∧ commandOf word = .swap := by
  cases hstate : w.state with
  | idle => simp [step,nextState,hstate] at h
  | readIssue =>
    simp only [step,nextState,hstate] at h
    split at h
    · exact absurd h (by decide)
    · exact absurd h (by decide)
  | readWait =>
    simp only [step,nextState,hstate] at h
    split at h
    · split at h
      · exact absurd h (by decide)
      · exact absurd h (by decide)
    · exact absurd h (by decide)
  | writeIssue =>
    simp only [step,nextState,hstate] at h
    split at h
    · exact absurd h (by decide)
    · exact absurd h (by decide)
  | writeWait =>
    simp only [step,nextState,hstate] at h
    split at h
    · exact absurd h (by decide)
    · exact absurd h (by decide)
  | swap => simp [step,nextState,hstate] at h
  | decide =>
    simp only [step,nextState,hstate] at h
    split at h
    · exact absurd h (by decide)
    · cases htakes : w.takes p with
      | none => simp [htakes] at h
      | some word =>
        cases hcommand : commandOf word with
        | reset => simp [htakes,hcommand] at h
        | swap => exact ⟨word,rfl,hcommand⟩
        | pixel => simp [htakes,hcommand] at h

/-- Every edge keeps the write pointer in the raster, and moves it on by the pixels that are
carried out. -/
theorem placed_step (hg : g.Sized) (hp : w.Placed g) (p : WriterPort) :
    (w.step g p).Placed g ∧
      (w.takesPixel p → (w.step g p).reached g≤w.reached g+1) ∧
      (¬w.takesPixel p → (w.step g p).reached g≤w.reached g) := by
  cases hresets : w.resets p with
  | true =>
    have hreset := placed_resets hg hresets
    rw [hreset.2]
    exact ⟨hreset.1,fun _ => Nat.zero_le _,fun _ => Nat.zero_le _⟩
  | false =>
    cases hwritten : w.written p with
    | true =>
      have hmove := placed_written hp hwritten
      exact ⟨hmove.1,fun _ => Nat.le_succ_of_le hmove.2,fun _ => hmove.2⟩
    | false =>
      have hplace : (w.step g p).place g=w.place g := by
        simp only [place,step,hresets,hwritten,Bool.false_eq_true,Bool.false_and,if_false]
      constructor
      · constructor
        · simp only [step,hresets,hwritten,Bool.false_eq_true,if_false]
          exact hp.column
        · simp only [step,hresets,hwritten,Bool.false_eq_true,Bool.false_and,if_false]
          exact hp.row
        · simp only [step,hresets,hwritten,Bool.false_eq_true,Bool.false_and,if_false]
          exact hp.addr
        · intro hwr
          have hwrites : w.writes p=true := hwr
          have hissue : w.state = .writeIssue ∧ p.ready=true := by
            unfold writes at hwrites
            rw [Bool.and_eq_true,beq_iff_eq] at hwrites
            exact hwrites
          constructor
          · simp only [step,nextState,hissue.1,hissue.2,if_true]
          · simp only [step,hresets,hwritten,hwrites,Bool.false_eq_true,if_false,if_true]
      · unfold reached
        rw [hplace]
        constructor
        · have hone : (if (w.step g p).writing = true then 1 else 0)≤1 := by
            split
            · exact Nat.le_refl 1
            · exact Nat.zero_le 1
          omega
        · intro hnone
          have hwriting := writing_step (g := g) hnone
          cases hnext : (w.step g p).writing with
          | false => simp
          | true => rw [hwriting hnext]

end Writer

namespace System

/-- A pixel that is at the head of the FIFO has been carried out and is about to be popped. -/
def Popping (s : System g) : Prop :=
  s.writer.cmdPop=true ∧ s.writer.state = .writeIssue ∧
    ∃ word, held s.cmds.fifo=[word] ∧ commandOf word = .pixel

/-- Since word number `n` the write pointer has stayed behind the pixels that left the FIFO. -/
structure Behind (s : System g) (n : ℕ) : Prop where
  /-- The write pointer is at a pixel of the raster. -/
  placed : s.writer.Placed g
  /-- The words up to `n` have left the FIFO. -/
  early : n ≤ s.cmds.delivered.length
  /-- No more pixels are reached than have left the FIFO. -/
  count : s.writer.reached g≤pixelCount (s.cmds.delivered.drop n) ∨
    s.Popping ∧ s.writer.reached g≤pixelCount (s.cmds.delivered.drop n)+1

theorem pixelCount_drop {n : ℕ} {words : List (BitVec 18)} (h : n≤words.length)
    (back : List (BitVec 18)) :
    pixelCount ((words ++ back).drop n)=pixelCount (words.drop n)+pixelCount back := by
  rw [List.drop_append_of_le_length h,pixelCount_append]

/-- The store stays behind the words. -/
theorem Behind.step (hg : g.Sized) {n : ℕ} (h : s.Behind n) (m : Moment) :
    (s.step m).Behind n := by
  have hdelivered := s.step_delivered m
  have hearly : n≤(s.step m).cmds.delivered.length := by
    rw [hdelivered,List.length_append]
    exact Nat.le_add_right_of_le h.early
  have hcount : pixelCount ((s.step m).cmds.delivered.drop n) =
      pixelCount (s.cmds.delivered.drop n)+pixelCount (s.popped m) := by
    rw [hdelivered,pixelCount_drop h.early]
  cases hsdram : m.sdram with
  | none =>
    have hwriter : (s.step m).writer=s.writer := by simp [System.step,hsdram]
    have hpopped : s.popped m=[] := by simp [popped,hsdram]
    constructor
    · rw [hwriter]
      exact h.placed
    · exact hearly
    · rw [hcount,hpopped,hwriter]
      rcases h.count with hle | ⟨hpopping,hle⟩
      · exact Or.inl hle
      · obtain ⟨hpop,hstate,word,hword,hpixel⟩ := hpopping
        refine Or.inr ⟨⟨by rw [hwriter]; exact hpop,by rw [hwriter]; exact hstate,word,?_,hpixel⟩,
          hle⟩
        exact step_held hword hpopped
  | some ready =>
    have hwriter : (s.step m).writer=s.writer.step g (s.writerPort ready) := by
      simp [System.step,hsdram]
    obtain ⟨hplaced,htaken,huntaken⟩ :=
      Writer.placed_step hg h.placed (s.writerPort ready)
    constructor
    · rw [hwriter]
      exact hplaced
    · exact hearly
    · rw [hcount,hwriter]
      by_cases hpixel : s.writer.takesPixel (s.writerPort ready)
      · have hstates := Writer.state_takesPixel (g := g) hpixel
        have hle : s.writer.reached g≤pixelCount (s.cmds.delivered.drop n) := by
          rcases h.count with hle | ⟨⟨_,hstate,_⟩,_⟩
          · exact hle
          · rw [hstates.1] at hstate
            exact absurd hstate (by decide)
        obtain ⟨word,htakes,hcommand⟩ := hpixel
        have hheld := command_some (Writer.takes_some htakes).2.2
        have hnext := htaken ⟨word,htakes,hcommand⟩
        cases hpop : s.writer.cmdPop with
        | true =>
          have hpopped : s.popped m=[word] := by simp [popped,hsdram,hpop,hheld]
          rw [hpopped,pixelCount_singleton,if_pos hcommand]
          exact Or.inl (by omega)
        | false =>
          have hpopped : s.popped m=[] := by simp [popped,hpop]
          refine Or.inr ⟨⟨by rw [hwriter]; exact hstates.2.2,by rw [hwriter]; exact hstates.2.1,
            word,step_held hheld hpopped,hcommand⟩,?_⟩
          omega
      · have hnext := huntaken hpixel
        rcases h.count with hle | ⟨⟨hpop,_,word,hword,hcommand⟩,hle⟩
        · exact Or.inl (by omega)
        · have hpopped : s.popped m=[word] := by simp [popped,hsdram,hpop,hword]
          rw [hpopped,pixelCount_singleton,if_pos hcommand]
          exact Or.inl (by omega)

end System

end Misterplex.FrameSdram
