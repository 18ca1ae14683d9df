import Misterplex.Sdram.Transfer

/-!
# Commands and the transfers they belong to

Every command that the frame store takes is marked with the transfer whose strobe
it was, and the write pointer with the transfer whose reset was carried out last.
The commands of a transfer follow its reset, at least two pixels come between a
reset and any other command that is not a pixel, and the first command after a
frame is shown is a reset.
-/

namespace Misterplex.FrameSdram

open List

open AsyncFifo (Synced held)

variable {g : Geometry}

/-- The words after the last reset, two more before any reset. -/
def trail (words : List (BitVec 18)) : ℕ :=
  words.foldl (fun n word => if commandOf word = .reset then 0 else n+1) 2

theorem trail_append (words : List (BitVec 18)) (word : BitVec 18) :
    trail (words ++ [word]) = if commandOf word = .reset then 0 else trail words+1 := by
  unfold trail
  rw [foldl_append]
  rfl

theorem getElem?_push {α : Type*} {words : List α} {word : α} {i : ℕ} {found : α}
    (h : (words ++ [word])[i]?=some found) :
    i<words.length ∧ words[i]?=some found ∨ i=words.length ∧ found=word := by
  rcases Nat.lt_trichotomy i words.length with hless | hsame | hmore
  · rw [getElem?_append_left hless] at h
    exact Or.inl ⟨hless,h⟩
  · rw [hsame,getElem?_concat_length] at h
    exact Or.inr ⟨hsame,(Option.some.inj h).symm⟩
  · rw [getElem?_append_right (Nat.le_of_lt hmore),getElem?_eq_none] at h
    · exact absurd h (by simp)
    · rw [length_singleton]
      omega

/-- The system with the transfers to which its commands belong. -/
structure Tracked (g : Geometry) where
  sys : System g
  transfer : ℕ
  /-- The transfer of every command that was taken. -/
  tags : List ℕ
  /-- The transfer whose reset was carried out last. -/
  owner : ℕ

namespace Tracked

variable {t : Tracked g} {m : Moment} {f : ℕ}

/-- The write pointer is reset at a moment. -/
def resets (t : Tracked g) (m : Moment) : Bool :=
  m.sdram.elim false fun ready => t.sys.writer.resets (t.sys.writerPort ready)

/-- One moment. A strobe belongs to the transfer that was launched before it, and the command
that is carried out is the first one that has not left the FIFO. -/
def step (t : Tracked g) (m : Moment) : Tracked g :=
  { sys := t.sys.step m
    transfer := if (t.sys.launches m).isSome then t.transfer+1 else t.transfer
    tags := t.tags ++ (t.sys.pushed m).map fun _ => t.transfer
    owner := if t.resets m then t.tags.getD t.sys.cmds.delivered.length 0 else t.owner }

/-- After reset no transfer was launched. -/
def reset (g : Geometry) (mem : ℕ → BitVec 16) : Tracked g := ⟨System.reset g mem,0,[],0⟩

/-- The commands that were taken. -/
def words (t : Tracked g) : List (BitVec 18) := t.sys.cmds.accepted

/-- The commands are in order, and `f` of them were taken when a frame was shown last. -/
structure Ordered (t : Tracked g) (f : ℕ) : Prop where
  length : t.tags.length=t.words.length
  /-- They were taken before now. -/
  shown : f≤t.words.length
  first : ∀ word, t.words[f]?=some word → commandOf word = .reset
  /-- Only pixels come soon after a reset. -/
  spaced : ∀ i word, t.words[i]?=some word → commandOf word ≠ .pixel → 2≤trail (t.words.take i)
  /-- Only a reset changes the transfer. -/
  tagged : ∀ i word, t.words[i]?=some word → commandOf word ≠ .reset →
    ∃ k, i=k+1 ∧ t.tags[i]?=t.tags[k]?

/-- What the frame store may take at a moment. -/
inductive Pushes (t : Tracked g) (f : ℕ) (m : Moment) : Prop
  | nothing (h : t.sys.pushed m=[])
  | reset (h : t.sys.pushed m=[cmdReset]) (hspaced : 2≤trail t.words)
  | pixel {word : BitVec 18} (h : t.sys.pushed m=[word]) (hpixel : commandOf word = .pixel)
      (hlast : t.tags.getLast?=some t.transfer) (hshown : f<t.words.length)
  /-- The swap of the transfer of the last command. -/
  | swap (h : t.sys.pushed m=[cmdSwap]) (hspaced : 2≤trail t.words)
      (hlast : t.tags.getLast?=some t.transfer) (hshown : f<t.words.length)

/-- The words after one moment. -/
theorem words_step (t : Tracked g) (m : Moment) : (t.step m).words = t.words ++ t.sys.pushed m :=
  t.sys.step_accepted m

theorem words_step_of_lt (t : Tracked g) (m : Moment) {i : ℕ} (hi : i<t.words.length) :
    (t.step m).words[i]?=t.words[i]? := by
  rw [words_step,getElem?_append_left hi]

theorem tags_step_of_lt (t : Tracked g) (m : Moment) {i : ℕ} (hi : i<t.tags.length) :
    (t.step m).tags[i]?=t.tags[i]? := getElem?_append_left hi

/-- A moment that pushes nothing keeps the order. -/
theorem Ordered.step_nothing (h : t.Ordered f) (hnone : t.sys.pushed m=[]) :
    (t.step m).Ordered f := by
  have hwords : (t.step m).words=t.words := by rw [words_step,hnone,append_nil]
  have htags : (t.step m).tags=t.tags := by simp [step,hnone]
  constructor
  · rw [htags,hwords]
    exact h.length
  · rw [hwords]
    exact h.shown
  · rw [hwords]
    exact h.first
  · rw [hwords]
    exact h.spaced
  · rw [hwords,htags]
    exact h.tagged

/-- A new command keeps everything in order if it is a reset or belongs to the transfer of the
last one, and if it is a pixel or far enough from the last reset. -/
theorem Ordered.step_push (h : t.Ordered f) {word : BitVec 18} (hpushed : t.sys.pushed m=[word])
    (hspaced : commandOf word ≠ .pixel → 2≤trail t.words)
    (hlast : commandOf word ≠ .reset → t.tags.getLast?=some t.transfer ∧ f<t.words.length) :
    (t.step m).Ordered f := by
  have hwords : (t.step m).words = t.words ++ [word] := by rw [words_step,hpushed]
  have htags : (t.step m).tags = t.tags ++ [t.transfer] := by simp [step,hpushed]
  have hlength := h.length
  constructor
  · rw [htags,hwords,length_append,length_append,hlength]
    rfl
  · rw [hwords,length_append]
    exact Nat.le_add_right_of_le h.shown
  · intro found hfound
    rw [hwords] at hfound
    rcases getElem?_push hfound with ⟨_,hold⟩ | ⟨hnew,hsame⟩
    · exact h.first found hold
    · by_cases hreset : commandOf word = .reset
      · rw [hsame,hreset]
      · have hshown := (hlast hreset).2
        omega
  · intro i found hfound hcommand
    rw [hwords] at hfound ⊢
    rcases getElem?_push hfound with ⟨hless,hold⟩ | ⟨hnew,hsame⟩
    · rw [take_append_of_le_length (Nat.le_of_lt hless)]
      exact h.spaced i found hold hcommand
    · rw [hnew,take_left]
      rw [hsame] at hcommand
      exact hspaced hcommand
  · intro i found hfound hcommand
    rw [hwords] at hfound
    rw [htags]
    rcases getElem?_push hfound with ⟨hless,hold⟩ | ⟨hnew,hsame⟩
    · obtain ⟨k,hk,hsame⟩ := h.tagged i found hold hcommand
      refine ⟨k,hk,?_⟩
      rw [getElem?_append_left (by omega),getElem?_append_left (by omega),hsame]
    · rw [hsame] at hcommand
      obtain ⟨htag,hshown⟩ := hlast hcommand
      refine ⟨t.words.length-1,by omega,?_⟩
      rw [getLast?_eq_getElem?,hlength] at htag
      rw [hnew,← hlength,getElem?_concat_length,hlength,
        getElem?_append_left (by omega),htag]

/-- A moment that pushes in order keeps the order. -/
theorem Ordered.step (h : t.Ordered f) (hpushes : t.Pushes f m) : (t.step m).Ordered f := by
  cases hpushes with
  | nothing hnone => exact h.step_nothing hnone
  | reset hpushed hspaced =>
    exact h.step_push hpushed (fun _ => hspaced) fun hno => absurd commandOf_cmdReset hno
  | pixel hpushed hpixel hlast hshown =>
    exact h.step_push hpushed (fun hno => absurd hpixel hno) fun _ => ⟨hlast,hshown⟩
  | swap hpushed hspaced hlast hshown =>
    exact h.step_push hpushed (fun _ => hspaced) fun _ => ⟨hlast,hshown⟩

/-- A frame shown now comes behind every command so far. -/
theorem Ordered.show (h : t.Ordered f) : t.Ordered t.words.length := by
  constructor
  · exact h.length
  · exact Nat.le_refl _
  · intro word hword
    exact absurd hword (by simp)
  · exact h.spaced
  · exact h.tagged

end Tracked

end Misterplex.FrameSdram
