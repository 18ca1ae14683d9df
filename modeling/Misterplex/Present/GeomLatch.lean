import Misterplex.Lib.Trace
import Mathlib.Data.BitVec

/-!
# The geometry latch

Six words of a geometry record arrive in a shadow. A commit stages the shadow, if its
magic, epoch and reserved bits are right and its number is new, and the next frame
boundary makes the staged record live. A commit that is accepted in the very cycle in
which an older record goes live is staged without its pending flag, so it is lost.
-/

namespace Misterplex.GeomLatch

open Trace

/-- What the consumer presents, and what a commit stages. -/
structure Record where
  /-- Which parts are in force. -/
  (winEnable geomEnable : Bool)
  /-- The content window. -/
  (contentW contentH contentX0 contentY0 : BitVec 11)
  /-- Active size of the raster. -/
  (hDe vDe : BitVec 12)
  /-- Size of the coded picture. -/
  (codedW codedH : BitVec 11)
  /-- Bytes from line to line of luma. -/
  yStride : BitVec 12
  /-- Likewise of chroma. -/
  chromaStride : BitVec 11
  /-- What is shown, where, and from which sample. -/
  (displayW displayH presentX presentY cropLeft cropTop : BitVec 11)
  /-- Aspect ratio of the display. -/
  (darX darY : BitVec 12)
  contentFps : BitVec 8
  /-- Which of them are valid. -/
  (darValid fpsValid : Bool)
  /-- Number of the record. -/
  seq : BitVec 16
  epoch : BitVec 14
  deriving DecidableEq, Repr

/-- The record that reset leaves. -/
def Record.cleared : Record :=
  ⟨false,false,0,0,0,0,0,0,0,0,0,0,0,0,0,0,0,0,0,0,0,false,false,0,0⟩

/-- The words of a record as they arrive. -/
structure Shadow where
  /-- The words written so far. -/
  (sh0 sh1 sh2 sh3 sh4 sh5 : BitVec 64)
  deriving DecidableEq, Repr

/-- PLXG, least byte first. -/
def magicG : BitVec 32 := 0x47584C50#32

namespace Shadow

variable (sh : Shadow)

/-- A beat writes one word; the two highest indices write none. -/
def write (wrIdx : BitVec 3) (wrData : BitVec 64) : Shadow :=
  match wrIdx.toNat with
  | 0 => { sh with sh0 := wrData }
  | 1 => { sh with sh1 := wrData }
  | 2 => { sh with sh2 := wrData }
  | 3 => { sh with sh3 := wrData }
  | 4 => { sh with sh4 := wrData }
  | 5 => { sh with sh5 := wrData }
  | _ => sh

/-- The fields of the six words. -/
def record : Record where
  winEnable := sh.sh0.getLsbD 32
  geomEnable := sh.sh0.getLsbD 33
  contentW := sh.sh1.extractLsb' 0 11
  contentH := sh.sh1.extractLsb' 16 11
  contentX0 := sh.sh1.extractLsb' 32 11
  contentY0 := sh.sh1.extractLsb' 48 11
  hDe := sh.sh2.extractLsb' 0 12
  vDe := sh.sh2.extractLsb' 16 12
  codedW := sh.sh2.extractLsb' 32 11
  codedH := sh.sh2.extractLsb' 48 11
  yStride := sh.sh3.extractLsb' 0 12
  chromaStride := sh.sh3.extractLsb' 16 11
  displayW := sh.sh3.extractLsb' 32 11
  displayH := sh.sh3.extractLsb' 48 11
  presentX := sh.sh4.extractLsb' 0 11
  presentY := sh.sh4.extractLsb' 16 11
  cropLeft := sh.sh4.extractLsb' 32 11
  cropTop := sh.sh4.extractLsb' 48 11
  darX := sh.sh5.extractLsb' 0 12
  darY := sh.sh5.extractLsb' 12 12
  contentFps := sh.sh5.extractLsb' 24 8
  darValid := sh.sh5.getLsbD 32
  fpsValid := sh.sh5.getLsbD 33
  seq := sh.sh0.extractLsb' 48 16
  epoch := sh.sh0.extractLsb' 34 14

/-- The record carries the geometry mark. -/
def magicOk : Bool := sh.sh0.extractLsb' 0 32 == magicG

/-- The epoch is not zero. -/
def epochOk : Bool := sh.record.epoch != 0#14

/-- The reserved bits of the last word are zero. -/
def q5RsvdOk : Bool := sh.sh5.extractLsb' 34 30 == 0#30

end Shadow

/-- The registers. -/
structure Latch where
  /-- The record being written. -/
  sh : Shadow
  /-- The record in force. -/
  live : Record
  /-- Some record is in force. -/
  liveValid : Bool
  /-- The record that waits for a frame boundary. -/
  pend : Record
  /-- Some record waits. -/
  pendingValid : Bool
  /-- A record has just come into force. -/
  promotePulse : Bool
  deriving DecidableEq, Repr

/-- What one cycle brings. -/
structure Cycle where
  /-- A word is written. -/
  wrEn : Bool
  /-- Its place in the record. -/
  wrIdx : BitVec 3
  /-- The word. -/
  wrData : BitVec 64
  /-- The record is complete. -/
  commit : Bool
  /-- A frame begins. -/
  frameBoundary : Bool
  deriving DecidableEq, Repr

/-- The registers after reset. -/
def reset : Latch :=
  ⟨⟨0,0,0,0,0,0⟩,Record.cleared,false,Record.cleared,false,false⟩

namespace Latch

variable (s : Latch) (c : Cycle)

/-- The shadow is a proper record, and its epoch and number are not those of the live record, or
not those of the staged one. -/
def seqNew : Bool :=
  s.sh.magicOk && s.sh.epochOk && s.sh.q5RsvdOk &&
    ((!s.liveValid && !s.pendingValid) ||
      (s.sh.record.epoch,s.sh.record.seq) != (s.live.epoch,s.live.seq) ||
      (s.pendingValid && (s.sh.record.epoch,s.sh.record.seq) != (s.pend.epoch,s.pend.seq)))

/-- The commit that a cycle accepts. -/
def accepts : Option Record := if c.commit && s.seqNew then some s.sh.record else none

/-- The staged record goes live. -/
def promotes : Bool := c.frameBoundary && s.pendingValid

/-- One rising edge. The promotion is written last, so it decides the pending flag. -/
def step : Latch where
  sh := if c.wrEn then s.sh.write c.wrIdx c.wrData else s.sh
  live := if s.promotes c then s.pend else s.live
  liveValid := s.promotes c || s.liveValid
  pend := (s.accepts c).getD s.pend
  pendingValid := if s.promotes c then false else (s.accepts c).isSome || s.pendingValid
  promotePulse := s.promotes c

/-- What a reader sees. -/
def outputs : Bool × Record := (s.liveValid,s.live)

end Latch

variable (cs : List Cycle)

/-- The registers after a list of cycles from reset. -/
def after : Latch := finalState Latch.step reset cs

/-- The commits accepted during a list of cycles, in order. -/
def accepted (s : Latch) (cs : List Cycle) : List Record :=
  emitted Latch.step (fun s c => (s.accepts c).toList) s cs

/-- The outputs that show a commit, or none since reset. -/
def outputsOf : Option Record → Bool × Record
  | none => reset.outputs
  | some r => (true,r)

/-- What is promised of a run. -/
structure Kept (cs : List Cycle) : Prop where
  /-- The outputs are those of one accepted commit, or what reset left. -/
  single : ∀ past rest, cs = past ++ rest →
    (after past).outputs=reset.outputs ∨
      ∃ r∈accepted reset past, (after past).outputs=(true,r)
  /-- Without a boundary the outputs stay. -/
  still : ∀ past c rest, cs = past ++ c::rest → c.frameBoundary=false →
    (after (past ++ [c])).outputs=(after past).outputs
  /-- A boundary shows the last commit accepted before it. -/
  last : ∀ past c rest, cs = past ++ c::rest → c.frameBoundary=true →
    (after (past ++ [c])).outputs=outputsOf (accepted reset past).getLast?
  /-- A commit that no other one replaces before the next boundary is shown by it. -/
  shown : ∀ past c wait b rest r, cs = past ++ c::wait ++ b::rest →
    (after past).accepts c=some r → accepted (after (past ++ [c])) wait=[] →
    (∀ w∈wait, w.frameBoundary=false) → b.frameBoundary=true →
    (after (past ++ c::wait ++ [b])).outputs=(true,r)

/-- A commit is accepted in the cycle in which another record goes live. -/
def Latch.Collides (s : Latch) (c : Cycle) : Prop :=
  s.promotes c=true ∧ ∃ r, s.accepts c=some r ∧ r≠s.pend

/-- Another commit is accepted before the next boundary, or there is no boundary. -/
def Overtaken : Latch → List Cycle → Prop
  | _,[] => True
  | s,c::cs =>
    c.frameBoundary=false ∧ ((s.accepts c).isSome=true ∨ Overtaken (s.step c) cs)

/-- Every commit accepted while another record goes live is overtaken. -/
def Spared : Latch → List Cycle → Prop
  | _,[] => True
  | s,c::cs => (s.Collides c → Overtaken (s.step c) cs) ∧ Spared (s.step c) cs

/-- What is shown and what waits to be shown. -/
structure Stage (α : Type*) where
  /-- The value in force. -/
  shown : Option α
  /-- The value that waits. -/
  waiting : Option α

namespace Stage

variable {α : Type*}

variable (s : Stage α)

/-- A boundary shows what waits, and a put waits from now on. -/
def step (boundary : Bool) (put : Option α) : Stage α where
  shown := if boundary then s.waiting.or s.shown else s.shown
  waiting := put.or (if boundary then none else s.waiting)

/-- What the next boundary shows. -/
def latest : Option α := s.waiting.or s.shown

@[simp] theorem step_shown (put : Option α) : (s.step true put).shown=s.latest := rfl

/-- The newest value after one clock. -/
theorem latest_step (boundary : Bool) (put : Option α) :
    (s.step boundary put).latest=put.or s.latest := by
  cases boundary <;> simp [latest,step,Option.or_assoc]

end Stage

namespace Latch

variable {s : Latch} {c : Cycle}

/-- The stage that the registers hold. -/
def stage (s : Latch) : Stage Record :=
  ⟨if s.liveValid then some s.live else none,if s.pendingValid then some s.pend else none⟩

/-- A frame boundary shows the newest record. -/
theorem shown_step (hb : c.frameBoundary=true) : (s.step c).stage.shown=s.stage.latest := by
  cases hp : s.pendingValid <;> simp [stage,Stage.latest,step,promotes,hb,hp]

theorem stage_step (h : s.promotes c=false ∨ s.accepts c=none) :
    (s.step c).stage=s.stage.step c.frameBoundary (s.accepts c) := by
  cases hb : c.frameBoundary <;> cases hp : s.pendingValid <;> cases ha : s.accepts c <;>
    simp_all [stage,Stage.step,step,promotes]

theorem latest_promotes (h : s.promotes c=true) : (s.step c).stage.latest=some s.pend := by
  simp [stage,Stage.latest,step,h]

/-- Without a collision the newest record is the one just accepted, if any. -/
theorem latest_step (h : ¬s.Collides c) :
    (s.step c).stage.latest=(s.accepts c).or s.stage.latest := by
  by_cases hfree : s.promotes c=false ∨ s.accepts c=none
  · rw [stage_step hfree,Stage.latest_step]
  · rw [not_or,Bool.not_eq_false] at hfree
    obtain ⟨r,hr⟩ := Option.ne_none_iff_exists'.mp hfree.2
    have hsame : r=s.pend := by
      by_contra hne
      exact h ⟨hfree.1,r,hr,hne⟩
    rw [latest_promotes hfree.1,hr,hsame,Option.some_or]

/-- The outputs are those of the record that the stage shows. -/
def Tidy (s : Latch) : Prop := s.outputs=outputsOf s.stage.shown

/-- One clock keeps the latch tidy. -/
theorem Tidy.step (h : s.Tidy) (c : Cycle) : (s.step c).Tidy := by
  cases hp : s.promotes c with
  | true => simp [Tidy,outputs,outputsOf,stage,Latch.step,hp]
  | false => simpa [Tidy,outputs,outputsOf,stage,Latch.step,hp] using h

end Latch

theorem tidy_after : (after cs).Tidy :=
  Throughout.last (Along.throughout (Q := fun _ _ => True) (fun _ c h _ => h.step c)
    (along_of_forall (fun _ _ => trivial) reset) rfl)

theorem after_snoc (c : Cycle) : after (cs ++ [c])=(after cs).step c := by
  rw [after,finalState_append,finalState_cons,finalState_nil,after]

/-- What is live and what is staged was accepted. -/
structure Latch.Sourced (s : Latch) (rs : List Record) : Prop where
  live : s.outputs=reset.outputs ∨ ∃ r∈rs, s.outputs=(true,r)
  pend : s.pendingValid=true → s.pend∈rs

variable {s : Latch}

/-- Whatever is shown or waits was accepted. -/
theorem Latch.Sourced.step {rs : List Record} (h : s.Sourced rs) (c : Cycle) :
    (s.step c).Sourced (rs ++ (s.accepts c).toList) := by
  constructor
  · cases hp : s.promotes c with
    | true =>
      have hpend : s.pend∈rs := h.pend (Bool.and_eq_true_iff.mp hp).2
      exact Or.inr ⟨s.pend,List.mem_append_left _ hpend,by simp [outputs,Latch.step,hp]⟩
    | false =>
      have hsame : (s.step c).outputs=s.outputs := by simp [outputs,Latch.step,hp]
      rw [hsame]
      exact h.live.imp id fun ⟨r,hr,heq⟩ => ⟨r,List.mem_append_left _ hr,heq⟩
  · intro hpend
    cases ha : s.accepts c with
    | some r => simp [Latch.step,ha]
    | none =>
      cases hp : s.promotes c with
      | true => simp [Latch.step,hp] at hpend
      | false =>
        have hold : s.pendingValid=true := by simpa [Latch.step,hp,ha] using hpend
        simpa [Latch.step,ha] using h.pend hold

/-- Over a run, whatever is shown or waits was accepted. -/
theorem Latch.Sourced.run {rs : List Record} (h : s.Sourced rs) (cs : List Cycle) :
    (finalState Latch.step s cs).Sourced (rs ++ accepted s cs) := by
  induction cs generalizing s rs with
  | nil => simpa [accepted] using h
  | cons c cs ih => simpa [accepted] using ih (h.step c)

theorem outputs_accepted : (after cs).outputs=reset.outputs ∨
      ∃ r∈accepted reset cs, (after cs).outputs=(true,r) := by
  have hreset : reset.Sourced [] := ⟨Or.inl rfl,fun h => absurd h Bool.false_ne_true⟩
  exact (hreset.run cs).live

theorem outputs_still {c : Cycle} (h : c.frameBoundary=false) :
    (s.step c).outputs=s.outputs := by
  simp [Latch.outputs,Latch.step,Latch.promotes,h]

theorem last_cons (s : Latch) (c : Cycle) (cs : List Cycle) (last : Option Record) :
    (accepted s (c::cs)).getLast?.or last =
      (accepted (s.step c) cs).getLast?.or ((s.accepts c).or last) := by
  have hone : (s.accepts c).toList.getLast?=s.accepts c := by cases s.accepts c <;> rfl
  rw [accepted,emitted_cons,List.getLast?_append,hone,Option.or_assoc,accepted]

/-- Every boundary of a list of cycles finds the last commit waiting or live. -/
def Current (s : Latch) (last : Option Record) (cs : List Cycle) : Prop :=
  ∀ past c rest, cs = past ++ c::rest → c.frameBoundary=true →
    (finalState Latch.step s past).stage.latest=(accepted s past).getLast?.or last

variable {last : Option Record}

/-- Behind a cycle the last commit is the one it took, if any. -/
theorem Current.tail {c : Cycle} {cs : List Cycle}
    (h : Current s last (c::cs)) : Current (s.step c) ((s.accepts c).or last) cs := by
  intro past b rest hcs hb
  rw [← last_cons]
  exact h (c::past) b rest (by rw [hcs,List.cons_append]) hb

theorem Current.overtaken {cs : List Cycle}
    (h : Current s last cs) (howed : s.stage.latest≠last) : Overtaken s cs := by
  induction cs generalizing s last with
  | nil => trivial
  | cons c cs ih =>
    have hb : c.frameBoundary=false := by
      by_contra hb
      exact howed (h [] c cs rfl (by simpa using hb))
    refine ⟨hb,?_⟩
    cases ha : s.accepts c with
    | some r => exact Or.inl rfl
    | none =>
      have hfree : ¬s.Collides c := fun ⟨hp,_⟩ => by simp [Latch.promotes,hb] at hp
      have hsame : (s.step c).stage.latest=s.stage.latest := by
        rw [Latch.latest_step hfree,ha,Option.none_or]
      have htail := h.tail
      rw [ha,Option.none_or] at htail
      exact Or.inr (ih htail (hsame ▸ howed))

theorem Current.spared {cs : List Cycle} (h : Current s last cs) : Spared s cs := by
  induction cs generalizing s last with
  | nil => trivial
  | cons c cs ih =>
    refine ⟨fun ⟨hp,r,hr,hne⟩ => h.tail.overtaken ?_,ih h.tail⟩
    rw [Latch.latest_promotes hp,hr,Option.some_or]
    exact fun heq => hne (Option.some_inj.mp heq).symm

theorem Spared.current {cs : List Cycle} (h : Spared s cs)
    (hnow : s.stage.latest=last ∨ Overtaken s cs) : Current s last cs := by
  induction cs generalizing s last with
  | nil => exact fun past c rest hcs => by simp at hcs
  | cons c cs ih =>
    have hnext : (s.step c).stage.latest=(s.accepts c).or last ∨ Overtaken (s.step c) cs := by
      by_cases hc : s.Collides c
      · exact Or.inr (h.1 hc)
      · rcases hnow with heq | ⟨_,hsome | hlater⟩
        · exact Or.inl (by rw [Latch.latest_step hc,heq])
        · obtain ⟨r,hr⟩ := Option.isSome_iff_exists.mp hsome
          exact Or.inl (by rw [Latch.latest_step hc,hr,Option.some_or,Option.some_or])
        · exact Or.inr hlater
    intro past b rest hcs hb
    cases past with
    | nil =>
      obtain ⟨rfl,rfl⟩ := List.cons.inj hcs
      rcases hnow with heq | ⟨hnone,_⟩
      · simpa [accepted] using heq
      · rw [hnone] at hb
        exact absurd hb Bool.false_ne_true
    | cons c' past =>
      obtain ⟨rfl,hrest⟩ := List.cons.inj hcs
      rw [last_cons]
      exact ih h.2 hnext past b rest hrest hb

theorem outputs_boundary (past : List Cycle) {c : Cycle} (hb : c.frameBoundary=true) :
    (after (past ++ [c])).outputs=outputsOf (after past).stage.latest := by
  rw [tidy_after,after_snoc,Latch.shown_step hb]

theorem outputsOf_injective : ∀ a b : Option Record, outputsOf a=outputsOf b → a=b
  | none,none,_ => rfl
  | none,some _,h => absurd (Prod.ext_iff.mp h).1 Bool.false_ne_true
  | some _,none,h => absurd (Prod.ext_iff.mp h).1 (Ne.symm Bool.false_ne_true)
  | some _,some _,h => congrArg some (Prod.ext_iff.mp h).2

/-- A run keeps what is promised of it exactly when every commit that is accepted while another
record goes live is overtaken by a later one before the next boundary. -/
theorem kept_iff_spared (cs : List Cycle) : Kept cs ↔ Spared reset cs := by
  constructor
  · intro h
    have hcurrent : Current reset none cs := by
      intro past c rest hcs hb
      have hshown := h.last past c rest hcs hb
      rw [outputs_boundary past hb] at hshown
      rw [Option.or_none]
      exact outputsOf_injective _ _ hshown
    exact hcurrent.spared
  · intro h
    have hcurrent : Current reset none cs := h.current (Or.inl rfl)
    have hlast : ∀ past c rest, cs = past ++ c::rest → c.frameBoundary=true →
        (after (past ++ [c])).outputs=outputsOf (accepted reset past).getLast? := by
      intro past c rest hcs hb
      have hlatest := hcurrent past c rest hcs hb
      rw [Option.or_none] at hlatest
      rw [outputs_boundary past hb,← hlatest,after]
    refine ⟨fun past _ _ => outputs_accepted past,?_,hlast,?_⟩
    · intro past c rest _ hb
      rw [after_snoc,outputs_still hb]
    · intro past c wait b rest r hcs hr hnone _ hb
      rw [hlast (past ++ c::wait) b rest (by rw [hcs]) hb]
      have hsplit : accepted reset (past ++ c::wait) =
          accepted reset past ++ (((after past).accepts c).toList ++
            accepted ((after past).step c) wait) := by
        rw [accepted,emitted_append,emitted_cons,accepted,accepted,after]
      rw [after_snoc] at hnone
      rw [hsplit,hr,hnone,List.append_nil,Option.toList_some,List.getLast?_append,
        List.getLast?_singleton,Option.some_or,outputsOf]

/-- A cycle that writes one word of the record. -/
def beat (wrIdx : BitVec 3) (wrData : BitVec 64) : Cycle := ⟨true,wrIdx,wrData,false,false⟩

/-- A cycle with a commit, a boundary or both. -/
def pulse (commit frameBoundary : Bool) : Cycle := ⟨false,0,0,commit,frameBoundary⟩

/-- Number one of the first epoch is staged; number two is committed in the cycle in which number
one goes live, and the next boundary comes. -/
def collision : List Cycle :=
  [beat 0 0x0001000447584C50#64,pulse true false,beat 0 0x0002000447584C50#64,
    pulse true true,pulse false true]

/-- Number two is accepted before the last boundary of the run, which still shows number one. -/
theorem not_kept : ¬∀ cs, Kept cs := by
  intro h
  have hlast := (h collision).last (collision.take 4) (pulse false true) [] rfl rfl
  revert hlast
  decide

end Misterplex.GeomLatch
