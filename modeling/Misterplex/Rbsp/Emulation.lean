import Mathlib.Data.List.Basic
import Mathlib.Data.Nat.Init
import Misterplex.Lib.Transducer

/-!
# Emulation prevention and its removal on the host

The encoder inserts 03 before every byte up to 03 that follows two zero bytes
of the coded unit. The host remover looks three bytes ahead and drops the 03 of
every 00 00 03. The two are inverse on every byte string.

Two modules of the core strip emulation prevention with a saturating zero counter and
an inhibit flag. The counter is not cleared when a 03 is skipped, so a zero after a
skipped 03 counts as a third one. This stripper is exact on a payload if and only if
no odd run of at least three zeros meets a 03.
-/

namespace Misterplex.Emulation

open List

/-- One byte of a bitstream. -/
abbrev Byte := BitVec 8

/-- Emulation prevention with a given number of zero bytes already written
since the last nonzero byte of the coded unit. -/
def insertEpbFrom : ℕ → List Byte → List Byte
  | _,[] => []
  | zeros,b::bs =>
    if zeros = 2 ∧ b ≤ 3#8 then
      3#8::b::insertEpbFrom (if b = 0#8 then 1 else 0) bs
    else
      b::insertEpbFrom (if b = 0#8 then zeros+1 else 0) bs

variable (bytes : List Byte)

/-- Emulation prevention of a whole payload. -/
def insertEpb : List Byte := insertEpbFrom 0 bytes

@[simp] theorem insertEpbFrom_nil (zeros : ℕ) : insertEpbFrom zeros []=[] := rfl

theorem insertEpbFrom_cons (zeros : ℕ) (b : Byte) (bs : List Byte) :
    insertEpbFrom zeros (b::bs) =
      if zeros = 2 ∧ b ≤ 3#8 then 3#8::b::insertEpbFrom (if b = 0#8 then 1 else 0) bs
      else b::insertEpbFrom (if b = 0#8 then zeros+1 else 0) bs := rfl

theorem insertEpbFrom_zero {zeros : ℕ} (hz : zeros≠2) (bs : List Byte) :
    insertEpbFrom zeros (0#8::bs)=0#8::insertEpbFrom (zeros+1) bs := by
  rw [insertEpbFrom_cons,if_neg (fun h => hz h.1),if_pos rfl]

variable {b : Byte}

theorem insertEpbFrom_ne {zeros : ℕ} (hz : zeros≠2) (hb : b≠0#8)
    (bs : List Byte) : insertEpbFrom zeros (b::bs)=b::insertEpbFrom 0 bs := by
  rw [insertEpbFrom_cons,if_neg (fun h => hz h.1),if_neg hb]

theorem insertEpbFrom_two_zero (bs : List Byte) :
    insertEpbFrom 2 (0#8::bs)=3#8::0#8::insertEpbFrom 1 bs := by
  rw [insertEpbFrom_cons,if_pos ⟨rfl,by decide⟩,if_pos rfl]

theorem insertEpbFrom_two_small (hb : b≠0#8) (hle : b≤3#8) (bs : List Byte) :
    insertEpbFrom 2 (b::bs)=3#8::b::insertEpbFrom 0 bs := by
  rw [insertEpbFrom_cons,if_pos ⟨rfl,hle⟩,if_neg hb]

theorem insertEpbFrom_large (hle : ¬b≤3#8) (zeros : ℕ) (bs : List Byte) :
    insertEpbFrom zeros (b::bs)=b::insertEpbFrom 0 bs := by
  have hb : b≠0#8 := fun h => hle (h ▸ by decide)
  rw [insertEpbFrom_cons,if_neg (fun h => hle h.2),if_neg hb]

/-- The host remover: a 00 00 03 in the next three bytes yields 00 00 and the
scan continues after it, any other byte is copied. -/
def removeEpb : List Byte → List Byte
  | a::b::c::rest =>
    if a = 0#8 ∧ b=0#8 ∧ c = 3#8 then 0#8::0#8::removeEpb rest
    else a::removeEpb (b::c::rest)
  | rest => rest

theorem removeEpb_cons (a b c : Byte) (rest : List Byte) : removeEpb (a::b::c::rest) =
    if a = 0#8 ∧ b=0#8 ∧ c = 3#8 then 0#8::0#8::removeEpb rest
    else a::removeEpb (b::c::rest) := rfl

theorem removeEpb_cons_of_ne (hb : b≠0#8) (rest : List Byte) :
    removeEpb (b::rest)=b::removeEpb rest := by
  rcases rest with _ | ⟨c,_ | ⟨d,rest⟩⟩
  · rfl
  · rfl
  · rw [removeEpb_cons,if_neg (fun h => hb h.1)]

theorem removeEpb_zero_of_ne (hb : b≠0#8) (rest : List Byte) :
    removeEpb (0#8::b::rest)=0#8::b::removeEpb rest := by
  rcases rest with _ | ⟨c,rest⟩
  · rfl
  · rw [removeEpb_cons,if_neg (fun h => hb h.2.1),removeEpb_cons_of_ne hb]

theorem removeEpb_zeros_of_ne (h3 : b≠3#8) (h0 : b≠0#8) (rest : List Byte) :
    removeEpb (0#8::0#8::b::rest)=0#8::0#8::b::removeEpb rest := by
  rw [removeEpb_cons,if_neg (fun h => h3 h.2.2),removeEpb_zero_of_ne h0]

theorem removeEpb_zeros_three (rest : List Byte) :
    removeEpb (0#8::0#8::3#8::rest)=0#8::0#8::removeEpb rest := by
  rw [removeEpb_cons,if_pos ⟨rfl,rfl,rfl⟩]

theorem length_removeEpb_le : (removeEpb bytes).length≤bytes.length := by
  fun_induction removeEpb bytes with
  | case1 a b c rest h ih =>
    simp only [List.length_cons]
    omega
  | case2 a b c rest h ih =>
    exact Nat.succ_le_succ ih
  | case3 rest h => exact Nat.le_refl _

/-- Removal undoes insertion with any number of zeros pending. The induction
carries the pending zeros in front of the coded bytes. -/
theorem removeEpb_insertEpbFrom : removeEpb (insertEpbFrom 0 bytes)=bytes ∧
      removeEpb (0#8::insertEpbFrom 1 bytes)=0#8::bytes ∧
      removeEpb (0#8::0#8::insertEpbFrom 2 bytes)=0#8::0#8::bytes := by
  induction bytes with
  | nil => exact ⟨rfl,rfl,rfl⟩
  | cons b bs ih =>
    obtain ⟨hzero,hone,htwo⟩ := ih
    by_cases hb : b=0#8
    · subst hb
      refine ⟨?_,?_,?_⟩
      · rw [insertEpbFrom_zero (by decide),hone]
      · rw [insertEpbFrom_zero (by decide),htwo]
      · rw [insertEpbFrom_two_zero,removeEpb_zeros_three,hone]
    · refine ⟨?_,?_,?_⟩
      · rw [insertEpbFrom_ne (by decide) hb,removeEpb_cons_of_ne hb,hzero]
      · rw [insertEpbFrom_ne (by decide) hb,removeEpb_zero_of_ne hb,hzero]
      · by_cases hle : b≤3#8
        · rw [insertEpbFrom_two_small hb hle,removeEpb_zeros_three,removeEpb_cons_of_ne hb,hzero]
        · have h3 : b≠3#8 := fun h => hle (h ▸ BitVec.le_refl _)
          rw [insertEpbFrom_large hle,removeEpb_zeros_of_ne h3 hb,hzero]

theorem removeEpb_insertEpb : removeEpb (insertEpb bytes)=bytes :=
  (removeEpb_insertEpbFrom bytes).1

/-- A maximal run of an odd number of at least three zero bytes stands directly
before a byte 03. -/
def OddZeroRunBeforeThree : Prop :=
  ∃ (pre : List Byte) (k : ℕ) (post : List Byte),
    bytes = pre ++ List.replicate (2*k+3) 0#8 ++ 3#8::post ∧
      pre.getLast?≠some 0#8

/-- Scan for an odd run of zeros before a 03, with the length of the run so far. -/
def runsClean : ℕ → List Byte → Bool
  | _,[] => true
  | run,b::bs =>
    if b = 0#8 then runsClean (run+1) bs
    else !(b == 3#8 && 3 ≤ run && run%2 == 1) && runsClean 0 bs

/-- Two lists that start with zeros and go on with a nonzero byte have the same
number of leading zeros. -/
theorem leading_zeros_unique {n r : ℕ} {c b : Byte} {post bs : List Byte}
    (hc : c≠0#8) (hb : b≠0#8)
    (h : List.replicate n 0#8 ++ c::post = List.replicate r 0#8 ++ b::bs) :
    n=r ∧ c=b ∧ post=bs := by
  induction n generalizing r with
  | zero =>
    cases r with
    | zero =>
      injection h with h1 h2
      exact ⟨rfl,h1,h2⟩
    | succ r =>
      injection h with h1 _
      exact absurd h1 hc
  | succ n ih =>
    cases r with
    | zero =>
      injection h with h1 _
      exact absurd h1.symm hb
    | succ r =>
      injection h with _ h2
      obtain ⟨hn,hcb,hp⟩ := ih h2
      exact ⟨by rw [hn],hcb,hp⟩

/-- A nonzero byte ends a run of zeros: either that run with that byte is the
odd run before 03, or the odd run lies behind the byte. -/
theorem oddZeroRun_cons_iff {r : ℕ} (hb : b≠0#8) (bs : List Byte) :
    OddZeroRunBeforeThree (List.replicate r 0#8 ++ b::bs) ↔
      (b=3#8 ∧ 3≤r ∧ r%2=1) ∨ OddZeroRunBeforeThree bs := by
  constructor
  · rintro ⟨pre,k,post,heq,hlast⟩
    rw [append_assoc] at heq
    rcases append_eq_append_iff.mp heq with ⟨mid,hpre,hrest⟩ | ⟨mid,hpre,hrest⟩
    · cases mid with
      | nil =>
        injection hrest with h1 _
        exact absurd h1 hb
      | cons c mid =>
        injection hrest with hcb hbs
        refine Or.inr ⟨mid,k,post,hbs.trans (append_assoc _ _ _).symm,fun hmid => hlast ?_⟩
        cases mid with
        | nil => cases hmid
        | cons d mid => rw [hpre,getLast?_append]; simpa using hmid
    · have hnil : pre=[] := by
        rcases eq_nil_or_concat pre with hp | ⟨front,c,hp⟩
        · exact hp
        · have hc : c∈replicate r (0#8) := by rw [hpre,hp]; simp
          exact absurd (by rw [hp]; simpa using eq_of_mem_replicate hc) hlast
      subst hnil
      obtain ⟨hr,h3,_⟩ := leading_zeros_unique hb (by decide) heq
      exact Or.inl ⟨h3,by omega,by omega⟩
  · rintro (⟨rfl,h3,hodd⟩ | ⟨pre,k,post,rfl,hlast⟩)
    · refine ⟨[],(r-3)/2,bs,?_,by simp⟩
      have hr : 2*((r-3)/2)+3=r := by omega
      rw [hr,List.nil_append]
    · refine ⟨replicate r 0#8 ++ b::pre,k,post,by simp,?_⟩
      cases pre with
      | nil => simpa using hb
      | cons d pre => simpa using hlast

/-- The scan answers exactly whether an odd run of zeros meets a 03, counting
the zeros already passed. -/
theorem runsClean_eq_false_iff (r : ℕ) (bytes : List Byte) :
    runsClean r bytes=false ↔ OddZeroRunBeforeThree (List.replicate r 0#8 ++ bytes) := by
  induction bytes generalizing r with
  | nil =>
    simp only [runsClean,Bool.true_eq_false,append_nil,false_iff]
    rintro ⟨pre,k,post,heq,-⟩
    have hmem : (3#8 : Byte)∈replicate r (0#8) := by rw [heq]; simp
    exact absurd (eq_of_mem_replicate hmem) (by decide)
  | cons b bs ih =>
    by_cases hb : b=0#8
    · subst hb
      rw [runsClean,if_pos rfl,ih (r+1),replicate_succ',append_assoc]
      rfl
    · have hrest := ih 0
      rw [List.replicate_zero,List.nil_append] at hrest
      rw [runsClean,if_neg hb,oddZeroRun_cons_iff hb,← hrest]
      simp only [Bool.and_eq_false_iff,Bool.not_eq_false',Bool.and_eq_true,beq_iff_eq,
        decide_eq_true_eq,and_assoc]

end Misterplex.Emulation

namespace Misterplex.CountingStrip

open Emulation

/-- The two registers that decide whether a byte is skipped. -/
structure StripState where
  /-- Saturating count of zero bytes pushed in a row. -/
  zeroCount : BitVec 2
  /-- Set by a skip, cleared by the next pushed byte. -/
  inhibitSkip : Bool
  deriving DecidableEq, Repr

/-- Registers after reset. -/
def StripState.cleared : StripState := ⟨0#2,false⟩

/-- The 03 of a 00 00 03, unless the previous byte was skipped. -/
def StripState.skipEpb (s : StripState) (b : Byte) : Bool :=
  !s.inhibitSkip && s.zeroCount == 2#2 && b == 3#8

/-- Registers after one accepted byte. -/
def StripState.next (s : StripState) (b : Byte) : StripState :=
  if s.skipEpb b then ⟨s.zeroCount,true⟩
  else if b = 0#8 then ⟨if s.zeroCount = 2#2 then 2#2 else s.zeroCount+1,false⟩
  else ⟨0#2,false⟩

/-- The stripper as a transducer of bytes. -/
def strip : Transducer StripState Byte Byte where
  next := StripState.next
  emit s b := if s.skipEpb b then [] else [b]

theorem strip_skip {s : StripState} {b : Byte} (h : s.skipEpb b=true) (bs : List Byte) :
    strip.run s (b::bs) = strip.run ⟨s.zeroCount,true⟩ bs := by
  simp only [Transducer.run_cons,strip,StripState.next,h,if_true,List.nil_append]

theorem strip_zero (s : StripState) (bs : List Byte) :
    strip.run s (0#8::bs) =
      0#8::strip.run ⟨if s.zeroCount = 2#2 then 2#2 else s.zeroCount+1,false⟩ bs := by
  have h : s.skipEpb 0#8=false := by simp [StripState.skipEpb]
  simp only [Transducer.run_cons,strip,StripState.next,h,Bool.false_eq_true,if_false,if_true,
    List.cons_append,List.nil_append]

theorem strip_push {s : StripState} {b : Byte} (h : s.skipEpb b=false) (hb : b≠0#8)
    (bs : List Byte) : strip.run s (b::bs)=b::strip.run ⟨0#2,false⟩ bs := by
  simp only [Transducer.run_cons,strip,StripState.next,h,Bool.false_eq_true,if_false,hb,
    List.cons_append,List.nil_append]

/-- A nonzero byte yields at most itself and leaves registers that the bound of
the remaining bytes covers. -/
theorem strip_ne_length {s : StripState} (hs : s.zeroCount≠3#2) {b : Byte} (hb : b≠0#8)
    {bs : List Byte} {n : ℕ}
    (ih : ∀ t : StripState, t.zeroCount≠3#2 → (strip.run t bs).length≤n) :
    (strip.run s (b::bs)).length≤n+1 := by
  by_cases h : s.skipEpb b=true
  · rw [strip_skip h]
    exact Nat.le_succ_of_le (ih _ hs)
  · rw [strip_push (Bool.not_eq_true _ ▸ h) hb,List.length_cons]
    exact Nat.succ_le_succ (ih _ (by simp))

/-- Whatever the registers say beyond the true number of pending zeros, every
inserted byte is skipped, so no output is longer than the payload. -/
theorem strip_length_le (bytes : List Byte) :
    (∀ s : StripState, s.zeroCount≠3#2 →
        (strip.run s (insertEpbFrom 0 bytes)).length≤bytes.length) ∧
      (∀ c : BitVec 2, c=1#2 ∨ c=2#2 →
        (strip.run ⟨c,false⟩ (insertEpbFrom 1 bytes)).length≤bytes.length) ∧
      (strip.run ⟨2#2,false⟩ (insertEpbFrom 2 bytes)).length≤bytes.length := by
  induction bytes with
  | nil => simp
  | cons b bs ih =>
    obtain ⟨hzero,hone,htwo⟩ := ih
    by_cases hb : b=0#8
    · subst hb
      refine ⟨fun s hs => ?_,fun c hc => ?_,?_⟩
      · rw [insertEpbFrom_zero (by decide),strip_zero,List.length_cons,List.length_cons]
        refine Nat.succ_le_succ (hone _ ?_)
        have hcount : ∀ c : BitVec 2, c≠3#2 →
            (if c = 2#2 then 2#2 else c+1)=1#2 ∨ (if c = 2#2 then 2#2 else c+1)=2#2 := by
          decide
        exact hcount s.zeroCount hs
      · have h2 : (if c = 2#2 then 2#2 else c+1)=2#2 := by
          rcases hc with rfl | rfl <;> rfl
        rw [insertEpbFrom_zero (by decide),strip_zero,List.length_cons,List.length_cons,h2]
        exact Nat.succ_le_succ htwo
      · exact Nat.succ_le_succ (hone 2#2 (Or.inr rfl))
    · refine ⟨fun s hs => ?_,fun c hc => ?_,?_⟩
      · rw [insertEpbFrom_ne (by decide) hb]
        exact strip_ne_length hs hb hzero
      · have h3 : c≠3#2 := by rcases hc with rfl | rfl <;> decide
        rw [insertEpbFrom_ne (by decide) hb]
        exact strip_ne_length h3 hb hzero
      · by_cases hle : b≤3#8
        · rw [insertEpbFrom_two_small hb hle,strip_skip rfl]
          exact strip_ne_length (by decide) hb hzero
        · rw [insertEpbFrom_large hle]
          exact strip_ne_length (by decide) hb hzero

/-- True number of pending zeros after a run of zeros of the payload: an
inserted 03 restarts the count before every odd zero from the third on. -/
def pendingZeros (run : ℕ) : ℕ := if run = 0 then 0 else 2-run%2

/-- Zero counter of the stripper after a run of zeros of the payload. -/
def countedZeros (run : ℕ) : BitVec 2 := if run = 0 then 0#2 else if run = 1 then 1#2 else 2#2

theorem strip_zero_of_run (run : ℕ) (bs : List Byte) :
    strip.run ⟨countedZeros run,false⟩ (insertEpbFrom (pendingZeros run) (0#8::bs)) =
      0#8::strip.run ⟨countedZeros (run+1),false⟩
        (insertEpbFrom (pendingZeros (run+1)) bs) := by
  rcases run with _ | _ | run
  · rfl
  · rfl
  · have hc : ∀ k, countedZeros (k+1+1)=2#2 := fun k => by simp [countedZeros]
    rcases Nat.mod_two_eq_zero_or_one run with hm | hm
    · have hp : pendingZeros (run+1+1)=2 := by simp [pendingZeros]; omega
      have hq : pendingZeros (run+1+1+1)=1 := by simp [pendingZeros]; omega
      rw [hc,hp,hq,insertEpbFrom_two_zero,strip_skip rfl,strip_zero,hc]
      rfl
    · have hp : pendingZeros (run+1+1)=1 := by simp [pendingZeros]; omega
      have hq : pendingZeros (run+1+1+1)=2 := by simp [pendingZeros]; omega
      rw [hc,hp,hq,insertEpbFrom_zero (by decide),strip_zero,hc]
      rfl

/-- A nonzero byte is recovered and the counts restart, unless it is a 03 after
an odd run of at least three zeros. -/
theorem strip_ne_of_run {run : ℕ} {b : Byte} (hb : b≠0#8)
    (hok : ¬(b=3#8 ∧ 3≤run ∧ run%2=1)) (bs : List Byte) :
    strip.run ⟨countedZeros run,false⟩ (insertEpbFrom (pendingZeros run) (b::bs)) =
      b::strip.run ⟨0#2,false⟩ (insertEpbFrom 0 bs) := by
  have hpush : ∀ {inhibit : Bool} {c : BitVec 2}, (inhibit=true ∨ c≠2#2 ∨ b≠3#8) →
      ∀ rest, strip.run ⟨c,inhibit⟩ (b::rest)=b::strip.run ⟨0#2,false⟩ rest := by
    intro inhibit c hcase rest
    refine strip_push ?_ hb rest
    simp only [StripState.skipEpb]
    rcases hcase with rfl | hc | h3
    · rfl
    · simp [hc]
    · simp [h3]
  by_cases hp : pendingZeros run=2
  · have hrun : 2≤run := by
      unfold pendingZeros at hp
      split at hp <;> omega
    have hc : countedZeros run=2#2 := by
      rw [countedZeros,if_neg (by omega),if_neg (by omega)]
    by_cases hle : b≤3#8
    · rw [hp,hc,insertEpbFrom_two_small hb hle,strip_skip rfl,hpush (Or.inl rfl)]
    · have h3 : b≠3#8 := fun h => hle (h ▸ BitVec.le_refl _)
      rw [hp,insertEpbFrom_large hle,hpush (Or.inr (Or.inr h3))]
  · rw [insertEpbFrom_ne hp hb]
    refine hpush (Or.inr ?_) _
    by_cases h3 : b=3#8
    · refine Or.inl ?_
      have hsmall : run<3 ∨ run%2=0 := by
        by_contra hcon
        exact hok ⟨h3,by omega,by omega⟩
      have hlt : run<2 := by
        unfold pendingZeros at hp
        split at hp <;> omega
      unfold countedZeros
      split
      · decide
      · rw [if_pos (by omega)]
        decide
    · exact Or.inr h3

/-- Along a payload the stripper recovers everything exactly when the scan for
an odd run of zeros before 03 is clean. -/
theorem strip_run_iff (run : ℕ) (bytes : List Byte) :
    strip.run ⟨countedZeros run,false⟩ (insertEpbFrom (pendingZeros run) bytes)=bytes ↔
      runsClean run bytes=true := by
  induction bytes generalizing run with
  | nil => simp [runsClean]
  | cons b bs ih =>
    by_cases hb : b=0#8
    · subst hb
      rw [strip_zero_of_run,runsClean,if_pos rfl,← ih (run+1),List.cons.injEq]
      exact and_iff_right rfl
    · rw [runsClean,if_neg hb]
      by_cases hbad : b=3#8 ∧ 3≤run ∧ run%2=1
      · obtain ⟨rfl,hr,hodd⟩ := hbad
        have hp : pendingZeros run=1 := by
          rw [pendingZeros,if_neg (by omega)]
          omega
        have hc : countedZeros run=2#2 := by
          rw [countedZeros,if_neg (by omega),if_neg (by omega)]
        have hlen := (strip_length_le bs).1 ⟨2#2,true⟩ (by decide)
        rw [hp,hc,insertEpbFrom_ne (by decide) hb,strip_skip rfl]
        simp only [hr,hodd,beq_self_eq_true,decide_true,Bool.and_self,Bool.not_true,
          Bool.false_and,Bool.false_eq_true,iff_false]
        intro heq
        rw [heq,List.length_cons] at hlen
        omega
      · have hflag : (!(b == 3#8 && decide (3≤run) && run%2 == 1))=true := by
          simp only [Bool.not_eq_true',Bool.and_eq_false_iff,beq_eq_false_iff_ne,
            decide_eq_false_iff_not]
          by_contra hcon
          push Not at hcon
          exact hbad ⟨hcon.1.1,hcon.1.2,hcon.2⟩
        rw [strip_ne_of_run hb hbad,hflag,Bool.true_and,← ih 0,List.cons.injEq]
        exact and_iff_right rfl

theorem strip_insertEpb_iff (bytes : List Byte) :
    strip.run StripState.cleared (insertEpb bytes)=bytes ↔ ¬OddZeroRunBeforeThree bytes := by
  have hscan := runsClean_eq_false_iff 0 bytes
  rw [List.replicate_zero,List.nil_append] at hscan
  rw [← hscan,Bool.not_eq_false]
  exact strip_run_iff 0 bytes

example : strip.run StripState.cleared (insertEpb [0#8,0#8,0#8,3#8])=[0#8,0#8,0#8] := rfl

end Misterplex.CountingStrip
