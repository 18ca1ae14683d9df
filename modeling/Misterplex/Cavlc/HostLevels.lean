import Misterplex.Cavlc.HostSymbols

/-!
# The host decoder reads levels

The prefix loop, the separate formulas for the first and the later levels and
their rules for the suffix length come to the one formula of the syntax as long
as no prefix is longer than fifteen zeros.
-/

namespace Misterplex.Cavlc.Host

open BitString PrefixCode

variable {br : BitReader} {d : List Emulation.Byte}

theorem levelPrefix_found (n : ℕ) (rest : List Bool) {fuel zeros : ℕ}
    (hat : BitReader.At d (List.replicate n false ++ true::rest) br)
    (hfuel : n<fuel) (hbound : zeros+n≤31) :
    (levelPrefix fuel zeros br).1=some (zeros+n) ∧
      BitReader.At d rest (levelPrefix fuel zeros br).2 := by
  induction n generalizing fuel zeros br with
  | zero =>
    obtain ⟨fuel,rfl⟩ : ∃ m, fuel=m+1 := ⟨fuel-1,by omega⟩
    obtain ⟨hval,hnext⟩ := hat.u_one
    rw [levelPrefix,if_pos hat.healthy]
    dsimp only
    rw [hval,if_neg (by decide)]
    exact ⟨rfl,hnext⟩
  | succ n ih =>
    obtain ⟨fuel,rfl⟩ : ∃ m, fuel=m+1 := ⟨fuel-1,by omega⟩
    obtain ⟨hval,hnext⟩ := hat.u_one
    have hrec := ih hnext (show n<fuel by omega) (show zeros+1+n≤31 by omega)
    rw [levelPrefix,if_pos hat.healthy]
    dsimp only
    rw [hval,Bool.toNat_false,if_pos rfl,if_neg (by omega),show zeros+(n+1)=zeros+1+n by omega]
    exact hrec

theorem levelPrefix_missing (n : ℕ) {fuel zeros : ℕ}
    (hat : BitReader.At d (List.replicate n false) br) :
    (levelPrefix fuel zeros br).1=none ∨ (levelPrefix fuel zeros br).2.ok=false := by
  induction n generalizing fuel zeros br with
  | zero =>
    cases fuel with
    | zero => exact Or.inl rfl
    | succ fuel =>
      have hfail := hat.u_short (show [].length<1 by decide)
      have hnil : (br.u 1).1=0 := by
        rw [BitReader.u,BitReader.uFrom,BitReader.At.u1_nil hat]
        rfl
      rw [levelPrefix,if_pos hat.healthy]
      dsimp only
      rw [hnil,if_pos rfl]
      by_cases h31 : 31<zeros+1
      · rw [if_pos h31]
        exact Or.inl rfl
      · rw [if_neg h31]
        cases fuel with
        | zero => exact Or.inl rfl
        | succ fuel =>
          rw [levelPrefix,if_neg (by simp [hfail])]
          exact Or.inr hfail
  | succ n ih =>
    cases fuel with
    | zero => exact Or.inl rfl
    | succ fuel =>
      obtain ⟨hval,hnext⟩ := hat.u_one
      rw [levelPrefix,if_pos hat.healthy]
      dsimp only
      rw [hval,Bool.toNat_false,if_pos rfl]
      by_cases h31 : 31<zeros+1
      · rw [if_pos h31]
        exact Or.inl rfl
      · rw [if_neg h31]
        exact ih hnext

theorem levelPrefix_agrees {left : List Bool}
    (hat : BitReader.At d left br) : Agrees d (readLevelPrefix left) (levelPrefix 32 0 br) := by
  unfold readLevelPrefix
  cases hz : zerosBeforeOne left with
  | none =>
    rw [zerosBeforeOne_eq_none hz] at hat
    exact levelPrefix_missing left.length hat
  | some p =>
    have hbits := zerosBeforeOne_eq_some hz
    by_cases hlong : 15<p.1
    · simp only [if_pos hlong,Agrees]
    · rw [hbits] at hat
      have hfound := levelPrefix_found p.1 p.2 hat (show p.1<32 by omega)
        (show 0+p.1≤31 by omega)
      rw [Nat.zero_add] at hfound
      simp only [if_neg hlong,Agrees]
      exact hfound

/-- Suffix lengths the host can hold before a first or a later level. -/
def SuffixRange (first : Bool) (suffixLength : ℕ) : Prop :=
  if first then suffixLength ≤ 1 else 1 ≤ suffixLength ∧ suffixLength≤6

/-- Level code of a first or a later level. -/
def hostLevelCode (first : Bool) (zeros suffixLength t1 : ℕ) (br : BitReader) : ℕ × BitReader :=
  if first then firstLevelCode zeros suffixLength t1 br else nextLevelCode zeros suffixLength br

variable {suffixLength : ℕ}

theorem levelSuffixSize_le (zeros : ℕ) (hsl : suffixLength≤6) :
    levelSuffixSize zeros suffixLength ≤ 12 := by
  unfold levelSuffixSize
  split_ifs <;> omega

theorem hostLevelCode_eq {first : Bool} {zeros suffixLength t1 : ℕ} (hz : zeros≤15)
    (hsl : SuffixRange first suffixLength) (br : BitReader) :
    hostLevelCode first zeros suffixLength t1 br =
      (levelCode zeros (br.u (levelSuffixSize zeros suffixLength)).1 suffixLength
        (first && decide (t1<3)),(br.u (levelSuffixSize zeros suffixLength)).2) := by
  have hshift : ∀ a b : ℕ, a <<< b = a*2^b := Nat.shiftLeft_eq
  have hoffset : escapeOffset zeros=0 := if_neg (by omega)
  cases first with
  | true =>
    have hsl1 : suffixLength≤1 := hsl
    unfold hostLevelCode firstLevelCode levelCode
    rw [if_pos rfl,hoffset,hshift]
    by_cases h14 : zeros<14
    · have hsize : levelSuffixSize zeros suffixLength=suffixLength := by
        rw [levelSuffixSize,if_neg (by omega),if_neg (by omega)]
      rw [if_pos h14,hsize,Nat.min_eq_right hz,if_neg (show ¬(15≤zeros ∧ _) by omega)]
      by_cases h0 : suffixLength=0
      · have hnone : br.u 0=(0,br) := rfl
        subst h0
        rw [hnone,pow_zero,Nat.mul_one,Nat.add_zero,Nat.add_zero]
        simp only [ne_eq,not_true_eq_false,if_false,Bool.true_and,decide_eq_true_eq]
        split_ifs <;> rfl
      · simp only [Bool.true_and,decide_eq_true_eq]
        split_ifs <;> rfl
    · by_cases he : zeros=14
      · subst he
        rw [if_pos rfl,if_neg (show ¬(15≤14 ∧ _) by omega)]
        by_cases h0 : suffixLength=0
        · subst h0
          simp only [ne_eq,not_true_eq_false,if_false,Bool.true_and,decide_eq_true_eq]
          split_ifs <;> rfl
        · have hsize : levelSuffixSize 14 suffixLength=suffixLength := by
            rw [levelSuffixSize,if_neg (by omega),if_neg (by omega)]
          rw [if_pos h0,hsize]
          simp only [Bool.true_and,decide_eq_true_eq]
          split_ifs <;> rfl
      · have h15 : zeros=15 := by omega
        subst h15
        have hsize : levelSuffixSize 15 suffixLength=12 := by
          rw [levelSuffixSize,if_neg (by omega),if_pos rfl]
        rw [if_neg he,hsize,show 15-3=12 from rfl]
        have hbase : min 15 15*2^suffixLength+(if 15 ≤ 15 ∧ suffixLength = 0 then 15 else 0) =
            30 := by
          rcases (show suffixLength=0 ∨ suffixLength=1 by omega) with rfl | rfl <;> rfl
        simp only [Bool.true_and,decide_eq_true_eq]
        refine congrArg₂ Prod.mk ?_ rfl
        split_ifs at hbase ⊢ <;> omega
  | false =>
    obtain ⟨hlow,hhigh⟩ : 1 ≤ suffixLength ∧ suffixLength≤6 := hsl
    unfold hostLevelCode nextLevelCode levelCode
    rw [if_neg Bool.false_ne_true,hoffset,hshift,hshift]
    by_cases h15 : zeros<15
    · have hsize : levelSuffixSize zeros suffixLength=suffixLength := by
        rw [levelSuffixSize,if_neg (by omega),if_neg (by omega)]
      rw [if_pos h15,hsize,Nat.min_eq_right hz,if_neg (show ¬(15≤zeros ∧ _) by omega)]
      rfl
    · have he : zeros=15 := by omega
      subst he
      have hsize : levelSuffixSize 15 suffixLength=12 := by
        rw [levelSuffixSize,if_neg (by omega),if_pos rfl]
      rw [if_neg h15,hsize,if_neg (show ¬(15≤15 ∧ suffixLength=0) by omega)]
      rfl

theorem levelCode_lt {zeros suf suffixLength : ℕ} (lift : Bool)
    (hsl : suffixLength≤6) (hsuf : suf<2^levelSuffixSize zeros suffixLength) :
    levelCode zeros suf suffixLength lift<8192 := by
  have hpow : 2^suffixLength≤2^6 := Nat.pow_le_pow_right (by omega) hsl
  have hsize : 2^levelSuffixSize zeros suffixLength≤2^12 :=
    Nat.pow_le_pow_right (by omega) (levelSuffixSize_le _ hsl)
  have hmul : min 15 zeros*2^suffixLength≤15*2^6 :=
    Nat.mul_le_mul (Nat.min_le_left 15 zeros) hpow
  unfold levelCode
  split_ifs <;> omega

theorem toSigned_eq {code : ℕ} (h : code<8192) : toSigned code=levelOfCode code := by
  have hwrap : ∀ v : ℤ, -32768≤v → v<32768 → int16 v=v := by
    intro v hlow hhigh
    rw [int16,Int.bmod_def]
    split_ifs <;> omega
  unfold toSigned levelOfCode
  by_cases hodd : code%2=1
  · rw [if_pos hodd,if_neg (by omega),hwrap] <;> omega
  · rw [if_neg hodd,if_pos (by omega),hwrap] <;> omega

theorem natAbs_levelOfCode (code : ℕ) : (levelOfCode code).natAbs=(code+2)/2 := by
  unfold levelOfCode
  split_ifs <;> omega

/-- Suffix length after a first or a later level. -/
def hostSuffixAfter (first : Bool) (zeros suffixLength : ℕ) (level : ℤ) : ℕ :=
  if first then suffixAfterFirst zeros suffixLength level else suffixAfterNext suffixLength level

theorem lt_uint32_iff {limit : ℕ} {level : ℤ} (hlimit : limit≤48) (hl : level.natAbs≤8192) :
    2*limit < uint32 (limit+level) ↔ limit<level.natAbs := by
  unfold uint32
  omega

theorem hostSuffixAfter_eq {first : Bool} {zeros suf suffixLength : ℕ} (lift : Bool)
    (hz : zeros≤15) (hsl : SuffixRange first suffixLength)
    (hsuf : suf<2^levelSuffixSize zeros suffixLength) :
    hostSuffixAfter first zeros suffixLength (levelOfCode (levelCode zeros suf suffixLength lift)) =
      nextSuffixLength suffixLength (levelOfCode (levelCode zeros suf suffixLength lift)) := by
  have h6 : suffixLength≤6 := by
    unfold SuffixRange at hsl
    split_ifs at hsl <;> omega
  have hcode := levelCode_lt lift h6 hsuf
  have habs := natAbs_levelOfCode (levelCode zeros suf suffixLength lift)
  have hlarge : 14≤zeros → 14≤levelCode zeros suf suffixLength lift := by
    intro h14
    have hmul : 14*1 ≤ min 15 zeros*2^suffixLength :=
      Nat.mul_le_mul (by omega) (Nat.two_pow_pos suffixLength)
    unfold levelCode
    omega
  generalize levelOfCode (levelCode zeros suf suffixLength lift)=level at *
  cases first with
  | true =>
    have hsl1 : suffixLength≤1 := hsl
    have hmax : max suffixLength 1=1 := by omega
    have hlimit : 6<uint32 (level+3) ↔ 3<level.natAbs := by
      unfold uint32
      omega
    unfold hostSuffixAfter suffixAfterFirst nextSuffixLength
    rw [if_pos rfl,hmax,Nat.sub_self,pow_zero,Nat.mul_one]
    by_cases hesc : 14<zeros ∨ (zeros=14 ∧ suffixLength=0)
    · rw [if_pos hesc,if_pos ⟨by omega,by omega⟩]
    · rw [if_neg hesc]
      by_cases hgrow : 3<level.natAbs
      · rw [if_pos (hlimit.mpr hgrow),if_pos ⟨hgrow,by omega⟩]
      · rw [if_neg (fun h => hgrow (hlimit.mp h)),if_neg (fun h => hgrow h.1)]
  | false =>
    obtain ⟨hlow,hhigh⟩ : 1 ≤ suffixLength ∧ suffixLength≤6 := hsl
    have hmax : max suffixLength 1=suffixLength := by omega
    unfold hostSuffixAfter suffixAfterNext nextSuffixLength
    rw [if_neg Bool.false_ne_true,hmax]
    by_cases h6' : suffixLength<6
    · have hk : kLim.getD suffixLength 0=3*2^(suffixLength-1) ∧
          kLim.getD suffixLength 0≤48 := by
        rcases (show suffixLength=1 ∨ suffixLength=2 ∨ suffixLength=3 ∨ suffixLength=4 ∨
          suffixLength=5 by omega) with rfl | rfl | rfl | rfl | rfl <;> decide
      have hlimit := lt_uint32_iff hk.2 (show level.natAbs≤8192 by omega)
      rw [if_pos h6',← hk.1]
      by_cases hgrow : kLim.getD suffixLength 0<level.natAbs
      · rw [if_pos (hlimit.mpr hgrow),if_pos ⟨hgrow,h6'⟩]
      · rw [if_neg (fun h => hgrow (hlimit.mp h)),if_neg (fun h => hgrow h.1),Nat.add_zero]
    · rw [if_neg h6',if_neg (fun h => h6' h.2)]

theorem suffixRange_next (h : suffixLength≤6) (level : ℤ) :
    SuffixRange false (nextSuffixLength suffixLength level) := by
  refine (show 1≤nextSuffixLength suffixLength level ∧ nextSuffixLength suffixLength level≤6
    from ?_)
  unfold nextSuffixLength
  by_cases hgrow : 3*2^(max suffixLength 1-1)<level.natAbs ∧ max suffixLength 1<6
  · rw [if_pos hgrow]
    omega
  · rw [if_neg hgrow]
    omega

/-- The level loop's answer: the levels when the block goes on. -/
def levelsAnswer (r : Bool × List ℤ × BitReader) : Option (List ℤ) × BitReader :=
  (if r.1 then some r.2.1 else none,r.2.2)

theorem levelsFrom_failed (t1 n : ℕ) (first : Bool) (suffixLength : ℕ) (level : List ℤ)
    (h : br.ok=false) :
    (levelsFrom t1 n first suffixLength level br).2.2.ok=false := by
  cases n with
  | zero => exact h
  | succ n =>
    rw [levelsFrom,if_neg (by simp [h])]
    exact h

theorem hostLevelCode_failed (h : br.ok=false) (first : Bool) (zeros suffixLength t1 : ℕ) :
    (hostLevelCode first zeros suffixLength t1 br).2.ok=false := by
  have hu : ∀ n, (br.u n).2.ok=false := fun n => by rw [BitReader.u_failed h,h]
  unfold hostLevelCode firstLevelCode nextLevelCode
  split_ifs <;> first | exact hu _ | exact h

theorem levelsFrom_succ (t1 n : ℕ) (first : Bool) (suffixLength : ℕ) (level : List ℤ)
    (h : br.ok=true) :
    levelsFrom t1 (n+1) first suffixLength level br =
      match levelPrefix 32 0 br with
      | (none,br) => (false,level,br)
      | (some zeros,br) =>
        levelsFrom t1 n false
          (hostSuffixAfter first zeros suffixLength
            (toSigned (hostLevelCode first zeros suffixLength t1 br).1))
          (level ++ [toSigned (hostLevelCode first zeros suffixLength t1 br).1])
          (hostLevelCode first zeros suffixLength t1 br).2 := by
  rw [levelsFrom,if_pos h]
  rfl

theorem levelsFrom_agrees (t1 n : ℕ) {first : Bool} (level : List ℤ)
    (hsl : SuffixRange first suffixLength) {left : List Bool} (hat : BitReader.At d left br) :
    Agrees d (readLevels n suffixLength (first && decide (t1<3)) left >>=
        fun p => pure (level ++ p.1,p.2))
      (levelsAnswer (levelsFrom t1 n first suffixLength level br)) := by
  induction n generalizing first suffixLength level left br with
  | zero =>
    exact ⟨congrArg some (List.append_nil level).symm,hat⟩
  | succ n ih =>
    have h6 : suffixLength≤6 := by
      unfold SuffixRange at hsl
      split_ifs at hsl <;> omega
    rw [readLevels,readLevel,levelsFrom_succ t1 n first suffixLength level hat.healthy]
    simp only [bind_assoc,pure_bind]
    refine (levelPrefix_agrees hat).bind ?_ ?_
    · intro zeros rest hread hsome hrest
      have hz : zeros≤15 := by
        unfold readLevelPrefix at hread
        cases hb : zerosBeforeOne left with
        | none =>
          rw [hb] at hread
          cases hread
        | some p =>
          rw [hb] at hread
          by_cases hlong : 15<p.1
          · simp only [if_pos hlong] at hread
            cases hread
          · simp only [if_neg hlong] at hread
            rw [Except.ok.inj hread] at hlong
            exact Nat.le_of_not_lt hlong
      generalize levelPrefix 32 0 br=answer at hsome hrest
      obtain ⟨found,br⟩ := answer
      subst hsome
      dsimp only
      rw [hostLevelCode_eq hz hsl br]
      have hfield := u_agrees (show levelSuffixSize zeros suffixLength≤32 by
        have hsize := levelSuffixSize_le zeros h6
        omega) hrest
      refine hfield.bind ?_ ?_
      · intro suf rest' hreadf hsomef hrest'
        have hsuf := readField_lt hreadf
        have hval : (br.u (levelSuffixSize zeros suffixLength)).1=suf := Option.some.inj hsomef
        have hcode := levelCode_lt (first && decide (t1<3)) h6 hsuf
        rw [hval,toSigned_eq hcode,hostSuffixAfter_eq _ hz hsl hsuf]
        have hrec := ih (level ++ [levelOfCode
          (levelCode zeros suf suffixLength (first && decide (t1<3)))])
          (suffixRange_next h6
            (levelOfCode (levelCode zeros suf suffixLength (first && decide (t1<3))))) hrest'
        simp only [List.append_assoc,List.singleton_append] at hrec
        exact hrec
      · intro hfail
        refine Or.inr (levelsFrom_failed _ _ _ _ _ ?_)
        cases hfail with
        | inl h => cases h
        | inr h => exact h
    · intro hfail
      generalize levelPrefix 32 0 br=answer at hfail
      obtain ⟨found,br⟩ := answer
      cases found with
      | none => exact Or.inl rfl
      | some zeros =>
        have hbad : br.ok=false := by
          cases hfail with
          | inl h => cases h
          | inr h => exact h
        exact Or.inr (levelsFrom_failed _ _ _ _ _ (hostLevelCode_failed hbad _ _ _ _))

end Misterplex.Cavlc.Host
