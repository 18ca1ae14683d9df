import Misterplex.Cavlc.EngineWindow

/-!
# The engine reads signs and levels

A run of the engine yields a reading: where the reading succeeds the engine
reaches a state that holds what was read and stands behind it, where the bits
are no code it reaches its failure state. The levels of a cycle are those that
are read one at a time.
-/

namespace Misterplex.Cavlc.Engine

open BitString PrefixCode Host List

/-- Clock edges of a busy engine before the end of its block. -/
inductive Steps (i : Inputs) : Regs → Regs → Prop
  | refl (r : Regs) : Steps i r r
  | next {r r' : Regs} (hbusy : r.st ≠ .idle) (hdone : (step i false false r).done=false)
      (h : Steps i (step i false false r) r') : Steps i r r'

variable {i : Inputs}

theorem Steps.trans {r r' r'' : Regs} (h : Steps i r r') (h' : Steps i r' r'') : Steps i r r'' := by
  induction h with
  | refl r => exact h'
  | next hbusy hdone _ ih => exact Steps.next hbusy hdone (ih h')

/-- The engine yields a reading from some registers: it reaches registers that
hold what was read with the bits behind it left, or its failure state. A
reading that ends at a long level prefix makes no demand. -/
def Yields {α : Type} (i : Inputs) (r : Regs) (reading : Except Stop (α × List Bool))
    (holds : α → Regs → Prop) : Prop :=
  match reading with
  | .ok (a,rest) => ∃ r', Steps i r r' ∧ r'.done=false ∧ holds a r' ∧ r'.bitPos ≤ i.bitLen ∧
      rest=window i r'.bitPos
  | .error .invalid => ∃ r', Steps i r r' ∧ r'.done=false ∧ r'.st = .fail
  | .error .longPrefix => True

section Rules

variable {α β : Type} {i : Inputs} {r : Regs}

variable {holds : α → Regs → Prop}

/-- Registers that hold the result yield it. -/
theorem Yields.ok {a : α} (hdone : r.done=false) (h : holds a r)
    (hpos : r.bitPos ≤ i.bitLen) : Yields i r (.ok (a,window i r.bitPos)) holds :=
  ⟨r,Steps.refl r,hdone,h,hpos,rfl⟩

/-- The failure state yields a refusal. -/
theorem Yields.fail (hdone : r.done=false) (h : r.st = .fail) :
    Yields i r (.error .invalid) holds :=
  ⟨r,Steps.refl r,hdone,h⟩

theorem ok_bind (a : α) (f : α → Except Stop β) : (Except.ok a >>= f)=f a := rfl

variable {reading : Except Stop (α × List Bool)}

/-- What is yielded after one busy edge is yielded before it. -/
theorem Yields.after (r' : Regs) (hbusy : r.st ≠ .idle) (hstep : step i false false r=r')
    (hdone : r'.done=false)
    (h : Yields i r' reading holds) : Yields i r reading holds := by
  subst hstep
  cases hr : reading with
  | ok p =>
    rw [hr] at h
    obtain ⟨s,hs,hrest⟩ := h
    exact ⟨s,Steps.next hbusy hdone hs,hrest⟩
  | error e =>
    rw [hr] at h
    cases e with
    | longPrefix => trivial
    | invalid =>
      obtain ⟨s,hs,hfail⟩ := h
      exact ⟨s,Steps.next hbusy hdone hs,hfail⟩

theorem Yields.failing (hbusy : r.st ≠ .idle) (hdone : r.done=false)
    (hstep : step i false false r = { r with st := .fail }) :
    Yields i r (.error .invalid) holds :=
  Yields.after { r with st := .fail } hbusy hstep hdone (Yields.fail hdone rfl)

/-- Readings in sequence are yielded one behind the other. -/
theorem Yields.bind {f : α × List Bool → Except Stop (β × List Bool)} {holds' : β → Regs → Prop}
    (h : Yields i r reading holds)
    (hok : ∀ a s, reading = .ok (a,window i s.bitPos) → s.done=false → s.bitPos ≤ i.bitLen →
      holds a s → Yields i s (f (a,window i s.bitPos)) holds') :
    Yields i r (reading >>= f) holds' := by
  cases hr : reading with
  | error e =>
    rw [hr] at h
    cases e with
    | longPrefix => trivial
    | invalid => exact h
  | ok p =>
    obtain ⟨a,rest⟩ := p
    rw [hr] at h
    obtain ⟨s,hs,hdone,hholds,hpos,rfl⟩ := h
    have hnext := hok a s hr hdone hpos hholds
    rw [ok_bind]
    cases hf : f (a,window i s.bitPos) with
    | ok q =>
      rw [hf] at hnext
      obtain ⟨t,ht,hrest⟩ := hnext
      exact ⟨t,hs.trans ht,hrest⟩
    | error e =>
      rw [hf] at hnext
      cases e with
      | longPrefix => trivial
      | invalid =>
        obtain ⟨t,ht,hfail⟩ := hnext
        exact ⟨t,hs.trans ht,hfail⟩

/-- A result may be rebuilt from what the registers hold. -/
theorem Yields.map {holds : β → Regs → Prop} (g : α → β)
    (h : Yields i r reading fun a => holds (g a)) :
    Yields i r (reading >>= fun p => pure (g p.1,p.2)) holds :=
  h.bind fun _ _ _ hdone hpos hholds => Yields.ok hdone hholds hpos

end Rules

variable {r : Regs}

theorem step_lvlPre (hst : r.st = .lvlPre) (hdone : r.done=false) :
    step i false false r=lvlPre i r := by
  cases r
  cases hst
  cases hdone
  rfl

/-- Registers that hold the coeff_token and the levels so far. -/
structure LevelsAt (r : Regs) (tc t1 : ℕ) (levels : List ℤ) : Prop where
  done : r.done=false
  /-- Total coefficients to decode. -/
  tcR : r.tcR=tc
  /-- Trailing ones to decode. -/
  t1R : r.t1R=t1
  totalCoeff : r.totalCoeff=tc
  trailingOnes : r.trailingOnes=t1
  run : r.run=List.replicate 16 0
  size : r.level.length=16
  level : r.level.take levels.length=levels

/-- The engine is about to read a number of levels. -/
structure AtLevel (i : Inputs) (r : Regs) (tc t1 : ℕ) (levels : List ℤ) (n : ℕ) : Prop
    extends LevelsAt r tc t1 levels where
  st : r.st = .lvlPre
  idx : r.idx=levels.length
  left : levels.length+n=tc
  pos : 0<n
  range : SuffixRange r.firstNonT1 r.suffixLength
  bitPos : r.bitPos ≤ i.bitLen

theorem suffixRange_le_six {first : Bool} {sl : ℕ} (h : SuffixRange first sl) : sl≤6 := by
  unfold SuffixRange at h
  split_ifs at h <;> omega

theorem take_set_concat {α : Type} {l : List α} {n : ℕ} (h : n<l.length) (x : α) :
    (l.set n x).take (n+1) = l.take n ++ [x] := by
  rw [take_succ_eq_append_getElem (by rw [length_set]; exact h),getElem_set_self,
    take_set_of_le le_rfl]

theorem LevelsAt.store {tc t1 : ℕ} {levels level : List ℤ}
    (h : LevelsAt { r with level := level } tc t1 levels) (hroom : levels.length<16) (l : ℤ) :
    LevelsAt { r with level := level.set (levels.length%16) l } tc t1 (levels ++ [l]) := by
  have hsize : level.length=16 := h.size
  have hlevel : level.take levels.length=levels := h.level
  refine { h with size := ?_, level := ?_ }
  · rw [length_set,hsize]
  · rw [Nat.mod_eq_of_lt hroom,length_append,length_singleton,
      take_set_concat (by rw [hsize]; exact hroom),hlevel]

theorem tryNext_reads {n sl : ℕ} (pos : ℕ) (hlen : i.bitLen≤512)
    (htc : r.tcR≤16) (hidx : r.idx+n≤r.tcR) (hsl : SuffixRange false sl) :
    (r.idx+n=r.tcR → tryNext i r n sl pos = .short) ∧ (r.idx+n<r.tcR →
      match readLevel sl false (window i pos) with
      | .ok (l,rest) => ∃ t, tryNext i r n sl pos = .taken t ∧ t.level=l ∧
          t.sl=nextSuffixLength sl l ∧ pos+t.cons ≤ i.bitLen ∧ rest=window i (pos+t.cons)
      | .error .invalid => tryNext i r n sl pos = .short
      | .error .longPrefix => True) := by
  have hwrap : (r.idx+n)%32=r.idx+n := Nat.mod_eq_of_lt (by omega)
  constructor
  · intro h
    rw [tryNext,hwrap,if_neg (by omega)]
  · intro h
    by_cases hpos : pos < i.bitLen
    · have hread := tryLevel_reads r.t1R hlen hpos (show r.idx+n<16 by omega) hsl
      have hnext : tryNext i r n sl pos =
          (tryLevel i false (r.idx+n) sl r.t1R pos).inWindow := by
        rw [tryNext,hwrap,if_pos ⟨h,hpos⟩]
      rw [Bool.false_and] at hread
      cases hr : readLevel sl false (window i pos) with
      | ok p =>
        rw [hr] at hread
        obtain ⟨t,ht,hrest⟩ := hread
        exact ⟨t,by rw [hnext,ht]; rfl,hrest⟩
      | error e =>
        rw [hr] at hread
        cases e with
        | longPrefix => trivial
        | invalid =>
          rw [hnext,hread]
          rfl
    · have hnil : readLevel sl false (window i pos) = .error .invalid := by
        rw [window_eq_nil (by omega)]
        rfl
      rw [hnil]
      rw [tryNext,if_neg (fun hc => hpos hc.2)]

/-- The engine has read more levels behind those it had and turns to total_zeros. -/
def LevelsDone (tc t1 : ℕ) (levels more : List ℤ) (r : Regs) : Prop :=
  r.st = .tzBit ∧ LevelsAt r tc t1 (levels ++ more)

/-- From its level state the engine reads a number of levels. -/
def ReadsLevels (i : Inputs) (tc t1 n : ℕ) : Prop :=
  ∀ (r : Regs) (levels : List ℤ), AtLevel i r tc t1 levels n →
    Yields i r
      (readLevels n r.suffixLength (r.firstNonT1 && decide (t1<3)) (window i r.bitPos))
      (LevelsDone tc t1 levels)

/-- Behind the levels of a cycle the engine reads the others, given that it does
so from its level state. -/
theorem advance_yields {tc t1 k n : ℕ} {levels : List ℤ}
    (h : LevelsAt r tc t1 levels) (htc : tc≤16) (hidx : r.idx+k=levels.length)
    (hleft : levels.length+n=tc) (hfirst : r.firstNonT1=false)
    (hsl : SuffixRange false r.suffixLength) (hpos : r.bitPos ≤ i.bitLen)
    (hrest : ReadsLevels i tc t1 n) :
    Yields i (r.advance k) (readLevels n r.suffixLength false (window i r.bitPos))
      (LevelsDone tc t1 levels) := by
  have htcR := h.tcR
  have hwrap : (r.idx+k)%32=levels.length := by rw [hidx,Nat.mod_eq_of_lt (by omega)]
  by_cases hend : n=0
  · subst hend
    rw [Regs.advance,if_pos (by omega),readLevels]
    refine Yields.ok h.done ⟨rfl,?_⟩ hpos
    rw [append_nil]
    exact { h with }
  · have hlift : (r.firstNonT1 && decide (t1<3))=false := by rw [hfirst,Bool.false_and]
    have hmore := hrest { r with idx := (r.idx+k)%32, st := .lvlPre } levels
      ⟨{ h with },rfl,hwrap,
        hleft,Nat.pos_of_ne_zero hend,hfirst ▸ hsl,hpos⟩
    rw [hlift] at hmore
    rw [Regs.advance,if_neg (by omega)]
    exact hmore

theorem storeLevels_done (r : Regs) (last : Taken) (level : List ℤ) (n pos : ℕ) :
    (storeLevels r last level n pos).done=r.done := by
  unfold storeLevels Regs.advance
  split_ifs <;> rfl

/-- A cycle that stores levels goes on to read the others, given that the engine
does so from its level state. -/
theorem storeLevels_yields {tc t1 k n pos : ℕ} {levels level : List ℤ}
    {last : Taken} (hbusy : r.st ≠ .idle)
    (hstep : step i false false r=storeLevels r last level k pos)
    (h : LevelsAt { r with level := level } tc t1 levels) (htc : tc≤16)
    (hidx : r.idx+k=levels.length) (hleft : levels.length+n=tc)
    (hsl : SuffixRange false last.sl) (hpos : pos ≤ i.bitLen) (hrest : ReadsLevels i tc t1 n) :
    Yields i r (readLevels n last.sl false (window i pos)) (LevelsDone tc t1 levels) := by
  have hdown : r.done=false := h.done
  have hstored : LevelsAt { r with
      firstNonT1 := false, level := level, levelPrefix := last.pfx, suffixAcc := last.sfx,
      suffixLength := last.sl, bitPos := pos } tc t1 levels :=
    { h with }
  refine Yields.after _ hbusy hstep (by rw [storeLevels_done,hdown]) ?_
  exact advance_yields hstored htc hidx hleft rfl hsl hpos hrest

theorem readLevels_succ (n sl : ℕ) (lift : Bool) (bits : List Bool) :
    readLevels (n+1) sl lift bits = readLevel sl lift bits >>= fun p =>
      readLevels n (nextSuffixLength sl p.1) false p.2 >>= fun q => pure (p.1::q.1,q.2) := by
  rfl

/-- A level read now goes before those read later. -/
theorem Yields.cons {tc t1 : ℕ} {levels : List ℤ} {l : ℤ}
    {reading : Except Stop (List ℤ × List Bool)}
    (h : Yields i r reading (LevelsDone tc t1 (levels ++ [l]))) :
    Yields i r (reading >>= fun q => pure (l::q.1,q.2)) (LevelsDone tc t1 levels) := by
  have hsame : LevelsDone tc t1 (levels ++ [l]) = fun more => LevelsDone tc t1 levels (l::more) := by
    funext more s
    simp only [LevelsDone,append_assoc,singleton_append]
  rw [hsame] at h
  exact h.map (List.cons l)

/-- A further level of a cycle: where it is given up the cycle ends without it,
where it is taken the cycle goes on behind it. -/
theorem tryNext_yields {tc t1 k n sl pos : ℕ} {levels : List ℤ}
    (hlen : i.bitLen≤512) (htc : tc≤16) (htcR : r.tcR=tc) (hidx : r.idx+k+n=tc)
    (hsl : SuffixRange false sl) (hshort : tryNext i r k sl pos = .short →
      Yields i r (readLevels n sl false (window i pos)) (LevelsDone tc t1 levels))
    (htaken : ∀ t m, n=m+1 → tryNext i r k sl pos = .taken t → SuffixRange false t.sl →
      pos+t.cons ≤ i.bitLen →
      Yields i r (readLevels m t.sl false (window i (pos+t.cons)))
        (LevelsDone tc t1 (levels ++ [t.level]))) :
    Yields i r (readLevels n sl false (window i pos)) (LevelsDone tc t1 levels) := by
  have hnext := tryNext_reads pos hlen (htcR ▸ htc) (show r.idx+k≤r.tcR by omega) hsl
  by_cases hend : n=0
  · exact hshort (hnext.1 (by omega))
  · obtain ⟨m,rfl⟩ : ∃ m, n=m+1 := ⟨n-1,by omega⟩
    have hread := hnext.2 (by omega)
    cases hr : readLevel sl false (window i pos) with
    | error e =>
      rw [hr] at hread
      cases e with
      | invalid => exact hshort hread
      | longPrefix =>
        rw [readLevels_succ,hr]
        trivial
    | ok p =>
      obtain ⟨l,rest⟩ := p
      rw [hr] at hread
      obtain ⟨t,ht,rfl,htsl,hend,rfl⟩ := hread
      have hrange : SuffixRange false t.sl := htsl ▸ suffixRange_next (suffixRange_le_six hsl) t.level
      have hrest := (htaken t m rfl ht hrange hend).cons
      rw [readLevels_succ,hr,htsl] at *
      exact hrest

/-- From its level state the engine reads the levels that are left: a cycle takes
one, two or three of them, and a further one is given up where the bits are no
level, for the next cycle to find that out. -/
theorem readsLevels {tc t1 : ℕ} (hlen : i.bitLen≤512) (htc : tc≤16) (n : ℕ) :
    ReadsLevels i tc t1 n := by
  induction n using Nat.strong_induction_on with
  | _ n ih =>
    intro r levels h
    obtain ⟨m,rfl⟩ : ∃ m, n=m+1 := ⟨n-1,by have hp := h.pos; omega⟩
    have hleft := h.left
    have hidx := h.idx
    have htcR := h.tcR
    have hbusy : r.st ≠ .idle := by
      rw [h.st]
      decide
    have hstep := step_lvlPre (i := i) h.st h.done
    by_cases hpos : r.bitPos < i.bitLen
    · have hA := tryLevel_reads r.t1R hlen hpos (show r.idx<16 by omega) h.range
      rw [h.t1R] at hA
      cases hr : readLevel r.suffixLength (r.firstNonT1 && decide (t1<3)) (window i r.bitPos) with
      | error e =>
        rw [hr] at hA
        rw [readLevels_succ,hr]
        cases e with
        | longPrefix => trivial
        | invalid =>
          refine Yields.failing hbusy h.done ?_
          rw [hstep,lvlPre,if_neg (by omega),h.t1R,hA]
      | ok p =>
        obtain ⟨la,restA⟩ := p
        rw [hr] at hA
        obtain ⟨a,htakenA,rfl,hslA,hendA,rfl⟩ := hA
        have hrangeA : SuffixRange false a.sl :=
          hslA ▸ suffixRange_next (suffixRange_le_six h.range) a.level
        have hwrapA : (r.bitPos+a.cons)%1024=r.bitPos+a.cons := Nat.mod_eq_of_lt (by omega)
        have hnow : LevelsAt { r with level := r.level } tc t1 levels := h.toLevelsAt
        have hstoreA := hnow.store (show levels.length<16 by omega) a.level
        have hlenA : (levels ++ [a.level]).length=levels.length+1 := by
          rw [length_append,length_singleton]
        rw [readLevels_succ,hr,ok_bind]
        dsimp only
        rw [← hslA]
        refine (tryNext_yields hlen htc htcR (show r.idx+1+m=tc by omega) hrangeA ?_ ?_).cons
        · intro hshort
          refine storeLevels_yields (k := 1) hbusy ?_ hstoreA htc (by omega) (by omega) hrangeA hendA
            (ih m (by omega))
          rw [hstep,lvlPre,if_neg (by omega),h.t1R,htakenA]
          dsimp only
          rw [hwrapA,hshort,hidx]
        · intro b mb hmb htakenB hrangeB hendB
          have hstoreB := hstoreA.store (show (levels ++ [a.level]).length<16 by omega) b.level
          have hwrapB : (r.bitPos+a.cons+b.cons)%1024=r.bitPos+a.cons+b.cons :=
            Nat.mod_eq_of_lt (by omega)
          have hlenB : (levels ++ [a.level] ++ [b.level]).length=levels.length+2 := by
            rw [length_append,length_singleton,hlenA]
          refine tryNext_yields hlen htc htcR (show r.idx+2+mb=tc by omega) hrangeB ?_ ?_
          · intro hshort
            refine storeLevels_yields (k := 2) hbusy ?_ hstoreB htc (by omega) (by omega) hrangeB hendB
              (ih mb (by omega))
            rw [hstep,lvlPre,if_neg (by omega),h.t1R,htakenA]
            dsimp only
            rw [hwrapA,htakenB]
            dsimp only
            rw [hwrapB,hshort,hlenA,hidx]
          · intro c mc hmc htakenC hrangeC hendC
            have hstoreC := hstoreB.store
              (show (levels ++ [a.level] ++ [b.level]).length<16 by omega) c.level
            have hlenC : (levels ++ [a.level] ++ [b.level] ++ [c.level]).length =
                levels.length+3 := by
              rw [length_append,length_singleton,hlenB]
            have hwrapC : (r.bitPos+a.cons+b.cons+c.cons)%1024 =
                r.bitPos+a.cons+b.cons+c.cons := Nat.mod_eq_of_lt (by omega)
            refine storeLevels_yields (k := 3) hbusy ?_ hstoreC htc (by omega) (by omega) hrangeC hendC
              (ih mc (by omega))
            rw [hstep,lvlPre,if_neg (by omega),h.t1R,htakenA]
            dsimp only
            rw [hwrapA,htakenB]
            dsimp only
            rw [hwrapB,htakenC]
            dsimp only
            rw [hwrapC,hlenA,hlenB,hidx]
    · have hnil : readLevel r.suffixLength (r.firstNonT1 && decide (t1<3)) (window i r.bitPos) =
          .error .invalid := by
        rw [window_eq_nil (by omega)]
        rfl
      rw [readLevels_succ,hnil]
      refine Yields.failing hbusy h.done ?_
      rw [hstep,lvlPre,if_pos (by omega)]

end Misterplex.Cavlc.Engine
