import Misterplex.Header.SliceDelivery
import Misterplex.Header.PpsParser

/-!
# The header parsers come to rest

Every state of a header parser reads a bit of the buffer, fails at its end, or
goes on to a state that is nearer to the next bit. A walk over any bytes ends.
-/

namespace Misterplex.Header

open BitString BitGrammar Cavlc Emulation ParserText

namespace Walk

variable {σ : Type} {w : Walk σ}

/-- Bits of the buffer from the position on. -/
def left (w : Walk σ) : ℕ := 8*(w.mem.length-w.bbyte)+w.bpos

theorem left_advance (h : w.oob=false) : w.advance.left+1=w.left := by
  have hin : w.bbyte<w.mem.length := by
    rw [oob,decide_eq_false_iff_not] at h
    omega
  unfold advance left
  by_cases hzero : w.bpos=0
  · rw [if_pos hzero]
    dsimp only
    omega
  · rw [if_neg hzero]
    dsimp only
    omega

/-- Clocks a state may be away from the next bit, by the distances of the own states. -/
def away (distance : σ → ℕ) (w : Walk σ) : ℕ :=
  match w.st with
  | .getBits | .ueZ => 3
  | .ueV => 7
  | .own s => distance s

/-- A walk has used up bits, or come nearer to the next one. -/
def Nears (distance : σ → ℕ) (w w' : Walk σ) : Prop :=
  w'.left=w.left ∧ w'.away distance<w.away distance ∨ w'.left<w.left

theorem nears_read {distance : σ → ℕ} {w' : Walk σ} (hoob : w.oob=false)
    (hleft : w'.left=w.advance.left) : w.Nears distance w' := by
  have hread := left_advance hoob
  exact Or.inr (by omega)

end Walk

/-- The states of a parser, ordered up to the next bit that is read. -/
structure Ordered {σ ρ : Type} (T : ParserText σ ρ) where
  idle : σ
  /-- Clocks to the next bit. -/
  distance : σ → ℕ
  /-- No state is at the end but a parser that stands still. -/
  distance_pos : ∀ s, 0<distance s
  distance_le : ∀ s, distance s≤6
  /-- An error ends a walk. -/
  fails : distance T.fail≤2
  nears : ∀ (s : σ) (p : Parser σ ρ), p.walk.st = .own s → s≠idle → p.walk.Nears distance (T.own s p).walk
  calms : ∀ p : Parser σ ρ, p.walk.st = .own idle → Still T.step (T.step p)

namespace Ordered

variable {σ ρ : Type} {T : ParserText σ ρ}

variable (O : Ordered T)

theorem away_le (w : Walk σ) : w.away O.distance≤7 := by
  rw [Walk.away]
  cases w.st with
  | getBits => exact (by decide : 3≤7)
  | ueZ => exact (by decide : 3≤7)
  | ueV => exact Nat.le_refl 7
  | own s => exact Nat.le_succ_of_le (O.distance_le s)

theorem away_pos (w : Walk σ) : 0<w.away O.distance := by
  rw [Walk.away]
  cases w.st with
  | own s => exact O.distance_pos s
  | _ => exact Nat.succ_pos _

theorem nears_step {w : Walk σ} (hst : ∀ s, w.st ≠ .own s) :
    w.Nears O.distance (w.step T.maxZeros T.fail) := by
  have hfails : ∀ n, w.away O.distance=3 →
      ({ w with st := .own T.fail, nleft := n } : Walk σ).away O.distance<w.away O.distance := by
    intro n haway
    have hend := O.fails
    rw [haway]
    exact Nat.lt_succ_of_le hend
  rw [Walk.step]
  cases hcase : w.st with
  | own s => exact absurd hcase (hst s)
  | ueV =>
    refine Or.inl ⟨rfl,?_⟩
    have haway : w.away O.distance=7 := by rw [Walk.away,hcase]
    rw [haway]
    exact Nat.lt_succ_of_le (O.distance_le w.ueCont)
  | getBits =>
    have haway : w.away O.distance=3 := by rw [Walk.away,hcase]
    dsimp only
    cases hoob : w.oob with
    | true =>
      exact Or.inl ⟨rfl,hfails w.nleft haway⟩
    | false =>
      rw [if_neg Bool.false_ne_true]
      split
      · exact Walk.nears_read hoob rfl
      · exact Walk.nears_read hoob rfl
  | ueZ =>
    have haway : w.away O.distance=3 := by rw [Walk.away,hcase]
    dsimp only
    cases hoob : w.oob with
    | true =>
      exact Or.inl ⟨rfl,hfails w.nleft haway⟩
    | false =>
      rw [if_neg Bool.false_ne_true]
      split
      · split
        · exact Or.inl ⟨rfl,hfails w.nleft haway⟩
        · exact Walk.nears_read hoob rfl
      · split
        · exact Walk.nears_read hoob rfl
        · exact Walk.nears_read hoob rfl

theorem nears_clock {p : Parser σ ρ} (hbusy : p.walk.st ≠ .own O.idle) :
    p.walk.Nears O.distance (T.step p).walk := by
  rw [step]
  split
  · rename_i s hst
    exact O.nears s ⟨p.walk,T.tick p.regs⟩ hst fun hs => hbusy (hs ▸ hst)
  · rename_i hst
    exact O.nears_step hst

variable [DecidableEq σ] [DecidableEq ρ]

/-- Bound on the clocks until a parser stands still. -/
def rank (p : Parser σ ρ) : ℕ :=
  if Still T.step p then 0 else 8*p.walk.left+p.walk.away O.distance

/-- A parser comes to stand still. -/
def settling : Settling T.step where
  rank := O.rank
  falls p hmoves := by
    have hbelow : ∀ q : Parser σ ρ, O.rank q≤8*q.walk.left+q.walk.away O.distance := by
      intro q
      rw [rank]
      split
      · exact Nat.zero_le _
      · exact Nat.le_refl _
    have hhere : O.rank p=8*p.walk.left+p.walk.away O.distance := if_neg hmoves
    rw [hhere]
    by_cases hidle : p.walk.st = .own O.idle
    · have hzero : O.rank (T.step p)=0 := if_pos (O.calms p hidle)
      have hpos := O.away_pos p.walk
      omega
    · have hnext := hbelow (T.step p)
      have hsmall := O.away_le (T.step p).walk
      rcases O.nears_clock hidle with ⟨hleft,haway⟩ | hleft
      · omega
      · omega

end Ordered

/-- Clocks of a sequence parameter set to the next bit. -/
def SpsSt.distance : SpsSt → ℕ
  | .idle => 1
  | .finish | .fail => 2
  | _ => 4

/-- Clocks of a picture parameter set to the next bit. -/
def PpsSt.distance : PpsSt → ℕ
  | .idle => 1
  | .done | .fail => 2
  | _ => 4

/-- Clocks of a slice to the next bit. -/
def SliceSt.distance : SliceSt → ℕ
  | .idle => 1
  | .done | .fail => 2
  | .place => 3
  | .i4mode | .tokBit | .signs | .lvlPre | .tzBit | .runBit => 4
  | .lvlSuf => 6
  | _ => 5

theorem nears_own {σ : Type} {distance : σ → ℕ} {s : σ} {w w' : Walk σ} (hst : w.st = .own s)
    (hleft : w'.left=w.left) (haway : w'.away distance<distance s) : w.Nears distance w' := by
  refine Or.inl ⟨hleft,?_⟩
  rw [Walk.away.eq_def (w := w),hst]
  exact haway

/-- The parser of sequence parameter sets comes to rest. -/
def spsOrdered : Ordered spsText where
  idle := .idle
  distance := SpsSt.distance
  distance_pos s := by cases s <;> decide
  distance_le s := by cases s <;> decide
  fails := Nat.le_refl 2
  nears s p hst hbusy := by
    show p.walk.Nears SpsSt.distance (spsOwn s p).walk
    cases s with
    | idle => exact absurd rfl hbusy
    | spsId =>
      rw [spsOwn]
      split
      · exact nears_own hst rfl (by decide : 2<4)
      · exact nears_own hst rfl (by decide : 3<4)
    | poc =>
      rw [spsOwn]
      split
      · exact nears_own hst rfl (by decide : 3<4)
      · split
        · exact nears_own hst rfl (by decide : 2<4)
        · exact nears_own hst rfl (by decide : 3<4)
    | fmo =>
      rw [spsOwn]
      split
      · exact nears_own hst rfl (by decide : 3<4)
      · exact nears_own hst rfl (by decide : 3<4)
    | crop =>
      rw [spsOwn]
      split
      · exact nears_own hst rfl (by decide : 3<4)
      · exact nears_own hst rfl (by decide : 2<4)
    | cb => exact nears_own hst rfl (by decide : 2<4)
    | finish => exact nears_own hst rfl (by decide : 1<2)
    | fail => exact nears_own hst rfl (by decide : 1<2)
    | _ => exact nears_own hst rfl (by decide : 3<4)
  calms p hst := by
    have hstep : spsText.step p=spsOwn .idle p := step_own hst rfl
    have hagain := step_own (T := spsText) (p := spsOwn .idle p) hst rfl
    rw [Still,hstep]
    exact hagain

/-- The parser of picture parameter sets comes to rest. -/
def ppsOrdered : Ordered ppsText where
  idle := .idle
  distance := PpsSt.distance
  distance_pos s := by cases s <;> decide
  distance_le s := by cases s <;> decide
  fails := Nat.le_refl 2
  nears s p hst hbusy := by
    show p.walk.Nears PpsSt.distance (ppsOwn s p).walk
    cases s with
    | idle => exact absurd rfl hbusy
    | sg =>
      rw [ppsOwn]
      split
      · exact nears_own hst rfl (by decide : 2<4)
      · exact nears_own hst rfl (by decide : 3<4)
    | red => exact nears_own hst rfl (by decide : 2<4)
    | done => exact nears_own hst rfl (by decide : 1<2)
    | fail => exact nears_own hst rfl (by decide : 1<2)
    | _ => exact nears_own hst rfl (by decide : 3<4)
  calms p hst := by
    have hstep : ppsText.step p=ppsOwn .idle p := step_own hst rfl
    have hagain := step_own (T := ppsText) (p := ppsOwn .idle p) hst rfl
    rw [Still,hstep]
    exact hagain

theorem nears_headerOwn {s : SliceSt} {p : SliceParser} (hst : p.walk.st = .own s)
    (hpart : s.part = .header) : p.walk.Nears SliceSt.distance (headerOwn s p).walk := by
  have hmarking : p.toMarking.walk.left=p.walk.left ∧ p.toMarking.walk.away SliceSt.distance=3 := by
    rw [SliceParser.toMarking]
    split <;> exact ⟨rfl,rfl⟩
  cases s with
  | fn =>
    simp only [headerOwn]
    split_ifs
    · exact nears_own hst rfl (by decide : 3<5)
    · exact nears_own hst rfl (by decide : 3<5)
    · rw [SliceParser.toMarking]
      split <;> exact nears_own hst rfl (by decide : 3<5)
  | refidxFlag =>
    simp only [headerOwn]
    split_ifs
    · exact nears_own hst rfl (by decide : 3<5)
    · exact nears_own hst hmarking.1 (hmarking.2 ▸ (by decide : 3<5))
  | refidxL0 => exact nears_own hst hmarking.1 (hmarking.2 ▸ (by decide : 3<5))
  | nidrRefmark =>
    simp only [headerOwn]
    split_ifs
    · exact nears_own hst rfl (by decide : 2<5)
    · exact nears_own hst rfl (by decide : 3<5)
  | qpd =>
    simp only [headerOwn]
    split_ifs <;> exact nears_own hst rfl (by decide : 3<5)
  | didc =>
    simp only [headerOwn]
    split_ifs <;> exact nears_own hst rfl (by decide : 3<5)
  | first => exact nears_own hst rfl (by decide : 3<5)
  | type => exact nears_own hst rfl (by decide : 3<5)
  | pps => exact nears_own hst rfl (by decide : 3<5)
  | idr => exact nears_own hst rfl (by decide : 3<5)
  | refmark => exact nears_own hst rfl (by decide : 3<5)
  | alpha => exact nears_own hst rfl (by decide : 3<5)
  | beta => exact nears_own hst rfl (by decide : 3<5)
  | _ => cases hpart

theorem nears_mbOwn {s : SliceSt} {p : SliceParser} (hst : p.walk.st = .own s)
    (hpart : s.part = .macroblock) : p.walk.Nears SliceSt.distance (mbOwn s p).walk := by
  cases s with
  | mbt =>
    simp only [mbOwn,mbtOwn]
    split_ifs
    · exact nears_own hst rfl (by decide : 2<5)
    · exact nears_own hst rfl (by decide : 3<5)
    · exact nears_own hst rfl (by decide : 3<5)
    · exact nears_own hst rfl (by decide : 4<5)
    · exact nears_own hst rfl (by decide : 2<5)
  | pMbt => exact nears_own hst rfl (by decide : 2<5)
  | i4mode =>
    have hmode : ∀ r, (nextMode p.walk.advance r).walk.left=p.walk.advance.left := by
      intro r
      rw [nextMode]
      split <;> rfl
    simp only [mbOwn,i4modeOwn]
    cases hoob : p.walk.oob with
    | true => exact nears_own hst rfl (by decide : 2<4)
    | false =>
      rw [if_neg Bool.false_ne_true]
      split_ifs
      · exact Walk.nears_read hoob (hmode _)
      · exact Walk.nears_read hoob rfl
      · exact Walk.nears_read hoob (hmode _)
      · exact Walk.nears_read hoob rfl
  | chrpred =>
    simp only [mbOwn]
    split_ifs <;> exact nears_own hst rfl (by decide : 3<5)
  | cbp =>
    simp only [mbOwn]
    split_ifs
    · exact nears_own hst rfl (by decide : 4<5)
    · exact nears_own hst rfl (by decide : 3<5)
  | mbqp => exact nears_own hst rfl (by decide : 4<5)
  | _ => cases hpart

theorem nears_residualOwn {s : SliceSt} {p : SliceParser} (hst : p.walk.st = .own s)
    (hpart : s.part = .residual) : p.walk.Nears SliceSt.distance (residualOwn s p).walk := by
  cases s with
  | tokBit =>
    simp only [residualOwn,tokBitOwn]
    cases hoob : p.walk.oob with
    | true => exact nears_own hst rfl (by decide : 2<4)
    | false => exact Walk.nears_read hoob rfl
  | tokChk =>
    simp only [residualOwn,tokChkOwn]
    split
    · split_ifs
      · exact nears_own hst rfl (by decide : 2<5)
      · exact nears_own hst rfl (by decide : 4<5)
      · exact nears_own hst rfl (by decide : 4<5)
    · split_ifs
      · exact nears_own hst rfl (by decide : 2<5)
      · exact nears_own hst rfl (by decide : 4<5)
  | signs =>
    simp only [residualOwn,signsOwn]
    cases hoob : p.walk.oob with
    | true => exact nears_own hst rfl (by decide : 2<4)
    | false =>
      rw [if_neg Bool.false_ne_true]
      split_ifs <;> exact Walk.nears_read hoob rfl
  | lvlPre =>
    simp only [residualOwn,lvlPreOwn]
    cases hoob : p.walk.oob with
    | true => exact nears_own hst rfl (by decide : 2<4)
    | false =>
      rw [if_neg Bool.false_ne_true]
      split_ifs
      · exact nears_own hst rfl (by decide : 2<4)
      · exact Walk.nears_read hoob rfl
      · exact Walk.nears_read hoob rfl
      · exact Walk.nears_read hoob rfl
  | lvlSuf => exact nears_own hst rfl (by decide : 5<6)
  | lvlNxt =>
    simp only [residualOwn,lvlNxtOwn]
    split_ifs <;> exact nears_own hst rfl (by decide : 4<5)
  | tzBit =>
    simp only [residualOwn,tzBitOwn]
    split_ifs with hfull hoob
    · exact nears_own hst rfl (by decide : 3<4)
    · exact nears_own hst rfl (by decide : 2<4)
    · exact Walk.nears_read (Bool.eq_false_iff.mpr hoob) rfl
  | tzChk =>
    simp only [residualOwn,tzChkOwn]
    split
    · split_ifs
      · exact nears_own hst rfl (by decide : 3<5)
      · exact nears_own hst rfl (by decide : 3<5)
      · exact nears_own hst rfl (by decide : 4<5)
    · split_ifs
      · exact nears_own hst rfl (by decide : 2<5)
      · exact nears_own hst rfl (by decide : 4<5)
  | runBit =>
    simp only [residualOwn,runBitOwn]
    cases hoob : p.walk.oob with
    | true => exact nears_own hst rfl (by decide : 2<4)
    | false =>
      rw [if_neg Bool.false_ne_true]
      split_ifs
      · exact nears_own hst rfl (by decide : 3<4)
      · exact nears_own hst rfl (by decide : 3<4)
      · exact Walk.nears_read hoob rfl
  | runChk =>
    simp only [residualOwn,runChkOwn]
    split
    · split_ifs
      · exact nears_own hst rfl (by decide : 3<5)
      · exact nears_own hst rfl (by decide : 3<5)
      · exact nears_own hst rfl (by decide : 4<5)
    · split_ifs
      · exact nears_own hst rfl (by decide : 2<5)
      · exact nears_own hst rfl (by decide : 4<5)
  | place => exact nears_own hst rfl (by decide : 2<3)
  | _ => cases hpart

/-- The parser of slices comes to rest. -/
def sliceOrdered : Ordered sliceText where
  idle := .idle
  distance := SliceSt.distance
  distance_pos s := by cases s <;> decide
  distance_le s := by cases s <;> decide
  fails := Nat.le_refl 2
  nears s p hst hbusy := by
    show p.walk.Nears SliceSt.distance (sliceOwn s p).walk
    rw [sliceOwn]
    split
    · rename_i hpart
      exact nears_headerOwn hst hpart
    · rename_i hpart
      exact nears_mbOwn hst hpart
    · rename_i hpart
      exact nears_residualOwn hst hpart
    · rename_i hpart
      have hends : s.distance=2 := by
        cases s with
        | idle => exact absurd rfl hbusy
        | done => rfl
        | fail => rfl
        | _ => cases hpart
      split <;> exact nears_own hst rfl (hends ▸ (by decide : 1<2))
  calms p hst := by
    have hstep := sliceStep_idle hst
    have hagain := sliceStep_idle (p := sliceOwn .idle ⟨p.walk,sliceTick p.regs⟩) rfl
    rw [Still,hstep]
    exact hagain

end Misterplex.Header
