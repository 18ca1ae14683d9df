import Mathlib.Tactic.Basic
import Mathlib.Order.MinMax

/-!
# Motion vector prediction

The prediction circuit for the partitions of a macroblock beside the rule of
ITU-T H.264 8.4.1.3 for a single reference frame: C gives way to D when it is not
available, 16x8 and 8x16 partitions prefer one neighbour, and the others take the only
neighbour there is or the median.
-/

namespace Misterplex.Inter

open BitVec

/-- A motion vector. -/
@[ext] structure Mv where
  /-- Quarter samples. -/
  (x y : ℤ)
  deriving DecidableEq, Repr

/-- A neighbouring partition; an available one refers to the single reference frame. -/
structure Neighbour where
  avail : Bool
  mv : Mv
  deriving DecidableEq, Repr

/-- How a macroblock is partitioned. -/
inductive Shape where
  | p16x16
  /-- An upper and a lower partition. -/
  | p16x8
  /-- A left and a right partition. -/
  | p8x16
  | p8x8
  /-- Partitions of an 8x8 partition. -/
  | sub
  deriving DecidableEq, Repr

/-- The vector that takes part in a median: zero for a partition that is not available. -/
def Neighbour.vec (n : Neighbour) : Mv := if n.avail then n.mv else ⟨0,0⟩

/-- C, or D when C is not available. -/
def replaceC (c d : Neighbour) : Neighbour := if c.avail then c else d

/-- Median of three integers. -/
def median (a b c : ℤ) : ℤ := max (min a b) (min (max a b) c)

/-- Median of three vectors, component by component. -/
def medianMv (a b c : Mv) : Mv := ⟨median a.x b.x c.x,median a.y b.y c.y⟩

/-- 8.4.1.3.1: A stands for B and C when both are not available; then a neighbour that is the
only one with the reference frame gives its vector, and the median decides otherwise. -/
def medianPrediction (a b c : Neighbour) : Mv :=
  let b' := if !b.avail && !c.avail && a.avail then a else b
  let c' := if !b.avail && !c.avail && a.avail then a else c
  match [a,b',c'].filter Neighbour.avail with
  | [n] => n.mv
  | _ => medianMv a.vec b'.vec c'.vec

/-- The neighbour that a partition of a 16x8 or 8x16 macroblock prefers. -/
def preferred (s : Shape) (idx : ℕ) (a b c : Neighbour) : Option Neighbour :=
  match s,idx with
  | .p16x8,0 => some b
  | .p16x8,1 => some a
  | .p8x16,0 => some a
  | .p8x16,1 => some c
  | _,_ => none

/-- 8.4.1.3: the prediction for a partition. -/
def mvPrediction (s : Shape) (idx : ℕ) (a b c d : Neighbour) : Mv :=
  match preferred s idx a b (replaceC c d) with
  | some n => if n.avail then n.mv else medianPrediction a b (replaceC c d)
  | none => medianPrediction a b (replaceC c d)

/-- 8.4.1.1: a skipped macroblock does not move when it lacks a neighbour or one rests. -/
def skipRests (a b : Neighbour) : Bool :=
  !a.avail || !b.avail || a.mv == ⟨0,0⟩ || b.mv == ⟨0,0⟩

/-- A signed wire pair. -/
structure MvWires where
  /-- Quarter samples. -/
  (x y : BitVec 16)
  deriving DecidableEq, Repr

/-- The vector on a wire pair. -/
def MvWires.value (w : MvWires) : Mv := ⟨w.x.toInt,w.y.toInt⟩

/-- Input ports of h264_mv_pred_part besides part_mode. -/
structure MvPorts where
  partIdx : BitVec 2
  /-- Which neighbours there are. -/
  (availA availB availC availD : Bool)
  /-- Their vectors. -/
  (mvA mvB mvC mvD : MvWires)
  pSkip : Bool
  deriving DecidableEq, Repr

/-- The smaller of two vector components, signed. -/
def min2 (a b : BitVec 16) : BitVec 16 := if a.slt b then a else b

/-- The larger of two vector components, signed. -/
def max2 (a b : BitVec 16) : BitVec 16 := if b.slt a then a else b

/-- The median of three, as the sum less both extremes. -/
def median3 (a b c : BitVec 16) : BitVec 16 :=
  a+b+c-min2 (min2 a b) c-max2 (max2 a b) c

/-- The value of part_mode for a shape. -/
def Shape.partMode : Shape → BitVec 3
  | .p16x16 => 0
  | .p16x8 => 1
  | .p8x16 => 2
  | .p8x8 => 3
  | .sub => 4

namespace MvPorts

variable (p : MvPorts)

/-- C is available or D takes its place. -/
def useC : Bool := p.availC || p.availD

/-- cand_c_x and cand_c_y. -/
def candC : MvWires := if p.availC then p.mvC else if p.availD then p.mvD else ⟨0,0⟩

/-- The neighbours that are available. -/
def availCount : BitVec 2 :=
  (BitVec.ofBool p.availA).setWidth 2+(BitVec.ofBool p.availB).setWidth 2 +
    (BitVec.ofBool p.useC).setWidth 2

/-- The predicted component from the three neighbours. -/
def predOne (a b c : BitVec 16) : BitVec 16 :=
  if p.availCount = 0 then 0
  else if p.availCount = 1 then if p.availA then a else if p.availB then b else c
  else median3 (if p.availA then a else 0) (if p.availB then b else 0) (if p.useC then c else 0)

/-- The prediction of h264_mv_pred_16x16 without p_skip. -/
def medianPred : MvWires :=
  ⟨p.predOne p.mvA.x p.mvB.x p.candC.x,p.predOne p.mvA.y p.mvB.y p.candC.y⟩

/-- A skipped macroblock has the zero vector. -/
def skipZero : Bool :=
  p.pSkip && (!p.availA || !p.availB || (p.mvA.x == 0 && p.mvA.y == 0) ||
    (p.mvB.x == 0 && p.mvB.y == 0))

/-- pred_x and pred_y of h264_mv_pred_part. -/
def pred (partMode : BitVec 3) : MvWires :=
  if p.skipZero then ⟨0,0⟩
  else if partMode == 1 && p.partIdx == 0 && p.availB then p.mvB
  else if partMode == 1 && p.partIdx == 1 && p.availA then p.mvA
  else if partMode == 2 && p.partIdx == 0 && p.availA then p.mvA
  else if partMode == 2 && p.partIdx == 1 && p.availC then p.mvC
  else p.medianPred

/-- Neighbour A on the ports. -/
def a : Neighbour := ⟨p.availA,p.mvA.value⟩

/-- Neighbour B on the ports. -/
def b : Neighbour := ⟨p.availB,p.mvB.value⟩

/-- Neighbour C on the ports. -/
def c : Neighbour := ⟨p.availC,p.mvC.value⟩

/-- Neighbour D on the ports. -/
def d : Neighbour := ⟨p.availD,p.mvD.value⟩

/-- What the standard predicts for the partition on the ports. -/
def expected (s : Shape) : Mv :=
  if p.pSkip && skipRests p.a p.b then ⟨0,0⟩
  else mvPrediction s p.partIdx.toNat p.a p.b p.c p.d

/-- A number lies between two others, in either order. -/
def between (v u w : ℤ) : Prop := min u w≤v ∧ v ≤ max u w

/-- The right partition of an 8x16 macroblock, with D in the place of C: the circuit takes the
median there, which is the vector of D when D is alone or lies between A and B. -/
def MedianIsD : Prop :=
  (p.availA=false ∧ p.availB=false) ∨
    (between p.mvD.value.x p.a.vec.x p.b.vec.x ∧ between p.mvD.value.y p.a.vec.y p.b.vec.y)

end MvPorts

theorem toInt_min2 (a b : BitVec 16) : (min2 a b).toInt=min a.toInt b.toInt := by
  rw [min2,slt_eq_decide]
  by_cases h : a.toInt<b.toInt
  · rw [if_pos (decide_eq_true h),min_eq_left h.le]
  · rw [if_neg (by simpa using h),min_eq_right (Int.not_lt.mp h)]

theorem toInt_max2 (a b : BitVec 16) : (max2 a b).toInt=max a.toInt b.toInt := by
  rw [max2,slt_eq_decide]
  by_cases h : b.toInt<a.toInt
  · rw [if_pos (decide_eq_true h),max_eq_left h.le]
  · rw [if_neg (by simpa using h),max_eq_right (Int.not_lt.mp h)]

theorem median_eq (a b c : ℤ) : median a b c=a+b+c-min (min a b) c-max (max a b) c := by
  rw [median]
  omega

theorem median_mem (a b c : ℤ) : median a b c=a ∨ median a b c=b ∨ median a b c=c := by
  rw [median]
  omega

theorem median_self (a : ℤ) : median a a a=a := by
  rw [median,max_self,min_self,max_self]

theorem median_eq_last (u w v : ℤ) : median u w v=v ↔ MvPorts.between v u w := by
  rw [median,MvPorts.between]
  omega

/-- The circuit computes the median of its wires: the sum wraps, its value does not. -/
theorem toInt_median3 (a b c : BitVec 16) :
    (median3 a b c).toInt=median a.toInt b.toInt c.toInt := by
  have hvalue : (median3 a b c).toInt=(median a.toInt b.toInt c.toInt).bmod (2^16) := by
    rw [median_eq,← toInt_min2,← toInt_min2,← toInt_max2,← toInt_max2]
    simp only [median3,toInt_sub,toInt_add,Int.bmod_add_bmod,
      Int.bmod_sub_bmod]
  have hrange : ∀ w : BitVec 16, w.toInt.bmod (2^16)=w.toInt := fun w => by
    rw [← toInt_ofInt,ofInt_toInt]
  rcases median_mem a.toInt b.toInt c.toInt with h | h | h
  · rw [hvalue,h,hrange]
  · rw [hvalue,h,hrange]
  · rw [hvalue,h,hrange]

namespace MvPorts

variable (p : MvPorts)

theorem value_eq_zero (w : MvWires) : (w.x == 0 && w.y == 0)=(w.value == ⟨0,0⟩) := by
  have hzero : ∀ v : BitVec 16, v=0 ↔ v.toInt=0 := fun v => by
    rw [← toInt_inj]
    rfl
  rw [Bool.eq_iff_iff,Bool.and_eq_true,beq_iff_eq,beq_iff_eq,beq_iff_eq,hzero,hzero,
    MvWires.value,Mv.mk.injEq]

theorem skipZero_eq : p.skipZero=(p.pSkip && skipRests p.a p.b) := by
  rw [skipZero,value_eq_zero,value_eq_zero]
  rfl

theorem replaceC_eq : replaceC p.c p.d = if p.availC then p.c else p.d := rfl

theorem value_medianPred :
    p.medianPred.value=medianPrediction p.a p.b (replaceC p.c p.d) := by
  rw [replaceC_eq]
  cases ha : p.availA <;> cases hb : p.availB <;> cases hc : p.availC <;> cases hd : p.availD <;>
    simp [medianPred,predOne,availCount,useC,candC,MvWires.value,medianPrediction,medianMv,
      Neighbour.vec,a,b,c,d,ha,hb,hc,hd,toInt_median3,median_self]

/-- Where the circuit does not take the median, the rule does not either, and they agree. -/
theorem pred_value (s : Shape) : (p.pred s.partMode).value =
    if p.pSkip && skipRests p.a p.b then ⟨0,0⟩
    else match preferred s p.partIdx.toNat p.a p.b p.c with
      | some n => if n.avail then n.mv else medianPrediction p.a p.b (replaceC p.c p.d)
      | none => medianPrediction p.a p.b (replaceC p.c p.d) := by
  have hidx : p.partIdx=0 ∨ p.partIdx=1 ∨ p.partIdx=2 ∨ p.partIdx=3 := by
    revert p
    have hall : ∀ i : BitVec 2, i=0 ∨ i=1 ∨ i=2 ∨ i=3 := by decide
    exact fun p => hall p.partIdx
  rw [← p.skipZero_eq,← p.value_medianPred]
  cases hskip : p.skipZero with
  | true =>
    simp [pred,hskip]
    rfl
  | false =>
    rcases hidx with h | h | h | h <;> cases s <;> cases ha : p.availA <;> cases hb : p.availB <;>
      cases hc : p.availC <;>
      simp [pred,hskip,Shape.partMode,h,preferred,a,b,c,ha,hb,hc]

theorem preferred_c {s : Shape} (idx : BitVec 2) (a b c c' : Neighbour)
    (h : ¬(s = .p8x16 ∧ idx=1)) : preferred s idx.toNat a b c=preferred s idx.toNat a b c' := by
  cases s with
  | p8x16 =>
    have hne : idx.toNat≠1 := fun hone => h ⟨rfl,eq_of_toNat_eq hone⟩
    match hn : idx.toNat with
    | 0 => rfl
    | 1 => exact absurd hn hne
    | n+2 => rfl
  | p16x8 =>
    match idx.toNat with
    | 0 => rfl
    | 1 => rfl
    | n+2 => rfl
  | p16x16 => rfl
  | p8x8 => rfl
  | sub => rfl

theorem medianPrediction_eq_d (hd : p.availD=true) :
    medianPrediction p.a p.b p.d=p.d.mv ↔ p.MedianIsD := by
  cases ha : p.availA <;> cases hb : p.availB <;>
    simp [medianPrediction,medianMv,Neighbour.vec,a,b,d,ha,hb,hd,MedianIsD,
      median_eq_last,Mv.ext_iff]

/-- **The circuit predicts as the standard does, except for the right partition of an 8x16
macroblock whose neighbour C is replaced by D**, where it agrees when the median is the
vector of D. -/
theorem pred_eq_expected_iff (s : Shape) : (p.pred s.partMode).value=p.expected s ↔
    (s = .p8x16 → p.partIdx=1 → p.availC=false → p.availD=true →
      (p.pSkip && skipRests p.a p.b)=false → p.MedianIsD) := by
  rw [pred_value,expected]
  cases hskip : p.pSkip && skipRests p.a p.b with
  | true => simp
  | false =>
    by_cases hright : s = .p8x16 ∧ p.partIdx=1
    · obtain ⟨hs,hidx⟩ := hright
      subst hs
      cases hc : p.availC with
      | true => simp [hidx,mvPrediction,preferred,replaceC,c,hc]
      | false =>
        cases hd : p.availD with
        | false => simp [hidx,mvPrediction,preferred,replaceC,c,d,hc,hd]
        | true =>
          have hmedian := p.medianPrediction_eq_d hd
          simp only [d,hd] at hmedian
          simp [hidx,mvPrediction,preferred,replaceC,c,d,hc,hd,hmedian]
    · constructor
      · intro _ hs hidx
        exact absurd ⟨hs,hidx⟩ hright
      · have hsame := preferred_c p.partIdx p.a p.b p.c (replaceC p.c p.d) hright
        simp [mvPrediction,hsame]

/-- The right partition of an 8x16 macroblock with A and D only: the circuit takes the median
of their vectors and zero, the standard takes the vector of D. -/
theorem not_pred_eq_expected_d :
    ¬ ∀ (p : MvPorts) (s : Shape), (p.pred s.partMode).value=p.expected s := by
  intro h
  have hwrong := h ⟨1,true,false,false,true,⟨4,0⟩,⟨0,0⟩,⟨0,0⟩,⟨8,0⟩,false⟩ .p8x16
  exact absurd hwrong (by decide)

end MvPorts

end Misterplex.Inter
