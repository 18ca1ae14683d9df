import Misterplex.Recon.IqIdct

/-!
# The edge filter

Four lines of eight samples cross an edge of two blocks. Two thresholds and the clipping
bound are looked up under the mean quantiser of both sides and the offsets of the slice. The
hardware computes in signed registers of 14 bits; the standard (ITU-T H.264, 8.7.2) in whole
numbers.
-/

namespace Misterplex.Deblock

open Recon.Rtl (signed Holds signed_of_holds)

/-- What decides how an edge is filtered. -/
structure Setting where
  isChroma : Bool
  bs : BitVec 3
  qpAvg : BitVec 6
  /-- Offsets of the slice. -/
  (sliceAlphaC0Offset sliceBetaOffset : BitVec 5)
  deriving DecidableEq, Repr

/-- The samples of one line, from the one that is farthest on the first side. -/
structure Line where
  /-- The samples across the edge. -/
  (p3 p2 p1 p0 q0 q1 q2 q3 : BitVec 8)
  deriving DecidableEq, Repr

/-- The samples of one line that the filter writes. -/
structure Filtered where
  /-- Those that the filter may change. -/
  (p2 p1 p0 q0 q1 q2 : BitVec 8)
  deriving DecidableEq, Repr

/-- What both sides of an edge are made of. -/
structure Sides where
  /-- What is known of the edge. -/
  (disableAll sliceBoundaryBlocked mbBoundary : Bool)
  /-- Intra macroblocks and coded blocks. -/
  (pIntra qIntra pNonzero qNonzero : Bool)
  /-- Reference pictures. -/
  (pRef qRef : BitVec 2)
  /-- Vectors. -/
  (pMvx pMvy qMvx qMvy : BitVec 12)

/-- The distance of two vector components, in 13 bits. -/
def absMv (p q : BitVec 12) : BitVec 13 :=
  let diff := p.signExtend 13-q.signExtend 13
  if diff.msb then ~~~diff+1#13 else diff

/-- The strength of an edge. -/
def boundaryStrength (s : Sides) : BitVec 3 :=
  if s.disableAll || s.sliceBoundaryBlocked then 0#3
  else if s.pIntra || s.qIntra then (if s.mbBoundary then 4#3 else 3#3)
  else if s.pNonzero || s.qNonzero then 2#3
  else if s.pRef ≠ s.qRef ∨ 4#13≤absMv s.pMvx s.qMvx ∨ 4#13 ≤ absMv s.pMvy s.qMvy then 1#3
  else 0#3

theorem boundaryStrength_le (s : Sides) : boundaryStrength s≤4#3 := by
  unfold boundaryStrength
  split_ifs <;> decide

/-- An index clipped to the tables. -/
def clipIndex (v : ℤ) : ℕ := if v < 0 then 0 else if 51 < v then 51 else v.toNat

/-- The rows of alpha_lut from index 16. -/
def alphaRows : List ℕ :=
  [4,4,5,6,7,8,9,10,12,13,15,17,20,22,25,28,32,36,40,45,50,56,63,71,80,90,
    101,113,127,144,162,182,203,226,255,255]

/-- The rows of beta_lut from index 16. -/
def betaRows : List ℕ :=
  [2,2,2,3,3,3,3,4,4,4,6,6,7,7,8,8,9,9,10,10,11,11,12,12,13,13,14,14,15,
    15,16,16,17,17,18,18]

/-- The rows of tc0 from index 16, for strengths one to three. -/
def tc0Rows : List (ℕ × ℕ × ℕ) :=
  [(0,0,0),(0,0,1),(0,0,1),(0,0,1),(0,0,1),(0,1,1),(0,1,1),(1,1,1),(1,1,1),
    (1,1,1),(1,1,1),(1,1,2),(1,1,2),(1,1,2),(1,1,2),(1,2,3),(1,2,3),(2,2,3),
    (2,2,4),(2,3,4),(2,3,4),(3,3,5),(3,4,6),(3,4,6),(4,5,7),(4,5,8),(4,6,9),
    (5,7,10),(6,8,11),(6,8,13),(7,10,14),(8,11,16),(9,12,18),(10,13,20),
    (11,15,23),(13,17,25)]

/-- A row of a table that starts with index 16. -/
def lut {α : Type*} (rows : List α) (default : α) (idx : ℕ) : α :=
  if idx < 16 then default else rows.getD (idx-16) default

/-- The alpha threshold of an index. -/
def alphaLut (idx : ℕ) : ℕ := lut alphaRows 0 idx

/-- The beta threshold of an index. -/
def betaLut (idx : ℕ) : ℕ := lut betaRows 0 idx

/-- The clipping bound of an index and a strength. -/
def tc0Lut (indexA : ℕ) (bs : BitVec 3) : ℕ :=
  match bs.toNat with
  | 1 => (lut tc0Rows (0,0,0) indexA).1
  | 2 => (lut tc0Rows (0,0,0) indexA).2.1
  | 3 => (lut tc0Rows (0,0,0) indexA).2.2
  | _ => 0

/-- The sum of a quantiser and an offset, in eight bits. -/
def indexOf (qpAvg : BitVec 6) (offset : BitVec 5) : ℕ :=
  clipIndex (signed 8 (qpAvg.toNat+offset.toInt))

namespace Setting

variable (e : Setting)

/-- The alpha threshold of the edge. -/
def alpha : ℕ := alphaLut (indexOf e.qpAvg e.sliceAlphaC0Offset)

/-- The beta threshold of the edge. -/
def beta : ℕ := betaLut (indexOf e.qpAvg e.sliceBetaOffset)

/-- The clipping bound of the edge. -/
def tc0 : ℕ := tc0Lut (indexOf e.qpAvg e.sliceAlphaC0Offset) e.bs

end Setting

/-- A fourteen-bit value clipped to a byte. -/
def clip8 (v : ℤ) : BitVec 8 :=
  if signed 14 v < 0 then 0#8 else if 255 < signed 14 v then 255#8 else BitVec.ofInt 8 v

/-- A value clipped to an interval. -/
def clipSigned (lo hi v : ℤ) : ℤ := if v < lo then lo else if hi < v then hi else v

/-- The distance of two samples. -/
def absdiff8 (a b : BitVec 8) : ℕ := if b ≤ a then a.toNat-b.toNat else b.toNat-a.toNat

/-- A signed sum of 14 bits, shifted to the right. -/
def shr (v : ℤ) (k : ℕ) : ℤ := signed 14 v >>> k

/-- A sum with a constant of 32 bits in it, shifted to the right. -/
def shrLong (v : ℤ) (k : ℕ) : ℤ := signed 32 v >>> k

namespace Setting

variable (e : Setting) (s : Line)

/-- The edge is filtered. -/
def filterOk : Prop :=
  e.bs≠0#3 ∧ absdiff8 s.p0 s.q0<e.alpha ∧ absdiff8 s.p1 s.p0<e.beta ∧
    absdiff8 s.q1 s.q0<e.beta

instance : Decidable (e.filterOk s) := inferInstanceAs (Decidable (_ ∧ _ ∧ _ ∧ _))

/-- The p side is smooth. -/
def ap : Prop := absdiff8 s.p2 s.p0<e.beta

instance : Decidable (e.ap s) := inferInstanceAs (Decidable (_ < _))

/-- The q side is smooth. -/
def aq : Prop := absdiff8 s.q2 s.q0<e.beta

instance : Decidable (e.aq s) := inferInstanceAs (Decidable (_ < _))

/-- The edge is flat enough for the strong filter. -/
def strongExtra : Prop := absdiff8 s.p0 s.q0<(e.alpha/4+2)%2^8

instance : Decidable (e.strongExtra s) := inferInstanceAs (Decidable (_ < _))

/-- The weak value of the strong filter next to the edge. -/
def weak (x1 x0 y1 : ℤ) : BitVec 8 := clip8 (shr (2*x1+x0+y1+2) 2)

/-- The strong filter of luma on one side where the samples of both sides are close: the samples at
distance two, one and none from the edge. -/
def strong (x3 x2 x1 x0 y0 y1 : ℤ) : BitVec 8 × BitVec 8 × BitVec 8 :=
  (clip8 (shrLong (2*x3+3*x2+x1+x0+y0+4) 3),clip8 (shr (x2+x1+x0+y0+2) 2),
    clip8 (shr (x2+2*x1+2*x0+2*y0+y1+4) 3))

/-- The change of the normal filter at distance one from the edge. -/
def adjusted (tc0 : ℕ) (x2 x1 p0 q0 : ℤ) : BitVec 8 :=
  clip8 (x1+clipSigned (-tc0) tc0 (shr (x2+shr (p0+q0+1) 1-2*x1) 1))

/-- One line of the edge. -/
def filterLine : Filtered :=
  let p3 : ℤ := s.p3.toNat
  let p2 : ℤ := s.p2.toNat
  let p1 : ℤ := s.p1.toNat
  let p0 : ℤ := s.p0.toNat
  let q0 : ℤ := s.q0.toNat
  let q1 : ℤ := s.q1.toNat
  let q2 : ℤ := s.q2.toNat
  let q3 : ℤ := s.q3.toNat
  if e.filterOk s ∧ e.bs = 4#3 then
    let extra := e.isChroma=false ∧ e.strongExtra s
    let pSide :=
      if extra ∧ e.ap s then strong p3 p2 p1 p0 q0 q1 else (s.p2,s.p1,weak p1 p0 q1)
    let qSide :=
      if extra ∧ e.aq s then strong q3 q2 q1 q0 p0 p1 else (s.q2,s.q1,weak q1 q0 p1)
    ⟨pSide.1,pSide.2.1,pSide.2.2,qSide.2.2,qSide.2.1,qSide.1⟩
  else if e.filterOk s then
    let tc : ℤ :=
      if e.isChroma then e.tc0+1
      else e.tc0+(if e.ap s then 1 else 0)+(if e.aq s then 1 else 0)
    let delta := clipSigned (-tc) tc (shr (4*(q0-p0)+(p1-q1)+4) 3)
    ⟨s.p2,if e.isChroma = false ∧ e.ap s then adjusted e.tc0 p2 p1 p0 q0 else s.p1,
      clip8 (p0+delta),clip8 (q0-delta),
      if e.isChroma = false ∧ e.aq s then adjusted e.tc0 q2 q1 p0 q0 else s.q1,s.q2⟩
  else ⟨s.p2,s.p1,s.p0,s.q0,s.q1,s.q2⟩

/-- The four lines of the edge. -/
def edge (lines : Fin 4 → Line) (i : Fin 4) : Filtered := e.filterLine (lines i)

end Setting

namespace Standard

/-- The standard's `Clip3`. -/
def clip3 (x y z : ℤ) : ℤ := if z < x then x else if y < z then y else z

/-- Clip1 of eight bits. -/
def clip1 (x : ℤ) : ℤ := clip3 0 255 x

/-- Table 8-16, the row of alpha. -/
def alphaTable : List ℤ :=
  [0,0,0,0,0,0,0,0,0,0,0,0,0,0,0,0,4,4,5,6,7,8,9,10,12,13,
    15,17,20,22,25,28,32,36,40,45,50,56,63,71,80,90,101,113,127,144,162,182,203,
    226,255,255]

/-- Table 8-16, the row of beta. -/
def betaTable : List ℤ :=
  [0,0,0,0,0,0,0,0,0,0,0,0,0,0,0,0,2,2,2,3,3,3,3,4,4,4,
    6,6,7,7,8,8,9,9,10,10,11,11,12,12,13,13,14,14,15,15,16,16,17,17,18,18]

/-- Table 8-17, the rows of the three strengths below four. -/
def tC0Table : ℕ → List ℤ
  | 1 => [0,0,0,0,0,0,0,0,0,0,0,0,0,0,0,0,0,0,0,0,0,0,0,1,1,1,
      1,1,1,1,1,1,1,2,2,2,2,3,3,3,4,4,4,5,6,6,7,8,9,10,11,13]
  | 2 => [0,0,0,0,0,0,0,0,0,0,0,0,0,0,0,0,0,0,0,0,0,1,1,1,1,1,
      1,1,1,1,1,2,2,2,2,3,3,3,4,4,5,5,6,7,8,8,10,11,12,13,15,17]
  | _ => [0,0,0,0,0,0,0,0,0,0,0,0,0,0,0,0,0,1,1,1,1,1,1,1,1,1,
      1,2,2,2,2,3,3,3,4,4,4,5,6,6,7,8,9,10,11,13,14,16,18,20,23,25]

/-- What decides how an edge is filtered. -/
structure Setting where
  /-- chromaStyleFilteringFlag. -/
  chroma : Bool
  bS : ℕ
  qPp : ℤ
  qPq : ℤ
  filterOffsetA : ℤ
  filterOffsetB : ℤ

namespace Setting

variable (e : Setting) (p q : ℕ → ℤ)

/-- The average quantiser of the two blocks. -/
def qPav : ℤ := (e.qPp+e.qPq+1)/2

/-- The index of alpha and tC0. -/
def indexA : ℤ := clip3 0 51 (e.qPav+e.filterOffsetA)

/-- The index of beta. -/
def indexB : ℤ := clip3 0 51 (e.qPav+e.filterOffsetB)

/-- The alpha threshold of the edge. -/
def alpha : ℤ := alphaTable.getD e.indexA.toNat 0

/-- The beta threshold of the edge. -/
def beta : ℤ := betaTable.getD e.indexB.toNat 0

/-- The clipping bound of the edge. -/
def tC0 : ℤ := (tC0Table e.bS).getD e.indexA.toNat 0

/-- filterSamplesFlag. -/
def filterSamples : Prop :=
  e.bS≠0 ∧ |p 0-q 0| < e.alpha ∧ |p 1-p 0| < e.beta ∧ |q 1-q 0| < e.beta

/-- The samples of a side are flat up to distance two. -/
def flat (x : ℕ → ℤ) : Prop := |x 2-x 0| < e.beta

instance : Decidable (e.filterSamples p q) := inferInstanceAs (Decidable (_ ∧ _ ∧ _ ∧ _))

instance : Decidable (e.flat p) := inferInstanceAs (Decidable (_ < _))

/-- The bound of the change next to the edge. -/
def tC : ℤ :=
  if e.chroma then e.tC0+1
  else e.tC0+(if e.flat p then 1 else 0)+(if e.flat q then 1 else 0)

/-- The change next to the edge. -/
def delta : ℤ :=
  clip3 (-e.tC p q) (e.tC p q) (((q 0-p 0)*4+(p 1-q 1)+4)/8)

/-- The sample at distance one of a side. -/
def normalInner (x : ℕ → ℤ) : ℤ :=
  if e.chroma = false ∧ e.flat x then
    x 1+clip3 (-e.tC0) e.tC0 ((x 2+(p 0+q 0+1)/2-x 1*2)/2)
  else x 1

/-- The samples of one side under the strong filter, where the other side is `y`. -/
def strong (x y : ℕ → ℤ) : ℕ → ℤ
  | 0 =>
    if e.chroma = false ∧ e.flat x ∧ |x 0-y 0| < e.alpha/4+2 then
      (x 2+2*x 1+2*x 0+2*y 0+y 1+4)/8
    else (2*x 1+x 0+y 1+2)/4
  | 1 =>
    if e.chroma = false ∧ e.flat x ∧ |x 0-y 0| < e.alpha/4+2 then
      (x 2+x 1+x 0+y 0+2)/4
    else x 1
  | 2 =>
    if e.chroma = false ∧ e.flat x ∧ |x 0-y 0| < e.alpha/4+2 then
      (2*x 3+3*x 2+x 1+x 0+y 0+4)/8
    else x 2
  | k => x k

/-- The samples of the first side under the normal filter. -/
def normalP : ℕ → ℤ
  | 0 => clip1 (p 0+e.delta p q)
  | 1 => e.normalInner p q p
  | k => p k

/-- The samples of the second side under the normal filter. -/
def normalQ : ℕ → ℤ
  | 0 => clip1 (q 0-e.delta p q)
  | 1 => e.normalInner p q q
  | k => q k

/-- The samples of the first side. -/
def pFiltered (k : ℕ) : ℤ :=
  if e.filterSamples p q then (if e.bS < 4 then e.normalP p q k else e.strong p q k) else p k

/-- The samples of the second side. -/
def qFiltered (k : ℕ) : ℤ :=
  if e.filterSamples p q then (if e.bS < 4 then e.normalQ p q k else e.strong q p k) else q k

end Setting

end Standard

/-- The setting of the standard for two quantisers. -/
def Setting.standard (e : Setting) (qpP qpQ : BitVec 6) : Standard.Setting where
  chroma := e.isChroma
  bS := e.bs.toNat
  qPp := qpP.toNat
  qPq := qpQ.toNat
  filterOffsetA := e.sliceAlphaC0Offset.toInt
  filterOffsetB := e.sliceBetaOffset.toInt

/-- The mean quantiser of both sides. -/
def meanQp (qpP qpQ : BitVec 6) : BitVec 6 := BitVec.ofNat 6 ((qpP.toNat+qpQ.toNat+1)/2)

theorem toNat_meanQp (qpP qpQ : BitVec 6) :
    ((meanQp qpP qpQ).toNat : ℤ)=((qpP.toNat : ℤ)+qpQ.toNat+1)/2 := by
  rw [meanQp,BitVec.toNat_ofNat]
  omega

theorem indexOf_eq (qpAvg : BitVec 6) (offset : BitVec 5) :
    indexOf qpAvg offset=(Standard.clip3 0 51 (qpAvg.toNat+offset.toInt)).toNat := by
  have hlow := BitVec.le_toInt offset
  have hhigh := BitVec.toInt_lt (x := offset)
  rw [indexOf,signed_of_holds (by norm_num) ⟨by omega,by omega⟩,
    clipIndex,Standard.clip3]
  split_ifs <;> simp

theorem indexOf_le (qpAvg : BitVec 6) (offset : BitVec 5) : indexOf qpAvg offset<52 := by
  rw [indexOf_eq,Standard.clip3]
  split_ifs <;> omega

theorem alphaLut_eq : ∀ i<52, (alphaLut i : ℤ)=Standard.alphaTable.getD i 0 := by decide

theorem betaLut_eq : ∀ i<52, (betaLut i : ℤ)=Standard.betaTable.getD i 0 := by decide

theorem tc0Lut_eq : ∀ i<52, ∀ bs : BitVec 3, 1#3≤bs → bs≤3#3 →
    (tc0Lut i bs : ℤ)=(Standard.tC0Table bs.toNat).getD i 0 := by
  decide

theorem alphaLut_lt : ∀ i<52, alphaLut i<256 := by decide

theorem tc0Lut_le : ∀ i<52, ∀ bs : BitVec 3, tc0Lut i bs≤25 := by decide

section LookUps

variable {e : Setting} {qpP qpQ : BitVec 6} (hqp : e.qpAvg=meanQp qpP qpQ)

include hqp

theorem Setting.indexA_eq :
    indexOf e.qpAvg e.sliceAlphaC0Offset=(e.standard qpP qpQ).indexA.toNat := by
  rw [indexOf_eq,hqp,toNat_meanQp]
  rfl

theorem Setting.indexB_eq :
    indexOf e.qpAvg e.sliceBetaOffset=(e.standard qpP qpQ).indexB.toNat := by
  rw [indexOf_eq,hqp,toNat_meanQp]
  rfl

theorem Setting.alpha_eq : (e.alpha : ℤ)=(e.standard qpP qpQ).alpha := by
  rw [alpha,alphaLut_eq _ (indexOf_le _ _),indexA_eq hqp]
  rfl

theorem Setting.beta_eq : (e.beta : ℤ)=(e.standard qpP qpQ).beta := by
  rw [beta,betaLut_eq _ (indexOf_le _ _),indexB_eq hqp]
  rfl

theorem Setting.tc0_eq (hlow : 1#3≤e.bs) (hhigh : e.bs≤3#3) :
    (e.tc0 : ℤ)=(e.standard qpP qpQ).tC0 := by
  rw [tc0,tc0Lut_eq _ (indexOf_le _ _) _ hlow hhigh,indexA_eq hqp]
  rfl

end LookUps

variable {v : ℤ}

theorem clip8_eq (h : Holds 14 v) : ((clip8 v).toNat : ℤ)=Standard.clip1 v := by
  rw [clip8,signed_of_holds (by norm_num) h,Standard.clip1,Standard.clip3]
  split_ifs with hneg hbig
  · rfl
  · rfl
  · rw [BitVec.toNat_ofInt]
    omega

theorem clip1_of_sample (hlow : 0≤v) (hhigh : v≤255) : Standard.clip1 v=v := by
  rw [Standard.clip1,Standard.clip3,if_neg (by omega),if_neg (by omega)]

theorem shr_eq (h : Holds 14 v) (k : ℕ) : shr v k=v/2^k := by
  rw [shr,signed_of_holds (by norm_num) h,Int.shiftRight_eq_div_pow]
  norm_num

theorem shrLong_eq (h : Holds 32 v) (k : ℕ) : shrLong v k=v/2^k := by
  rw [shrLong,signed_of_holds (by norm_num) h,Int.shiftRight_eq_div_pow]
  norm_num

theorem absdiff8_eq (a b : BitVec 8) : (absdiff8 a b : ℤ) = |(a.toNat : ℤ)-b.toNat| := by
  rw [absdiff8]
  by_cases hle : b≤a
  · rw [if_pos hle]
    rw [BitVec.le_def] at hle
    rw [abs_of_nonneg (by omega)]
    omega
  · rw [if_neg hle]
    rw [BitVec.le_def] at hle
    rw [abs_of_neg (by omega)]
    omega

theorem holds_14 (hlow : -8192≤v) (hhigh : v<8192) : Holds 14 v :=
  ⟨by exact hlow,by exact hhigh⟩

theorem clip8_shr {k : ℕ} (hlow : 0≤v) (hhigh : v<8192) (hk : v/2^k≤255) :
    ((clip8 (shr v k)).toNat : ℤ)=v/2^k := by
  have hpos : 0≤v/2^k := Int.ediv_nonneg hlow (by positivity)
  rw [shr_eq (holds_14 (by omega) hhigh),clip8_eq (holds_14 (by omega) (by omega)),
    clip1_of_sample hpos hk]

/-- The samples of the first side, from the edge. -/
def Line.p (s : Line) : ℕ → ℤ
  | 0 => s.p0.toNat
  | 1 => s.p1.toNat
  | 2 => s.p2.toNat
  | _ => s.p3.toNat

/-- The samples of the second side, from the edge. -/
def Line.q (s : Line) : ℕ → ℤ
  | 0 => s.q0.toNat
  | 1 => s.q1.toNat
  | 2 => s.q2.toNat
  | _ => s.q3.toNat

/-- Values of samples. -/
def Samples (x : ℕ → ℤ) : Prop := ∀ k, 0≤x k ∧ x k≤255

theorem Line.samples_p (s : Line) : Samples s.p := by
  intro k
  unfold Line.p
  split <;> omega

theorem Line.samples_q (s : Line) : Samples s.q := by
  intro k
  unfold Line.q
  split <;> omega

section Formulas

variable {x y : ℕ → ℤ} (hx : Samples x) (hy : Samples y)

include hx hy

theorem weak_eq :
    ((Setting.weak (x 1) (x 0) (y 1)).toNat : ℤ)=(2*x 1+x 0+y 1+2)/4 := by
  have h0 := hx 0
  have h1 := hx 1
  have hy1 := hy 1
  rw [Setting.weak,clip8_shr (by omega) (by omega) (by omega)]
  norm_num

theorem strong_eq :
    ((Setting.strong (x 3) (x 2) (x 1) (x 0) (y 0) (y 1)).1.toNat : ℤ) =
        (2*x 3+3*x 2+x 1+x 0+y 0+4)/8 ∧
      ((Setting.strong (x 3) (x 2) (x 1) (x 0) (y 0) (y 1)).2.1.toNat : ℤ) =
        (x 2+x 1+x 0+y 0+2)/4 ∧
      ((Setting.strong (x 3) (x 2) (x 1) (x 0) (y 0) (y 1)).2.2.toNat : ℤ) =
        (x 2+2*x 1+2*x 0+2*y 0+y 1+4)/8 := by
  have h0 := hx 0
  have h1 := hx 1
  have h2 := hx 2
  have h3 := hx 3
  have hy0 := hy 0
  have hy1 := hy 1
  have hlong : Holds 32 (2*x 3+3*x 2+x 1+x 0+y 0+4) :=
    ⟨by omega,by omega⟩
  refine ⟨?_,?_,?_⟩
  · rw [Setting.strong,shrLong_eq hlong,clip8_eq (holds_14 (by omega) (by omega)),
      clip1_of_sample (by omega) (by omega)]
    norm_num
  · rw [Setting.strong]
    dsimp only
    rw [clip8_shr (by omega) (by omega) (by omega)]
    norm_num
  · rw [Setting.strong]
    rw [clip8_shr (by omega) (by omega) (by omega)]
    norm_num

omit hy in
/-- The change at distance one stays between two samples, so that it needs no clipping. -/
theorem adjusted_eq {tc0 : ℕ} (htc0 : tc0≤25) {a b : ℤ} (ha : 0≤a ∧ a≤255)
    (hb : 0≤b ∧ b≤255) :
    ((Setting.adjusted tc0 (x 2) (x 1) a b).toNat : ℤ) =
      x 1+Standard.clip3 (-tc0) tc0 ((x 2+(a+b+1)/2-x 1*2)/2) := by
  have h1 := hx 1
  have h2 := hx 2
  have hmean : shr (a+b+1) 1=(a+b+1)/2 := by
    rw [shr_eq (holds_14 (by omega) (by omega))]
    norm_num
  have hchange : shr (x 2+(a+b+1)/2-2*x 1) 1=(x 2+(a+b+1)/2-x 1*2)/2 := by
    rw [shr_eq (holds_14 (by omega) (by omega)),Int.mul_comm 2 (x 1)]
    norm_num
  have hrange : 0≤x 1+Standard.clip3 (-tc0) tc0 ((x 2+(a+b+1)/2-x 1*2)/2) ∧
      x 1+Standard.clip3 (-tc0) tc0 ((x 2+(a+b+1)/2-x 1*2)/2)≤255 := by
    rw [Standard.clip3]
    split_ifs <;> omega
  rw [Setting.adjusted,hmean,hchange]
  change ((clip8 (x 1+Standard.clip3 _ _ _)).toNat : ℤ)=_
  rw [clip8_eq (holds_14 (by omega) (by omega)),clip1_of_sample hrange.1 hrange.2]

end Formulas

theorem strongSide_eq (f : Standard.Setting) {x y : ℕ → ℤ} (hx : Samples x) (hy : Samples y)
    {c : Prop} [Decidable c]
    (hc : c ↔ f.chroma=false ∧ f.flat x ∧ |x 0-y 0| < f.alpha/4+2) {a2 a1 : BitVec 8}
    (h2 : (a2.toNat : ℤ)=x 2) (h1 : (a1.toNat : ℤ)=x 1) {side : BitVec 8 × BitVec 8 × BitVec 8}
    (hside : side = if c then Setting.strong (x 3) (x 2) (x 1) (x 0) (y 0) (y 1)
      else (a2,a1,Setting.weak (x 1) (x 0) (y 1))) :
    (side.1.toNat : ℤ)=f.strong x y 2 ∧ (side.2.1.toNat : ℤ)=f.strong x y 1 ∧
      (side.2.2.toNat : ℤ)=f.strong x y 0 := by
  obtain ⟨hs2,hs1,hs0⟩ := strong_eq hx hy
  simp only [Standard.Setting.strong]
  by_cases h : c
  · rw [if_pos h] at hside
    rw [if_pos (hc.mp h),if_pos (hc.mp h),if_pos (hc.mp h),hside]
    exact ⟨hs2,hs1,hs0⟩
  · rw [if_neg h] at hside
    rw [if_neg (mt hc.mpr h),if_neg (mt hc.mpr h),if_neg (mt hc.mpr h),hside]
    exact ⟨h2,h1,weak_eq hx hy⟩

section Whole

variable {e : Setting} {qpP qpQ : BitVec 6} (hqp : e.qpAvg=meanQp qpP qpQ) (s : Line)

include hqp

theorem Setting.filterOk_iff :
    e.filterOk s ↔ (e.standard qpP qpQ).filterSamples s.p s.q := by
  have hbs : e.bs≠0#3 ↔ (e.standard qpP qpQ).bS≠0 := by
    rw [ne_eq,← BitVec.toNat_inj]
    rfl
  rw [filterOk,Standard.Setting.filterSamples,← alpha_eq hqp,← beta_eq hqp,hbs]
  change _ ↔ _ ∧ |(s.p0.toNat : ℤ)-s.q0.toNat| < _ ∧ |(s.p1.toNat : ℤ)-s.p0.toNat| < _ ∧
    |(s.q1.toNat : ℤ)-s.q0.toNat| < _
  rw [← absdiff8_eq,← absdiff8_eq,← absdiff8_eq,Nat.cast_lt,Nat.cast_lt,Nat.cast_lt]

theorem Setting.ap_iff : e.ap s ↔ (e.standard qpP qpQ).flat s.p := by
  rw [ap,Standard.Setting.flat,← beta_eq hqp]
  change _ ↔ |(s.p2.toNat : ℤ)-s.p0.toNat| < _
  rw [← absdiff8_eq,Nat.cast_lt]

theorem Setting.aq_iff : e.aq s ↔ (e.standard qpP qpQ).flat s.q := by
  rw [aq,Standard.Setting.flat,← beta_eq hqp]
  change _ ↔ |(s.q2.toNat : ℤ)-s.q0.toNat| < _
  rw [← absdiff8_eq,Nat.cast_lt]

theorem Setting.strongExtra_iff :
    e.strongExtra s ↔ |s.p 0-s.q 0| < (e.standard qpP qpQ).alpha/4+2 := by
  have hsmall : e.alpha<256 := alphaLut_lt _ (indexOf_le _ _)
  rw [strongExtra,← alpha_eq hqp,Nat.mod_eq_of_lt (by omega)]
  change _ ↔ |(s.p0.toNat : ℤ)-s.q0.toNat| < _
  rw [← absdiff8_eq]
  omega

/-- A filtered line holds the samples of both sides. -/
structure Matches (out : Filtered) (p q : ℕ → ℤ) : Prop where
  p2 : (out.p2.toNat : ℤ)=p 2
  p1 : (out.p1.toNat : ℤ)=p 1
  p0 : (out.p0.toNat : ℤ)=p 0
  q0 : (out.q0.toNat : ℤ)=q 0
  q1 : (out.q1.toNat : ℤ)=q 1
  q2 : (out.q2.toNat : ℤ)=q 2

theorem Setting.filterLine_idle (h : ¬e.filterOk s) :
    Matches (e.filterLine s) ((e.standard qpP qpQ).pFiltered s.p s.q)
      ((e.standard qpP qpQ).qFiltered s.p s.q) := by
  have hstd := mt (filterOk_iff hqp s).mpr h
  have hp : (e.standard qpP qpQ).pFiltered s.p s.q=s.p := by
    funext k
    rw [Standard.Setting.pFiltered,if_neg hstd]
  have hq : (e.standard qpP qpQ).qFiltered s.p s.q=s.q := by
    funext k
    rw [Standard.Setting.qFiltered,if_neg hstd]
  rw [hp,hq,filterLine,if_neg (fun hand => h hand.1),if_neg h]
  exact ⟨rfl,rfl,rfl,rfl,rfl,rfl⟩

theorem Setting.filterLine_strong (h : e.filterOk s) (hbs : e.bs=4#3) :
    Matches (e.filterLine s) ((e.standard qpP qpQ).pFiltered s.p s.q)
      ((e.standard qpP qpQ).qFiltered s.p s.q) := by
  have hstd := (filterOk_iff hqp s).mp h
  have hfour : ¬(e.standard qpP qpQ).bS<4 := by
    change ¬e.bs.toNat<4
    rw [hbs]
    exact Nat.lt_irrefl 4
  have hp : (e.standard qpP qpQ).pFiltered s.p s.q=(e.standard qpP qpQ).strong s.p s.q := by
    funext k
    rw [Standard.Setting.pFiltered,if_pos hstd,if_neg hfour]
  have hq : (e.standard qpP qpQ).qFiltered s.p s.q=(e.standard qpP qpQ).strong s.q s.p := by
    funext k
    rw [Standard.Setting.qFiltered,if_pos hstd,if_neg hfour]
  have hcp : (e.isChroma=false ∧ e.strongExtra s) ∧ e.ap s ↔
      (e.standard qpP qpQ).chroma=false ∧ (e.standard qpP qpQ).flat s.p ∧
        |s.p 0-s.q 0| < (e.standard qpP qpQ).alpha/4+2 := by
    rw [strongExtra_iff hqp,ap_iff hqp,and_assoc,and_comm (a := |_| < _)]
    rfl
  have hcq : (e.isChroma=false ∧ e.strongExtra s) ∧ e.aq s ↔
      (e.standard qpP qpQ).chroma=false ∧ (e.standard qpP qpQ).flat s.q ∧
        |s.q 0-s.p 0| < (e.standard qpP qpQ).alpha/4+2 := by
    rw [strongExtra_iff hqp,aq_iff hqp,abs_sub_comm,and_assoc,and_comm (a := |_| < _)]
    rfl
  have hp2 : (s.p2.toNat : ℤ)=s.p 2 := rfl
  have hq2 : (s.q2.toNat : ℤ)=s.q 2 := rfl
  have hp1 : (s.p1.toNat : ℤ)=s.p 1 := rfl
  have hq1 : (s.q1.toNat : ℤ)=s.q 1 := rfl
  obtain ⟨hp2,hp1,hp0⟩ := strongSide_eq (e.standard qpP qpQ) s.samples_p s.samples_q hcp hp2 hp1
    rfl
  obtain ⟨hq2,hq1,hq0⟩ := strongSide_eq (e.standard qpP qpQ) s.samples_q s.samples_p hcq hq2 hq1
    rfl
  rw [hp,hq,filterLine,if_pos ⟨h,hbs⟩]
  exact ⟨hp2,hp1,hp0,hq0,hq1,hq2⟩

/-- The bound of the change next to the edge. -/
def Setting.tc (e : Setting) (s : Line) : ℤ :=
  if e.isChroma then e.tc0+1
  else e.tc0+(if e.ap s then 1 else 0)+(if e.aq s then 1 else 0)

/-- The change next to the edge. -/
def Setting.delta (e : Setting) (s : Line) : ℤ :=
  clipSigned (-e.tc s) (e.tc s) (shr (4*(s.q 0-s.p 0)+(s.p 1-s.q 1)+4) 3)

theorem Setting.delta_eq (htc0 : (e.tc0 : ℤ)=(e.standard qpP qpQ).tC0) :
    e.delta s=(e.standard qpP qpQ).delta s.p s.q := by
  have hp0 := s.samples_p 0
  have hp1 := s.samples_p 1
  have hq0 := s.samples_q 0
  have hq1 := s.samples_q 1
  have htc : e.tc s=(e.standard qpP qpQ).tC s.p s.q := by
    rw [tc,Standard.Setting.tC,← htc0]
    simp only [ap_iff hqp,aq_iff hqp]
    rfl
  rw [delta,Standard.Setting.delta,← htc,shr_eq (holds_14 (by omega) (by omega)),
    Int.mul_comm 4]
  rfl

omit hqp in
theorem Setting.delta_range (e : Setting) (s : Line) : -27≤e.delta s ∧ e.delta s≤27 := by
  have hsmall : e.tc0≤25 := tc0Lut_le _ (indexOf_le _ _) _
  have htc : 0≤e.tc s ∧ e.tc s≤27 := by
    unfold tc
    split_ifs <;> omega
  unfold delta clipSigned
  split_ifs <;> omega

omit hqp in
theorem normalInner_eq (htc0 : (e.tc0 : ℤ)=(e.standard qpP qpQ).tC0) {x : ℕ → ℤ} (hx : Samples x)
    {c : Prop} [Decidable c] (hc : c ↔ (e.standard qpP qpQ).flat x) {a1 : BitVec 8}
    (h1 : (a1.toNat : ℤ)=x 1) {out : BitVec 8}
    (hout : out = if e.isChroma = false ∧ c then
      Setting.adjusted e.tc0 (x 2) (x 1) (s.p 0) (s.q 0) else a1) :
    (out.toNat : ℤ)=(e.standard qpP qpQ).normalInner s.p s.q x := by
  have hsmall : e.tc0≤25 := tc0Lut_le _ (indexOf_le _ _) _
  have hcond : e.isChroma=false ∧ c ↔
      (e.standard qpP qpQ).chroma=false ∧ (e.standard qpP qpQ).flat x := and_congr_right' hc
  rw [hout,Standard.Setting.normalInner]
  by_cases h : e.isChroma=false ∧ c
  · rw [if_pos h,if_pos (hcond.mp h),← htc0]
    exact adjusted_eq hx hsmall (s.samples_p 0) (s.samples_q 0)
  · rw [if_neg h,if_neg (mt hcond.mpr h),h1]

theorem Setting.filterLine_normal (h : e.filterOk s) (hbs : e.bs≤3#3) :
    Matches (e.filterLine s) ((e.standard qpP qpQ).pFiltered s.p s.q)
      ((e.standard qpP qpQ).qFiltered s.p s.q) := by
  have hstd := (filterOk_iff hqp s).mp h
  have hless : (e.standard qpP qpQ).bS<4 := Nat.lt_succ_of_le (BitVec.le_def.mp hbs)
  have hone : 1#3≤e.bs := by
    have hne := (not_congr BitVec.toNat_inj).mpr h.1
    exact Nat.one_le_iff_ne_zero.mpr hne
  have hne : e.bs≠4#3 := fun heq => by
    rw [heq] at hbs
    exact absurd hbs (by decide)
  have htc0 := tc0_eq hqp hone hbs
  have hdelta := delta_eq hqp s htc0
  obtain ⟨hlow,hhigh⟩ := e.delta_range s
  have hp0 := s.samples_p 0
  have hq0 := s.samples_q 0
  have hp : (e.standard qpP qpQ).pFiltered s.p s.q=(e.standard qpP qpQ).normalP s.p s.q := by
    funext k
    rw [Standard.Setting.pFiltered,if_pos hstd,if_pos hless]
  have hq : (e.standard qpP qpQ).qFiltered s.p s.q=(e.standard qpP qpQ).normalQ s.p s.q := by
    funext k
    rw [Standard.Setting.qFiltered,if_pos hstd,if_pos hless]
  rw [hp,hq,filterLine,if_neg (fun hand => hne hand.2),if_pos h]
  refine ⟨rfl,?_,?_,?_,?_,rfl⟩
  · exact normalInner_eq s htc0 s.samples_p (ap_iff hqp s) rfl rfl
  · change ((clip8 (s.p 0+e.delta s)).toNat : ℤ)=Standard.clip1 _
    rw [clip8_eq (holds_14 (by omega) (by omega)),hdelta]
  · change ((clip8 (s.q 0-e.delta s)).toNat : ℤ)=Standard.clip1 _
    rw [clip8_eq (holds_14 (by omega) (by omega)),hdelta]
  · exact normalInner_eq s htc0 s.samples_q (aq_iff hqp s) rfl rfl

end Whole

/-- Every line of an edge with a strength of up to four is filtered as the standard says, under any
two quantisers and offsets. -/
theorem edge_standard (e : Setting) (qpP qpQ : BitVec 6) (hbs : e.bs≤4#3)
    (lines : Fin 4 → Line) (i : Fin 4) :
    Matches ({ e with qpAvg := meanQp qpP qpQ }.edge lines i)
      ((e.standard qpP qpQ).pFiltered (lines i).p (lines i).q)
      ((e.standard qpP qpQ).qFiltered (lines i).p (lines i).q) := by
  generalize hmean : { e with qpAvg := meanQp qpP qpQ } = m
  have hqp : m.qpAvg=meanQp qpP qpQ := by rw [← hmean]
  have hstd : e.standard qpP qpQ=m.standard qpP qpQ := by
    rw [← hmean]
    rfl
  have hm : m.bs≤4#3 := by
    rw [← hmean]
    exact hbs
  rw [Setting.edge,hstd]
  by_cases h : m.filterOk (lines i)
  · by_cases hfour : m.bs=4#3
    · exact Setting.filterLine_strong hqp _ h hfour
    · refine Setting.filterLine_normal hqp _ h ?_
      have hne := (not_congr BitVec.toNat_inj).mpr hfour
      exact Nat.le_of_lt_succ (lt_of_le_of_ne hm hne)
  · exact Setting.filterLine_idle hqp _ h

/-- An intra macroblock beside an inter one. -/
def intraBoundary : Sides :=
  ⟨false,false,true,true,false,false,false,0#2,0#2,0#12,0#12,0#12,0#12⟩

/-- A small step of luma across the boundary of an intra macroblock, under quantisers 30 and 35. -/
theorem edge_standard_intra :
    Matches
      ({ isChroma := false, bs := boundaryStrength intraBoundary, qpAvg := meanQp 30#6 35#6,
         sliceAlphaC0Offset := 2#5, sliceBetaOffset := -2#5 : Setting }.edge
        (fun _ => ⟨60#8,61#8,62#8,63#8,68#8,69#8,70#8,71#8⟩) 0)
      (Standard.Setting.pFiltered ⟨false,4,30,35,2,-2⟩
        (Line.p ⟨60#8,61#8,62#8,63#8,68#8,69#8,70#8,71#8⟩)
        (Line.q ⟨60#8,61#8,62#8,63#8,68#8,69#8,70#8,71#8⟩))
      (Standard.Setting.qFiltered ⟨false,4,30,35,2,-2⟩
        (Line.p ⟨60#8,61#8,62#8,63#8,68#8,69#8,70#8,71#8⟩)
        (Line.q ⟨60#8,61#8,62#8,63#8,68#8,69#8,70#8,71#8⟩)) :=
  edge_standard ⟨false,boundaryStrength intraBoundary,0#6,2#5,-2#5⟩ 30#6 35#6
    (boundaryStrength_le intraBoundary) _ 0

end Misterplex.Deblock
