import Mathlib.Algebra.BigOperators.Group.Finset.Basic
import Mathlib.Tactic.IntervalCases
import Misterplex.Recon.Transform

/-!
# The residual formulas of the standard

Scaling and inverse transform of residual blocks as the standard prints them:
the inverse zig-zag scan, the scaling of DC and AC coefficients with its case
split on the quantiser, the two passes of the inverse transform, the rounding
shift and the clipping. The host, which scales with one product and one shift
and rounds before it transforms, computes the same samples.
-/

namespace Misterplex.Recon

namespace Standard

/-- Positions of a 4x4 block, row and column, in zig-zag order. -/
def zigzag : List (ℕ × ℕ) :=
  [(0,0),(0,1),(1,0),(2,0),(1,1),(0,2),(0,3),(1,2),
    (2,1),(3,0),(3,1),(2,2),(1,3),(2,3),(3,2),(3,3)]

/-- The inverse scan: the coefficient of every position. -/
def inverseScan (coeffs : List ℤ) : Block := fun i j => coeffs.getD (zigzag.idxOf (i,j)) 0

/-- The matrix behind normAdjust4x4. -/
def normMatrix : List (List ℤ) :=
  [[10,16,13],[11,18,14],[13,20,16],[14,23,18],[16,25,20],[18,29,23]]

/-- The standard's scaling matrix. -/
def normAdjust4x4 (m i j : ℕ) : ℤ :=
  (normMatrix.getD m []).getD
    (if i%2 = 0 ∧ j%2 = 0 then 0 else if i%2 = 1 ∧ j%2 = 1 then 1 else 2) 0

/-- LevelScale4x4 with the flat weights of streams without scaling lists. -/
def levelScale4x4 (m i j : ℕ) : ℤ := 16*normAdjust4x4 m i j

variable (qP : ℕ)

/-- Scaling of a DC coefficient of a 16x16 prediction. -/
def scaleLumaDc (f : ℤ) : ℤ :=
  if 36 ≤ qP then (f*levelScale4x4 (qP%6) 0 0) <<< (qP/6-6)
  else (f*levelScale4x4 (qP%6) 0 0+2^(5-qP/6)) >>> (6-qP/6)

/-- The matrix of the DC transform of a 16x16 prediction. -/
def hadamard (i j : ℕ) : ℤ :=
  ([[1,1,1,1],[1,1,-1,-1],[1,-1,-1,1],[1,-1,1,-1]].getD i []).getD j 0

/-- DC coefficients of the blocks of a 16x16 prediction, by row and column of the blocks. -/
def lumaDc (c : Block) : Block := fun i j =>
  scaleLumaDc qP
    (∑ k∈Finset.range 4, ∑ l∈Finset.range 4, hadamard i k*c k l*hadamard l j)

/-- The 2x2 array of the DC coefficients of chroma. -/
def chromaArray (coeffs : List ℤ) : Block := fun i j => coeffs.getD (2*i+j) 0

/-- The matrix of the DC transform of chroma. -/
def hadamard2 (i j : ℕ) : ℤ := ([[1,1],[1,-1]].getD i []).getD j 0

/-- DC coefficients of the chroma blocks, by row and column of the blocks. -/
def chromaDc (c : Block) : Block := fun i j =>
  (((∑ k∈Finset.range 2, ∑ l∈Finset.range 2, hadamard2 i k*c k l*hadamard2 l j) *
    levelScale4x4 (qP%6) 0 0) <<< (qP/6)) >>> 5

/-- Scaling of any other coefficient. -/
def scale (qP i j : ℕ) (c : ℤ) : ℤ :=
  if 24 ≤ qP then (c*levelScale4x4 (qP%6) i j) <<< (qP/6-4)
  else (c*levelScale4x4 (qP%6) i j+2^(3-qP/6)) >>> (4-qP/6)

/-- The scaled coefficients of a block. -/
def scaled (c : Block) : Block := fun i j => scale qP i j (c i j)

/-- The scaled coefficients of a block whose DC coefficient is scaled already. -/
def scaledAc (c : Block) : Block := fun i j =>
  if i = 0 ∧ j = 0 then c 0 0 else scale qP i j (c i j)

/-- One row or column of the inverse transform. -/
def transformLine (d₀ d₁ d₂ d₃ : ℤ) (k : ℕ) : ℤ :=
  let e₀ := d₀+d₂
  let e₁ := d₀-d₂
  let e₂ := d₁ >>> 1-d₃
  let e₃ := d₁+d₃ >>> 1
  match k with
  | 0 => e₀+e₃
  | 1 => e₁+e₂
  | 2 => e₁-e₂
  | _ => e₀-e₃

/-- The transform of every row. -/
def rows (d : Block) : Block := fun i j => transformLine (d i 0) (d i 1) (d i 2) (d i 3) j

/-- Rows and then columns of a block transformed. -/
def transformed (d : Block) : Block := fun i j =>
  transformLine (rows d 0 j) (rows d 1 j) (rows d 2 j) (rows d 3 j) i

/-- Residual samples of a block of scaled coefficients. -/
def residual (d : Block) : Block := fun i j => (transformed d i j+32) >>> 6

/-- Clip1 of samples of eight bits. -/
def clip1 (v : ℤ) : ℤ := max 0 (min 255 v)

/-- Samples of a block: the clipped sums of prediction and residual. -/
def samples (d pred : Block) : Block := fun i j => clip1 (pred i j+residual d i j)

end Standard

/-- A value fits sixteen bits. The sums and products behind such a value are
below 2 ^ 24, far from the end of an int. -/
def Fits16 (v : ℤ) : Prop := -32768≤v ∧ v<32768

instance (v : ℤ) : Decidable (Fits16 v) := inferInstanceAs (Decidable (_ ∧ _))

theorem int16_of_fits {v : ℤ} (h : Fits16 v) : Cavlc.Host.int16 v=v := by
  obtain ⟨hlow,hhigh⟩ := h
  rw [Cavlc.Host.int16,Int.bmod_def]
  split_ifs <;> omega

open Standard

/-- The factor of a coefficient: its normAdjust4x4 and two for every six steps. -/
def factor (qp i j : ℕ) : ℤ := normAdjust4x4 (qp%6) i j*2^(qp/6)

theorem scale_eq {qp : ℕ} (hqp : qp≤51) (i j : ℕ) (c : ℤ) :
    scale qp i j c=c*factor qp i j := by
  unfold scale levelScale4x4 factor
  generalize normAdjust4x4 (qp%6) i j=n
  have hlevel : c*(16*n)=16*(c*n) := by ring
  have hfactor : c*(n*2^(qp/6))=c*n*2^(qp/6) := by ring
  rw [hlevel,hfactor]
  have hq : qp/6≤8 := by omega
  have hsplit : 24≤qp ↔ 4≤qp/6 := by omega
  simp only [hsplit,Int.shiftLeft_eq,Int.shiftRight_eq_div_pow]
  generalize qp/6=q at hq
  interval_cases q <;> norm_num <;> omega

theorem scaleLumaDc_eq {qp : ℕ} (hqp : qp≤51) (f : ℤ) :
    scaleLumaDc qp f = (f*factor qp 0 0*64+128) >>> 8 := by
  unfold scaleLumaDc levelScale4x4 factor
  generalize normAdjust4x4 (qp%6) 0 0=n
  have hlevel : f*(16*n)=16*(f*n) := by ring
  have hfactor : f*(n*2^(qp/6))=f*n*2^(qp/6) := by ring
  rw [hlevel,hfactor]
  have hq : qp/6≤8 := by omega
  have hsplit : 36≤qp ↔ 6≤qp/6 := by omega
  simp only [hsplit,Int.shiftLeft_eq,Int.shiftRight_eq_div_pow]
  generalize qp/6=q at hq
  interval_cases q <;> norm_num <;> omega

theorem levelScale_eq (qp i j : ℕ) : levelScale qp i j=normAdjust4x4 (qp%6) i j := by
  have htable : ∀ m<6, ∀ a<2, ∀ b<2,
      (kNormAdjust.getD m []).getD (if a+b = 0 then 0 else if a+b = 1 then 1 else 2) 0 =
        (normMatrix.getD m []).getD
          (if a = 0 ∧ b = 0 then 0 else if a = 1 ∧ b = 1 then 1 else 2) 0 := by
    decide
  exact htable (qp%6) (Nat.mod_lt _ (by omega)) (i%2) (Nat.mod_lt _ (by omega)) (j%2)
    (Nat.mod_lt _ (by omega))

theorem dequant_value (c : ℤ) (qp i j : ℕ) :
    (c*((levelScale qp i j*16) <<< ((qp : ℤ).tdiv 6+2).toNat)+32) >>> 6 =
      c*factor qp i j := by
  have hdiv : ((qp : ℤ).tdiv 6+2).toNat=qp/6+2 := by
    rw [Int.tdiv_eq_ediv_of_nonneg (Int.natCast_nonneg _)]
    omega
  have hproduct : c*(normAdjust4x4 (qp%6) i j*16*2^(qp/6+2)) =
      64*(c*factor qp i j) := by
    rw [factor,pow_add]
    ring
  rw [levelScale_eq,hdiv,Int.shiftLeft_eq,hproduct,Int.shiftRight_eq_div_pow]
  omega

/-- A loop that sets a value of its own in every round: each stands where it was
set, and the rest is zero. -/
theorem foldl_set (f : ℕ → ℕ × ℕ) (g : ℕ → ℤ) (P : ℕ → Prop) [DecidablePred P]
    (hzero : ∀ k, P k → g k=0) (n : ℕ) (hinj : ∀ a<n, ∀ b<n, f a=f b → a=b) :
    let blk := (List.range n).foldl
      (fun b k => if P k then b else Block.set b (f k).1 (f k).2 (g k)) Block.zero
    (∀ k<n, blk (f k).1 (f k).2=g k) ∧ ∀ i j, (∀ k<n, f k≠(i,j)) → blk i j=0 := by
  induction n with
  | zero => exact ⟨fun k hk => absurd hk (Nat.not_lt_zero k),fun _ _ _ => rfl⟩
  | succ n ih =>
    obtain ⟨hset,hrest⟩ := ih fun a ha b hb => hinj a (by omega) b (by omega)
    rw [List.range_succ,List.foldl_append,List.foldl_cons,List.foldl_nil]
    have hnew : ∀ k<n, f k≠f n := by
      intro k hk heq
      have hkn := hinj k (by omega) n (by omega) heq
      omega
    by_cases hP : P n
    · rw [if_pos hP]
      constructor
      · intro k hk
        by_cases hkn : k < n
        · exact hset k hkn
        · rw [show k=n by omega,hzero n hP]
          exact hrest _ _ fun l hl => hnew l hl
      · exact fun i j hnone => hrest i j fun k hk => hnone k (by omega)
    · rw [if_neg hP]
      constructor
      · intro k hk
        by_cases hkn : k < n
        · rw [Block.set,if_neg fun h => hnew k hkn (Prod.ext h.1 h.2)]
          exact hset k hkn
        · rw [show k=n by omega,Block.set,if_pos ⟨rfl,rfl⟩]
      · intro i j hnone
        rw [Block.set,if_neg fun h => hnone n (by omega) (Prod.ext h.1.symm h.2.symm)]
        exact hrest i j fun k hk => hnone k (by omega)

/-- Position of a coefficient of the host. -/
def hostPosition (maxCoeff k : ℕ) : ℕ × ℕ :=
  let zi := if maxCoeff = 15 then kZigzag.getD (k+1) 0 else kZigzag.getD k 0
  (zi/4,zi%4)

variable (coeffs : List ℤ)

/-- The host's scaling, coefficient by coefficient. -/
theorem dequant4x4_spec (maxCoeff qp : ℕ) (hinj : ∀ a < maxCoeff, ∀ b < maxCoeff,
      hostPosition maxCoeff a=hostPosition maxCoeff b → a=b) :
    (∀ k < maxCoeff, dequant4x4 coeffs maxCoeff qp (hostPosition maxCoeff k).1
        (hostPosition maxCoeff k).2=Cavlc.Host.int16 (coeffs.getD k 0 *
          factor qp (hostPosition maxCoeff k).1 (hostPosition maxCoeff k).2)) ∧
      ∀ i j, (∀ k < maxCoeff, hostPosition maxCoeff k≠(i,j)) →
        dequant4x4 coeffs maxCoeff qp i j=0 := by
  have hloop := foldl_set (hostPosition maxCoeff)
    (fun k => Cavlc.Host.int16 ((coeffs.getD k 0 *
      ((levelScale qp (hostPosition maxCoeff k).1 (hostPosition maxCoeff k).2*16) <<<
        ((qp : ℤ).tdiv 6+2).toNat)+32) >>> 6))
    (fun k => coeffs.getD k 0=0) (by
      intro k hk
      rw [dequant_value,hk,zero_mul]
      rfl) maxCoeff hinj
  obtain ⟨hset,hrest⟩ := hloop
  refine ⟨fun k hk => ?_,hrest⟩
  have hk' := hset k hk
  rw [dequant_value] at hk'
  exact hk'

theorem hostPosition_full :
    ∀ i<4, ∀ j<4, zigzag.idxOf (i,j)<16 ∧
      hostPosition 16 (zigzag.idxOf (i,j))=(i,j) := by
  decide

theorem hostPosition_ac :
    ∀ i<4, ∀ j<4, ¬(i=0 ∧ j=0) → 0<zigzag.idxOf (i,j) ∧ zigzag.idxOf (i,j)<16 ∧
      hostPosition 15 (zigzag.idxOf (i,j)-1)=(i,j) := by
  decide

/-- Coefficients times the factors of their positions. -/
def factored (qp : ℕ) (c : Block) : Block := fun i j => c i j*factor qp i j

theorem dequant4x4_at_full (qp : ℕ) {i j : ℕ} (hi : i<4) (hj : j<4) :
    dequant4x4 coeffs 16 qp i j =
      Cavlc.Host.int16 (factored qp (inverseScan coeffs) i j) := by
  obtain ⟨hk,hpos⟩ := hostPosition_full i hi j hj
  have hat := (dequant4x4_spec coeffs 16 qp (by decide)).1 _ hk
  rw [hpos] at hat
  exact hat

theorem dequant4x4_at_ac (ac : List ℤ) (qp : ℕ) {i j : ℕ} (hi : i<4) (hj : j<4) :
    dequant4x4 ac 15 qp i j=Cavlc.Host.int16 (factored qp (inverseScan (0::ac)) i j) := by
  obtain ⟨hset,hrest⟩ := dequant4x4_spec ac 15 qp (by decide)
  unfold factored
  by_cases hdc : i=0 ∧ j=0
  · obtain ⟨rfl,rfl⟩ := hdc
    have hzero : inverseScan (0::ac) 0 0=0 := rfl
    rw [hrest 0 0 (by decide),hzero,zero_mul]
    rfl
  · obtain ⟨hpos,hk,hplace⟩ := hostPosition_ac i hi j hj hdc
    have hat := hset _ (show zigzag.idxOf (i,j)-1<15 by omega)
    have hshift : inverseScan (0::ac) i j=ac.getD (zigzag.idxOf (i,j)-1) 0 := by
      rw [inverseScan,← Nat.sub_add_cancel hpos,List.getD_cons_succ,Nat.add_sub_cancel]
    rw [hplace,← hshift] at hat
    exact hat

variable {qp i j : ℕ}

theorem dequant4x4_full {coeffs : List ℤ} (hqp : qp≤51) (hi : i<4) (hj : j<4)
    (hfits : Fits16 (scaled qp (inverseScan coeffs) i j)) :
    dequant4x4 coeffs 16 qp i j=scaled qp (inverseScan coeffs) i j := by
  have hscaled : scaled qp (inverseScan coeffs) i j=factored qp (inverseScan coeffs) i j :=
    scale_eq hqp i j _
  rw [dequant4x4_at_full coeffs qp hi hj,← hscaled,int16_of_fits hfits]

/-- A block of the host with a DC coefficient put in holds the scaled coefficients. -/
theorem dequant4x4_ac {ac : List ℤ} {dc : ℤ} (hqp : qp≤51) (hi : i<4) (hj : j<4)
    (hfits : Fits16 (scaledAc qp (inverseScan (dc::ac)) i j)) :
    (dequant4x4 ac 15 qp).set 0 0 dc i j=scaledAc qp (inverseScan (dc::ac)) i j := by
  unfold scaledAc at hfits ⊢
  by_cases hdc : i=0 ∧ j=0
  · rw [Block.set,if_pos hdc,if_pos hdc]
    rfl
  · rw [if_neg hdc] at hfits ⊢
    obtain ⟨hpos,_,_⟩ := hostPosition_ac i hi j hj hdc
    have hbehind : inverseScan (0::ac) i j=inverseScan (dc::ac) i j := by
      rw [inverseScan,inverseScan,← Nat.sub_add_cancel hpos,List.getD_cons_succ,
        List.getD_cons_succ]
    rw [Block.set,if_neg hdc,dequant4x4_at_ac ac qp hi hj,factored,hbehind,← scale_eq hqp,
      int16_of_fits hfits]

theorem dcQmul_eq (qp : ℕ) : dcQmul qp=factor qp 0 0*64 := by
  have hmod : ((qp : ℤ).tmod 6).toNat=qp%6 := by
    rw [Int.tmod_eq_emod_of_nonneg (Int.natCast_nonneg _)]
    omega
  have hdiv : ((qp : ℤ).tdiv 6+2).toNat=qp/6+2 := by
    rw [Int.tdiv_eq_ediv_of_nonneg (Int.natCast_nonneg _)]
    omega
  have htable : ∀ m<6, mf0.getD m 0=normAdjust4x4 m 0 0 := by decide
  rw [dcQmul,hmod,hdiv,htable _ (Nat.mod_lt _ (by omega)),Int.shiftLeft_eq,factor,pow_add]
  ring

/-- The values of the host's DC transform, column by column. -/
def dcInput : ℕ → ℤ :=
  (List.range 16).foldl (fun input i =>
    let z := kZigzag.getD i 0
    Function.update input ((z >>> 2) ||| ((z <<< 2) &&& 0xF)) (coeffs.getD i 0)) fun _ => 0

/-- The sums of the host's DC transform. -/
def dcSum (input : ℕ → ℤ) (i j : ℕ) : ℤ :=
  let temp : ℕ → ℤ := fun n =>
    let i := n/4
    let z₀ := input (4*i)+input (4*i+1)
    let z₁ := input (4*i)-input (4*i+1)
    let z₂ := input (4*i+2)-input (4*i+3)
    let z₃ := input (4*i+2)+input (4*i+3)
    match n%4 with
    | 0 => z₀+z₃
    | 1 => z₀-z₃
    | 2 => z₁-z₂
    | _ => z₁+z₂
  let z₀ := temp i+temp (8+i)
  let z₁ := temp i-temp (8+i)
  let z₂ := temp (4+i)-temp (12+i)
  let z₃ := temp (4+i)+temp (12+i)
  match j with
  | 0 => z₀+z₃
  | 1 => z₁+z₂
  | 2 => z₁-z₂
  | _ => z₀-z₃

theorem dcInput_eq {k l : ℕ} (hk : k<4) (hl : l<4) :
    dcInput coeffs (4*l+k)=inverseScan coeffs k l := by
  interval_cases k <;> interval_cases l <;> rfl

theorem dcSum_eq (input : ℕ → ℤ) {i j : ℕ} (hi : i<4) (hj : j<4) :
    dcSum input i j = ∑ k∈Finset.range 4, ∑ l∈Finset.range 4,
      hadamard i k*input (4*l+k)*hadamard l j := by
  simp only [Finset.sum_range_succ,Finset.sum_range_zero]
  interval_cases i <;> interval_cases j <;> simp [dcSum,hadamard] <;> ring

theorem invQuantHadamardDc4x4_eq {coeffs : List ℤ} (hqp : qp≤51) (hi : i<4)
    (hj : j<4) (hfits : Fits16 (lumaDc qp (inverseScan coeffs) i j)) :
    invQuantHadamardDc4x4 coeffs qp i j=lumaDc qp (inverseScan coeffs) i j := by
  have hsum : dcSum (dcInput coeffs) i j = ∑ k∈Finset.range 4, ∑ l∈Finset.range 4,
      hadamard i k*inverseScan coeffs k l*hadamard l j := by
    rw [dcSum_eq _ hi hj]
    refine Finset.sum_congr rfl fun k hk => Finset.sum_congr rfl fun l hl => ?_
    rw [dcInput_eq coeffs (Finset.mem_range.mp hk) (Finset.mem_range.mp hl)]
  have hhost : invQuantHadamardDc4x4 coeffs qp i j =
      Cavlc.Host.int16 ((dcSum (dcInput coeffs) i j*dcQmul qp+128) >>> 8) := rfl
  rw [← int16_of_fits hfits,hhost,hsum,lumaDc,scaleLumaDc_eq hqp,dcQmul_eq,mul_assoc]

theorem invChromaDc2x2_eq {coeffs : List ℤ} (hi : i<2) (hj : j<2)
    (hfits : Fits16 (chromaDc qp (chromaArray coeffs) i j)) :
    invChromaDc2x2 coeffs qp i j=chromaDc qp (chromaArray coeffs) i j := by
  have hshift : ∀ f : ℤ, (f*dcQmul qp) >>> 7 =
      ((f*levelScale4x4 (qp%6) 0 0) <<< (qp/6)) >>> 5 := by
    intro f
    have hleft : f*dcQmul qp=64*(f*factor qp 0 0) := by
      rw [dcQmul_eq]
      ring
    have hright : f*levelScale4x4 (qp%6) 0 0*2^(qp/6)=16*(f*factor qp 0 0) := by
      rw [levelScale4x4,factor]
      ring
    rw [hleft,Int.shiftLeft_eq,hright,Int.shiftRight_eq_div_pow,Int.shiftRight_eq_div_pow]
    omega
  rw [← int16_of_fits hfits,chromaDc,← hshift]
  simp only [Finset.sum_range_succ,Finset.sum_range_zero]
  refine congrArg (fun f => Cavlc.Host.int16 ((f*dcQmul qp) >>> 7)) ?_
  interval_cases i <;> interval_cases j <;> simp [hadamard2,chromaArray] <;> ring

theorem transformLine_add (d₀ d₁ d₂ d₃ v : ℤ) (k : ℕ) :
    transformLine (d₀+v) d₁ d₂ d₃ k=transformLine d₀ d₁ d₂ d₃ k+v := by
  unfold transformLine
  split <;> ring

theorem transformed_offset (d : Block) (i j : ℕ) :
    transformed (d.set 0 0 (d 0 0+32)) i j=transformed d i j+32 := by
  have hfirst : rows (d.set 0 0 (d 0 0+32)) 0 j=rows d 0 j+32 := transformLine_add _ _ _ _ _ j
  have hrest : ∀ k≠0, rows (d.set 0 0 (d 0 0+32)) k j=rows d k j := by
    intro k hk
    simp only [rows,Block.set,hk,false_and,if_false]
  unfold transformed
  rw [hfirst,hrest 1 (by omega),hrest 2 (by omega),hrest 3 (by omega),transformLine_add]

theorem transformed_congr {d e : Block} (h : ∀ i<4, ∀ j<4, d i j=e i j) (i j : ℕ) :
    transformed d i j=transformed e i j := by
  have hrows : ∀ k<4, rows d k j=rows e k j := by
    intro k hk
    unfold rows
    rw [h k hk 0 (by omega),h k hk 1 (by omega),h k hk 2 (by omega),h k hk 3 (by omega)]
  unfold transformed
  rw [hrows 0 (by omega),hrows 1 (by omega),hrows 2 (by omega),hrows 3 (by omega)]

theorem clip8_eq (v : ℤ) : clip8 v=clip1 v := by
  unfold clip8 clip1
  split_ifs <;> omega

theorem idct4x4Add_eq {blk d : Block} (h : ∀ i<4, ∀ j<4, blk i j=d i j) (pred : Block)
    (i j : ℕ) : idct4x4Add blk pred i j=samples d pred i j := by
  have hhost : idct4x4Add blk pred i j =
      clip8 (pred i j+transformed (blk.set 0 0 (blk 0 0+32)) i j >>> 6) := rfl
  rw [hhost,transformed_offset,transformed_congr h,clip8_eq]
  rfl

theorem idct4x4Residual_eq {blk d : Block} (h : ∀ i<4, ∀ j<4, blk i j=d i j) {i j : ℕ}
    (hfits : Fits16 (residual d i j)) : idct4x4Residual blk i j=residual d i j := by
  have hhost : idct4x4Residual blk i j =
      Cavlc.Host.int16 (transformed (blk.set 0 0 (blk 0 0+32)) i j >>> 6) := rfl
  rw [hhost,transformed_offset,transformed_congr h]
  exact int16_of_fits hfits

/-- All values of a block fit sixteen bits. -/
def FitsBlock (n : ℕ) (d : Block) : Prop := ∀ i<n, ∀ j<n, Fits16 (d i j)

instance (n : ℕ) (d : Block) : Decidable (FitsBlock n d) := by
  unfold FitsBlock
  infer_instance

/-- A block of the host gives the samples of a block of scaled coefficients: those
added to any prediction, and the residual samples where they fit. -/
structure SameSamples (blk d : Block) : Prop where
  added : ∀ pred, ∀ i<4, ∀ j<4, idct4x4Add blk pred i j=samples d pred i j
  residual : ∀ i<4, ∀ j<4, Fits16 (residual d i j) → idct4x4Residual blk i j=residual d i j

theorem sameSamples_of_eq {blk d : Block} (h : ∀ i<4, ∀ j<4, blk i j=d i j) :
    SameSamples blk d :=
  ⟨fun pred i _ j _ => idct4x4Add_eq h pred i j,fun _ _ _ _ hfits => idct4x4Residual_eq h hfits⟩

/-- The host's transforms are those of the standard for one quantiser. -/
structure Conforms (qp : ℕ) : Prop where
  full : ∀ coeffs, FitsBlock 4 (scaled qp (inverseScan coeffs)) →
    SameSamples (dequant4x4 coeffs 16 qp) (scaled qp (inverseScan coeffs))
  /-- Blocks of a 16x16 prediction, with the DC coefficient of their place. -/
  luma16 : ∀ dcs ac, FitsBlock 4 (lumaDc qp (inverseScan dcs)) → ∀ y<4, ∀ x<4,
    FitsBlock 4 (scaledAc qp (inverseScan (lumaDc qp (inverseScan dcs) y x::ac))) →
      SameSamples ((dequant4x4 ac 15 qp).set 0 0 (invQuantHadamardDc4x4 dcs qp y x))
        (scaledAc qp (inverseScan (lumaDc qp (inverseScan dcs) y x::ac)))
  /-- Blocks of chroma, with the DC coefficient of their place. -/
  chroma : ∀ dcs ac, FitsBlock 2 (chromaDc qp (chromaArray dcs)) → ∀ y<2, ∀ x<2,
    FitsBlock 4 (scaledAc qp (inverseScan (chromaDc qp (chromaArray dcs) y x::ac))) →
      SameSamples ((dequant4x4 ac 15 qp).set 0 0 (invChromaDc2x2 dcs qp y x))
        (scaledAc qp (inverseScan (chromaDc qp (chromaArray dcs) y x::ac)))

/-- Where nothing that is stored in sixteen bits overflows, the host's transforms
are those of the standard, for every quantiser. -/
theorem conforms (qp : ℕ) (hqp : qp≤51) : Conforms qp := by
  refine ⟨?_,?_,?_⟩
  · intro coeffs hfits
    exact sameSamples_of_eq fun i hi j hj => dequant4x4_full hqp hi hj (hfits i hi j hj)
  · intro dcs ac hdcs y hy x hx hfits
    rw [invQuantHadamardDc4x4_eq hqp hy hx (hdcs y hy x hx)]
    exact sameSamples_of_eq fun i hi j hj => dequant4x4_ac hqp hi hj (hfits i hi j hj)
  · intro dcs ac hdcs y hy x hx hfits
    rw [invChromaDc2x2_eq hy hx (hdcs y hy x hx)]
    exact sameSamples_of_eq fun i hi j hj => dequant4x4_ac hqp hi hj (hfits i hi j hj)

/-- A block in the second row of a 16x16 prediction with two AC coefficients. -/
theorem conforms_block :
    idct4x4Add ((dequant4x4 [3,-1] 15 28).set 0 0 (invQuantHadamardDc4x4 [9,2,0,-4] 28 1 2))
      (fun _ _ => 100) 2 1=121 := by
  have hblock := (conforms 28 (by decide)).luma16 [9,2,0,-4] [3,-1] (by decide) 1 (by decide)
    2 (by decide) (by decide)
  exact (hblock.added _ 2 (by decide) 1 (by decide)).trans (by decide)

end Misterplex.Recon
