import Misterplex.Recon.ResidualFormulas

/-!
# The residual chain of the hardware

Dequantisation, inverse transform and reconstruction of a 4x4 block in signed
registers of 29, 30 and 32 bits. The product of a coefficient and its factor is
formed with 64 times its value, so that 26 bits of it are left. Up to there the
registers are wide enough: both passes add at most sixteen such values.
-/

namespace Misterplex.Recon.Rtl

open Standard List

/-- A value kept in a signed register of a width. -/
def signed (w : ℕ) (v : ℤ) : ℤ := v.bmod (2^w)

/-- A value fits a signed register of a width. -/
def Holds (w : ℕ) (v : ℤ) : Prop := -(2^(w-1))≤v ∧ v<2^(w-1)

instance (w : ℕ) (v : ℤ) : Decidable (Holds w v) := inferInstanceAs (Decidable (_ ∧ _))

theorem signed_of_holds {w : ℕ} {v : ℤ} (hw : 0<w) (h : Holds w v) : signed w v=v := by
  obtain ⟨hlow,hhigh⟩ := h
  have hpow : (2 : ℤ)^w=2*2^(w-1) := by
    rw [← pow_succ',Nat.sub_add_cancel hw]
  refine Int.bmod_eq_of_le ?_ ?_
  · push_cast
    omega
  · push_cast
    omega

theorem holds_signed_26 (v : ℤ) : Holds 26 (signed 26 v) := by
  unfold Holds signed
  rw [Int.bmod_def]
  split_ifs <;> omega

/-- The raster position of a scan index. -/
def zigzag : ℕ → ℕ
  | 0 => 0
  | 1 => 1
  | 2 => 4
  | 3 => 8
  | 4 => 5
  | 5 => 2
  | 6 => 3
  | 7 => 6
  | 8 => 9
  | 9 => 12
  | 10 => 13
  | 11 => 10
  | 12 => 7
  | 13 => 11
  | 14 => 14
  | _ => 15

/-- The scaling factor of a quantiser class and a position class. -/
def normAdjust (qmod mi : ℕ) : ℤ :=
  match 4*qmod+mi with
  | 0 => 10
  | 1 => 13
  | 2 => 16
  | 4 => 11
  | 5 => 14
  | 6 => 18
  | 8 => 13
  | 9 => 16
  | 10 => 20
  | 12 => 14
  | 13 => 18
  | 14 => 23
  | 16 => 16
  | 17 => 20
  | 18 => 25
  | 20 => 18
  | 21 => 23
  | _ => 29

/-- The class of a position: how many of its row and column are odd. -/
def mi (z : ℕ) : ℕ :=
  if z%4%2+z/4%4%2 = 0 then 0 else if z%4%2+z/4%4%2 = 1 then 1 else 2

/-- The multiplier of a position, as the 32-bit product. -/
def qmul (q : BitVec 6) (z : ℕ) : ℤ :=
  signed 32 (signed 32 (normAdjust (q.toNat%6) (mi z)*16) <<< (q.toNat/6+2))

/-- One coefficient scaled, rounded and cut to 29 bits. -/
def dequantOne (c : BitVec 16) (q : BitVec 6) (scan : ℕ) (skipDc : Bool) : ℤ :=
  let z := if skipDc then zigzag (scan+1) else zigzag scan
  let v := signed 32 (signed 32 (c.toInt*qmul q z)+32) >>> 6
  signed 29 v

/-- The coefficient that every value of the block, row by row, is taken from. -/
def scanOf : List ℕ := [0,1,5,6,2,4,7,12,3,8,11,13,9,10,14,15]

variable (coeff : ℕ → BitVec 16)

/-- h264_dequant4x4. -/
def dequant (qp : BitVec 6) (maxCoeff p : ℕ) : ℤ :=
  let k := scanOf.getD p 0
  if k < maxCoeff then dequantOne (coeff k) qp k false else 0

/-- The value saturated to 29 bits. -/
def sat29 (v : ℤ) : ℤ :=
  if 268435455 < v then 268435455 else if v < -268435456 then -268435456 else signed 29 v

/-- The four sums and differences of a line, before they are kept. -/
def lineZ (x₀ x₁ x₂ x₃ : ℤ) : ℕ → ℤ
  | 0 => x₀+x₂
  | 1 => x₀-x₂
  | 2 => x₁ >>> 1-x₃
  | _ => x₁+x₃ >>> 1

/-- The results of a line from its sums and differences, before they are kept. -/
def lineSum (z : ℕ → ℤ) : ℕ → ℤ
  | 0 => z 0+z 3
  | 1 => z 1+z 2
  | 2 => z 1-z 2
  | _ => z 0-z 3

/-- One line of the transform in registers of 32 bits. -/
def line (x₀ x₁ x₂ x₃ : ℤ) (k : ℕ) : ℤ :=
  signed 32 (lineSum (fun m => signed 32 (lineZ x₀ x₁ x₂ x₃ m)) k)

/-- The values with the rounding offset in the first one. -/
def offset (d : ℕ → ℤ) (p : ℕ) : ℤ := if p = 0 then signed 32 (d 0+32) else d p

/-- The rows transformed. -/
def rowPass (d : ℕ → ℤ) (p : ℕ) : ℤ :=
  line (offset d (4*(p/4))) (offset d (4*(p/4)+1)) (offset d (4*(p/4)+2))
    (offset d (4*(p/4)+3)) (p%4)

/-- The columns transformed. -/
def columnPass (d : ℕ → ℤ) (p : ℕ) : ℤ :=
  line (rowPass d (p%4)) (rowPass d (4+p%4)) (rowPass d (8+p%4))
    (rowPass d (12+p%4)) (p/4)

/-- h264_idct4x4. -/
def idct (d : ℕ → ℤ) (p : ℕ) : ℤ := sat29 (columnPass d p >>> 6)

/-- clip8 of the hardware. -/
def clip8 (v : ℤ) : ℤ := if v < 0 then 0 else if 255 < v then 255 else v%256

/-- h264_recon4x4. -/
def recon (pred : ℕ → BitVec 8) (residual : ℕ → ℤ) (p : ℕ) : ℤ :=
  clip8 (signed 30 ((pred p).toNat+residual p))

/-- The three modules one behind the other. -/
def chain (qp : BitVec 6) (maxCoeff : ℕ) (pred : ℕ → BitVec 8) (p : ℕ) : ℤ :=
  recon pred (idct (dequant coeff qp maxCoeff)) p

theorem qmul_eq (q : BitVec 6) {p : ℕ} (hp : p<16) :
    qmul q (zigzag (scanOf.getD p 0))=factor q.toNat (p/4) (p%4)*64 := by
  have hnorm : ∀ m<6, ∀ p<16, normAdjust m (mi (zigzag (scanOf.getD p 0))) =
      normAdjust4x4 m (p/4) (p%4) ∧ 0≤normAdjust4x4 m (p/4) (p%4) ∧
        normAdjust4x4 m (p/4) (p%4)≤29 := by
    decide
  obtain ⟨heq,hlow,hhigh⟩ := hnorm (q.toNat%6) (Nat.mod_lt _ (by omega)) p hp
  have hpow : (2 : ℤ)^(q.toNat/6+2)≤2^12 :=
    pow_le_pow_right₀ (by norm_num) (by omega)
  have hpos : (0 : ℤ)<2^(q.toNat/6+2) := by positivity
  unfold qmul factor
  rw [heq]
  generalize normAdjust4x4 (q.toNat%6) (p/4) (p%4)=n at hlow hhigh
  have hbase : Holds 32 (n*16) := by
    unfold Holds
    omega
  have hproduct : Holds 32 (n*16*2^(q.toNat/6+2)) := by
    unfold Holds
    norm_num
    constructor
    · nlinarith
    · nlinarith
  rw [signed_of_holds (by omega) hbase,Int.shiftLeft_eq,signed_of_holds (by omega) hproduct,
    pow_add]
  ring

theorem dequantOne_eq (c : BitVec 16) (q : BitVec 6) {p : ℕ} (hp : p<16) :
    dequantOne c q (scanOf.getD p 0) false =
      signed 26 (c.toInt*factor q.toNat (p/4) (p%4)) := by
  have hproduct : c.toInt*(factor q.toNat (p/4) (p%4)*64) =
      64*(c.toInt*factor q.toNat (p/4) (p%4)) := by ring
  unfold dequantOne
  rw [if_neg Bool.false_ne_true]
  dsimp only
  rw [qmul_eq q hp,hproduct]
  generalize c.toInt*factor q.toNat (p/4) (p%4)=m
  have hm := holds_signed_26 m
  have hscale : signed 32 (64*m)=64*signed 26 m := by
    unfold signed
    rw [Int.bmod_def,Int.bmod_def]
    split_ifs <;> omega
  rw [hscale]
  generalize signed 26 m=v at hm
  unfold Holds at hm
  have hsum : Holds 32 (64*v+32) := by
    unfold Holds
    omega
  have hvalue : (64*v+32) >>> 6 = v := by
    rw [Int.shiftRight_eq_div_pow]
    omega
  have hfit : Holds 29 v := by
    unfold Holds
    omega
  rw [signed_of_holds (by omega) hsum,hvalue,signed_of_holds (by omega) hfit]

theorem dequant_eq (qp : BitVec 6) (maxCoeff : ℕ) {p : ℕ} (hp : p<16) :
    dequant coeff qp maxCoeff p =
      if scanOf.getD p 0 < maxCoeff then
        signed 26 ((coeff (scanOf.getD p 0)).toInt*factor qp.toNat (p/4) (p%4))
      else 0 := by
  unfold dequant
  dsimp only
  rw [dequantOne_eq _ _ hp]

/-- No register of a line overflows. -/
structure LineFits (x₀ x₁ x₂ x₃ : ℤ) : Prop where
  /-- Sums and differences fit. -/
  inner : ∀ k<4, Holds 32 (lineZ x₀ x₁ x₂ x₃ k)
  outer : ∀ k<4, Holds 32 (lineSum (lineZ x₀ x₁ x₂ x₃) k)

/-- A value is within a bound on both sides. -/
def Within (B v : ℤ) : Prop := -B≤v ∧ v≤B

theorem lineFits_of_within {B x₀ x₁ x₂ x₃ : ℤ} (hB : B<2^29) (h₀ : Within B x₀)
    (h₁ : Within B x₁) (h₂ : Within B x₂) (h₃ : Within B x₃) :
    LineFits x₀ x₁ x₂ x₃ ∧
      ∀ k<4, Within (4*B) (lineSum (lineZ x₀ x₁ x₂ x₃) k) := by
  have half : ∀ v : ℤ, v >>> 1 = v/2 := fun v => by
    rw [Int.shiftRight_eq_div_pow]
    norm_num
  unfold Within at *
  refine ⟨⟨?_,?_⟩,?_⟩
  · intro k hk
    unfold Holds
    interval_cases k <;> norm_num [lineZ,half] <;> omega
  · intro k hk
    unfold Holds
    interval_cases k <;> norm_num [lineSum,lineZ,half] <;> omega
  · intro k hk
    interval_cases k <;> norm_num [lineSum,lineZ,half] <;> omega

theorem line_of_fits {x₀ x₁ x₂ x₃ : ℤ} (h : LineFits x₀ x₁ x₂ x₃) {k : ℕ} (hk : k<4) :
    line x₀ x₁ x₂ x₃ k=transformLine x₀ x₁ x₂ x₃ k := by
  have hinner : ∀ m<4, signed 32 (lineZ x₀ x₁ x₂ x₃ m)=lineZ x₀ x₁ x₂ x₃ m :=
    fun m hm => signed_of_holds (by omega) (h.inner m hm)
  have hsum : lineSum (fun m => signed 32 (lineZ x₀ x₁ x₂ x₃ m)) k =
      lineSum (lineZ x₀ x₁ x₂ x₃) k := by
    interval_cases k <;>
      simp only [lineSum,hinner 0 (by omega),hinner 1 (by omega),hinner 2 (by omega),
        hinner 3 (by omega)]
  rw [line,hsum,signed_of_holds (by omega) (h.outer k hk)]
  interval_cases k <;> rfl

/-- Values by row and column. -/
def asBlock (d : ℕ → ℤ) : Block := fun i j => d (4*i+j)

/-- Everything behind the dequantised values fits its register. -/
structure BehindFits (d : ℕ → ℤ) (pred : ℕ → BitVec 8) : Prop where
  /-- The rounding offset fits. -/
  first : Holds 32 (d 0+32)
  /-- The lines of the first pass fit. -/
  rows : ∀ i<4, LineFits (offset d (4*i)) (offset d (4*i+1)) (offset d (4*i+2))
    (offset d (4*i+3))
  columns : ∀ j<4, LineFits (rowPass d j) (rowPass d (4+j)) (rowPass d (8+j))
    (rowPass d (12+j))
  saturates : ∀ p<16, Holds 29 (columnPass d p >>> 6)
  sums : ∀ p<16, Holds 30 ((pred p).toNat+idct d p)

/-- The prediction by row and column. -/
def predBlock (pred : ℕ → BitVec 8) : Block := fun i j => (pred (4*i+j)).toNat

theorem sat29_of_holds {v : ℤ} (h : Holds 29 v) : sat29 v=v := by
  have hkeep := signed_of_holds (by omega) h
  unfold Holds at h
  unfold sat29
  rw [if_neg (by omega),if_neg (by omega),hkeep]

theorem clip8_eq (v : ℤ) : clip8 v=clip1 v := by
  unfold clip8 clip1
  split_ifs <;> omega

theorem transformLine_within {B x₀ x₁ x₂ x₃ : ℤ} (hB : B<2^29) (h₀ : Within B x₀)
    (h₁ : Within B x₁) (h₂ : Within B x₂) (h₃ : Within B x₃) {k : ℕ} (hk : k<4) :
    Within (4*B) (transformLine x₀ x₁ x₂ x₃ k) := by
  have hsum := (lineFits_of_within hB h₀ h₁ h₂ h₃).2 k hk
  exact hsum

section

variable {d : ℕ → ℤ} (h : ∀ p<16, Holds 26 (d p))
include h

theorem holds_first : Holds 32 (d 0+32) := by
  have hd := h 0 (by omega)
  unfold Holds at hd ⊢
  omega

theorem offset_eq {i j : ℕ} (hj : j<4) :
    offset d (4*i+j)=(asBlock d).set 0 0 (asBlock d 0 0+32) i j := by
  unfold offset Block.set
  by_cases hp : 4*i+j=0
  · rw [if_pos hp,if_pos (by omega),signed_of_holds (by omega) (holds_first h)]
    rfl
  · rw [if_neg hp,if_neg (by omega)]
    rfl

theorem offset_within {p : ℕ} (hp : p<16) : Within (2^25+32) (offset d p) := by
  have hd := h p hp
  unfold offset
  by_cases hp0 : p=0
  · rw [if_pos hp0,signed_of_holds (by omega) (holds_first h)]
    subst hp0
    unfold Holds at hd
    unfold Within
    omega
  · unfold Holds at hd
    unfold Within
    omega

theorem row_fits {i : ℕ} (hi : i<4) :
    LineFits (offset d (4*i)) (offset d (4*i+1)) (offset d (4*i+2))
      (offset d (4*i+3)) :=
  (lineFits_of_within (by norm_num) (offset_within h (by omega)) (offset_within h (by omega))
    (offset_within h (by omega)) (offset_within h (by omega))).1

theorem rowPass_eq {i j : ℕ} (hi : i<4) (hj : j<4) :
    rowPass d (4*i+j)=rows ((asBlock d).set 0 0 (asBlock d 0 0+32)) i j := by
  have hfirst := offset_eq h (i := i) (show 0<4 by omega)
  rw [Nat.add_zero] at hfirst
  rw [rowPass,show (4*i+j)/4=i by omega,show (4*i+j)%4=j by omega,
    line_of_fits (row_fits h hi) hj,hfirst,offset_eq h (by omega),offset_eq h (by omega),
    offset_eq h (by omega),rows]

theorem rowPass_within {p : ℕ} (hp : p<16) : Within (4*(2^25+32)) (rowPass d p) := by
  rw [rowPass,line_of_fits (row_fits h (by omega)) (by omega)]
  exact transformLine_within (by norm_num) (offset_within h (by omega)) (offset_within h (by omega))
    (offset_within h (by omega)) (offset_within h (by omega)) (by omega)

theorem column_fits {j : ℕ} (hj : j<4) :
    LineFits (rowPass d j) (rowPass d (4+j)) (rowPass d (8+j)) (rowPass d (12+j)) :=
  (lineFits_of_within (by norm_num) (rowPass_within h (by omega)) (rowPass_within h (by omega))
    (rowPass_within h (by omega)) (rowPass_within h (by omega))).1

theorem columnPass_eq {i j : ℕ} (hi : i<4) (hj : j<4) :
    columnPass d (4*i+j)=transformed (asBlock d) i j+32 := by
  have hrow : rowPass d j=rows ((asBlock d).set 0 0 (asBlock d 0 0+32)) 0 j := by
    have hzero := rowPass_eq h (show 0<4 by omega) hj
    rw [Nat.mul_zero,Nat.zero_add] at hzero
    exact hzero
  rw [columnPass,show (4*i+j)/4=i by omega,show (4*i+j)%4=j by omega,
    line_of_fits (column_fits h hj) hi,hrow,rowPass_eq h (i := 1) (by omega) hj,
    rowPass_eq h (i := 2) (by omega) hj,rowPass_eq h (i := 3) (by omega) hj,← transformed_offset]
  rfl

theorem columnPass_within {p : ℕ} (hp : p<16) :
    Within (4*(4*(2^25+32))) (columnPass d p) := by
  rw [columnPass,line_of_fits (column_fits h (by omega)) (by omega)]
  exact transformLine_within (by norm_num) (rowPass_within h (by omega))
    (rowPass_within h (by omega)) (rowPass_within h (by omega)) (rowPass_within h (by omega))
    (by omega)

theorem residual_holds {p : ℕ} (hp : p<16) : Holds 29 (columnPass d p >>> 6) := by
  have hc := columnPass_within h hp
  rw [Int.shiftRight_eq_div_pow]
  unfold Within at hc
  unfold Holds
  omega

variable (pred : ℕ → BitVec 8)

theorem sum_holds {p : ℕ} (hp : p<16) : Holds 30 ((pred p).toNat+idct d p) := by
  have hc := residual_holds h hp
  rw [idct,sat29_of_holds hc]
  unfold Holds at hc ⊢
  omega

theorem behindFits : BehindFits d pred :=
  ⟨holds_first h,fun _ hi => row_fits h hi,fun _ hj => column_fits h hj,
    fun _ hp => residual_holds h hp,fun _ hp => sum_holds h pred hp⟩

theorem recon_eq {i j : ℕ} (hi : i<4) (hj : j<4) :
    recon pred (idct d) (4*i+j)=samples (asBlock d) (predBlock pred) i j := by
  have hp : 4*i+j<16 := by omega
  rw [recon,signed_of_holds (by omega) (sum_holds h pred hp),clip8_eq,idct,
    sat29_of_holds (residual_holds h hp),columnPass_eq h hi hj]
  rfl

end

/-- A scaled coefficient at the place of a value of the block. -/
def scaledCoeff (qp : BitVec 6) (p : ℕ) : ℤ :=
  (coeff (scanOf.getD p 0)).toInt*factor qp.toNat (p/4) (p%4)

/-- The product that it is made of. -/
def product (qp : BitVec 6) (p : ℕ) : ℤ :=
  (coeff (scanOf.getD p 0)).toInt*qmul qp (zigzag (scanOf.getD p 0))

/-- The chain computes the exact result of a full block. -/
structure Exact (coeff : ℕ → BitVec 16) (qp : BitVec 6) (pred : ℕ → BitVec 8) : Prop where
  dequantised : ∀ p<16, dequant coeff qp 16 p=scaledCoeff coeff qp p
  /-- Its product, the sum with the rounding offset and the shifted sum fit. -/
  products : ∀ p<16, Holds 32 (product coeff qp p) ∧ Holds 32 (product coeff qp p+32) ∧
    Holds 29 ((product coeff qp p+32) >>> 6)
  behind : BehindFits (dequant coeff qp 16) pred
  /-- The samples are the clipped sums of the prediction and the exact residual. -/
  output : ∀ i<4, ∀ j<4, chain coeff qp 16 pred (4*i+j) =
    samples (asBlock (scaledCoeff coeff qp)) (predBlock pred) i j

theorem samples_congr {d e : Block} (h : ∀ i<4, ∀ j<4, d i j=e i j) (pred : Block)
    (i j : ℕ) : samples d pred i j=samples e pred i j := by
  unfold samples Standard.residual
  rw [transformed_congr h]

/-- The chain is exact precisely when every scaled coefficient has 26 bits. -/
theorem residuals_exact_iff (coeff : ℕ → BitVec 16) (qp : BitVec 6) (pred : ℕ → BitVec 8) :
    Exact coeff qp pred ↔ ∀ p<16, Holds 26 (scaledCoeff coeff qp p) := by
  have hkeep : ∀ p<16, dequant coeff qp 16 p=signed 26 (scaledCoeff coeff qp p) := by
    intro p hp
    have hscan : ∀ p<16, scanOf.getD p 0<16 := by decide
    rw [dequant_eq coeff qp 16 hp,if_pos (hscan p hp)]
    rfl
  constructor
  · intro hexact p hp
    rw [← hexact.dequantised p hp,hkeep p hp]
    exact holds_signed_26 _
  · intro hsmall
    have hvalue : ∀ p<16, dequant coeff qp 16 p=scaledCoeff coeff qp p :=
      fun p hp => (hkeep p hp).trans (signed_of_holds (by omega) (hsmall p hp))
    have hd : ∀ p<16, Holds 26 (dequant coeff qp 16 p) := by
      intro p hp
      rw [hvalue p hp]
      exact hsmall p hp
    refine ⟨hvalue,?_,behindFits hd pred,?_⟩
    · intro p hp
      have hs := hsmall p hp
      have hproduct : product coeff qp p=64*scaledCoeff coeff qp p := by
        rw [product,qmul_eq qp hp,scaledCoeff]
        ring
      rw [hproduct,Int.shiftRight_eq_div_pow]
      unfold Holds at hs ⊢
      omega
    · intro i hi j hj
      rw [chain,recon_eq hd pred hi hj]
      exact samples_congr (fun k hk l hl => hvalue (4*k+l) (by omega)) _ i j

/-- The first of sixteen coefficients alone. -/
def single (c : BitVec 16) (k : ℕ) : BitVec 16 := if k = 0 then c else 0#16

/-- A level of 10000 at the largest quantiser wraps around. -/
theorem not_exact : ¬Exact (single 10000#16) 51#6 fun _ => 128#8 := by
  intro hexact
  exact absurd (hexact.dequantised 0 (by decide)) (by decide)

/-- The coefficients as the host has them. -/
def coeffList : List ℤ := (List.range 16).map fun k => (coeff k).toInt

/-- The block that the host dequantises: a block of fifteen coefficients begins at
the second position of the scan. -/
def hostBlock (qp : BitVec 6) (maxCoeff : ℕ) : Block :=
  factored qp.toNat
    (inverseScan (if maxCoeff = 15 then 0::coeffList coeff else coeffList coeff))

/-- The block that the hardware dequantises: every block begins at the first
position of the scan. -/
def inPlace (qp : BitVec 6) (maxCoeff : ℕ) : Block :=
  factored qp.toNat (inverseScan ((coeffList coeff).take maxCoeff))

/-- Two residual samples that no prediction tells apart: equal, or both beyond the
range of samples on one side. -/
def Alike (r r' : ℤ) : Prop := r=r' ∨ (255≤r ∧ 255≤r') ∨ (r ≤ -255 ∧ r' ≤ -255)

theorem alike_iff (r r' : ℤ) :
    (∀ v : BitVec 8, clip1 (v.toNat+r)=clip1 (v.toNat+r')) ↔ Alike r r' := by
  unfold Alike clip1
  constructor
  · intro h
    have hzero : max 0 (min 255 ((0 : ℤ)+r))=max 0 (min 255 (0+r')) := h 0#8
    have hfull : max 0 (min 255 ((255 : ℤ)+r))=max 0 (min 255 (255+r')) := h 255#8
    omega
  · omega

theorem coeffList_getD {k : ℕ} (hk : k<16) : (coeffList coeff).getD k 0=(coeff k).toInt := by
  have hlen : k<(coeffList coeff).length := by
    exact hk
  rw [getD_eq_getElem _ _ hlen]
  simp only [coeffList,getElem_map,getElem_range]

theorem scanOf_eq :
    ∀ i<4, ∀ j<4, scanOf.getD (4*i+j) 0=Standard.zigzag.idxOf (i,j) ∧
      Standard.zigzag.idxOf (i,j)<16 := by
  decide

theorem dequant_inPlace (qp : BitVec 6) (maxCoeff : ℕ) {i j : ℕ} (hi : i<4) (hj : j<4) :
    dequant coeff qp maxCoeff (4*i+j)=signed 26 (inPlace coeff qp maxCoeff i j) := by
  obtain ⟨hscan,hlt⟩ := scanOf_eq i hi j hj
  rw [dequant_eq coeff qp maxCoeff (by omega),hscan,show (4*i+j)/4=i by omega,
    show (4*i+j)%4=j by omega,inPlace,factored,inverseScan]
  generalize Standard.zigzag.idxOf (i,j)=k at hlt
  by_cases hk : k < maxCoeff
  · have htake : ((coeffList coeff).take maxCoeff).getD k 0=(coeffList coeff).getD k 0 := by
      rw [getD_eq_getElem?_getD,getElem?_take_of_lt hk,← getD_eq_getElem?_getD]
    rw [if_pos hk,htake,coeffList_getD coeff hlt]
  · have htake : ((coeffList coeff).take maxCoeff).getD k 0=0 := by
      rw [getD_eq_getElem?_getD,getElem?_take_eq_none (by omega)]
      rfl
    rw [if_neg hk,htake,zero_mul]
    rfl

theorem factor_le (qp i j k l : ℕ) :
    0<factor qp i j ∧ factor qp i j≤3*factor qp k l := by
  have htable : ∀ m<6, ∀ a<3, ∀ b<3, 0<(normMatrix.getD m []).getD a 0 ∧
      (normMatrix.getD m []).getD a 0≤3*(normMatrix.getD m []).getD b 0 := by
    decide
  have hclass : ∀ i j : ℕ, (if i%2 = 0 ∧ j%2 = 0 then 0
      else if i%2 = 1 ∧ j%2 = 1 then 1 else 2)<3 := by
    intro i j
    split_ifs <;> omega
  obtain ⟨hpos,hle⟩ := htable (qp%6) (Nat.mod_lt _ (by omega)) _ (hclass i j) _ (hclass k l)
  have hpow : (0 : ℤ)<2^(qp/6) := by positivity
  unfold factor normAdjust4x4
  refine ⟨by positivity,?_⟩
  rw [← mul_assoc]
  exact mul_le_mul_of_nonneg_right hle hpow.le

theorem holds_of_fits16 {c : ℤ} {qp i j k l : ℕ} (h : Fits16 (c*factor qp k l)) :
    Holds 26 (c*factor qp i j) := by
  obtain ⟨hpos,hle⟩ := factor_le qp i j k l
  obtain ⟨hlow,hhigh⟩ := h
  unfold Holds
  norm_num
  constructor
  · nlinarith
  · nlinarith

section

variable {coeff : ℕ → BitVec 16} {qp : BitVec 6} {maxCoeff : ℕ}

theorem inPlace_full (coeff : ℕ → BitVec 16) (qp : BitVec 6) :
    inPlace coeff qp 16=hostBlock coeff qp 16 := by
  have hlen : (coeffList coeff).length≤16 := by
    rw [coeffList,length_map,length_range]
  rw [inPlace,hostBlock,take_of_length_le hlen,if_neg (by decide)]

theorem holds_inPlace (hmax : maxCoeff=16 ∨ maxCoeff=15)
    (hfits : FitsBlock 4 (hostBlock coeff qp maxCoeff)) {i j : ℕ} (hi : i<4) (hj : j<4) :
    Holds 26 (inPlace coeff qp maxCoeff i j) := by
  cases hmax with
  | inl hfull =>
    subst hfull
    exact holds_of_fits16 (hfits i hi j hj)
  | inr hac =>
    subst hac
    have hnext : ∀ k<15, ∃ i'<4, ∃ j'<4, Standard.zigzag.idxOf (i',j')=k+1 := by
      decide
    rw [inPlace,factored,inverseScan]
    generalize Standard.zigzag.idxOf (i,j)=k
    by_cases hk : k<15
    · obtain ⟨i',hi',j',hj',hplace⟩ := hnext k hk
      have hhost := hfits i' hi' j' hj'
      rw [hostBlock,if_pos rfl,factored,inverseScan,hplace,getD_cons_succ] at hhost
      rw [getD_eq_getElem?_getD,getElem?_take_of_lt hk,← getD_eq_getElem?_getD]
      exact holds_of_fits16 hhost
    · rw [getD_eq_getElem?_getD,getElem?_take_eq_none (by omega),Option.getD_none,
        zero_mul]
      decide

theorem dequant4x4_hostBlock (hmax : maxCoeff=16 ∨ maxCoeff=15)
    (hfits : FitsBlock 4 (hostBlock coeff qp maxCoeff)) {i j : ℕ} (hi : i<4) (hj : j<4) :
    dequant4x4 (coeffList coeff) maxCoeff qp.toNat i j=hostBlock coeff qp maxCoeff i j := by
  rw [← int16_of_fits (hfits i hi j hj)]
  cases hmax with
  | inl hfull =>
    subst hfull
    exact dequant4x4_at_full (coeffList coeff) qp.toNat hi hj
  | inr hac =>
    subst hac
    exact dequant4x4_at_ac (coeffList coeff) qp.toNat hi hj

theorem chain_eq_samples (hmax : maxCoeff=16 ∨ maxCoeff=15)
    (hfits : FitsBlock 4 (hostBlock coeff qp maxCoeff)) (pred : ℕ → BitVec 8) {i j : ℕ}
    (hi : i<4) (hj : j<4) :
    chain coeff qp maxCoeff pred (4*i+j) =
      samples (inPlace coeff qp maxCoeff) (predBlock pred) i j := by
  have hvalue : ∀ k<4, ∀ l<4,
      dequant coeff qp maxCoeff (4*k+l)=inPlace coeff qp maxCoeff k l := by
    intro k hk l hl
    rw [dequant_inPlace coeff qp maxCoeff hk hl]
    exact signed_of_holds (by omega) (holds_inPlace hmax hfits hk hl)
  have hsmall : ∀ p<16, Holds 26 (dequant coeff qp maxCoeff p) := by
    intro p hp
    have hp' := hvalue (p/4) (by omega) (p%4) (by omega)
    rw [Nat.div_add_mod] at hp'
    rw [hp']
    exact holds_inPlace hmax hfits (by omega) (by omega)
  rw [chain,recon_eq hsmall pred hi hj]
  exact samples_congr hvalue _ i j

/-- Where the host's values fit sixteen bits, hardware and host give the same
samples for every prediction if the block is full, and if it has fifteen
coefficients exactly when no prediction tells apart the residual samples of the
block in place and of the block one position later. -/
theorem chain_eq_host_iff (coeff : ℕ → BitVec 16) (qp : BitVec 6) (maxCoeff : ℕ)
    (hmax : maxCoeff=16 ∨ maxCoeff=15) (hfits : FitsBlock 4 (hostBlock coeff qp maxCoeff)) :
    (∀ pred : ℕ → BitVec 8, ∀ i<4, ∀ j<4, chain coeff qp maxCoeff pred (4*i+j) =
        idct4x4Add (dequant4x4 (coeffList coeff) maxCoeff qp.toNat) (predBlock pred) i j) ↔
      (maxCoeff=15 → ∀ i<4, ∀ j<4,
        Alike (residual (factored qp.toNat (inverseScan ((coeffList coeff).take 15))) i j)
          (residual (factored qp.toNat (inverseScan (0::coeffList coeff))) i j)) := by
  have hhost := fun pred i j =>
    idct4x4Add_eq (fun k hk l hl => dequant4x4_hostBlock hmax hfits hk hl) (predBlock pred) i j
  constructor
  · rintro hsame rfl i hi j hj
    refine (alike_iff _ _).mp fun v => ?_
    have hv := hsame (fun _ => v) i hi j hj
    rw [chain_eq_samples hmax hfits _ hi hj,hhost] at hv
    exact hv
  · intro halike pred i hi j hj
    rw [chain_eq_samples hmax hfits pred hi hj,hhost]
    cases hmax with
    | inl hfull =>
      subst hfull
      rw [inPlace_full]
    | inr hac =>
      subst hac
      exact (alike_iff _ _).mpr (halike rfl i hi j hj) (pred (4*i+j))

end

/-- A full block with one coefficient. -/
theorem chain_eq_host_single :
    chain (single 9#16) 28#6 16 (fun _ => 100#8) (4*1+2) =
      idct4x4Add (dequant4x4 (coeffList (single 9#16)) 16 28) (predBlock fun _ => 100#8) 1 2 :=
  (chain_eq_host_iff (single 9#16) 28#6 16 (Or.inl rfl) (by decide)).mpr
    (fun h => absurd h (by decide)) (fun _ => 100#8) 1 (by decide) 2 (by decide)

/-- In a block of fifteen coefficients the first one is a horizontal wave for the
host and a constant for the hardware. -/
theorem chain_ne_host :
    FitsBlock 4 (hostBlock (single 9#16) 28#6 15) ∧
      chain (single 9#16) 28#6 15 (fun _ => 100#8) (4*0+3) ≠
        idct4x4Add (dequant4x4 (coeffList (single 9#16)) 15 28) (predBlock fun _ => 100#8) 0 3 := by
  decide

end Misterplex.Recon.Rtl
