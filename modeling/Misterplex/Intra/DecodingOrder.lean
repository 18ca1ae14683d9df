import Misterplex.Intra.NbCtx
import Mathlib.Tactic.Ring

/-!
# Neighbours by decoding order

The plane holds the samples of exactly the earlier blocks. For a picture of
whole macroblocks the neighbours the host reads are therefore the samples of
the picture on every side that is there, and the samples above to the right
are repeated where their block comes later.
-/

namespace Misterplex.Intra

open List

namespace PicSize

/-- The picture consists of whole macroblocks. -/
structure Whole (d : PicSize) : Prop where
  /-- Whole macroblocks in a row. -/
  width : d.width%16=0
  /-- Whole rows of macroblocks. -/
  height : d.height%16=0

variable {d : PicSize}

theorem Whole.width_eq (h : d.Whole) : d.width=16*d.mbW := by
  have hw := h.width
  unfold mbW
  omega

theorem Whole.height_eq (h : d.Whole) : d.height=16*d.mbH := by
  have hh := h.height
  unfold mbH
  omega

/-- The place of the block of a sample in the decoding order of the picture. -/
def order (d : PicSize) (px py : ℕ) : ℕ :=
  16*(py/16*d.mbW+px/16)+blkOrd (px%16/4) (py%16/4)

theorem blkOrd_lt {lx ly : ℕ} (hx : lx<4) (hy : ly<4) : blkOrd lx ly<16 := by
  unfold blkOrd
  omega

theorem blk_bounds {k : ℕ} (h : k<16) : blkX k<4 ∧ blkY k<4 := by
  unfold blkX blkY
  omega

theorem blkOrd_eq_iff {lx ly k : ℕ} (hx : lx<4) :
    blkOrd lx ly=k ↔ lx=blkX k ∧ ly=blkY k := by
  unfold blkOrd blkX blkY
  omega

theorem mb_eq_iff {W x y n : ℕ} (hx : x<W) : y*W+x=n ↔ x=n%W ∧ y=n/W := by
  have hW : 0<W := by omega
  constructor
  · intro h
    have hmod : (y*W+x)%W=x := by
      rw [Nat.add_comm,Nat.add_mul_mod_self_right,Nat.mod_eq_of_lt hx]
    have hdiv : (y*W+x)/W=y := by
      rw [Nat.add_comm,Nat.add_mul_div_right _ _ hW,Nat.div_eq_of_lt hx,Nat.zero_add]
    rw [← h,hmod,hdiv]
    exact ⟨rfl,rfl⟩
  · rintro ⟨hmod,hdiv⟩
    rw [hmod,hdiv,Nat.mul_comm]
    exact Nat.div_add_mod n W

theorem order_eq_iff {px py m : ℕ} (hx : px/16<d.mbW) :
    d.order px py=m ↔
      (m/16%d.mbW*16+blkX (m%16)*4≤px ∧
        px < m/16%d.mbW*16+blkX (m%16)*4+4) ∧
      m/16/d.mbW*16+blkY (m%16)*4≤py ∧
        py < m/16/d.mbW*16+blkY (m%16)*4+4 := by
  have hcol : px%16/4<4 := by omega
  have hrow : py%16/4<4 := by omega
  have hk : m%16<16 := Nat.mod_lt m (by decide)
  have hlt := blkOrd_lt hcol hrow
  have hbounds := blk_bounds hk
  have hsplit : d.order px py=m ↔
      py/16*d.mbW+px/16=m/16 ∧ blkOrd (px%16/4) (py%16/4)=m%16 := by
    unfold order
    omega
  rw [hsplit,mb_eq_iff hx,blkOrd_eq_iff hcol]
  omega

variable (sample : ℕ → ℕ → UInt8) {px py : ℕ}

theorem foldl_setY (x0 y0 : ℕ) (hx : px<d.width)
    (hy : py<d.height) (ks : List ℕ) (y : ℕ → ℕ → UInt8) :
    ks.foldl (fun y k => d.setY y (x0+k%4) (y0+k/4) (sample (x0+k%4) (y0+k/4))) y
        px py =
      if ∃ k ∈ ks, px=x0+k%4 ∧ py = y0+k/4 then sample px py else y px py := by
  induction ks generalizing y with
  | nil => simp
  | cons k ks ih =>
    rw [foldl_cons,ih]
    by_cases hrest : ∃ k∈ks, px=x0+k%4 ∧ py=y0+k/4
    · obtain ⟨j,hj,hat⟩ := hrest
      rw [if_pos ⟨j,hj,hat⟩,if_pos ⟨j,mem_cons_of_mem k hj,hat⟩]
    · rw [if_neg hrest]
      by_cases hat : px=x0+k%4 ∧ py=y0+k/4
      · have hin : x0+k%4<d.width ∧ y0+k/4<d.height := by omega
        rw [if_pos ⟨k,mem_cons_self,hat⟩,setY,if_pos hin,← hat.1,← hat.2,
          Function.update_self,Function.update_self]
      · have hnone : ¬ ∃ j∈k::ks, px=x0+j%4 ∧ py=y0+j/4 := by
          rintro ⟨j,hj,hjat⟩
          cases mem_cons.mp hj with
          | inl heq => exact hat (heq ▸ hjat)
          | inr hmem => exact hrest ⟨j,hmem,hjat⟩
        rw [if_neg hnone,setY]
        split
        · by_cases hcol : px=x0+k%4
          · have hrow : py≠y0+k/4 := fun h => hat ⟨hcol,h⟩
            rw [← hcol,Function.update_self,Function.update_of_ne hrow]
          · rw [Function.update_of_ne hcol]
        · rfl

theorem setBlock_apply (sample y : ℕ → ℕ → UInt8) (m : ℕ) (h : d.Whole)
    (hx : px<d.width) (hy : py<d.height) :
    d.setBlock sample y m px py = if d.order px py = m then sample px py else y px py := by
  have hwidth := h.width_eq
  have hat : d.order px py=m ↔ _ := order_eq_iff (by omega)
  unfold setBlock
  rw [foldl_setY sample _ _ hx hy]
  have hiff : (∃ k∈range 16,
      px=m/16%d.mbW*16+blkX (m%16)*4+k%4 ∧
        py=m/16/d.mbW*16+blkY (m%16)*4+k/4) ↔ d.order px py=m := by
    rw [hat]
    constructor
    · rintro ⟨k,hk,hpx,hpy⟩
      have hlt := mem_range.mp hk
      omega
    · rintro ⟨⟨hx0,hx1⟩,hy0,hy1⟩
      refine ⟨(py-(m/16/d.mbW*16+blkY (m%16)*4))*4 +
        (px-(m/16%d.mbW*16+blkX (m%16)*4)),mem_range.mpr ?_,?_,?_⟩
      · omega
      · omega
      · omega
  by_cases hm : d.order px py = m
  · rw [if_pos (hiff.mpr hm),if_pos hm]
  · rw [if_neg (mt hiff.mp hm),if_neg hm]

theorem planeBefore_apply (m : ℕ) (h : d.Whole) (hx : px<d.width) (hy : py<d.height) :
    d.planeBefore sample m px py = if d.order px py < m then sample px py else 128 := by
  induction m with
  | zero => rfl
  | succ m ih =>
    have hstep : d.planeBefore sample (m+1)=d.setBlock sample (d.planeBefore sample m) m := by
      unfold planeBefore
      rw [range_succ,foldl_append,foldl_cons,foldl_nil]
    rw [hstep,setBlock_apply sample _ m h hx hy,ih]
    by_cases hm : d.order px py=m
    · rw [if_pos hm,if_pos (by omega)]
    · rw [if_neg hm]
      by_cases hlt : d.order px py < m
      · rw [if_pos hlt,if_pos (by omega)]
      · rw [if_neg hlt,if_neg (by omega)]

theorem lumaReady_eq {px py mbx mby lx ly : ℕ} (hx : px<d.width) (hy : py<d.height)
    (hlx : lx<4) (hly : ly<4) :
    d.lumaReady px py mbx mby lx ly =
      decide (d.order px py<16*(mby*d.mbW+mbx)+blkOrd lx ly) := by
  have hcol : px%16/4<4 := by omega
  have hrow : py%16/4<4 := by omega
  have hpix := blkOrd_lt hcol hrow
  have hblk := blkOrd_lt hlx hly
  unfold lumaReady order
  rw [if_neg (by omega)]
  dsimp only
  split
  · exact (decide_eq_true (by omega)).symm
  · split
    · exact (decide_eq_false (by omega)).symm
    · apply decide_eq_decide.mpr
      omega

theorem order_lt_iff {px py mbx mby lx ly : ℕ} (hx : px/16<d.mbW) (hmbx : mbx<d.mbW)
    (hlx : lx<4) (hly : ly<4) :
    d.order px py<16*(mby*d.mbW+mbx)+blkOrd lx ly ↔
      py/16 < mby ∨ py/16=mby ∧ (px/16 < mbx ∨
        px/16=mbx ∧ blkOrd (px%16/4) (py%16/4)<blkOrd lx ly) := by
  have hcol : px%16/4<4 := by omega
  have hrow : py%16/4<4 := by omega
  have hpix := blkOrd_lt hcol hrow
  have hblk := blkOrd_lt hlx hly
  unfold order
  rcases Nat.lt_trichotomy (py/16) mby with hlt | heq | hgt
  · have hrows : (py/16+1)*d.mbW ≤ mby*d.mbW := Nat.mul_le_mul_right _ hlt
    have hmul : (py/16+1)*d.mbW=py/16*d.mbW+d.mbW := by ring
    exact iff_of_true (by omega) (Or.inl hlt)
  · rw [heq]
    omega
  · have hrows : (mby+1)*d.mbW≤py/16*d.mbW := Nat.mul_le_mul_right _ hgt
    have hmul : (mby+1)*d.mbW=mby*d.mbW+d.mbW := by ring
    exact iff_of_false (by omega) (by omega)

/-- The block above to the right of a block is in the picture and comes
earlier in decoding order. -/
def RightReady (d : PicSize) (mbx lx ly : ℕ) : Prop :=
  (ly=0 ∧ (lx<3 ∨ mbx+1<d.mbW)) ∨ (0<ly ∧ lx<3 ∧ ¬ (lx=1 ∧ ly%2=1))

instance (mbx lx ly : ℕ) : Decidable (d.RightReady mbx lx ly) := by
  unfold RightReady
  infer_instance

/-- A block of a picture. -/
structure Block (d : PicSize) (mbx mby lx ly : ℕ) : Prop where
  mbx : mbx<d.mbW
  mby : mby<d.mbH
  lx : lx<4
  ly : ly<4

variable {mbx mby lx ly : ℕ}

theorem ready_above (h : d.Whole) (hb : d.Block mbx mby lx ly) (hrow : 0 < mby*16+ly*4)
    {t : ℕ} (ht : t<4) :
    d.lumaReady (mbx*16+lx*4+t) (mby*16+ly*4-1) mbx mby lx ly=true := by
  have hwidth := h.width_eq
  have hheight := h.height_eq
  obtain ⟨hmbx,hmby,hlx,hly⟩ := hb
  rw [lumaReady_eq (by omega) (by omega) hlx hly]
  apply decide_eq_true
  rw [order_lt_iff (by omega) hmbx hlx hly]
  by_cases hzero : ly=0
  · omega
  · unfold blkOrd
    omega

theorem ready_left (h : d.Whole) (hb : d.Block mbx mby lx ly) (hcol : 0 < mbx*16+lx*4)
    {t : ℕ} (ht : t<4) :
    d.lumaReady (mbx*16+lx*4-1) (mby*16+ly*4+t) mbx mby lx ly=true := by
  have hwidth := h.width_eq
  have hheight := h.height_eq
  obtain ⟨hmbx,hmby,hlx,hly⟩ := hb
  rw [lumaReady_eq (by omega) (by omega) hlx hly]
  apply decide_eq_true
  rw [order_lt_iff (by omega) hmbx hlx hly]
  by_cases hzero : lx=0
  · omega
  · unfold blkOrd
    omega

theorem ready_corner (h : d.Whole) (hb : d.Block mbx mby lx ly)
    (hcol : 0 < mbx*16+lx*4) (hrow : 0 < mby*16+ly*4) :
    d.lumaReady (mbx*16+lx*4-1) (mby*16+ly*4-1) mbx mby lx ly=true := by
  have hwidth := h.width_eq
  have hheight := h.height_eq
  obtain ⟨hmbx,hmby,hlx,hly⟩ := hb
  rw [lumaReady_eq (by omega) (by omega) hlx hly]
  apply decide_eq_true
  rw [order_lt_iff (by omega) hmbx hlx hly]
  by_cases hzero : lx=0 ∨ ly=0
  · omega
  · unfold blkOrd
    omega

theorem ready_right (h : d.Whole) (hb : d.Block mbx mby lx ly) (hrow : 0 < mby*16+ly*4)
    {t : ℕ} (hlow : 4≤t) (ht : t<8) :
    d.lumaReady (mbx*16+lx*4+t) (mby*16+ly*4-1) mbx mby lx ly =
      decide (d.RightReady mbx lx ly) := by
  have hwidth := h.width_eq
  have hheight := h.height_eq
  obtain ⟨hmbx,hmby,hlx,hly⟩ := hb
  unfold RightReady
  by_cases hout : d.width ≤ mbx*16+lx*4+t
  · unfold lumaReady
    rw [if_pos (Or.inl hout)]
    exact (decide_eq_false (by omega)).symm
  · rw [lumaReady_eq (by omega) (by omega) hlx hly]
    apply decide_eq_decide.mpr
    rw [order_lt_iff (by omega) hmbx hlx hly]
    by_cases hzero : ly=0
    · omega
    · by_cases hlast : lx=3
      · omega
      · unfold blkOrd
        omega

/-- The number of a block in the decoding order of the picture. -/
def number (d : PicSize) (mbx mby lx ly : ℕ) : ℕ := 16*(mby*d.mbW+mbx)+blkOrd lx ly

theorem yAt_of_ready (h : d.Whole) (hb : d.Block mbx mby lx ly)
    (hready : d.lumaReady px py mbx mby lx ly=true) :
    d.yAt (d.planeBefore sample (d.number mbx mby lx ly)) px py=sample px py := by
  by_cases hout : d.width≤px ∨ d.height≤py
  · unfold lumaReady at hready
    rw [if_pos hout] at hready
    exact absurd hready Bool.false_ne_true
  · rw [lumaReady_eq (by omega) (by omega) hb.lx hb.ly] at hready
    unfold yAt
    rw [if_neg hout,planeBefore_apply sample _ h (by omega) (by omega)]
    exact if_pos (of_decide_eq_true hready)

/-- The neighbours the host reads for a block of whole macroblocks. -/
structure Reads (d : PicSize) (sample : ℕ → ℕ → UInt8) (mbx mby lx ly : ℕ) (n : Neighbours) :
    Prop where
  /-- There are samples above below the first row. -/
  has_above : n.has_above=decide (0 < mby*16+ly*4)
  /-- There are samples to the left behind the first column. -/
  has_left : n.has_left=decide (0 < mbx*16+lx*4)
  above : 0 < mby*16+ly*4 → ∀ t<4,
    n.above t=sample (mbx*16+lx*4+t) (mby*16+ly*4-1)
  /-- The samples above to the right, or the last one above again. -/
  right : 0 < mby*16+ly*4 → ∀ t, 4≤t → t<8 →
    n.above t=sample (mbx*16+lx*4+if d.RightReady mbx lx ly then t else 3)
      (mby*16+ly*4-1)
  left : 0 < mbx*16+lx*4 → ∀ t<4,
    n.left t=sample (mbx*16+lx*4-1) (mby*16+ly*4+t)
  top_left : 0 < mby*16+ly*4 → 0 < mbx*16+lx*4 →
    n.top_left=sample (mbx*16+lx*4-1) (mby*16+ly*4-1)

/-- The neighbours are read off the plane as decoded so far. -/
theorem neighbours_reads (h : d.Whole) (hb : d.Block mbx mby lx ly) : d.Reads sample mbx mby lx ly
      (d.neighbours (d.planeBefore sample (d.number mbx mby lx ly)) mbx mby lx ly) := by
  have hha : (decide (0 < mby*16+ly*4) &&
      d.lumaReady (mbx*16+lx*4) (mby*16+ly*4-1) mbx mby lx ly) =
        decide (0 < mby*16+ly*4) := by
    by_cases hrow : 0 < mby*16+ly*4
    · have hready := ready_above h hb hrow (t := 0) (by decide)
      rw [Nat.add_zero] at hready
      rw [hready,Bool.and_true]
    · rw [decide_eq_false hrow,Bool.false_and]
  have hhl : (decide (0 < mbx*16+lx*4) &&
      d.lumaReady (mbx*16+lx*4-1) (mby*16+ly*4) mbx mby lx ly) =
        decide (0 < mbx*16+lx*4) := by
    by_cases hcol : 0 < mbx*16+lx*4
    · have hready := ready_left h hb hcol (t := 0) (by decide)
      rw [Nat.add_zero] at hready
      rw [hready,Bool.and_true]
    · rw [decide_eq_false hcol,Bool.false_and]
  unfold neighbours
  simp only [hha,hhl]
  constructor
  · rfl
  · rfl
  · intro hrow t ht
    dsimp only
    rw [if_pos ht,decide_eq_true hrow,if_pos rfl]
    exact yAt_of_ready sample h hb (ready_above h hb hrow ht)
  · intro hrow t hlow ht
    have hright := ready_right h hb hrow hlow ht
    dsimp only
    rw [if_neg (by omega),decide_eq_true hrow,Bool.true_and,if_pos rfl,hright]
    by_cases hready : d.RightReady mbx lx ly
    · rw [decide_eq_true hready] at hright
      rw [if_pos (decide_eq_true hready),if_pos hready]
      exact yAt_of_ready sample h hb hright
    · rw [if_neg (mt of_decide_eq_true hready),if_neg hready]
      exact yAt_of_ready sample h hb (ready_above h hb hrow (by decide))
  · intro hcol t ht
    rw [decide_eq_true hcol,if_pos rfl]
    exact yAt_of_ready sample h hb (ready_left h hb hcol ht)
  · intro hrow hcol
    have hready := ready_corner h hb hcol hrow
    rw [decide_eq_true hrow,decide_eq_true hcol,hready]
    exact yAt_of_ready sample h hb hready

end PicSize

end Misterplex.Intra
