import Mathlib.Tactic.IntervalCases
import Misterplex.Inter.DpbFetch

/-!
# Interpolation of a fetched block

The luma and chroma interpolation over the windows of a fetch, in signed arithmetic of 32
bits, with the mask of the partition's size. The windows are one place late, so the block is
that of a picture moved one column to the right, with the end of the row above in its first
column. It is the prediction exactly where this picture gives the same samples.
-/

namespace Misterplex.Inter

open Trace

/-- The value of an integer of 32 bits. -/
def integer (v : ℤ) : ℤ := Int.bmod v (2^32)

/-- An integer clipped to a sample. -/
def clipInteger (v : ℤ) : ℤ := if v < 0 then 0 else if v > 255 then 255 else v

/-- The low eight bits of an integer. -/
def low8 (v : ℤ) : BitVec 8 := BitVec.ofInt 8 v

/-- Rounded mean. -/
def avg2 (a b : ℤ) : ℤ := integer (a+b+1) >>> 1

section Luma

variable (refWin : ℕ → BitVec 8)

/-- The luma sample in a row and a column of the window. -/
def pix (r c : ℤ) : ℤ := (refWin (r*21+c).toNat).toNat

variable (row col : ℤ)

/-- The six-tap filter along a row. -/
def hrawAt : ℤ :=
  integer (pix refWin row (col-2)-5*pix refWin row (col-1) +
    20*pix refWin row col+20*pix refWin row (col+1) -
    5*pix refWin row (col+2)+pix refWin row (col+3))

/-- The half sample along a row. -/
def halfHAt : ℤ := clipInteger (integer (hrawAt refWin row col+16) >>> 5)

/-- The half sample along a column. -/
def halfVAt : ℤ :=
  clipInteger (integer (pix refWin (row-2) col-5*pix refWin (row-1) col +
    20*pix refWin row col+20*pix refWin (row+1) col -
    5*pix refWin (row+2) col+pix refWin (row+3) col+16) >>> 5)

/-- The half sample between rows and columns. -/
def halfCAt : ℤ :=
  let sum := integer (hrawAt refWin (row-2) col-5*hrawAt refWin (row-1) col +
    20*hrawAt refWin row col+20*hrawAt refWin (row+1) col -
    5*hrawAt refWin (row+2) col+hrawAt refWin (row+3) col)
  clipInteger (integer (sum+512) >>> 10)

/-- The luma sample of the block at a column and a row. -/
def qpelAt (fracX fracY x y : ℕ) : BitVec 8 :=
  let col : ℤ := x+2
  let row : ℤ := y+2
  match fracY*4+fracX with
  | 0 => low8 (pix refWin row col)
  | 1 => low8 (avg2 (pix refWin row col) (halfHAt refWin row col))
  | 2 => low8 (halfHAt refWin row col)
  | 3 => low8 (avg2 (halfHAt refWin row col) (pix refWin row (col+1)))
  | 4 => low8 (avg2 (pix refWin row col) (halfVAt refWin row col))
  | 5 => low8 (avg2 (halfHAt refWin row col) (halfVAt refWin row col))
  | 6 => low8 (avg2 (halfHAt refWin row col) (halfCAt refWin row col))
  | 7 => low8 (avg2 (halfHAt refWin row col) (halfVAt refWin row (col+1)))
  | 8 => low8 (halfVAt refWin row col)
  | 9 => low8 (avg2 (halfVAt refWin row col) (halfCAt refWin row col))
  | 10 => low8 (halfCAt refWin row col)
  | 11 => low8 (avg2 (halfCAt refWin row col) (halfVAt refWin row (col+1)))
  | 12 => low8 (avg2 (halfVAt refWin row col) (pix refWin (row+1) col))
  | 13 => low8 (avg2 (halfHAt refWin (row+1) col) (halfVAt refWin row col))
  | 14 => low8 (avg2 (halfCAt refWin row col) (halfHAt refWin (row+1) col))
  | _ => low8 (avg2 (halfHAt refWin (row+1) col) (halfVAt refWin row (col+1)))

end Luma

/-- A chroma sample of the window. -/
def chromaPix (refWin : ℕ → BitVec 8) (idx : ℕ) : ℤ := (refWin idx).toNat

/-- The chroma sample of the block at a column and a row. -/
def interp (refWin : ℕ → BitVec 8) (fracX fracY x y : ℕ) : BitVec 8 :=
  let fx : ℤ := fracX
  let fy : ℤ := fracY
  let p00 := chromaPix refWin (y*9+x)
  let p10 := chromaPix refWin (y*9+x+1)
  let p01 := chromaPix refWin ((y+1)*9+x)
  let p11 := chromaPix refWin ((y+1)*9+x+1)
  let sum := integer ((8-fx)*(8-fy)*p00+fx*(8-fy)*p10 +
    (8-fx)*fy*p01+fx*fy*p11+32)
  BitVec.ofInt 8 (sum >>> 6)

/-- The block of a partition. -/
structure McBlock where
  /-- Luma samples, 16 a row. -/
  predY : ℕ → BitVec 8
  /-- Which of them belong to the partition. -/
  predYValid : ℕ → Bool
  /-- Samples of the first chroma plane, 8 a row. -/
  predU : ℕ → BitVec 8
  /-- Which of them belong to the partition. -/
  predUValid : ℕ → Bool
  /-- Samples of the second chroma plane, 8 a row. -/
  predV : ℕ → BitVec 8
  /-- Which of them belong to the partition. -/
  predVValid : ℕ → Bool

/-- Whether a sample of a block with `cols` samples a row belongs to a partition. -/
def inPart (cols w h i : ℕ) : Bool := i%cols < w && i/cols < h

/-- A sample of a partition, or zero. -/
def masked (valid : Bool) (sample : BitVec 8) : BitVec 8 := if valid then sample else 0

/-- The interpolation of a partition from its windows. -/
def interMcPart (win : Windows) (lumaFracX lumaFracY chromaFracX chromaFracY : ℕ)
    (partW partH : Fin 32) : McBlock where
  predY i := masked (inPart 16 partW partH i) (qpelAt win.luma lumaFracX lumaFracY (i%16) (i/16))
  predYValid i := inPart 16 partW partH i
  predU i := masked (inPart 8 (partW/2 : ℕ) (partH/2 : ℕ) i)
    (interp win.u chromaFracX chromaFracY (i%8) (i/8))
  predUValid i := inPart 8 (partW/2 : ℕ) (partH/2 : ℕ) i
  predV i := masked (inPart 8 (partW/2 : ℕ) (partH/2 : ℕ) i)
    (interp win.v chromaFracX chromaFracY (i%8) (i/8))
  predVValid i := inPart 8 (partW/2 : ℕ) (partH/2 : ℕ) i

/-- The interpolation reads the fractions and the windows of the fetch. -/
def FetchUnit.block (f : FetchUnit) (partW partH : Fin 32) : McBlock :=
  interMcPart f.win f.dpb.lumaFracX f.dpb.lumaFracY f.dpb.chromaFracX f.dpb.chromaFracY partW partH

theorem sixTap_range {f : ℤ → ℤ} {bound : ℤ} (h : ∀ i, -bound≤f i ∧ f i≤bound) :
    -(52*bound) ≤ sixTap f ∧ sixTap f≤52*bound := by
  have h₁ := h (-2)
  have h₂ := h (-1)
  have h₃ := h 0
  have h₄ := h 1
  have h₅ := h 2
  have h₆ := h 3
  unfold sixTap
  constructor <;> omega

theorem sixTap_around (f : ℤ → ℤ) (p q : ℤ) :
    f (p+(q-2))-5*f (p+(q-1))+20*f (p+q)+20*f (p+(q+1)) -
      5*f (p+(q+2))+f (p+(q+3)) = sixTap fun i => f (p+q+i) := by
  unfold sixTap
  dsimp only
  rw [show p+(q-2)=p+q + -2 by omega,show p+(q-1)=p+q + -1 by omega,
    show p+(q+1)=p+q+1 by omega,show p+(q+2)=p+q+2 by omega,
    show p+(q+3)=p+q+3 by omega,show p+q+0=p+q by omega]

theorem integer_of_small {v : ℤ} (hlow : -2^31≤v) (hhigh : v<2^31) : integer v=v := by
  unfold integer
  rw [Int.bmod_eq_of_le] <;> omega

theorem clipInteger_eq (v : ℤ) : clipInteger v=clip1 v := rfl

theorem low8_toNat {v : ℤ} (h : 0≤v ∧ v≤255) : ((low8 v).toNat : ℤ)=v := by
  unfold low8
  rw [BitVec.toNat_ofInt]
  omega

theorem avg2_eq {a b : ℤ} (ha : 0≤a ∧ a≤255) (hb : 0≤b ∧ b≤255) : avg2 a b=mean a b := by
  unfold avg2 mean
  rw [integer_of_small (by omega) (by omega)]

/-- The luma window shows an image of samples from a column and a row on. -/
structure LumaShows (refWin : ℕ → BitVec 8) (g : ℤ → ℤ → ℤ) (left top : ℤ) : Prop where
  range : ∀ x y, 0≤g x y ∧ g x y≤255
  /-- The window has them in its places. -/
  pix_eq : ∀ r c : ℤ, 0≤r ∧ r≤20 → 0≤c ∧ c≤20 → pix refWin r c=g (left+c) (top+r)

section LumaShows

variable {refWin : ℕ → BitVec 8} {g : ℤ → ℤ → ℤ} {left top : ℤ}

theorem LumaShows.rowTap_range (h : LumaShows refWin g left top) (x y : ℤ) :
    -13260≤rowTap g x y ∧ rowTap g x y≤13260 := by
  have hsix : -(52*255)≤rowTap g x y ∧ rowTap g x y≤52*255 := by
    apply sixTap_range
    intro i
    have hsample := h.range (x+i) y
    constructor <;> omega
  constructor <;> omega

theorem LumaShows.colTap_range (h : LumaShows refWin g left top) (x y : ℤ) :
    -13260≤colTap g x y ∧ colTap g x y≤13260 := by
  have hsix : -(52*255)≤colTap g x y ∧ colTap g x y≤52*255 := by
    apply sixTap_range
    intro i
    have hsample := h.range x (y+i)
    constructor <;> omega
  constructor <;> omega

theorem LumaShows.hrawAt_eq (h : LumaShows refWin g left top) (row col : ℤ)
    (hrow : 0≤row ∧ row≤20) (hcol : 2≤col ∧ col≤17) :
    hrawAt refWin row col=rowTap g (left+col) (top+row) := by
  have hsmall := h.rowTap_range (left+col) (top+row)
  unfold hrawAt
  rw [h.pix_eq row (col-2) hrow (by omega),h.pix_eq row (col-1) hrow (by omega),
    h.pix_eq row col hrow (by omega),h.pix_eq row (col+1) hrow (by omega),
    h.pix_eq row (col+2) hrow (by omega),h.pix_eq row (col+3) hrow (by omega)]
  have hsum : _ = rowTap g (left+col) (top+row) :=
    sixTap_around (fun x => g x (top+row)) left col
  rw [hsum]
  exact integer_of_small (by omega) (by omega)

theorem LumaShows.halfHAt_eq (h : LumaShows refWin g left top) (row col : ℤ)
    (hrow : 0≤row ∧ row≤20) (hcol : 2≤col ∧ col≤17) :
    halfHAt refWin row col=halfRow g (left+col) (top+row) := by
  have hsmall := h.rowTap_range (left+col) (top+row)
  unfold halfHAt halfRow
  rw [h.hrawAt_eq row col hrow hcol,integer_of_small (by omega) (by omega),clipInteger_eq]

theorem LumaShows.halfVAt_eq (h : LumaShows refWin g left top) (row col : ℤ)
    (hrow : 2≤row ∧ row≤17) (hcol : 0≤col ∧ col≤20) :
    halfVAt refWin row col=halfCol g (left+col) (top+row) := by
  have hsmall := h.colTap_range (left+col) (top+row)
  unfold halfVAt halfCol
  rw [h.pix_eq (row-2) col (by omega) hcol,h.pix_eq (row-1) col (by omega) hcol,
    h.pix_eq row col (by omega) hcol,h.pix_eq (row+1) col (by omega) hcol,
    h.pix_eq (row+2) col (by omega) hcol,h.pix_eq (row+3) col (by omega) hcol]
  have hsum : _ = colTap g (left+col) (top+row) :=
    sixTap_around (fun y => g (left+col) y) top row
  rw [hsum,integer_of_small (by omega) (by omega),clipInteger_eq]

theorem LumaShows.halfCAt_eq (h : LumaShows refWin g left top) (row col : ℤ)
    (hrow : 2≤row ∧ row≤17) (hcol : 2≤col ∧ col≤17) :
    halfCAt refWin row col=centre g (left+col) (top+row) := by
  have hsmall : -(52*13260)≤crossTap g (left+col) (top+row) ∧
      crossTap g (left+col) (top+row)≤52*13260 := by
    apply sixTap_range
    intro i
    exact h.colTap_range (left+col+i) (top+row)
  unfold halfCAt centre
  rw [h.hrawAt_eq (row-2) col (by omega) hcol,h.hrawAt_eq (row-1) col (by omega) hcol,
    h.hrawAt_eq row col (by omega) hcol,h.hrawAt_eq (row+1) col (by omega) hcol,
    h.hrawAt_eq (row+2) col (by omega) hcol,h.hrawAt_eq (row+3) col (by omega) hcol]
  have hsum : _ = crossTap g (left+col) (top+row) :=
    (sixTap_around (fun y => rowTap g (left+col) y) top row).trans
      (crossTap_eq_rows g (left+col) (top+row)).symm
  rw [hsum,integer_of_small (v := crossTap g (left+col) (top+row)) (by omega) (by omega)]
  dsimp only
  rw [integer_of_small (by omega) (by omega),clipInteger_eq]

theorem LumaShows.lumaSample_range (h : LumaShows refWin g left top) (fx fy : ℕ) (x y : ℤ) :
    0≤lumaSample g fx fy x y ∧ lumaSample g fx fy x y≤255 := by
  have hrow : ∀ x y, 0≤halfRow g x y ∧ halfRow g x y≤255 := fun x y => clip1_range _
  have hcol : ∀ x y, 0≤halfCol g x y ∧ halfCol g x y≤255 := fun x y => clip1_range _
  have hcentre : ∀ x y, 0≤centre g x y ∧ centre g x y≤255 := fun x y => clip1_range _
  unfold lumaSample
  split
  · exact h.range _ _
  · exact mean_range (h.range _ _) (hcol _ _)
  · exact hcol _ _
  · exact mean_range (h.range _ _) (hcol _ _)
  · exact mean_range (h.range _ _) (hrow _ _)
  · exact mean_range (hrow _ _) (hcol _ _)
  · exact mean_range (hcol _ _) (hcentre _ _)
  · exact mean_range (hcol _ _) (hrow _ _)
  · exact hrow _ _
  · exact mean_range (hrow _ _) (hcentre _ _)
  · exact hcentre _ _
  · exact mean_range (hcentre _ _) (hrow _ _)
  · exact mean_range (h.range _ _) (hrow _ _)
  · exact mean_range (hrow _ _) (hcol _ _)
  · exact mean_range (hcentre _ _) (hcol _ _)
  · exact mean_range (hcol _ _) (hrow _ _)

theorem LumaShows.qpelAt_eq (h : LumaShows refWin g left top) (fx fy : ℕ) {x y : ℕ} (hfx : fx<4)
    (hfy : fy<4) (hx : x<16) (hy : y<16) :
    ((qpelAt refWin fx fy x y).toNat : ℤ) =
      lumaSample g fx fy (left+(x+2)) (top+(y+2)) := by
  have hrange := h.lumaSample_range fx fy (left+(x+2)) (top+(y+2))
  have hpix := h.pix_eq (y+2) (x+2) (by omega) (by omega)
  have hright := h.pix_eq (y+2) (x+2+1) (by omega) (by omega)
  have hbelow := h.pix_eq (y+2+1) (x+2) (by omega) (by omega)
  have hb := h.halfHAt_eq (y+2) (x+2) (by omega) (by omega)
  have hs := h.halfHAt_eq (y+2+1) (x+2) (by omega) (by omega)
  have hv := h.halfVAt_eq (y+2) (x+2) (by omega) (by omega)
  have hm := h.halfVAt_eq (y+2) (x+2+1) (by omega) (by omega)
  have hj := h.halfCAt_eq (y+2) (x+2) (by omega) (by omega)
  have hfull : ∀ x y, 0≤g x y ∧ g x y≤255 := h.range
  have hrowRange : ∀ x y, 0≤halfRow g x y ∧ halfRow g x y≤255 := fun x y => clip1_range _
  have hcolRange : ∀ x y, 0≤halfCol g x y ∧ halfCol g x y≤255 := fun x y => clip1_range _
  have hcentreRange : ∀ x y, 0≤centre g x y ∧ centre g x y≤255 := fun x y => clip1_range _
  have hx₁ : left+(x+2+1 : ℤ)=left+(x+2)+1 := by omega
  have hy₁ : top+(y+2+1 : ℤ)=top+(y+2)+1 := by omega
  rw [hx₁] at hright hm
  rw [hy₁] at hbelow hs
  have hsample : qpelAt refWin fx fy x y =
      low8 (lumaSample g fx fy (left+(x+2)) (top+(y+2))) := by
    unfold qpelAt
    dsimp only
    rw [hpix,hright,hbelow,hb,hs,hv,hm,hj]
    have havg : ∀ {a b : ℤ}, 0≤a ∧ a≤255 → 0≤b ∧ b≤255 →
        low8 (avg2 a b)=low8 (mean a b) ∧ low8 (avg2 a b)=low8 (mean b a) := by
      intro a b ha hb
      rw [avg2_eq ha hb]
      exact ⟨rfl,by rw [mean_comm]⟩
    interval_cases fy <;> interval_cases fx
    · rfl
    · exact (havg (hfull _ _) (hrowRange _ _)).1
    · rfl
    · exact (havg (hrowRange _ _) (hfull _ _)).2
    · exact (havg (hfull _ _) (hcolRange _ _)).1
    · exact (havg (hrowRange _ _) (hcolRange _ _)).1
    · exact (havg (hrowRange _ _) (hcentreRange _ _)).1
    · exact (havg (hrowRange _ _) (hcolRange _ _)).1
    · rfl
    · exact (havg (hcolRange _ _) (hcentreRange _ _)).1
    · rfl
    · exact (havg (hcentreRange _ _) (hcolRange _ _)).1
    · exact (havg (hcolRange _ _) (hfull _ _)).2
    · exact (havg (hrowRange _ _) (hcolRange _ _)).2
    · exact (havg (hcentreRange _ _) (hrowRange _ _)).1
    · exact (havg (hrowRange _ _) (hcolRange _ _)).2
  rw [hsample,low8_toNat hrange]

end LumaShows

/-- The chroma window shows an image of samples from a column and a row on. -/
structure ChromaShows (refWin : ℕ → BitVec 8) (g : ℤ → ℤ → ℤ) (left top : ℤ) : Prop where
  range : ∀ x y, 0≤g x y ∧ g x y≤255
  /-- The window has them in its places. -/
  pix_eq : ∀ r c : ℕ, r≤8 → c≤8 → chromaPix refWin (r*9+c)=g (left+c) (top+r)

theorem chroma_weights {fx fy : ℕ} (hfx : fx<8) (hfy : fy<8) {a b c d : ℤ}
    (ha : 0≤a ∧ a≤255) (hb : 0≤b ∧ b≤255) (hc : 0≤c ∧ c≤255) (hd : 0≤d ∧ d≤255) :
    0≤((8-fx)*(8-fy)*a+fx*(8-fy)*b+(8-fx)*fy*c+fx*fy*d+32 : ℤ) ∧
      ((8-fx)*(8-fy)*a+fx*(8-fy)*b+(8-fx)*fy*c+fx*fy*d+32 : ℤ) ≤
        16352 := by
  interval_cases fx <;> interval_cases fy <;> constructor <;> norm_num <;> omega

theorem ChromaShows.interp_eq {refWin : ℕ → BitVec 8} {g : ℤ → ℤ → ℤ} {left top : ℤ}
    (h : ChromaShows refWin g left top) {fx fy x y : ℕ} (hfx : fx<8) (hfy : fy<8) (hx : x<8)
    (hy : y<8) :
    ((interp refWin fx fy x y).toNat : ℤ)=chromaSample g fx fy (left+x) (top+y) := by
  have hrange := chroma_weights hfx hfy (h.range (left+x) (top+y))
    (h.range (left+x+1) (top+y)) (h.range (left+x) (top+y+1))
    (h.range (left+x+1) (top+y+1))
  have h₀₀ := h.pix_eq y x (by omega) (by omega)
  have h₁₀ := h.pix_eq y (x+1) (by omega) (by omega)
  have h₀₁ := h.pix_eq (y+1) x (by omega) (by omega)
  have h₁₁ := h.pix_eq (y+1) (x+1) (by omega) (by omega)
  rw [Nat.cast_succ,← Int.add_assoc] at h₁₀ h₀₁
  rw [Nat.cast_succ,Nat.cast_succ,← Int.add_assoc,← Int.add_assoc] at h₁₁
  unfold interp chromaSample
  dsimp only
  rw [h₀₀,Nat.add_assoc (y*9) x 1,h₁₀,h₀₁,Nat.add_assoc ((y+1)*9) x 1,h₁₁,
    integer_of_small (by omega) (by omega),BitVec.toNat_ofInt,Int.shiftRight_eq_div_pow]
  omega

/-- An image as late windows show it: moved one column to the right, the end of the row above in
its first column, and in the first place of all what was there before. -/
def lateImage (g : ℤ → ℤ → ℤ) (left top cols held x y : ℤ) : ℤ :=
  if x = left then if y = top then held else g (left+cols-1) (y-1) else g (x-1) y

theorem place_in_block {cols x : ℕ} (y : ℕ) (hx : x<cols) :
    (y*cols+x)%cols = x ∧ (y*cols+x)/cols=y := by
  constructor
  · rw [Nat.mul_comm,Nat.mul_add_mod,Nat.mod_eq_of_lt hx]
  · rw [Nat.mul_comm,Nat.mul_add_div (by omega),Nat.div_eq_of_lt hx,Nat.add_zero]

/-- The place behind a place of a window, in the image. -/
theorem lateImage_place (g : ℤ → ℤ → ℤ) (left top held : ℤ) {cols c : ℕ} (r : ℕ) (hc : c<cols) :
    (r*cols+c=0 → lateImage g left top cols held (left+c) (top+r)=held) ∧
      ∀ n, r*cols+c=n+1 → lateImage g left top cols held (left+c) (top+r) =
        g (left+(n%cols : ℕ)) (top+(n/cols : ℕ)) := by
  unfold lateImage
  cases c with
  | zero =>
    rw [if_pos (by omega)]
    cases r with
    | zero =>
      rw [if_pos (by omega)]
      exact ⟨fun _ => rfl,fun n hn => absurd hn (by omega)⟩
    | succ r =>
      rw [if_neg (by omega)]
      refine ⟨fun hnone => ?_,fun n hn => ?_⟩
      · rw [Nat.succ_mul] at hnone
        omega
      · have hend := place_in_block r (x := cols-1) (by omega : cols-1<cols)
        obtain rfl : n=r*cols+(cols-1) := by rw [Nat.succ_mul] at hn; omega
        congr 1 <;> omega
  | succ c =>
    have hhere := place_in_block r (by omega : c<cols)
    rw [if_neg (by omega)]
    refine ⟨fun hnone => absurd hnone (by omega),fun n hn => ?_⟩
    obtain rfl : n=r*cols+c := by omega
    rw [hhere.1,hhere.2]
    congr 1
    omega

theorem lateImage_range {g : ℤ → ℤ → ℤ} (hg : ∀ x y, 0≤g x y ∧ g x y≤255) (left top cols : ℤ)
    {held : ℤ} (hheld : 0≤held ∧ held≤255) (x y : ℤ) :
    0≤lateImage g left top cols held x y ∧ lateImage g left top cols held x y≤255 := by
  unfold lateImage
  split
  · split
    · exact hheld
    · exact hg _ _
  · exact hg _ _

theorem lateImage_moved (g : ℤ → ℤ → ℤ) (left top cols held : ℤ) {a : ℤ} (ha : left≤a) (y : ℤ) :
    lateImage g left top cols held (a+1) y=g a y := by
  unfold lateImage
  rw [if_neg (by omega),Int.add_sub_cancel]

/-- The luma plane as the window of a partition shows it. -/
def lateLuma (pic : Picture) (p : Partition) (mv : Mv) (held : ℤ) : ℤ → ℤ → ℤ :=
  lateImage pic.y.extended (p.left+(mv.x >>> 2)-2) (p.top+(mv.y >>> 2)-2) 21 held

/-- A chroma plane as the window of a partition shows it. -/
def lateChroma (plane : Plane) (p : Partition) (mv : Mv) (held : ℤ) : ℤ → ℤ → ℤ :=
  lateImage plane.extended (p.left/2+(mv.x >>> 3)) (p.top/2+(mv.y >>> 3)) 9 held

/-- The last sample of a luma window, which comes first in the first chroma window. -/
def lastLuma (pic : Picture) (p : Partition) (mv : Mv) : ℤ :=
  pic.y.extended (p.left+(mv.x >>> 2)+18) (p.top+(mv.y >>> 2)+18)

/-- The last sample of the first chroma window, which comes first in the second one. -/
def lastChroma (pic : Picture) (p : Partition) (mv : Mv) : ℤ :=
  pic.u.extended (p.left/2+(mv.x >>> 3)+8) (p.top/2+(mv.y >>> 3)+8)

/-- A part of a block does not change when it is moved: along a row the prediction is one value,
and the samples that come into the first column have it, too. -/
structure Unmoved (cols w h : ℕ) (pred : ℕ → ℕ → ℤ) (first : ℕ → ℤ) : Prop where
  /-- A row is one value. -/
  row : ∀ x y, x+1<cols → y<cols → x+1<w → y<h → pred (x+1) y=pred x y
  /-- The first column has it. -/
  first : ∀ y, y<cols → 0<w → y<h → first y=pred 0 y

/-- Some samples of a block are right exactly when they are unmoved, if they are those one column
to the left. -/
theorem unmoved_iff {cols w h : ℕ} {pred blk : ℕ → ℕ → ℤ} {first : ℕ → ℤ} (hcols : 0<cols)
    (hfirst : ∀ y, y<cols → blk 0 y=first y)
    (hnext : ∀ x y, x+1<cols → y<cols → blk (x+1) y=pred x y) :
    (∀ x y, x<cols → y<cols → x<w → y<h → blk x y=pred x y) ↔
      Unmoved cols w h pred first := by
  constructor
  · intro hright
    constructor
    case row =>
      intro x y hx hy hw hh
      rw [← hright (x+1) y hx hy hw hh,hnext x y hx hy]
    case first =>
      intro y hy hw hh
      rw [← hright 0 y hcols hy hw hh,hfirst y hy]
  · intro hstill x y hx hy hw hh
    cases x with
    | zero => rw [hfirst y hy,hstill.first y hy hw hh]
    | succ x => rw [hnext x y hx hy,hstill.row x y hx hy hw hh]

/-- The prediction of a partition does not change when its windows are one place late. The first
place of the luma window keeps what it held. -/
structure Partition.Still (p : Partition) (pic : Picture) (mv : Mv) (held : ℤ) (partW partH : ℕ) :
    Prop where
  /-- The luma prediction is unmoved. -/
  luma : Unmoved 16 partW partH (predLuma pic.y p mv) fun y =>
    lumaSample (lateLuma pic p mv held) (mv.x%4).toNat (mv.y%4).toNat
      (p.left+(mv.x >>> 2)) (p.top+(mv.y >>> 2)+y)
  /-- The first chroma prediction is unmoved. -/
  u : Unmoved 8 (partW/2) (partH/2) (predChroma pic.u p mv) fun y =>
    chromaSample (lateChroma pic.u p mv (lastLuma pic p mv)) (mv.x%8).toNat (mv.y%8).toNat
      (p.left/2+(mv.x >>> 3)) (p.top/2+(mv.y >>> 3)+y)
  /-- The second chroma prediction is unmoved. -/
  v : Unmoved 8 (partW/2) (partH/2) (predChroma pic.v p mv) fun y =>
    chromaSample (lateChroma pic.v p mv (lastChroma pic p mv)) (mv.x%8).toNat (mv.y%8).toNat
      (p.left/2+(mv.x >>> 3)) (p.top/2+(mv.y >>> 3)+y)

variable {start : DpbRegs} {pic : Picture} {held : ℤ} {f : FetchUnit} {p : Partition} {mv : Mv}

/-- The luma window shows the late luma plane. -/
theorem Fetched.lumaShows (h : Fetched pic start held f f.win) (hheld : 0≤held ∧ held≤255)
    (ho : Origins start p mv) :
    LumaShows f.win.luma (lateLuma pic p mv held) (p.left+(mv.x >>> 2)-2)
      (p.top+(mv.y >>> 2)-2) := by
  constructor
  case range => exact lateImage_range pic.y.extended_range _ _ _ hheld
  case pix_eq =>
    intro r c hr hc
    obtain ⟨row,rfl⟩ := Int.eq_ofNat_of_zero_le hr.1
    obtain ⟨col,rfl⟩ := Int.eq_ofNat_of_zero_le hc.1
    have hfilled := h.filled (row*21+col) (by omega)
    obtain ⟨hzero,hsucc⟩ := lateImage_place pic.y.extended (p.left+(mv.x >>> 2)-2)
      (p.top+(mv.y >>> 2)-2) held row (by omega : col<21)
    unfold beatPlane beatIdx at hfilled
    rw [if_pos (by omega),if_pos (by omega)] at hfilled
    refine hfilled.trans ?_
    cases hn : row*21+col with
    | zero => exact (hzero hn).symm
    | succ n =>
      refine Eq.trans ?_ (hsucc n hn).symm
      show wanted pic start (beatPlane n) (beatIdx n)=_
      unfold beatPlane beatIdx wanted
      rw [if_pos (by omega),if_pos (by omega),ho.lumaX,ho.lumaY]
      dsimp only
      congr 1 <;> omega

/-- A chroma window of samples from one number on shows the late chroma plane. -/
theorem Fetched.chromaShows (h : Fetched pic start held f f.win) (ho : Origins start p mv) :
    ChromaShows f.win.u (lateChroma pic.u p mv (lastLuma pic p mv)) (p.left/2+(mv.x >>> 3))
        (p.top/2+(mv.y >>> 3)) ∧
      ChromaShows f.win.v (lateChroma pic.v p mv (lastChroma pic p mv))
        (p.left/2+(mv.x >>> 3)) (p.top/2+(mv.y >>> 3)) := by
  constructor
  · constructor
    case range => exact lateImage_range pic.u.extended_range _ _ _ (pic.y.extended_range _ _)
    case pix_eq =>
      intro r c hr hc
      have hfilled := h.filled (441+(r*9+c)) (by omega)
      obtain ⟨hzero,hsucc⟩ := lateImage_place pic.u.extended (p.left/2+(mv.x >>> 3))
        (p.top/2+(mv.y >>> 3)) (lastLuma pic p mv) r (by omega : c<9)
      unfold beatPlane beatIdx at hfilled
      rw [if_neg (by omega),if_pos (by omega),if_neg (by omega),if_pos (by omega),
        Nat.add_sub_cancel_left] at hfilled
      refine hfilled.trans ?_
      cases hn : r*9+c with
      | zero =>
        refine Eq.trans ?_ (hzero hn).symm
        show wanted pic start .y 440=_
        unfold wanted lastLuma
        rw [ho.lumaX,ho.lumaY]
        dsimp only
        congr 1 <;> omega
      | succ n =>
        refine Eq.trans ?_ (hsucc n hn).symm
        show wanted pic start (beatPlane (441+n)) (beatIdx (441+n))=_
        unfold beatPlane beatIdx wanted
        rw [if_neg (by omega),if_pos (by omega),if_neg (by omega),if_pos (by omega),
          Nat.add_sub_cancel_left,ho.chromaX,ho.chromaY]
  · constructor
    case range => exact lateImage_range pic.v.extended_range _ _ _ (pic.u.extended_range _ _)
    case pix_eq =>
      intro r c hr hc
      have hfilled := h.filled (522+(r*9+c)) (by omega)
      obtain ⟨hzero,hsucc⟩ := lateImage_place pic.v.extended (p.left/2+(mv.x >>> 3))
        (p.top/2+(mv.y >>> 3)) (lastChroma pic p mv) r (by omega : c<9)
      unfold beatPlane beatIdx at hfilled
      rw [if_neg (by omega),if_neg (by omega),if_neg (by omega),if_neg (by omega),
        Nat.add_sub_cancel_left] at hfilled
      refine hfilled.trans ?_
      cases hn : r*9+c with
      | zero =>
        refine Eq.trans ?_ (hzero hn).symm
        show wanted pic start .u 80=_
        unfold wanted lastChroma
        rw [ho.chromaX,ho.chromaY]
        rfl
      | succ n =>
        refine Eq.trans ?_ (hsucc n hn).symm
        show wanted pic start (beatPlane (522+n)) (beatIdx (522+n))=_
        unfold beatPlane beatIdx wanted
        rw [if_neg (by omega),if_neg (by omega),if_neg (by omega),if_neg (by omega),
          Nat.add_sub_cancel_left,ho.chromaX,ho.chromaY]

/-- A block is the prediction of a partition of a size with a motion vector. -/
structure McBlock.Predicts (b : McBlock) (pic : Picture) (p : Partition) (mv : Mv)
    (partW partH : ℕ) : Prop where
  /-- Luma samples. -/
  luma : ∀ x y, x<16 → y<16 →
    (b.predYValid (y*16+x)=true ↔ x<partW ∧ y<partH) ∧
      (x<partW → y<partH → ((b.predY (y*16+x)).toNat : ℤ)=predLuma pic.y p mv x y)
  /-- Samples of the first chroma plane. -/
  u : ∀ x y, x<8 → y<8 →
    (b.predUValid (y*8+x)=true ↔ x<partW/2 ∧ y<partH/2) ∧
      (x<partW/2 → y<partH/2 →
        ((b.predU (y*8+x)).toNat : ℤ)=predChroma pic.u p mv x y)
  /-- Samples of the second chroma plane. -/
  v : ∀ x y, x<8 → y<8 →
    (b.predVValid (y*8+x)=true ↔ x<partW/2 ∧ y<partH/2) ∧
      (x<partW/2 → y<partH/2 →
        ((b.predV (y*8+x)).toNat : ℤ)=predChroma pic.v p mv x y)

theorem inPart_iff {cols x y w h : ℕ} (hx : x<cols) :
    inPart cols w h (y*cols+x)=true ↔ x<w ∧ y<h := by
  unfold inPart
  rw [(place_in_block y hx).1,(place_in_block y hx).2,Bool.and_eq_true,decide_eq_true_iff,
    decide_eq_true_iff]

/-- A masked block shows its samples in the partition. -/
theorem masked_iff {cols w h : ℕ} {sample : ℕ → ℕ → BitVec 8} {pred : ℕ → ℕ → ℤ} :
    (∀ x y, x<cols → y<cols → (inPart cols w h (y*cols+x)=true ↔ x<w ∧ y<h) ∧
      (x<w → y<h → ((masked (inPart cols w h (y*cols+x))
        (sample ((y*cols+x)%cols) ((y*cols+x)/cols))).toNat : ℤ)=pred x y)) ↔
      ∀ x y, x<cols → y<cols → x<w → y<h → ((sample x y).toNat : ℤ)=pred x y := by
  have hsample : ∀ x y, x<cols → x<w → y<h →
      masked (inPart cols w h (y*cols+x))
        (sample ((y*cols+x)%cols) ((y*cols+x)/cols))=sample x y := by
    intro x y hx hw hh
    rw [(inPart_iff hx).mpr ⟨hw,hh⟩,(place_in_block y hx).1,(place_in_block y hx).2]
    rfl
  constructor
  · intro hblock x y hx hy hw hh
    rw [← hsample x y hx hw hh]
    exact (hblock x y hx hy).2 hw hh
  · intro hright x y hx hy
    refine ⟨inPart_iff hx,fun hw hh => ?_⟩
    rw [hsample x y hx hw hh]
    exact hright x y hx hy hw hh

/-- The chroma samples of late windows are right exactly when the prediction is unmoved. -/
theorem ChromaShows.right_iff {refWin : ℕ → BitVec 8} {ref : Plane} {w h : ℕ}
    (hshows : ChromaShows refWin (lateChroma ref p mv held) (p.left/2+(mv.x >>> 3))
      (p.top/2+(mv.y >>> 3))) :
    (∀ x y, x<8 → y<8 → x<w → y<h →
      ((interp refWin (mv.x%8).toNat (mv.y%8).toNat x y).toNat : ℤ) =
        predChroma ref p mv x y) ↔
      Unmoved 8 w h (predChroma ref p mv) fun y =>
        chromaSample (lateChroma ref p mv held) (mv.x%8).toNat (mv.y%8).toNat
          (p.left/2+(mv.x >>> 3)) (p.top/2+(mv.y >>> 3)+y) := by
  have hblk : ∀ x y : ℕ, x<8 → y<8 →
      ((interp refWin (mv.x%8).toNat (mv.y%8).toNat x y).toNat : ℤ) =
        chromaSample (lateChroma ref p mv held) (mv.x%8).toNat (mv.y%8).toNat
          (p.left/2+(mv.x >>> 3)+x) (p.top/2+(mv.y >>> 3)+y) :=
    fun x y hx hy => hshows.interp_eq (by omega) (by omega) hx hy
  apply unmoved_iff (by omega)
  · intro y hy
    rw [hblk 0 y (by omega) hy,Nat.cast_zero,Int.add_zero]
  · intro x y hx hy
    rw [hblk (x+1) y hx hy,Nat.cast_succ x,← Int.add_assoc]
    exact chromaSample_moved (fun a y ha => lateImage_moved _ _ _ _ _ (by omega) y) _ _ _

/-- The luma samples of a late window are right exactly when the prediction is unmoved. -/
theorem LumaShows.right_iff {refWin : ℕ → BitVec 8} {w h : ℕ}
    (hshows : LumaShows refWin (lateLuma pic p mv held) (p.left+(mv.x >>> 2)-2)
      (p.top+(mv.y >>> 2)-2)) :
    (∀ x y, x<16 → y<16 → x<w → y<h →
      ((qpelAt refWin (mv.x%4).toNat (mv.y%4).toNat x y).toNat : ℤ) =
        predLuma pic.y p mv x y) ↔
      Unmoved 16 w h (predLuma pic.y p mv) fun y =>
        lumaSample (lateLuma pic p mv held) (mv.x%4).toNat (mv.y%4).toNat
          (p.left+(mv.x >>> 2)) (p.top+(mv.y >>> 2)+y) := by
  have hblk : ∀ x y : ℕ, x<16 → y<16 →
      ((qpelAt refWin (mv.x%4).toNat (mv.y%4).toNat x y).toNat : ℤ) =
        lumaSample (lateLuma pic p mv held) (mv.x%4).toNat (mv.y%4).toNat
          (p.left+(mv.x >>> 2)+x) (p.top+(mv.y >>> 2)+y) := by
    intro x y hx hy
    rw [hshows.qpelAt_eq _ _ (by omega) (by omega) hx hy]
    congr 1 <;> omega
  apply unmoved_iff (by omega)
  · intro y hy
    rw [hblk 0 y (by omega) hy,Nat.cast_zero,Int.add_zero]
  · intro x y hx hy
    rw [hblk (x+1) y hx hy,Nat.cast_succ x,← Int.add_assoc]
    exact lumaSample_moved (fun a y ha => lateImage_moved _ _ _ _ _ (by omega) y) _ _ _

theorem Fetched.predicts_iff (h : Fetched pic start held f f.win) (hheld : 0≤held ∧ held≤255)
    (ho : Origins start p mv) (partW partH : Fin 32) :
    (f.block partW partH).Predicts pic p mv partW partH ↔ p.Still pic mv held partW partH := by
  obtain ⟨hu,hv⟩ := h.chromaShows ho
  have hluma := masked_iff.trans ((h.lumaShows hheld ho).right_iff (w := partW) (h := partH))
  have hfirst := masked_iff.trans (hu.right_iff (w := partW/2) (h := partH/2))
  have hsecond := masked_iff.trans (hv.right_iff (w := partW/2) (h := partH/2))
  have hblock : f.block partW partH=interMcPart f.win (mv.x%4).toNat (mv.y%4).toNat
      (mv.x%8).toNat (mv.y%8).toNat partW partH := by
    unfold FetchUnit.block
    rw [h.place.lumaFrac.1,h.place.lumaFrac.2,h.place.chromaFrac.1,h.place.chromaFrac.2,
      ho.lumaFrac.1,ho.lumaFrac.2,ho.chromaFrac.1,ho.chromaFrac.2]
  rw [hblock]
  exact ⟨fun hp => ⟨hluma.mp hp.luma,hfirst.mp hp.u,hsecond.mp hp.v⟩,
    fun hs => ⟨hluma.mpr hs.luma,hfirst.mpr hs.u,hsecond.mpr hs.v⟩⟩

/-- A fetch that starts with a reference picture and is left alone ends after 605 clocks, and one
clock later the interpolation of its windows is the prediction of the partition it was asked for
exactly when late windows do not change it: for every content of the reference picture, every
motion vector and every partition, however far outside the picture it reads. -/
theorem fetched_block_predicts_iff {g : DpbParams} {pic : Picture} (hfits : pic.Fits g)
    {f : FetchUnit} (hidle : f.dpb.phase = .idle) (hready : f.dpb.refReady=true)
    {start last settle : DpbClock} {cs : List DpbClock} (hreset : start.reset=false)
    (hstart : start.fetchStart=true) (hlen : cs.length=603)
    (hquiet : ∀ c ∈ cs ++ [last,settle],
      Undisturbed g pic (f.step g start).dpb.referenceBase c)
    (hleft : settle.fetchStart=false) {p : Partition} (hnames : start.request.Names p)
    (partW partH : Fin 32) :
    (finalState (FetchUnit.step g) f (start::cs ++ [last,settle])).dpb.fetchDone=true ∧
      (((finalState (FetchUnit.step g) f (start::cs ++ [last,settle])).block partW
          partH).Predicts pic p start.request.mv partW partH ↔
        p.Still pic start.request.mv ((f.step g start).settled.luma 0).toNat partW partH) := by
  have hfetched := fetched_of_run hfits hidle hready hreset hstart hnames hlen hquiet hleft
  have horigins := (fetching_begin g pic hidle hready hreset hstart hnames).2.1
  exact ⟨hfetched.done.1,hfetched.predicts_iff (by omega) horigins partW partH⟩

/-- A buffer for pictures of one macroblock. -/
def smallParams : DpbParams := ⟨16,16,0,384⟩

/-- The picture in the first bank of a memory. -/
def storedPicture (mem : BitVec 32 → BitVec 8) : Picture where
  y := ⟨16,16,by decide,by decide,fun x y => mem (i420Addr smallParams 0 .y x y)⟩
  u := ⟨8,8,by decide,by decide,fun x y => mem (i420Addr smallParams 0 .u x y)⟩
  v := ⟨8,8,by decide,by decide,fun x y => mem (i420Addr smallParams 0 .v x y)⟩

/-- A request for the macroblock in the corner, without motion. -/
def cornerRequest : FetchRequest := ⟨0,0,0,0,0,0⟩

/-- The partition it names. -/
def cornerPartition : Partition := ⟨0,0,.p16x16,⟨0,by decide⟩⟩

/-- A clock beside a memory. -/
def memClock (mem : BitVec 32 → BitVec 8) (frameDone fetchStart : Bool) : DpbClock :=
  ⟨false,false,frameDone,fetchStart,cornerRequest,mem⟩

/-- The buffer once its first picture is complete. -/
def readyUnit (mem : BitVec 32 → BitVec 8) : FetchUnit :=
  FetchUnit.step smallParams
    ⟨DpbRegs.reset smallParams,false,0,⟨fun _ => 0,fun _ => 0,fun _ => 0⟩⟩
    (memClock mem true false)

/-- The clocks of the fetch of that macroblock. -/
def cornerFetch (mem : BitVec 32 → BitVec 8) : List DpbClock :=
  memClock mem false true::List.replicate 603 (memClock mem false false) ++
    [memClock mem false false,memClock mem false false]

theorem storedPicture_fits (mem : BitVec 32 → BitVec 8) : (storedPicture mem).Fits smallParams :=
  ⟨rfl,rfl,⟨rfl,rfl⟩,⟨rfl,rfl⟩,by decide⟩

theorem cornerFetch_quiet (mem : BitVec 32 → BitVec 8) :
    ∀ c ∈ List.replicate 603 (memClock mem false false) ++
      [memClock mem false false,memClock mem false false],
      Undisturbed smallParams (storedPicture mem)
        ((readyUnit mem).step smallParams (memClock mem false true)).dpb.referenceBase c := by
  intro c hc
  have hclock : c=memClock mem false false := by
    rcases List.mem_append.mp hc with hmany | hlast
    · exact List.eq_of_mem_replicate hmany
    · simpa using hlast
  rw [hclock]
  constructor
  case noReset => rfl
  case noFrame => rfl
  case holds =>
    intro p x y _ _
    cases p <;> rfl

/-- Of a memory whose cells hold the low bits of their addresses, the block is not the
prediction: its second sample is that of the first column. -/
theorem not_fetched_block_predicts :
    ¬((finalState (FetchUnit.step smallParams) (readyUnit fun a => a.setWidth 8)
      (cornerFetch fun a => a.setWidth 8)).block 16 16).Predicts
        (storedPicture fun a => a.setWidth 8) cornerPartition ⟨0,0⟩ 16 16 := by
  have hfetched := fetched_of_run (storedPicture_fits fun a => a.setWidth 8) rfl rfl rfl rfl
    (p := cornerPartition) ⟨rfl,rfl,rfl,rfl⟩ (List.length_replicate ..) (cornerFetch_quiet _) rfl
  have horigins := (fetching_begin smallParams (storedPicture fun a => a.setWidth 8)
    (f := readyUnit fun a => a.setWidth 8) (c := memClock (fun a => a.setWidth 8) false true)
    rfl rfl rfl rfl (p := cornerPartition) ⟨rfl,rfl,rfl,rfl⟩).2.1
  intro hpredicts
  have hstill := (hfetched.predicts_iff (by omega) horigins 16 16).mp hpredicts
  exact absurd (hstill.luma.row 0 0 (by decide) (by decide) (by decide) (by decide)) (by decide)

/-- Of a memory of one value the block is the prediction. -/
theorem fetched_block_predicts_flat :
    ((finalState (FetchUnit.step smallParams) (readyUnit fun _ => 0x80#8)
      (cornerFetch fun _ => 0x80#8)).block 16 16).Predicts
        (storedPicture fun _ => 0x80#8) cornerPartition ⟨0,0⟩ 16 16 :=
  (fetched_block_predicts_iff (storedPicture_fits fun _ => 0x80#8) rfl rfl rfl rfl
    (List.length_replicate ..) (cornerFetch_quiet _) rfl (p := cornerPartition)
    ⟨rfl,rfl,rfl,rfl⟩ 16 16).2.mpr
    ⟨⟨fun _ _ _ _ _ _ => rfl,fun _ _ _ _ => rfl⟩,⟨fun _ _ _ _ _ _ => rfl,by decide⟩,
      ⟨fun _ _ _ _ _ _ => rfl,by decide⟩⟩

end Misterplex.Inter
