import Mathlib.Tactic.Ring
import Misterplex.Inter.MvPred

/-!
# Fractional sample interpolation

Inter prediction of ITU-T H.264 8.4.2.2 for 4:2:0 pictures of 8 bit samples: a plane whose
edge samples are repeated without end, the six-tap filter in both directions, the sixteen
luma positions between full samples and the bilinear chroma sample. Nothing here knows how
a decoder fetches its samples.
-/

namespace Misterplex.Inter

-- an integer is shifted by a natural number of places
attribute [default_instance 2000] Int.instHShiftRightNat Int.instHShiftLeftNat

/-- One plane of a reference picture. -/
structure Plane where
  /-- Size of the plane. -/
  (width height : ℕ)
  width_pos : 0<width
  height_pos : 0<height
  sample : ℕ → ℕ → BitVec 8

/-- Clipping to an interval. -/
def clip3 (lo hi v : ℤ) : ℤ := if v < lo then lo else if hi < v then hi else v

/-- Clipping to the range of a sample. -/
def clip1 (v : ℤ) : ℤ := clip3 0 255 v

/-- The plane with its edge samples repeated in all directions. -/
def Plane.extended (p : Plane) (x y : ℤ) : ℤ :=
  (p.sample (clip3 0 (p.width-1) x).toNat (clip3 0 (p.height-1) y).toNat).toNat

theorem clip1_range (v : ℤ) : 0≤clip1 v ∧ clip1 v≤255 := by
  unfold clip1 clip3
  split
  · constructor <;> omega
  · split
    · constructor <;> omega
    · constructor <;> omega

theorem Plane.extended_range (p : Plane) (x y : ℤ) :
    0≤p.extended x y ∧ p.extended x y≤255 := by
  unfold Plane.extended
  constructor <;> omega

/-- The six-tap filter over the values around a half sample. -/
def sixTap (f : ℤ → ℤ) : ℤ := f (-2)-5*f (-1)+20*f 0+20*f 1-5*f 2+f 3

variable (g : ℤ → ℤ → ℤ)

variable (x y : ℤ)

/-- Filter along a row, before rounding (b1, and s1 a row further down). -/
def rowTap : ℤ := sixTap fun i => g (x+i) y

/-- Filter along a column, before rounding (h1, and m1 a column further right). -/
def colTap : ℤ := sixTap fun i => g x (y+i)

/-- Filter along a row of what the columns give, before rounding (j1). -/
def crossTap : ℤ := sixTap fun i => colTap g (x+i) y

theorem crossTap_eq_rows : crossTap g x y = sixTap fun i => rowTap g x (y+i) := by
  unfold crossTap colTap rowTap sixTap
  ring

/-- The half sample along a row (b, and s a row further down). -/
def halfRow : ℤ := clip1 ((rowTap g x y+16) >>> 5)

/-- The half sample along a column (h, and m a column further right). -/
def halfCol : ℤ := clip1 ((colTap g x y+16) >>> 5)

/-- The half sample in the centre of four (j). -/
def centre : ℤ := clip1 ((crossTap g x y+512) >>> 10)

/-- Rounded mean of two samples. -/
def mean (a b : ℤ) : ℤ := (a+b+1) >>> 1

/-- The luma sample at the fractional position `fx`, `fy` behind a full sample. -/
def lumaSample (fx fy : ℕ) (x y : ℤ) : ℤ :=
  match fx,fy with
  | 0,0 => g x y
  | 0,1 => mean (g x y) (halfCol g x y)
  | 0,2 => halfCol g x y
  | 0,3 => mean (g x (y+1)) (halfCol g x y)
  | 1,0 => mean (g x y) (halfRow g x y)
  | 1,1 => mean (halfRow g x y) (halfCol g x y)
  | 1,2 => mean (halfCol g x y) (centre g x y)
  | 1,3 => mean (halfCol g x y) (halfRow g x (y+1))
  | 2,0 => halfRow g x y
  | 2,1 => mean (halfRow g x y) (centre g x y)
  | 2,2 => centre g x y
  | 2,3 => mean (centre g x y) (halfRow g x (y+1))
  | 3,0 => mean (g (x+1) y) (halfRow g x y)
  | 3,1 => mean (halfRow g x y) (halfCol g (x+1) y)
  | 3,2 => mean (centre g x y) (halfCol g (x+1) y)
  | _,_ => mean (halfCol g (x+1) y) (halfRow g x (y+1))

/-- The chroma sample at `fx`, `fy` eighths behind a full sample. -/
def chromaSample (fx fy : ℕ) (x y : ℤ) : ℤ :=
  ((8-fx)*(8-fy)*g x y+fx*(8-fy)*g (x+1) y +
    (8-fx)*fy*g x (y+1)+fx*fy*g (x+1) (y+1)+32) >>> 6

theorem mean_comm (a b : ℤ) : mean a b=mean b a := by
  unfold mean
  rw [Int.add_comm a b]

theorem mean_range {a b : ℤ} (ha : 0≤a ∧ a≤255) (hb : 0≤b ∧ b≤255) :
    0 ≤ mean a b ∧ mean a b≤255 := by
  unfold mean
  rw [Int.shiftRight_eq_div_pow]
  constructor <;> omega

/-- The filter reads its six values only. -/
theorem sixTap_congr {f f' : ℤ → ℤ} (h : ∀ i, -2 ≤ i → f i=f' i) : sixTap f=sixTap f' := by
  unfold sixTap
  rw [h (-2) (by omega),h (-1) (by omega),h 0 (by omega),h 1 (by omega),h 2 (by omega),
    h 3 (by omega)]

variable {g : ℤ → ℤ → ℤ} {h : ℤ → ℤ → ℤ} {x : ℤ}

/-- An image that was moved one column to the right has its luma samples one column further. -/
theorem lumaSample_moved (hmove : ∀ a y, x-2≤a → h (a+1) y=g a y) (fx fy : ℕ) (y : ℤ) :
    lumaSample h fx fy (x+1) y=lumaSample g fx fy x y := by
  have hnext : ∀ i, x+1+i=x+i+1 := fun i => by omega
  have hhere : ∀ y, h (x+1) y=g x y := fun y => hmove x y (by omega)
  have hright : ∀ y, h (x+1+1) y=g (x+1) y := fun y => hmove (x+1) y (by omega)
  have hrow : ∀ y, rowTap h (x+1) y=rowTap g x y := by
    intro y
    apply sixTap_congr
    intro i hi
    rw [hnext,hmove (x+i) y (by omega)]
  have hcol : ∀ a y, x-2≤a → colTap h (a+1) y=colTap g a y := by
    intro a y ha
    apply sixTap_congr
    intro i _
    exact hmove a (y+i) ha
  have hcolHere : ∀ y, colTap h (x+1) y=colTap g x y := fun y => hcol x y (by omega)
  have hcolRight : ∀ y, colTap h (x+1+1) y=colTap g (x+1) y :=
    fun y => hcol (x+1) y (by omega)
  have hcross : crossTap h (x+1) y=crossTap g x y := by
    apply sixTap_congr
    intro i hi
    rw [hnext,hcol (x+i) y (by omega)]
  unfold lumaSample halfRow halfCol centre
  simp only [hhere,hright,hrow,hcolHere,hcolRight,hcross]

/-- So does a chroma sample. -/
theorem chromaSample_moved (hmove : ∀ a y, x≤a → h (a+1) y=g a y) (fx fy : ℕ) (y : ℤ) :
    chromaSample h fx fy (x+1) y=chromaSample g fx fy x y := by
  unfold chromaSample
  rw [hmove x y (by omega),hmove (x+1) y (by omega),hmove x (y+1) (by omega),
    hmove (x+1) (y+1) (by omega)]

/-- Where a partition of a macroblock begins, by the inverse raster scan of partitions of
its width and height. -/
def partitionOffset (width height idx : ℕ) : ℕ × ℕ :=
  (idx%(16/width)*width,idx/(16/width)*height)

/-- Width of a partition of a shape. -/
def Shape.partWidth : Shape → ℕ
  | .p16x16 | .p16x8 => 16
  | .p8x16 | .p8x8 | .sub => 8

/-- Height of a partition of a shape. -/
def Shape.partHeight : Shape → ℕ
  | .p16x16 | .p8x16 => 16
  | .p16x8 | .p8x8 | .sub => 8

/-- Partitions of a macroblock of a shape. -/
def Shape.count : Shape → ℕ
  | .p16x16 => 1
  | .p16x8 | .p8x16 => 2
  | .p8x8 | .sub => 4

/-- A partition of a macroblock of a picture. -/
structure Partition where
  /-- Place of the macroblock. -/
  (mbX mbY : ℕ)
  /-- How the macroblock is partitioned. -/
  shape : Shape
  /-- Number of the partition. -/
  idx : Fin shape.count

/-- Column of the partition's upper left luma sample. -/
def Partition.left (p : Partition) : ℤ :=
  16*p.mbX+(partitionOffset p.shape.partWidth p.shape.partHeight p.idx).1

/-- Row of the partition's upper left luma sample. -/
def Partition.top (p : Partition) : ℤ :=
  16*p.mbY+(partitionOffset p.shape.partWidth p.shape.partHeight p.idx).2

/-- Luma prediction of the sample `x`, `y` of a partition. -/
def predLuma (ref : Plane) (p : Partition) (mv : Mv) (x y : ℕ) : ℤ :=
  lumaSample ref.extended (mv.x%4).toNat (mv.y%4).toNat
    (p.left+(mv.x >>> 2)+x) (p.top+(mv.y >>> 2)+y)

/-- Chroma prediction of the sample `x`, `y` of a partition. -/
def predChroma (ref : Plane) (p : Partition) (mv : Mv) (x y : ℕ) : ℤ :=
  chromaSample ref.extended (mv.x%8).toNat (mv.y%8).toNat
    (p.left/2+(mv.x >>> 3)+x) (p.top/2+(mv.y >>> 3)+y)

end Misterplex.Inter
