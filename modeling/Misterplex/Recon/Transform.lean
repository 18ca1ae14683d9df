import Misterplex.Cavlc.ResidualBlock

/-!
# Dequantisation and inverse transform of the host

Scan-order coefficients become a block of scaled coefficients, and the inverse transform
adds the residual to the prediction. The DC coefficients of 16x16 luma and of chroma have
transforms of their own. Blocks are functions of a row and a column.
-/

namespace Misterplex.Recon

open Cavlc

-- an integer is shifted by a natural number of places
attribute [default_instance 2000] Int.instHShiftRightNat Int.instHShiftLeftNat

/-- A block of values by row and column. -/
abbrev Block : Type := ℕ → ℕ → ℤ

/-- A block with one value replaced. -/
def Block.set (b : Block) (i j : ℕ) (v : ℤ) : Block := fun i' j' =>
  if i' = i ∧ j' = j then v else b i' j'

/-- The block of zeros. -/
def Block.zero : Block := fun _ _ => 0

/-- The value clipped to a byte. -/
def clip8 (v : ℤ) : ℤ := if v < 0 then 0 else if 255 < v then 255 else v

/-- The scaling factors by quantiser class and position class. -/
def kNormAdjust : List (List ℤ) :=
  [[10,13,16],[11,14,18],[13,16,20],[14,18,23],[16,20,25],[18,23,29]]

/-- The raster positions in scan order. -/
def kZigzag : List ℕ := [0,1,4,8,5,2,3,6,9,12,13,10,7,11,14,15]

/-- The scaling factor of a position at a quantiser. -/
def levelScale (qp : ℤ) (i j : ℕ) : ℤ :=
  let mi := if i%2+j%2 = 0 then 0 else if i%2+j%2 = 1 then 1 else 2
  (kNormAdjust.getD (qp.tmod 6).toNat []).getD mi 0

/-- The coefficients scaled and placed. -/
def dequant4x4 (coeffScan : List ℤ) (maxCoeff : ℕ) (qp : ℤ) : Block :=
  let shift := (qp.tdiv 6+2).toNat
  (List.range maxCoeff).foldl (fun blk k =>
    let c := coeffScan.getD k 0
    if c = 0 then blk
    else
      let zi := if maxCoeff = 15 then kZigzag.getD (k+1) 0 else kZigzag.getD k 0
      let qmul := (levelScale qp (zi/4) (zi%4)*16) <<< shift
      blk.set (zi/4) (zi%4) (Host.int16 ((c*qmul+32) >>> 6))) Block.zero

/-- One row or column of the inverse transform. -/
def butterfly (x₀ x₁ x₂ x₃ : ℤ) (k : ℕ) : ℤ :=
  let z₀ := x₀+x₂
  let z₁ := x₀-x₂
  let z₂ := x₁ >>> 1-x₃
  let z₃ := x₁+x₃ >>> 1
  match k with
  | 0 => z₀+z₃
  | 1 => z₁+z₂
  | 2 => z₁-z₂
  | _ => z₀-z₃

/-- idct4x4_add, with the samples before and after as blocks. -/
def idct4x4Add (blk dst : Block) : Block :=
  let b := Block.set blk 0 0 (blk 0 0+32)
  let t : Block := fun i j => butterfly (b i 0) (b i 1) (b i 2) (b i 3) j
  fun i j => clip8 (dst i j+butterfly (t 0 j) (t 1 j) (t 2 j) (t 3 j) i >>> 6)

/-- The inverse transform with its rounding. -/
def idct4x4Residual (blk : Block) : Block :=
  let b := Block.set blk 0 0 (blk 0 0+32)
  let t : Block := fun i j => butterfly (b i 0) (b i 1) (b i 2) (b i 3) j
  fun i j => Host.int16 (butterfly (t 0 j) (t 1 j) (t 2 j) (t 3 j) i >>> 6)

/-- The scaling factors of the DC position. -/
def mf0 : List ℤ := [10,11,13,14,16,18]

/-- qmul of the DC coefficients. -/
def dcQmul (qp : ℤ) : ℤ := (mf0.getD (qp.tmod 6).toNat 0*16) <<< (qp.tdiv 6+2).toNat

/-- The luma DC block transformed and scaled. -/
def invQuantHadamardDc4x4 (coeffScan : List ℤ) (qp : ℤ) : Block :=
  let input : ℕ → ℤ := (List.range 16).foldl (fun input i =>
    let z := kZigzag.getD i 0
    Function.update input ((z >>> 2) ||| ((z <<< 2) &&& 0xF)) (coeffScan.getD i 0)) fun _ => 0
  let temp : ℕ → ℤ := fun n =>
    let i := n/4
    let z₀ := input (4*i)+input (4*i+1)
    let z₁ := input (4*i)-input (4*i+1)
    let z₂ := input (4*i+2)-input (4*i+3)
    let z₃ := input (4*i+2)+input (4*i+3)
    match n%4 with
    | 0 => z₀+z₃
    | 1 => z₀-z₃
    | 2 => z₁-z₂
    | _ => z₁+z₂
  fun i j =>
    let z₀ := temp i+temp (8+i)
    let z₁ := temp i-temp (8+i)
    let z₂ := temp (4+i)-temp (12+i)
    let z₃ := temp (4+i)+temp (12+i)
    let sum := match j with
      | 0 => z₀+z₃
      | 1 => z₁+z₂
      | 2 => z₁-z₂
      | _ => z₀-z₃
    Host.int16 ((sum*dcQmul qp+128) >>> 8)

/-- The chroma DC block transformed and scaled. -/
def invChromaDc2x2 (coeff : List ℤ) (qp : ℤ) : Block :=
  let a := coeff.getD 0 0+coeff.getD 1 0
  let e := coeff.getD 0 0-coeff.getD 1 0
  let b := coeff.getD 2 0-coeff.getD 3 0
  let c := coeff.getD 2 0+coeff.getD 3 0
  fun i j =>
    let sum := match i,j with
      | 0,0 => a+c
      | 0,_ => e+b
      | _,0 => a-c
      | _,_ => e-b
    Host.int16 ((sum*dcQmul qp) >>> 7)

/-- The quantiser after a delta, wrapped to 0 to 51. -/
def wrapQpY (qpy delta : ℤ) : ℤ :=
  let v := (qpy+delta).tmod 52
  if v < 0 then v+52 else v

end Misterplex.Recon
