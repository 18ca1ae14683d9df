import Mathlib.Algebra.BigOperators.Group.Finset.Basic
import Misterplex.Intra.NbCtx
import Misterplex.Lib.Raster
import Misterplex.Recon.Transform

/-!
# Intra predictors of the host and of the core

A prediction is a list of samples that are written one after the other into a block. The
functions of the host come first, then the modules of the core: the one for 4x4 blocks is
combinational, the two for whole macroblocks answer a request at the next clock, or for
the plane at the one behind it.
-/

namespace Misterplex.Intra

open Raster Recon

/-- The samples of a prediction in the order of their writing. -/
abbrev Samples : Type := List (Cell UInt8)

/-- The low byte of a number. -/
def byte (v : ℤ) : UInt8 := UInt8.ofInt v

/-- `k` samples from the sample `i` on, summed up. -/
def sumFrom (s : ℕ → UInt8) (i k : ℕ) : ℤ := ∑ j∈Finset.range k, ((s (i+j)).toNat : ℤ)

/-- Differences of opposite samples, the `i`-th one taken `i + 1` times. -/
def gradient (k : ℕ) (hi lo : ℕ → UInt8) : ℤ :=
  ∑ i∈Finset.range k, ((i : ℤ)+1)*((hi i).toNat-(lo i).toNat)

variable (n : Neighbours)

/-- A clipped sample. -/
def put (x y : ℕ) (v : ℤ) : Cell UInt8 := ⟨x,y,byte (clip8 v)⟩

/-- Intra16x16 vertical prediction. -/
def predI16_V : Samples := box 0 0 16 16 fun x _ => n.above x

/-- Intra16x16 horizontal prediction. -/
def predI16_H : Samples := box 0 0 16 16 fun _ y => n.left y

/-- Intra16x16 DC prediction. -/
def predI16_DC : Samples :=
  let sum : ℤ := (if n.has_above then sumFrom n.above 0 16 else 0) +
    if n.has_left then sumFrom n.left 0 16 else 0
  let count : ℤ := (if n.has_above then 16 else 0)+if n.has_left then 16 else 0
  box 0 0 16 16 fun _ _ =>
    byte (if count ≠ 0 then (sum+count >>> 1).tdiv count else 128)

/-- Intra16x16 plane prediction. -/
def predI16_Plane : Samples :=
  let h := gradient 8 (fun i => n.above (8+i))
    fun i => if i ≤ 6 then n.above (6-i) else n.top_left
  let v := gradient 8 (fun i => n.left (8+i))
    fun i => if i ≤ 6 then n.left (6-i) else n.top_left
  let a : ℤ := 16*((n.above 15).toNat+(n.left 15).toNat)
  let b := (5*h+32) >>> 6
  let c := (5*v+32) >>> 6
  box 0 0 16 16 fun x y => byte (clip8 ((a+b*(x-7)+c*(y-7)+16) >>> 5))

/-- The predictor that the host calls for a mode of a 16x16 block with its neighbours. -/
def predI16 : ℕ → Samples
  | 0 => predI16_V n
  | 1 => predI16_H n
  | 3 => predI16_Plane n
  | _ => predI16_DC n

/-- Intra4x4 prediction in all nine modes. -/
def predI4 (mode : ℕ) : Samples :=
  let t (k : ℕ) : ℤ := (n.above k).toNat
  let l (k : ℕ) : ℤ := (n.left k).toNat
  let tl : ℤ := n.top_left.toNat
  let all (v : ℕ → ℕ → ℤ) : Samples := box 0 0 4 4 fun x y => byte (clip8 (v x y))
  match mode with
  | 0 => all fun x _ => t x
  | 1 => all fun _ y => l y
  | 2 => all fun _ _ =>
    if n.has_above && n.has_left then
      (t 0+t 1+t 2+t 3+l 0+l 1+l 2+l 3+4) >>> 3
    else if n.has_above then (t 0+t 1+t 2+t 3+2) >>> 2
    else if n.has_left then (l 0+l 1+l 2+l 3+2) >>> 2
    else 128
  | 3 =>
    [put 0 0 ((t 0+t 2+2*t 1+2) >>> 2),put 1 0 ((t 1+t 3+2*t 2+2) >>> 2),
     put 0 1 ((t 1+t 3+2*t 2+2) >>> 2),put 2 0 ((t 2+t 4+2*t 3+2) >>> 2),
     put 1 1 ((t 2+t 4+2*t 3+2) >>> 2),put 0 2 ((t 2+t 4+2*t 3+2) >>> 2),
     put 3 0 ((t 3+t 5+2*t 4+2) >>> 2),put 2 1 ((t 3+t 5+2*t 4+2) >>> 2),
     put 1 2 ((t 3+t 5+2*t 4+2) >>> 2),put 0 3 ((t 3+t 5+2*t 4+2) >>> 2),
     put 3 1 ((t 4+t 6+2*t 5+2) >>> 2),put 2 2 ((t 4+t 6+2*t 5+2) >>> 2),
     put 1 3 ((t 4+t 6+2*t 5+2) >>> 2),put 3 2 ((t 5+t 7+2*t 6+2) >>> 2),
     put 2 3 ((t 5+t 7+2*t 6+2) >>> 2),put 3 3 ((t 6+3*t 7+2) >>> 2)]
  | 4 =>
    [put 0 3 ((l 3+2*l 2+l 1+2) >>> 2),put 0 2 ((l 2+2*l 1+l 0+2) >>> 2),
     put 1 3 ((l 2+2*l 1+l 0+2) >>> 2),put 0 1 ((l 1+2*l 0+tl+2) >>> 2),
     put 1 2 ((l 1+2*l 0+tl+2) >>> 2),put 2 3 ((l 1+2*l 0+tl+2) >>> 2),
     put 0 0 ((l 0+2*tl+t 0+2) >>> 2),put 1 1 ((l 0+2*tl+t 0+2) >>> 2),
     put 2 2 ((l 0+2*tl+t 0+2) >>> 2),put 3 3 ((l 0+2*tl+t 0+2) >>> 2),
     put 1 0 ((tl+2*t 0+t 1+2) >>> 2),put 2 1 ((tl+2*t 0+t 1+2) >>> 2),
     put 3 2 ((tl+2*t 0+t 1+2) >>> 2),put 2 0 ((t 0+2*t 1+t 2+2) >>> 2),
     put 3 1 ((t 0+2*t 1+t 2+2) >>> 2),put 3 0 ((t 1+2*t 2+t 3+2) >>> 2)]
  | 5 =>
    [put 0 0 ((tl+t 0+1) >>> 1),put 1 2 ((tl+t 0+1) >>> 1),
     put 1 0 ((t 0+t 1+1) >>> 1),put 2 2 ((t 0+t 1+1) >>> 1),
     put 2 0 ((t 1+t 2+1) >>> 1),put 3 2 ((t 1+t 2+1) >>> 1),
     put 3 0 ((t 2+t 3+1) >>> 1),put 0 1 ((l 0+2*tl+t 0+2) >>> 2),
     put 1 3 ((l 0+2*tl+t 0+2) >>> 2),put 1 1 ((tl+2*t 0+t 1+2) >>> 2),
     put 2 3 ((tl+2*t 0+t 1+2) >>> 2),put 2 1 ((t 0+2*t 1+t 2+2) >>> 2),
     put 3 3 ((t 0+2*t 1+t 2+2) >>> 2),put 3 1 ((t 1+2*t 2+t 3+2) >>> 2),
     put 0 2 ((tl+2*l 0+l 1+2) >>> 2),put 0 3 ((l 0+2*l 1+l 2+2) >>> 2)]
  | 6 =>
    [put 0 0 ((tl+l 0+1) >>> 1),put 2 1 ((tl+l 0+1) >>> 1),
     put 1 0 ((l 0+2*tl+t 0+2) >>> 2),put 3 1 ((l 0+2*tl+t 0+2) >>> 2),
     put 2 0 ((tl+2*t 0+t 1+2) >>> 2),put 3 0 ((t 0+2*t 1+t 2+2) >>> 2),
     put 0 1 ((l 0+l 1+1) >>> 1),put 2 2 ((l 0+l 1+1) >>> 1),
     put 1 1 ((tl+2*l 0+l 1+2) >>> 2),put 3 2 ((tl+2*l 0+l 1+2) >>> 2),
     put 0 2 ((l 1+l 2+1) >>> 1),put 2 3 ((l 1+l 2+1) >>> 1),
     put 1 2 ((l 0+2*l 1+l 2+2) >>> 2),put 3 3 ((l 0+2*l 1+l 2+2) >>> 2),
     put 0 3 ((l 2+l 3+1) >>> 1),put 1 3 ((l 1+2*l 2+l 3+2) >>> 2)]
  | 7 =>
    [put 0 0 ((t 0+t 1+1) >>> 1),put 1 0 ((t 1+t 2+1) >>> 1),
     put 0 2 ((t 1+t 2+1) >>> 1),put 2 0 ((t 2+t 3+1) >>> 1),
     put 1 2 ((t 2+t 3+1) >>> 1),put 3 0 ((t 3+t 4+1) >>> 1),
     put 2 2 ((t 3+t 4+1) >>> 1),put 3 2 ((t 4+t 5+1) >>> 1),
     put 0 1 ((t 0+2*t 1+t 2+2) >>> 2),put 1 1 ((t 1+2*t 2+t 3+2) >>> 2),
     put 0 3 ((t 1+2*t 2+t 3+2) >>> 2),put 2 1 ((t 2+2*t 3+t 4+2) >>> 2),
     put 1 3 ((t 2+2*t 3+t 4+2) >>> 2),put 3 1 ((t 3+2*t 4+t 5+2) >>> 2),
     put 2 3 ((t 3+2*t 4+t 5+2) >>> 2),put 3 3 ((t 4+2*t 5+t 6+2) >>> 2)]
  | 8 =>
    [put 0 0 ((l 0+l 1+1) >>> 1),put 1 0 ((l 0+2*l 1+l 2+2) >>> 2),
     put 2 0 ((l 1+l 2+1) >>> 1),put 0 1 ((l 1+l 2+1) >>> 1),
     put 3 0 ((l 1+2*l 2+l 3+2) >>> 2),put 1 1 ((l 1+2*l 2+l 3+2) >>> 2),
     put 2 1 ((l 2+l 3+1) >>> 1),put 0 2 ((l 2+l 3+1) >>> 1),
     put 3 1 ((l 2+2*l 3+l 3+2) >>> 2),put 1 2 ((l 2+2*l 3+l 3+2) >>> 2),
     put 3 2 (l 3),put 1 3 (l 3),put 0 3 (l 3),put 2 2 (l 3),put 2 3 (l 3),put 3 3 (l 3)]
  | _ => all fun _ _ => 128

/-- A quarter of a chroma block. -/
def fill (x₀ y₀ : ℕ) (v : ℤ) : Samples := box x₀ y₀ 4 4 fun _ _ => byte v

/-- Chroma prediction in all four modes. -/
def predChroma8 (mode : ℕ) : Samples :=
  match mode with
  | 0 =>
    if n.has_above && n.has_left then
      fill 0 0 ((sumFrom n.above 0 4+sumFrom n.left 0 4+4) >>> 3) ++
      fill 4 0 ((sumFrom n.above 4 4+2) >>> 2) ++
      fill 0 4 ((sumFrom n.left 4 4+2) >>> 2) ++
      fill 4 4 ((sumFrom n.above 4 4+sumFrom n.left 4 4+4) >>> 3)
    else if n.has_above then
      fill 0 0 ((sumFrom n.above 0 4+2) >>> 2) ++ fill 4 0 ((sumFrom n.above 4 4+2) >>> 2) ++
      fill 0 4 ((sumFrom n.above 0 4+2) >>> 2) ++ fill 4 4 ((sumFrom n.above 4 4+2) >>> 2)
    else if n.has_left then
      fill 0 0 ((sumFrom n.left 0 4+2) >>> 2) ++ fill 4 0 ((sumFrom n.left 0 4+2) >>> 2) ++
      fill 0 4 ((sumFrom n.left 4 4+2) >>> 2) ++ fill 4 4 ((sumFrom n.left 4 4+2) >>> 2)
    else box 0 0 8 8 fun _ _ => 128
  | 1 => box 0 0 8 8 fun _ y => n.left y
  | 2 => box 0 0 8 8 fun x _ => n.above x
  | _ =>
    let h := gradient 4 (fun i => n.above (4+i))
      fun i => if i = 3 then n.top_left else n.above (2-i)
    let v := gradient 4 (fun i => n.left (4+i))
      fun i => if i = 3 then n.top_left else n.left (2-i)
    let a : ℤ := 16*((n.above 7).toNat+(n.left 7).toNat)
    let b := (17*h+16) >>> 5
    let c := (17*v+16) >>> 5
    box 0 0 8 8 fun x y => byte (clip8 ((a+b*(x-3)+c*(y-3)+16) >>> 5))

namespace Rtl

/-- The value clipped to a byte. -/
def clip8 (v : ℤ) : UInt8 := if v < 0 then 0 else if 255 < v then 255 else byte v

/-- Outputs of the module. -/
structure Intra4x4Out where
  used_mode : ℕ
  pred : ℕ → UInt8

/-- The mode that is used: without the samples it needs, DC takes its place. -/
def usedMode (mode : ℕ) : ℕ :=
  if !n.has_above && (mode = 0 || mode = 3 || mode = 7) then 2
  else if !n.has_left && (mode = 1 || mode = 8) then 2
  else if (!n.has_above || !n.has_left) && (mode = 4 || mode = 5 || mode = 6) then 2
  else mode

/-- A cell with its clipped value. -/
def put (x y : ℕ) (v : ℤ) : Cell UInt8 := ⟨x,y,clip8 v⟩

/-- What the case of the module writes for a mode. -/
def intra4x4Puts (m : ℕ) : Samples :=
  let t (k : ℕ) : ℤ := (n.above k).toNat
  let l (k : ℕ) : ℤ := (n.left k).toNat
  let tl : ℤ := n.top_left.toNat
  match m with
  | 0 => box 0 0 4 4 fun x _ => n.above x
  | 1 => box 0 0 4 4 fun _ y => n.left y
  | 2 => box 0 0 4 4 fun _ _ =>
    if n.has_above && n.has_left then
      byte ((t 0+t 1+t 2+t 3+l 0+l 1+l 2+l 3+4) >>> 3)
    else if n.has_above then byte ((t 0+t 1+t 2+t 3+2) >>> 2)
    else if n.has_left then byte ((l 0+l 1+l 2+l 3+2) >>> 2)
    else 128
  | 3 =>
    [put 0 0 ((t 0+t 2+2*t 1+2) >>> 2),put 1 0 ((t 1+t 3+2*t 2+2) >>> 2),
     put 0 1 ((t 1+t 3+2*t 2+2) >>> 2),put 2 0 ((t 2+t 4+2*t 3+2) >>> 2),
     put 1 1 ((t 2+t 4+2*t 3+2) >>> 2),put 0 2 ((t 2+t 4+2*t 3+2) >>> 2),
     put 3 0 ((t 3+t 5+2*t 4+2) >>> 2),put 2 1 ((t 3+t 5+2*t 4+2) >>> 2),
     put 1 2 ((t 3+t 5+2*t 4+2) >>> 2),put 0 3 ((t 3+t 5+2*t 4+2) >>> 2),
     put 3 1 ((t 4+t 6+2*t 5+2) >>> 2),put 2 2 ((t 4+t 6+2*t 5+2) >>> 2),
     put 1 3 ((t 4+t 6+2*t 5+2) >>> 2),put 3 2 ((t 5+t 7+2*t 6+2) >>> 2),
     put 2 3 ((t 5+t 7+2*t 6+2) >>> 2),put 3 3 ((t 6+3*t 7+2) >>> 2)]
  | 4 =>
    [put 0 3 ((l 3+2*l 2+l 1+2) >>> 2),put 0 2 ((l 2+2*l 1+l 0+2) >>> 2),
     put 1 3 ((l 2+2*l 1+l 0+2) >>> 2),put 0 1 ((l 1+2*l 0+tl+2) >>> 2),
     put 1 2 ((l 1+2*l 0+tl+2) >>> 2),put 2 3 ((l 1+2*l 0+tl+2) >>> 2),
     put 0 0 ((l 0+2*tl+t 0+2) >>> 2),put 1 1 ((l 0+2*tl+t 0+2) >>> 2),
     put 2 2 ((l 0+2*tl+t 0+2) >>> 2),put 3 3 ((l 0+2*tl+t 0+2) >>> 2),
     put 1 0 ((tl+2*t 0+t 1+2) >>> 2),put 2 1 ((tl+2*t 0+t 1+2) >>> 2),
     put 3 2 ((tl+2*t 0+t 1+2) >>> 2),put 2 0 ((t 0+2*t 1+t 2+2) >>> 2),
     put 3 1 ((t 0+2*t 1+t 2+2) >>> 2),put 3 0 ((t 1+2*t 2+t 3+2) >>> 2)]
  | 5 =>
    [put 0 0 ((tl+t 0+1) >>> 1),put 1 2 ((tl+t 0+1) >>> 1),
     put 1 0 ((t 0+t 1+1) >>> 1),put 2 2 ((t 0+t 1+1) >>> 1),
     put 2 0 ((t 1+t 2+1) >>> 1),put 3 2 ((t 1+t 2+1) >>> 1),
     put 3 0 ((t 2+t 3+1) >>> 1),put 0 1 ((l 0+2*tl+t 0+2) >>> 2),
     put 1 3 ((l 0+2*tl+t 0+2) >>> 2),put 1 1 ((tl+2*t 0+t 1+2) >>> 2),
     put 2 3 ((tl+2*t 0+t 1+2) >>> 2),put 2 1 ((t 0+2*t 1+t 2+2) >>> 2),
     put 3 3 ((t 0+2*t 1+t 2+2) >>> 2),put 3 1 ((t 1+2*t 2+t 3+2) >>> 2),
     put 0 2 ((tl+2*l 0+l 1+2) >>> 2),put 0 3 ((l 0+2*l 1+l 2+2) >>> 2)]
  | 6 =>
    [put 0 0 ((tl+l 0+1) >>> 1),put 2 1 ((tl+l 0+1) >>> 1),
     put 1 0 ((l 0+2*tl+t 0+2) >>> 2),put 3 1 ((l 0+2*tl+t 0+2) >>> 2),
     put 2 0 ((tl+2*t 0+t 1+2) >>> 2),put 3 0 ((t 0+2*t 1+t 2+2) >>> 2),
     put 0 1 ((l 0+l 1+1) >>> 1),put 2 2 ((l 0+l 1+1) >>> 1),
     put 1 1 ((tl+2*l 0+l 1+2) >>> 2),put 3 2 ((tl+2*l 0+l 1+2) >>> 2),
     put 0 2 ((l 1+l 2+1) >>> 1),put 2 3 ((l 1+l 2+1) >>> 1),
     put 1 2 ((l 0+2*l 1+l 2+2) >>> 2),put 3 3 ((l 0+2*l 1+l 2+2) >>> 2),
     put 0 3 ((l 2+l 3+1) >>> 1),put 1 3 ((l 1+2*l 2+l 3+2) >>> 2)]
  | 7 =>
    [put 0 0 ((t 0+t 1+1) >>> 1),put 1 0 ((t 1+t 2+1) >>> 1),
     put 0 2 ((t 1+t 2+1) >>> 1),put 2 0 ((t 2+t 3+1) >>> 1),
     put 1 2 ((t 2+t 3+1) >>> 1),put 3 0 ((t 3+t 4+1) >>> 1),
     put 2 2 ((t 3+t 4+1) >>> 1),put 3 2 ((t 4+t 5+1) >>> 1),
     put 0 1 ((t 0+2*t 1+t 2+2) >>> 2),put 1 1 ((t 1+2*t 2+t 3+2) >>> 2),
     put 0 3 ((t 1+2*t 2+t 3+2) >>> 2),put 2 1 ((t 2+2*t 3+t 4+2) >>> 2),
     put 1 3 ((t 2+2*t 3+t 4+2) >>> 2),put 3 1 ((t 3+2*t 4+t 5+2) >>> 2),
     put 2 3 ((t 3+2*t 4+t 5+2) >>> 2),put 3 3 ((t 4+2*t 5+t 6+2) >>> 2)]
  | 8 =>
    [put 0 0 ((l 0+l 1+1) >>> 1),put 1 0 ((l 0+2*l 1+l 2+2) >>> 2),
     put 2 0 ((l 1+l 2+1) >>> 1),put 0 1 ((l 1+l 2+1) >>> 1),
     put 3 0 ((l 1+2*l 2+l 3+2) >>> 2),put 1 1 ((l 1+2*l 2+l 3+2) >>> 2),
     put 2 1 ((l 2+l 3+1) >>> 1),put 0 2 ((l 2+l 3+1) >>> 1),
     put 3 1 ((l 2+2*l 3+l 3+2) >>> 2),put 1 2 ((l 2+2*l 3+l 3+2) >>> 2),
     put 3 2 (l 3),put 1 3 (l 3),put 0 3 (l 3),put 2 2 (l 3),put 2 3 (l 3),put 3 3 (l 3)]
  | _ => box 0 0 4 4 fun _ _ => 128

/-- The module for 4x4 blocks. -/
def intra4x4_pred (mode : BitVec 4) : Intra4x4Out where
  used_mode := if 8 < usedMode n mode.toNat then 15 else usedMode n mode.toNat
  pred := write 4 (fun _ => 128) (intra4x4Puts n (usedMode n mode.toNat))

/-- Input wires of a clock. -/
structure Request where
  start : Bool
  mode : BitVec 2
  /-- The samples around the block. -/
  nb : Neighbours

/-- Registers of a module; `unsupported` is that of the luma module alone. -/
structure Regs where
  /-- The second cycle of a plane is pending. -/
  phase : Bool
  a_r : BitVec 16
  /-- Terms of the columns and of the rows. -/
  (bx_r cy_r : ℕ → BitVec 16)
  /-- Outcome of a request. -/
  (unsupported valid : Bool)
  pred : ℕ → UInt8

/-- What tells the two modules apart. -/
structure Module where
  /-- Width and height of the block. -/
  side : ℕ
  /-- Column and row of the centre of a plane. -/
  centre : ℤ
  /-- The parameters of a plane. -/
  (a_c b_c c_c : Neighbours → ℤ)
  /-- What a request writes at its clock; a plane comes one clock later. -/
  now : ℕ → Neighbours → Option Samples

/-- The products of a slope that are registered for the columns or rows of a plane. -/
def products (slope centre : ℤ) (i : ℕ) : BitVec 16 := BitVec.ofInt 16 (slope*(i-centre))

/-- A sample of a plane from the registers, before it is clipped: the integer val. -/
def planeVal (a bx cy : BitVec 16) : BitVec 32 :=
  (a.signExtend 32+bx.signExtend 32+cy.signExtend 32+16).sshiftRight 5

/-- One clock. -/
def Module.step (g : Module) (r : Regs) (q : Request) : Regs :=
  if r.phase then
    { r with
      pred := write g.side r.pred (box 0 0 g.side g.side fun x y =>
        clip8 (planeVal r.a_r (r.bx_r x) (r.cy_r y)).toInt)
      valid := true
      phase := false }
  else if q.start then
    match g.now q.mode.toNat q.nb with
    | some samples =>
      { r with unsupported := false, valid := true, pred := write g.side r.pred samples }
    | none =>
      { r with
        unsupported := false
        valid := false
        phase := true
        a_r := BitVec.ofInt 16 (g.a_c q.nb)
        bx_r := products (g.b_c q.nb) g.centre
        cy_r := products (g.c_c q.nb) g.centre }
  else { r with valid := false }

variable (s : ℕ → UInt8)

/-- Eight samples summed up in a tree. -/
def tree8 (i : ℕ) : ℤ :=
  let p (k : ℕ) : ℤ := (s (i+k)).toNat
  (p 0+p 1)+(p 2+p 3)+((p 4+p 5)+(p 6+p 7))

/-- hgrad_c or vgrad_c of the luma module, over samples and the corner. -/
def grad16 (corner : UInt8) : ℤ :=
  let t (gi : ℕ) : ℤ := ((gi : ℤ)+1) *
    ((s (8+gi)).toNat-(if gi = 7 then corner else s (6-gi)).toNat)
  (t 0+t 1)+(t 2+t 3)+((t 4+t 5)+(t 6+t 7))

/-- dc_v of the luma module. -/
def lumaDc : UInt8 :=
  let sa := tree8 n.above 0+tree8 n.above 8
  let sl := tree8 n.left 0+tree8 n.left 8
  let sum := if n.has_above && n.has_left then sa+sl
    else if n.has_above then sa else if n.has_left then sl else 0
  if n.has_above && n.has_left then byte ((sum+16) >>> 5)
  else if n.has_above || n.has_left then byte ((sum+8) >>> 4)
  else 128

/-- h264_intra16x16_pred. -/
def intra16x16_pred : Module where
  side := 16
  centre := 7
  a_c n := 16*((n.above 15).toNat+(n.left 15).toNat)
  b_c n := (5*grad16 n.above n.top_left+32) >>> 6
  c_c n := (5*grad16 n.left n.top_left+32) >>> 6
  now mode n :=
    if mode = 3 then
      if n.has_above && n.has_left then none else some (box 0 0 16 16 fun _ _ => 128)
    else if mode = 0 && n.has_above then some (box 0 0 16 16 fun x _ => n.above x)
    else if mode = 1 && n.has_left then some (box 0 0 16 16 fun _ y => n.left y)
    else some (box 0 0 16 16 fun _ _ => lumaDc n)

/-- Four samples summed up in a tree. -/
def tree4 (i : ℕ) : ℤ :=
  let p (k : ℕ) : ℤ := (s (i+k)).toNat
  (p 0+p 1)+(p 2+p 3)

/-- hgrad_c or vgrad_c of the chroma module. -/
def grad8 (corner : UInt8) : ℤ :=
  gradient 4 (fun gi => s (4+gi)) fun gi => if gi = 3 then corner else s (2-gi)

/-- The four quarters of a chroma block. -/
def quarters (tl tr bl br : UInt8) : Samples :=
  box 0 0 4 4 (fun _ _ => tl) ++ box 4 0 4 4 (fun _ _ => tr) ++ box 0 4 4 4 (fun _ _ => bl) ++
    box 4 4 4 4 fun _ _ => br

/-- The DC prediction of the chroma module. -/
def chromaDc : Samples :=
  let sum_a0 := tree4 n.above 0
  let sum_a1 := tree4 n.above 4
  let sum_l0 := tree4 n.left 0
  let sum_l1 := tree4 n.left 4
  if n.has_above && n.has_left then
    quarters (clip8 ((sum_a0+sum_l0+4) >>> 3)) (clip8 ((sum_a1+2) >>> 2))
      (clip8 ((sum_l1+2) >>> 2)) (clip8 ((sum_a1+sum_l1+4) >>> 3))
  else if n.has_above then
    quarters (clip8 ((sum_a0+2) >>> 2)) (clip8 ((sum_a1+2) >>> 2))
      (clip8 ((sum_a0+2) >>> 2)) (clip8 ((sum_a1+2) >>> 2))
  else if n.has_left then
    quarters (clip8 ((sum_l0+2) >>> 2)) (clip8 ((sum_l0+2) >>> 2))
      (clip8 ((sum_l1+2) >>> 2)) (clip8 ((sum_l1+2) >>> 2))
  else quarters 128 128 128 128

/-- h264_chroma8x8_pred. -/
def chroma8x8_pred : Module where
  side := 8
  centre := 3
  a_c n := 16*((n.above 7).toNat+(n.left 7).toNat)
  b_c n := (17*grad8 n.above n.top_left+16) >>> 5
  c_c n := (17*grad8 n.left n.top_left+16) >>> 5
  now mode n :=
    if mode = 3 then
      if n.has_above && n.has_left then none else some (box 0 0 8 8 fun _ _ => 128)
    else if mode = 0 then some (chromaDc n)
    else if mode = 1 then some (box 0 0 8 8 fun _ y => n.left y)
    else some (box 0 0 8 8 fun x _ => n.above x)

end Rtl

end Misterplex.Intra
