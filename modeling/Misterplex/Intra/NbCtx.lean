import Mathlib.Algebra.Group.Nat.Defs
import Mathlib.Data.Nat.Log
import Misterplex.Lib.Trace

/-!
# The neighbour context store of intra prediction

The core keeps reconstructed luma samples in four places: a buffer of the
macroblock in work, a line buffer with the bottom rows of the macroblocks
above, the right column of the macroblock to the left and one corner sample.
The neighbours of a block are selected among these.

The host keeps the whole plane instead. It reads a neighbour sample when its block
comes earlier in the decoding order of the picture and lies within it.
-/

namespace Misterplex.Intra

/-- The neighbours of a 4x4 luma block, with the flags of the two sides. -/
structure Neighbours where
  /-- Four samples above and four samples above to the right. -/
  above : ℕ → UInt8
  left : ℕ → UInt8
  top_left : UInt8
  /-- Which of them there are. -/
  (has_above has_left : Bool)

/-- The inputs of one clock. -/
structure NbIn where
  /-- The macroblock, and macroblocks in a row. -/
  (mb_x mb_y mb_width : ℕ)
  mb_start : Bool
  /-- The block within the macroblock, in raster order. -/
  block_idx : ℕ
  block_valid : Bool
  /-- The samples of the block, in raster order. -/
  recon_pixels : ℕ → UInt8

/-- The registers and memories of the store. -/
structure NbCtx where
  /-- A picture too wide for the line buffer was seen. -/
  geom_reject : Bool
  /-- Samples of the macroblock in work, by row and column. -/
  mb_buf : ℕ → ℕ → UInt8
  above_row_buf : ℕ → UInt8
  /-- Address of the line buffer write. -/
  above_wr_addr : ℕ
  /-- Data of the line buffer write. -/
  above_wr_data : UInt8
  /-- The line buffer is written at the next clock. -/
  above_wr_en : Bool
  /-- Samples of the bottom row sent to the line buffer. -/
  above_wr_cnt : ℕ
  /-- The bottom row is being sent to the line buffer. -/
  above_wr_active : Bool
  /-- Right column of the macroblock to the left. -/
  left_col : ℕ → UInt8
  /-- Corner sample above to the left of the macroblock. -/
  tl_corner : UInt8

namespace NbIn

variable (i : NbIn)

/-- Pixel column of the block. -/
def blk_x : ℕ := i.block_idx%4*4

/-- Pixel row of the block. -/
def blk_y : ℕ := i.block_idx/4*4

/-- The block has samples above. -/
def has_above : Bool := i.mb_y != 0 || i.blk_y != 0

/-- The block has samples to the left. -/
def has_left : Bool := i.mb_x != 0 || i.blk_x != 0

/-- There is a macroblock above to the right. -/
def has_above_right_mb : Bool := i.mb_y != 0 && decide (i.mb_x < i.mb_width-1)

/-- Above to the right lies the same macroblock. -/
def has_above_right_within : Bool := i.blk_y != 0 && decide (i.blk_x<12)

/-- Above to the right lies the row of macroblocks above. -/
def has_above_right_top_edge : Bool :=
  i.blk_y == 0 && (decide (i.blk_x<12) || i.has_above_right_mb)

/-- The block has samples above to the right. -/
def has_above_right : Bool :=
  if i.blk_y == 0 then i.has_above_right_top_edge else i.has_above_right_within

/-- The macroblock or the picture is too wide for the line buffer. -/
def geom_fire (MB_WIDTH_MAX : ℕ) : Bool :=
  decide (MB_WIDTH_MAX ≤ i.mb_x) || decide (MB_WIDTH_MAX < i.mb_width)

end NbIn

namespace NbCtx

/-- The bottom row may be stored. -/
def nb_geom_ok (MB_WIDTH_MAX : ℕ) (s : NbCtx) (i : NbIn) : Bool :=
  !i.geom_fire MB_WIDTH_MAX && !s.geom_reject

variable (s : NbCtx)

/-- The macroblock buffer after a clock. -/
def nextMbBuf (i : NbIn) : ℕ → ℕ → UInt8 :=
  if i.mb_start then fun _ _ => 128
  else if i.block_valid then fun row col =>
    if (i.blk_y≤row ∧ row < i.blk_y+4) ∧ i.blk_x≤col ∧ col < i.blk_x+4 then
      i.recon_pixels ((row-i.blk_y)*4+(col-i.blk_x))
    else s.mb_buf row col
  else s.mb_buf

/-- The last block of a macroblock is done. -/
def lastBlock (i : NbIn) : Bool := i.block_valid && i.block_idx == 15

/-- One clock. -/
def step (MB_WIDTH_MAX : ℕ) (s : NbCtx) (i : NbIn) : NbCtx :=
  { geom_reject :=
      s.geom_reject || (i.geom_fire MB_WIDTH_MAX && (i.mb_start || i.block_valid))
    mb_buf := s.nextMbBuf i
    above_row_buf :=
      if s.above_wr_en then Function.update s.above_row_buf s.above_wr_addr s.above_wr_data
      else s.above_row_buf
    above_wr_addr :=
      if s.above_wr_active then (i.mb_x*16+s.above_wr_cnt)%2^Nat.clog 2 (MB_WIDTH_MAX*16)
      else s.above_wr_addr
    above_wr_data :=
      if s.above_wr_active then s.mb_buf 15 (s.above_wr_cnt%16) else s.above_wr_data
    above_wr_en := s.above_wr_active
    above_wr_cnt :=
      if s.above_wr_active then (s.above_wr_cnt+1)%32
      else if lastBlock i && s.nb_geom_ok MB_WIDTH_MAX i then 0
      else s.above_wr_cnt
    above_wr_active :=
      if s.above_wr_active then s.above_wr_cnt != 15
      else lastBlock i && s.nb_geom_ok MB_WIDTH_MAX i
    left_col := if lastBlock i then fun row => s.mb_buf row 15 else s.left_col
    tl_corner :=
      if i.mb_start then
        if 0 < i.mb_x ∧ 0 < i.mb_y then s.above_row_buf ((i.mb_x-1)*16+15) else 128
      else s.tl_corner }

/-- The samples above a block. -/
def above (i : NbIn) (gi : ℕ) : UInt8 :=
  if i.has_above then
    if i.blk_y != 0 then s.mb_buf (i.blk_y-1) (i.blk_x+gi)
    else s.above_row_buf (i.mb_x*16+i.blk_x+gi)
  else 128

/-- The samples above a block to the right. -/
def above_right (i : NbIn) (gi : ℕ) : UInt8 :=
  if i.has_above_right then
    if i.blk_y != 0 then s.mb_buf (i.blk_y-1) ((i.blk_x+4+gi)%16)
    else s.above_row_buf (i.mb_x*16+i.blk_x+4+gi)
  else s.above i 3

/-- The samples to the left of a block. -/
def left (i : NbIn) (gi : ℕ) : UInt8 :=
  if i.has_left then
    if i.blk_x != 0 then s.mb_buf (i.blk_y+gi) (i.blk_x-1) else s.left_col (i.blk_y+gi)
  else 128

/-- The sample above a block to the left. -/
def top_left (i : NbIn) : UInt8 :=
  if !i.has_above && !i.has_left then 128
  else if i.blk_x != 0 && i.blk_y != 0 then s.mb_buf (i.blk_y-1) (i.blk_x-1)
  else if i.blk_x == 0 && i.blk_y != 0 then s.left_col (i.blk_y-1)
  else if i.blk_x != 0 && i.blk_y == 0 then s.above_row_buf (i.mb_x*16+i.blk_x-1)
  else s.tl_corner

/-- The neighbours presented for the block at the inputs. -/
def outputs (i : NbIn) : Neighbours :=
  { above := fun t => if t < 4 then s.above i t else s.above_right i (t-4)
    left := s.left i
    top_left := s.top_left i
    has_above := i.has_above
    has_left := i.has_left }

/-- No write to the line buffer is under way and no picture was rejected, as
after reset or some clocks behind a picture. -/
structure Idle (s : NbCtx) : Prop where
  /-- No bottom row is being sent. -/
  active : s.above_wr_active=false
  en : s.above_wr_en=false
  reject : s.geom_reject=false

/-- The line buffer once the write that is due has been made. -/
def settled : ℕ → UInt8 :=
  if s.above_wr_en then Function.update s.above_row_buf s.above_wr_addr s.above_wr_data
  else s.above_row_buf

end NbCtx

/-- The size of a picture. -/
structure PicSize where
  /-- Luma samples in a row. -/
  width : ℕ
  /-- Rows of luma samples. -/
  height : ℕ
  deriving DecidableEq

namespace PicSize

variable (d : PicSize)

/-- Macroblocks in a row. -/
def mbW : ℕ := (d.width+15)/16

/-- Rows of macroblocks. -/
def mbH : ℕ := (d.height+15)/16

/-- A sample of the plane, a placeholder outside of the picture. -/
def yAt (y : ℕ → ℕ → UInt8) (px py : ℕ) : UInt8 :=
  if d.width ≤ px ∨ d.height ≤ py then 128 else y px py

/-- Set a sample of the plane, when it lies within the picture. -/
def setY (y : ℕ → ℕ → UInt8) (px py : ℕ) (v : UInt8) : ℕ → ℕ → UInt8 :=
  if px < d.width ∧ py < d.height then
    Function.update y px (Function.update (y px) py v)
  else y

/-- Column of a block by its place in decoding order. -/
def blkX (blk : ℕ) : ℕ := blk/4%2*2+blk%4%2

/-- Row of a block by its place in decoding order. -/
def blkY (blk : ℕ) : ℕ := blk/4/2*2+blk%4/2

/-- Place of a block in the decoding order of its macroblock. -/
def blkOrd (lx ly : ℕ) : ℕ := (ly/2*2+lx/2)*4+(ly%2*2+lx%2)

/-- A sample belongs to a block reconstructed before the given one. -/
def lumaReady (px py mbx mby lx ly : ℕ) : Bool :=
  if d.width ≤ px ∨ d.height ≤ py then false
  else
    let cur := mby*d.mbW+mbx
    let prev := py/16*d.mbW+px/16
    if prev < cur then true
    else if cur < prev then false
    else decide (blkOrd (px%16/4) (py%16/4)<blkOrd lx ly)

/-- The neighbours of a block. -/
def neighbours (y : ℕ → ℕ → UInt8) (mbx mby lx ly : ℕ) : Neighbours :=
  let x0 := mbx*16+lx*4
  let y0 := mby*16+ly*4
  let ha := decide (0<y0) && d.lumaReady x0 (y0-1) mbx mby lx ly
  let hl := decide (0<x0) && d.lumaReady (x0-1) y0 mbx mby lx ly
  let above : ℕ → UInt8 := fun t => if ha then d.yAt y (x0+t) (y0-1) else 128
  let left : ℕ → UInt8 := fun t => if hl then d.yAt y (x0-1) (y0+t) else 128
  { above := fun t =>
      if t < 4 then above t
      else if ha && d.lumaReady (x0+t) (y0-1) mbx mby lx ly then
        d.yAt y (x0+t) (y0-1)
      else above 3
    left := left
    top_left :=
      if ha && hl && d.lumaReady (x0-1) (y0-1) mbx mby lx ly then
        d.yAt y (x0-1) (y0-1)
      else if ha then above 0
      else if hl then left 0
      else 128
    has_above := ha
    has_left := hl }

variable (sample : ℕ → ℕ → UInt8)

/-- Set the samples of the `m`-th block of the picture in decoding order. -/
def setBlock (y : ℕ → ℕ → UInt8) (m : ℕ) : ℕ → ℕ → UInt8 :=
  let x0 := m/16%d.mbW*16+blkX (m%16)*4
  let y0 := m/16/d.mbW*16+blkY (m%16)*4
  (List.range 16).foldl
    (fun y k => d.setY y (x0+k%4) (y0+k/4) (sample (x0+k%4) (y0+k/4))) y

/-- The plane before the `m`-th block: all earlier blocks are set. -/
def planeBefore (m : ℕ) : ℕ → ℕ → UInt8 :=
  (List.range m).foldl (d.setBlock sample) fun _ _ => 128

/-- The neighbours the host reads for the `m`-th block. -/
def hostNeighbours (m : ℕ) : Neighbours :=
  d.neighbours (d.planeBefore sample m) (m/16%d.mbW) (m/16/d.mbW) (blkX (m%16))
    (blkY (m%16))

end PicSize

/-- Two stores agree on a block: on the flags, and on every sample of a side
that is there. -/
structure Agrees (n h : Neighbours) : Prop where
  has_above : n.has_above=h.has_above
  has_left : n.has_left=h.has_left
  above : h.has_above=true → ∀ t<8, n.above t=h.above t
  left : h.has_left=true → ∀ t<4, n.left t=h.left t
  top_left : h.has_above=true → h.has_left=true → n.top_left=h.top_left

end Misterplex.Intra
