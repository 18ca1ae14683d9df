import Mathlib.Data.Nat.Bitwise
import Mathlib.Order.CompletePartialOrder
import Mathlib.Order.Interval.Set.Disjoint
import Mathlib.Tactic.Ring

/-!
# Where frames lie in the shared memory

Two banks and a doorbell page share a window of the physical memory. A layout is
computed from the geometry of the frame, a base address and an alignment, and
can be checked on its own. The widths of the source's integer types are kept:
fields are 32 bits wide, sizes are computed modulo the 64-bit word, and sums of
two or three geometry fields are taken as exact.
-/

namespace Misterplex.DdrLayout

/-- Where the display stands in the presented picture. -/
inductive DdrFramePlacement
  | none
  | pillarbox
  deriving DecidableEq

/-- What a presented pixel shows. -/
inductive DdrFramePixelRegion
  | outside
  | border
  | content
  deriving DecidableEq

/-- Coded, displayed and presented sizes of a frame. -/
structure DdrFrameGeometry where
  /-- Size of the coded picture. -/
  (codedWidth codedHeight : Int32)
  /-- Size of what it shows. -/
  (displayWidth displayHeight : Int32)
  /-- Size of the presented picture. -/
  (presentedWidth presentedHeight : Int32)
  /-- Samples cut off at the edges. -/
  (cropLeft cropRight cropTop cropBottom : Int32)
  /-- Column of the display in the presented picture. -/
  presentX : Int32
  /-- Row of the display in the presented picture. -/
  presentY : Int32
  placement : DdrFramePlacement
  deriving DecidableEq

/-- The stored pixel behind a presented one. -/
structure DdrFramePixelMapping where
  region : DdrFramePixelRegion
  /-- Column in memory, or -1. -/
  codedX : ℤ
  /-- Row in memory, or -1. -/
  codedY : ℤ
  deriving DecidableEq

/-- Offsets of the samples of a pixel in its bank. -/
structure DdrFrameSampleOffsets where
  /-- The pixel shows content. -/
  valid : Bool
  /-- The offset of its luma sample. -/
  y : UInt32
  /-- First chroma component. -/
  u : UInt32
  /-- Second chroma component. -/
  v : UInt32
  deriving DecidableEq

/-- The format of the payload. -/
inductive DdrFrameFormat
  /-- Planar 4:2:0. -/
  | yuv420p
  deriving DecidableEq

/-- The number of the format in the doorbell. -/
def ddrFrameFormatCode : DdrFrameFormat → UInt32
  | .yuv420p => 1

/-- Addresses, strides and planes of the banks. -/
structure DdrFrameLayout where
  /-- First byte of the window, and distance of its banks. -/
  (physBase bankStride : UInt32)
  /-- First byte of the doorbell page, and bytes to map. -/
  (doorbellPhys mapBytes : UInt32)
  /-- Size of the payload of a bank. -/
  frameBytes : ℕ
  /-- Size of the presented picture. -/
  (width height : Int32)
  /-- Size of a line of luma. -/
  (lineBytes lineQwords : Int32)
  /-- Size of a line of chroma. -/
  (chromaLineBytes chromaLineQwords : Int32)
  /-- First byte of the luma plane in a bank. -/
  yOffset : UInt32
  /-- First byte of the first chroma plane. -/
  uOffset : UInt32
  /-- First byte of the second chroma plane. -/
  vOffset : UInt32
  doorbellFormat : UInt32
  /-- What it was made for. -/
  geometry : DdrFrameGeometry
  format : DdrFrameFormat
  deriving DecidableEq

/-- A geometry with nothing set. -/
def DdrFrameGeometry.blank : DdrFrameGeometry :=
  ⟨0,0,0,0,0,0,0,0,0,0,0,0,.none⟩

/-- A layout with nothing set. -/
def DdrFrameLayout.blank : DdrFrameLayout :=
  ⟨0,0,0,0,0,0,0,0,0,0,0,0,0,0,0,DdrFrameGeometry.blank,.yuv420p⟩

/-- A number in a 64-bit word. -/
def u64 (n : ℕ) : ℕ := n%2^64

/-- A signed number converted to a 64-bit word. -/
def toU64 (n : ℤ) : ℕ := (n%2^64).toNat

/-- The geometry is consistent: positive sizes, no negative offset, crops that make up the
coded size, a display inside the picture, whole macroblock columns and even crops. -/
def DdrFrameGeometry.Valid (g : DdrFrameGeometry) : Prop :=
  (0<g.codedWidth.toInt ∧ 0<g.codedHeight.toInt ∧ 0<g.displayWidth.toInt ∧
    0<g.displayHeight.toInt ∧ 0<g.presentedWidth.toInt ∧ 0<g.presentedHeight.toInt) ∧
  (0≤g.cropLeft.toInt ∧ 0≤g.cropRight.toInt ∧ 0≤g.cropTop.toInt ∧
    0≤g.cropBottom.toInt ∧ 0≤g.presentX.toInt ∧ 0≤g.presentY.toInt) ∧
  (g.displayWidth.toInt+g.cropLeft.toInt+g.cropRight.toInt=g.codedWidth.toInt ∧
    g.displayHeight.toInt+g.cropTop.toInt+g.cropBottom.toInt=g.codedHeight.toInt) ∧
  (g.presentX.toInt+g.displayWidth.toInt≤g.presentedWidth.toInt ∧
    g.presentY.toInt+g.displayHeight.toInt≤g.presentedHeight.toInt) ∧
  (g.codedWidth.toInt%16=0 ∧ g.codedHeight.toInt%2=0) ∧
  (g.cropLeft.toInt%2=0 ∧ g.cropRight.toInt%2=0 ∧ g.cropTop.toInt%2=0 ∧
    g.cropBottom.toInt%2=0)

instance (g : DdrFrameGeometry) : Decidable g.Valid := inferInstanceAs (Decidable (_ ∧ _))

/-- The stored pixel behind a presented one, if the pixel is inside the display. -/
def mapDdrFramePresentedPixel (g : DdrFrameGeometry) (x y : ℤ) : DdrFramePixelMapping :=
  if ¬g.Valid ∨ x<0 ∨ y<0 ∨ g.presentedWidth.toInt≤x ∨ g.presentedHeight.toInt ≤ y then
    ⟨.outside,-1,-1⟩
  else if x < g.presentX.toInt ∨ g.presentX.toInt+g.displayWidth.toInt≤x ∨
      y<g.presentY.toInt ∨ g.presentY.toInt+g.displayHeight.toInt ≤ y then
    ⟨.border,-1,-1⟩
  else if x-g.presentX.toInt+g.cropLeft.toInt < 0 ∨
      g.codedWidth.toInt≤x-g.presentX.toInt+g.cropLeft.toInt ∨
      y-g.presentY.toInt+g.cropTop.toInt<0 ∨
      g.codedHeight.toInt ≤ y-g.presentY.toInt+g.cropTop.toInt then
    ⟨.outside,-1,-1⟩
  else
    ⟨.content,x-g.presentX.toInt+g.cropLeft.toInt,y-g.presentY.toInt+g.cropTop.toInt⟩

/-- Size of the payload. -/
def frameBytesOf (g : DdrFrameGeometry) : ℕ :=
  u64 (u64 (toU64 g.codedWidth.toInt*toU64 g.codedHeight.toInt)*3)/2

/-- Least distance of the banks: the payload and the doorbell page. -/
def minBankStride (g : DdrFrameGeometry) : ℕ := u64 (frameBytesOf g+0x1000)

/-- Distance of the banks, rounded up to the alignment. -/
def bankStrideOf (g : DdrFrameGeometry) (strideAlign : UInt32) : ℕ :=
  if strideAlign = 0 then minBankStride g
  else
    u64 (minBankStride g+strideAlign.toNat+(2^64-1)) &&&
      (2^64-1-(strideAlign.toNat-1))

/-- End of the window. -/
def mapEndOf (g : DdrFrameGeometry) (physBase strideAlign : UInt32) : ℕ :=
  u64 (physBase.toNat+u64 (bankStrideOf g strideAlign*2))

/-- The layout does not fit the 32-bit address space. -/
def Overflows (g : DdrFrameGeometry) (physBase strideAlign : UInt32) : Prop :=
  0xFFFFFFFF<toU64 g.codedWidth.toInt ∨ 0xFFFFFFFF<frameBytesOf g ∨
    0xFFFFFFFF<bankStrideOf g strideAlign ∨
    0xFFFFFFFF<u64 (bankStrideOf g strideAlign*2) ∨
    0x100000000 < mapEndOf g physBase strideAlign ∨
    bankStrideOf g strideAlign < minBankStride g

instance (g : DdrFrameGeometry) (physBase strideAlign : UInt32) :
    Decidable (Overflows g physBase strideAlign) := inferInstanceAs (Decidable (_ ∨ _))

/-- The fields of a layout that does not overflow. -/
def layoutFields (geom : DdrFrameGeometry) (physBase strideAlign : UInt32)
    (format : DdrFrameFormat) : DdrFrameLayout :=
  let lineBytes := toU64 geom.codedWidth.toInt
  let chromaLineBytes := toU64 (geom.codedWidth.toInt.tdiv 2)
  let yBytes := UInt32.ofNat (toU64 (geom.codedWidth.toInt*geom.codedHeight.toInt))
  { physBase := physBase, format := format, doorbellFormat := ddrFrameFormatCode format,
    width := geom.codedWidth, height := geom.codedHeight, geometry := geom,
    lineBytes := Int32.ofNat lineBytes, lineQwords := Int32.ofNat (lineBytes/8),
    chromaLineBytes := Int32.ofNat chromaLineBytes,
    chromaLineQwords := Int32.ofNat (chromaLineBytes/8),
    frameBytes := frameBytesOf geom, yOffset := 0, uOffset := yBytes,
    vOffset := yBytes+yBytes/4,
    bankStride := UInt32.ofNat (bankStrideOf geom strideAlign),
    doorbellPhys := UInt32.ofNat (mapEndOf geom physBase strideAlign+(2^64-0x1000)),
    mapBytes := UInt32.ofNat (bankStrideOf geom strideAlign*2) }

/-- The layout of a consistent geometry, where it fits the address space, or the blank one. -/
def makeDdrFrameLayout (geom : DdrFrameGeometry) (physBase strideAlign : UInt32)
    (format : DdrFrameFormat) : DdrFrameLayout :=
  if ¬geom.Valid then DdrFrameLayout.blank
  else if strideAlign ≠ 0 ∧ strideAlign &&& (strideAlign-1) ≠ 0 then DdrFrameLayout.blank
  else if Overflows geom physBase strideAlign then DdrFrameLayout.blank
  else layoutFields geom physBase strideAlign format

variable (l : DdrFrameLayout)

/-- Size of the luma plane as the check computes it. -/
def DdrFrameLayout.yBytes : ℕ :=
  u64 (toU64 l.geometry.codedWidth.toInt*toU64 l.geometry.codedHeight.toInt)

/-- End of the window as the check computes it. -/
def DdrFrameLayout.mapEnd : ℕ := u64 (l.physBase.toNat+l.mapBytes.toNat)

/-- First byte of the second bank as the check computes it. -/
def DdrFrameLayout.bank1 : ℕ := u64 (l.physBase.toNat+l.bankStride.toNat)

/-- The check of a layout: its geometry, its lines and planes, its window, and that the banks
and the doorbell page do not overlap. -/
def DdrFrameLayout.Valid : Prop :=
  (l.physBase≠0 ∧ 0<l.width.toInt ∧ 0<l.height.toInt ∧ l.frameBytes≠0) ∧
  (l.geometry.Valid ∧ l.geometry.codedWidth=l.width ∧ l.geometry.codedHeight=l.height) ∧
  (l.lineBytes=l.geometry.codedWidth ∧
    l.chromaLineBytes.toInt=l.geometry.codedWidth.toInt.tdiv 2 ∧
    l.lineQwords.toInt*8=l.lineBytes.toInt ∧
    l.chromaLineQwords.toInt*8=l.chromaLineBytes.toInt ∧ l.yOffset=0 ∧
    l.uOffset.toNat=l.yBytes ∧ l.vOffset.toNat=u64 (l.yBytes+l.yBytes/4) ∧
    l.frameBytes=u64 (l.yBytes+2*(l.yBytes/4)) ∧
    l.doorbellFormat=ddrFrameFormatCode l.format) ∧
  (l.frameBytes≤l.bankStride.toNat ∧ l.mapBytes.toNat=u64 (l.bankStride.toNat*2)) ∧
  (l.mapEnd≤0x100000000 ∧ u64 (l.doorbellPhys.toNat+0x1000)=l.mapEnd) ∧
  (u64 (l.physBase.toNat+l.frameBytes)≤l.bank1 ∧
    u64 (l.bank1+l.frameBytes)≤l.doorbellPhys.toNat)

instance (l : DdrFrameLayout) : Decidable l.Valid := inferInstanceAs (Decidable (_ ∧ _))

/-- Offset of a luma sample. -/
def DdrFrameLayout.lumaOffset (x y : ℤ) : ℕ :=
  u64 (l.yOffset.toNat+u64 (toU64 y*toU64 l.lineBytes.toInt)+toU64 x)

/-- Number of a chroma sample in its plane. -/
def DdrFrameLayout.chromaIndex (x y : ℤ) : ℕ :=
  u64 (toU64 (y.tdiv 2)*toU64 l.chromaLineBytes.toInt+toU64 (x.tdiv 2))

/-- Offsets of the samples of a presented pixel in its bank. -/
def ddrFramePresentedSampleOffsets (x y : ℤ) : DdrFrameSampleOffsets :=
  let map := mapDdrFramePresentedPixel l.geometry x y
  if ¬l.Valid ∨ map.region ≠ .content then ⟨false,0,0,0⟩
  else
    let yOff := l.lumaOffset map.codedX map.codedY
    let uOff := u64 (l.uOffset.toNat+l.chromaIndex map.codedX map.codedY)
    let vOff := u64 (l.vOffset.toNat+l.chromaIndex map.codedX map.codedY)
    if l.uOffset.toNat ≤ yOff ∨ l.vOffset.toNat≤uOff ∨ l.frameBytes ≤ vOff then
      ⟨false,0,0,0⟩
    else ⟨true,UInt32.ofNat yOff,UInt32.ofNat uOff,UInt32.ofNat vOff⟩

theorem u64_of_lt {n : ℕ} (h : n<2^64) : u64 n=n := Nat.mod_eq_of_lt h

theorem toU64_natCast {n : ℕ} (h : n<2^64) : toU64 (n : ℤ)=n := by
  unfold toU64
  omega

theorem toNat_ofNat_of_lt {n : ℕ} (h : n<2^32) : (UInt32.ofNat n).toNat=n :=
  UInt32.toNat_ofNat_of_lt h

/-- The coded size of a consistent geometry: `k` groups of 32 pixels. -/
structure CodedSize (g : DdrFrameGeometry) (w h k : ℕ) : Prop where
  width : g.codedWidth.toInt=w
  height : g.codedHeight.toInt=h
  /-- The width is a positive number of macroblocks. -/
  columns : 0<w ∧ w<2^31 ∧ w%16=0
  /-- The height is positive and even. -/
  rows : 0<h ∧ h<2^31 ∧ h%2=0
  pixels : w*h=32*k
  some : 0<k
  /-- The number of pixels fits the 64-bit word with room for the chroma planes. -/
  fits : 32*k<2^62

variable {g : DdrFrameGeometry}

theorem DdrFrameGeometry.Valid.codedSize (h : g.Valid) : ∃ w r k, CodedSize g w r k := by
  have hw := h.1.1
  have hh := h.1.2.1
  have hcols := h.2.2.2.2.1.1
  have hrows := h.2.2.2.2.1.2
  have hwlt := g.codedWidth.toInt_lt
  have hhlt := g.codedHeight.toInt_lt
  refine ⟨g.codedWidth.toInt.toNat,g.codedHeight.toInt.toNat,
    (g.codedWidth.toInt.toNat/16)*(g.codedHeight.toInt.toNat/2),?_⟩
  have hwidth : g.codedWidth.toInt=(g.codedWidth.toInt.toNat : ℤ) := by omega
  have hheight : g.codedHeight.toInt=(g.codedHeight.toInt.toNat : ℤ) := by omega
  generalize g.codedWidth.toInt.toNat=w at *
  generalize g.codedHeight.toInt.toNat=r at *
  have ha : w=16*(w/16) := by omega
  have hb : r=2*(r/2) := by omega
  have hpixels : w*r=32*(w/16*(r/2)) := by
    conv_lhs => rw [ha,hb]
    ring
  have hpos : 0<w/16*(r/2) := Nat.mul_pos (by omega) (by omega)
  have hfits : w*r<2^31*2^31 := Nat.mul_lt_mul'' (by omega) (by omega)
  exact
    { width := hwidth
      height := hheight
      columns := ⟨by omega,by omega,by omega⟩
      rows := ⟨by omega,by omega,by omega⟩
      pixels := hpixels
      some := hpos
      fits := by omega }

variable {w h k : ℕ}

theorem CodedSize.toU64 (hs : CodedSize g w h k) :
    toU64 g.codedWidth.toInt=w ∧ toU64 g.codedHeight.toInt=h := by
  have hw := hs.columns
  have hh := hs.rows
  rw [hs.width,hs.height]
  exact ⟨toU64_natCast (by omega),toU64_natCast (by omega)⟩

theorem CodedSize.frameBytesOf (hs : CodedSize g w h k) : frameBytesOf g=48*k := by
  have hfits := hs.fits
  unfold DdrLayout.frameBytesOf u64
  rw [hs.toU64.1,hs.toU64.2,hs.pixels]
  omega

theorem CodedSize.halfWidth (hs : CodedSize g w h k) :
    g.codedWidth.toInt.tdiv 2=((w/2 : ℕ) : ℤ) := by
  rw [hs.width]
  exact (Int.natCast_div w 2).symm

/-- A layout that does not overflow: the window holds both banks, each with the payload and a
page behind it. -/
structure Window (g : DdrFrameGeometry) (physBase strideAlign : UInt32) (k s : ℕ) : Prop where
  stride : bankStrideOf g strideAlign=s
  room : 48*k+0x1000 ≤ s
  /-- The window fits a 32-bit size. -/
  size : s*2≤0xFFFFFFFF
  /-- The window ends where the address space does, at the latest. -/
  inSpace : physBase.toNat+s*2≤0x100000000
  mapEnd : mapEndOf g physBase strideAlign=physBase.toNat+s*2

variable {physBase strideAlign : UInt32}

/-- A coded size that does not overflow gives the window its banks. -/
theorem CodedSize.window (hs : CodedSize g w h k) (hfit : ¬Overflows g physBase strideAlign) :
    Window g physBase strideAlign k (bankStrideOf g strideAlign) := by
  have hbase := physBase.toNat_lt
  unfold Overflows mapEndOf minBankStride at hfit
  rw [hs.frameBytesOf] at hfit
  simp only [not_or,not_lt] at hfit
  obtain ⟨_,hframe,hstride,hsize,hspace,hroom⟩ := hfit
  generalize hbs : bankStrideOf g strideAlign=s at *
  rw [u64_of_lt (by omega)] at hroom hsize
  rw [u64_of_lt (by omega : s*2<2^64),u64_of_lt (by omega)] at hspace
  exact
    { stride := hbs
      room := hroom
      size := hsize
      inSpace := hspace
      mapEnd := by
        unfold mapEndOf
        rw [hbs,u64_of_lt (by omega : s*2<2^64),u64_of_lt (by omega)] }

theorem CodedSize.planes {w h k s : ℕ} (hs : CodedSize g w h k)
    (hwin : Window g physBase strideAlign k s)
    (format : DdrFrameFormat) :
    (layoutFields g physBase strideAlign format).uOffset.toNat=32*k ∧
      (layoutFields g physBase strideAlign format).vOffset.toNat=40*k := by
  have hroom := hwin.room
  have hsize := hwin.size
  have hcast : g.codedWidth.toInt*g.codedHeight.toInt=((32*k : ℕ) : ℤ) := by
    rw [hs.width,hs.height,← hs.pixels,Nat.cast_mul]
  have hluma : (UInt32.ofNat
      (DdrLayout.toU64 (g.codedWidth.toInt*g.codedHeight.toInt))).toNat=32*k := by
    rw [hcast,toU64_natCast (by omega),toNat_ofNat_of_lt (by omega)]
  constructor
  · exact hluma
  · have hdiv : (UInt32.ofNat (DdrLayout.toU64 (g.codedWidth.toInt*g.codedHeight.toInt)) /
        4).toNat=8*k := by
      rw [UInt32.toNat_div,hluma]
      show 32*k/4=8*k
      omega
    have hsum := UInt32.toNat_add
      (UInt32.ofNat (DdrLayout.toU64 (g.codedWidth.toInt*g.codedHeight.toInt)))
      (UInt32.ofNat (DdrLayout.toU64 (g.codedWidth.toInt*g.codedHeight.toInt))/4)
    exact hsum.trans (by omega)

theorem CodedSize.lines (hs : CodedSize g w h k)
    (physBase strideAlign : UInt32) (format : DdrFrameFormat) :
    (layoutFields g physBase strideAlign format).lineBytes=g.codedWidth ∧
      (layoutFields g physBase strideAlign format).chromaLineBytes.toInt =
        g.codedWidth.toInt.tdiv 2 ∧
      (layoutFields g physBase strideAlign format).lineQwords.toInt*8=g.codedWidth.toInt ∧
      (layoutFields g physBase strideAlign format).chromaLineQwords.toInt*8 =
        g.codedWidth.toInt.tdiv 2 := by
  have hw := hs.columns
  have hline : (Int32.ofNat (DdrLayout.toU64 g.codedWidth.toInt)).toInt=g.codedWidth.toInt := by
    rw [hs.toU64.1,Int32.toInt_ofNat_of_lt (by omega),hs.width]
  have hhalf : DdrLayout.toU64 (g.codedWidth.toInt.tdiv 2)=w/2 := by
    rw [hs.halfWidth,toU64_natCast (by omega)]
  refine ⟨Int32.toInt.inj hline,?_,?_,?_⟩
  · show (Int32.ofNat (DdrLayout.toU64 (g.codedWidth.toInt.tdiv 2))).toInt=_
    rw [hhalf,Int32.toInt_ofNat_of_lt (by omega),hs.halfWidth]
  · show (Int32.ofNat (DdrLayout.toU64 g.codedWidth.toInt/8)).toInt*8=_
    rw [hs.toU64.1,Int32.toInt_ofNat_of_lt (by omega),hs.width]
    omega
  · show (Int32.ofNat (DdrLayout.toU64 (g.codedWidth.toInt.tdiv 2)/8)).toInt*8=_
    rw [hhalf,Int32.toInt_ofNat_of_lt (by omega),hs.halfWidth]
    omega

theorem Window.addresses {k s : ℕ}
    (hwin : Window g physBase strideAlign k s) (format : DdrFrameFormat) :
    (layoutFields g physBase strideAlign format).bankStride.toNat=s ∧
      (layoutFields g physBase strideAlign format).mapBytes.toNat=s*2 ∧
      (layoutFields g physBase strideAlign format).doorbellPhys.toNat+0x1000 =
        physBase.toNat+s*2 := by
  have hroom := hwin.room
  have hsize := hwin.size
  have hspace := hwin.inSpace
  refine ⟨?_,?_,?_⟩
  · show (UInt32.ofNat (bankStrideOf g strideAlign)).toNat=s
    rw [hwin.stride,toNat_ofNat_of_lt (by omega)]
  · show (UInt32.ofNat (bankStrideOf g strideAlign*2)).toNat=s*2
    rw [hwin.stride,toNat_ofNat_of_lt (by omega)]
  · show (UInt32.ofNat (mapEndOf g physBase strideAlign+(2^64-0x1000))).toNat+0x1000=_
    rw [hwin.mapEnd,UInt32.toNat_ofNat']
    omega

open DdrFrameLayout

theorem CodedSize.layout_valid {w h k s : ℕ} (hs : CodedSize g w h k)
    (hvalid : g.Valid) (hbase : physBase≠0)
    (hwin : Window g physBase strideAlign k s) (format : DdrFrameFormat) :
    (layoutFields g physBase strideAlign format).Valid := by
  have hk := hs.some
  have hroom := hwin.room
  have hspace := hwin.inSpace
  have hlines := hs.lines physBase strideAlign format
  have hplanes := hs.planes hwin format
  have haddr := hwin.addresses format
  have hy : (layoutFields g physBase strideAlign format).yBytes=32*k := by
    show u64 (DdrLayout.toU64 g.codedWidth.toInt*DdrLayout.toU64 g.codedHeight.toInt)=_
    rw [hs.toU64.1,hs.toU64.2,hs.pixels,u64_of_lt (by omega)]
  have hframe : (layoutFields g physBase strideAlign format).frameBytes=48*k :=
    hs.frameBytesOf
  have hphys : (layoutFields g physBase strideAlign format).physBase=physBase := rfl
  have hbank : (layoutFields g physBase strideAlign format).bank1=physBase.toNat+s := by
    unfold bank1
    rw [haddr.1,hphys,u64_of_lt (by omega)]
  have hend : (layoutFields g physBase strideAlign format).mapEnd=physBase.toNat+s*2 := by
    unfold mapEnd
    rw [haddr.2.1,hphys,u64_of_lt (by omega)]
  unfold DdrFrameLayout.Valid
  rw [hy,hframe,hbank,hend,haddr.1,haddr.2.1,hplanes.1,hplanes.2,hphys,
    u64_of_lt (by omega : physBase.toNat+48*k<2^64),
    u64_of_lt (by omega : physBase.toNat+s+48*k<2^64),
    u64_of_lt (by omega : s*2<2^64),
    u64_of_lt (by omega : 32*k+32*k/4<2^64),
    u64_of_lt (by omega : 32*k+2*(32*k/4)<2^64),
    u64_of_lt (by omega :
      (layoutFields g physBase strideAlign format).doorbellPhys.toNat+0x1000<2^64)]
  refine ⟨⟨hbase,hvalid.1.1,hvalid.1.2.1,by omega⟩,⟨hvalid,rfl,rfl⟩,
    ⟨hlines.1,hlines.2.1,?_,?_,rfl,rfl,by omega,by omega,rfl⟩,⟨by omega,rfl⟩,
    ⟨by omega,haddr.2.2⟩,by omega,by omega⟩
  · rw [hlines.1]
    exact hlines.2.2.1
  · rw [hlines.2.1]
    exact hlines.2.2.2

theorem makeDdrFrameLayout_valid (g : DdrFrameGeometry) {physBase : UInt32} (hbase : physBase≠0)
    (strideAlign : UInt32) (format : DdrFrameFormat) :
    makeDdrFrameLayout g physBase strideAlign format=DdrFrameLayout.blank ∨
      (makeDdrFrameLayout g physBase strideAlign format).Valid := by
  unfold makeDdrFrameLayout
  by_cases hvalid : g.Valid
  · split_ifs with halign hfit
    · exact Or.inl rfl
    · exact Or.inl rfl
    · obtain ⟨w,h,k,hs⟩ := hvalid.codedSize
      exact Or.inr (hs.layout_valid hvalid hbase (hs.window hfit) format)
  · rw [if_pos hvalid]
    exact Or.inl rfl

/-- What the check establishes of a layout. -/
structure DdrFrameLayout.Checked (l : DdrFrameLayout) (w h k : ℕ) : Prop where
  size : CodedSize l.geometry w h k
  line : l.lineBytes.toInt=w
  chromaLine : l.chromaLineBytes.toInt=(w/2 : ℕ)
  planes : l.yOffset.toNat=0 ∧ l.uOffset.toNat=32*k ∧ l.vOffset.toNat=40*k ∧
    l.frameBytes=48*k
  window : l.mapBytes.toNat=l.bankStride.toNat*2
  /-- The doorbell page ends the window. -/
  doorbell : l.doorbellPhys.toNat+0x1000=l.physBase.toNat+l.mapBytes.toNat
  /-- The first bank ends before the second, and that before the doorbell page. -/
  apart : l.frameBytes≤l.bankStride.toNat ∧
    l.physBase.toNat+l.bankStride.toNat+l.frameBytes≤l.doorbellPhys.toNat

theorem DdrFrameLayout.Valid.checked {l : DdrFrameLayout} (hl : l.Valid) :
    ∃ w h k, l.Checked w h k := by
  obtain ⟨_,hgeom,hlines,hstride,hend,hbanks⟩ := hl
  obtain ⟨w,h,k,hs⟩ := hgeom.1.codedSize
  have hfits := hs.fits
  have hphys := l.physBase.toNat_lt
  have hstridelt := l.bankStride.toNat_lt
  have hbelllt := l.doorbellPhys.toNat_lt
  have hy : l.yBytes=32*k := by
    unfold yBytes
    rw [hs.toU64.1,hs.toU64.2,hs.pixels,u64_of_lt (by omega)]
  have hframe : l.frameBytes=48*k := by
    rw [hlines.2.2.2.2.2.2.2.1,hy,u64_of_lt (by omega)]
    omega
  have hu : l.uOffset.toNat=32*k := hlines.2.2.2.2.2.1.trans hy
  have hv : l.vOffset.toNat=40*k := by
    rw [hlines.2.2.2.2.2.2.1,hy,u64_of_lt (by omega)]
    omega
  have hmap : l.mapBytes.toNat=l.bankStride.toNat*2 := by
    rw [hstride.2,u64_of_lt (by omega)]
  have hroom := hstride.1
  rw [hframe] at hroom
  have hmapEnd : l.mapEnd=l.physBase.toNat+l.mapBytes.toNat := u64_of_lt (by omega)
  have hbank : l.bank1=l.physBase.toNat+l.bankStride.toNat := u64_of_lt (by omega)
  have hbell := hend.2
  rw [hmapEnd,u64_of_lt (by omega)] at hbell
  have hlast := hbanks.2
  rw [hbank,hframe,u64_of_lt (by omega)] at hlast
  refine ⟨w,h,k,?_⟩
  exact
    { size := hs
      line := by rw [hlines.1]; exact hs.width
      chromaLine := by rw [hlines.2.1]; exact hs.halfWidth
      planes := ⟨by rw [hlines.2.2.2.2.1]; rfl,hu,hv,hframe⟩
      window := hmap
      doorbell := hbell
      apart := by rw [hframe]; exact ⟨hroom,hlast⟩ }

/-- The bytes of a bank's payload. -/
def DdrFrameLayout.bank (i : ℕ) : Set ℕ :=
  Set.Ico (l.physBase.toNat+i*l.bankStride.toNat)
    (l.physBase.toNat+i*l.bankStride.toNat+l.frameBytes)

/-- The bytes of the doorbell page. -/
def DdrFrameLayout.doorbellPage : Set ℕ :=
  Set.Ico l.doorbellPhys.toNat (l.doorbellPhys.toNat+0x1000)

/-- The bytes of the mapped window. -/
def DdrFrameLayout.window : Set ℕ :=
  Set.Ico l.physBase.toNat (l.physBase.toNat+l.mapBytes.toNat)

theorem disjoint_of_le {a b c d : ℕ} (h : b≤c) : Disjoint (Set.Ico a b) (Set.Ico c d) := by
  rw [Set.disjoint_left]
  intro n hn hn'
  exact absurd (lt_of_lt_of_le hn.2 (le_trans h hn'.1)) (lt_irrefl n)

/-- The banks and the doorbell page of a valid layout do not overlap and lie in the window. -/
structure DdrFrameLayout.Apart (l : DdrFrameLayout) : Prop where
  /-- The banks do not meet. -/
  banks : Disjoint (l.bank 0) (l.bank 1)
  /-- No bank meets the doorbell's page. -/
  doorbell : Disjoint (l.bank 0) l.doorbellPage ∧ Disjoint (l.bank 1) l.doorbellPage
  /-- Everything lies in the window. -/
  inside : l.bank 0 ⊆ l.window ∧ l.bank 1 ⊆ l.window ∧ l.doorbellPage ⊆ l.window

theorem DdrFrameLayout.Checked.isApart {l : DdrFrameLayout} (hc : l.Checked w h k) : l.Apart := by
  have hwindow := hc.window
  have hbell := hc.doorbell
  have hlast := hc.apart.2
  exact
    { banks := disjoint_of_le (by omega)
      doorbell := ⟨disjoint_of_le (by omega),disjoint_of_le (by omega)⟩
      inside := ⟨Set.Ico_subset_Ico (by omega) (by omega),
        Set.Ico_subset_Ico (by omega) (by omega),Set.Ico_subset_Ico (by omega) (by omega)⟩ }

theorem mapDdrFramePresentedPixel_content (hs : CodedSize g w h k) {x y : ℤ}
    (hcontent : (mapDdrFramePresentedPixel g x y).region = .content) :
    ∃ cx cy : ℕ, cx<w ∧ cy<h ∧
      mapDdrFramePresentedPixel g x y=⟨.content,cx,cy⟩ ∧
      (cx : ℤ)=x-g.presentX.toInt+g.cropLeft.toInt ∧
      (cy : ℤ)=y-g.presentY.toInt+g.cropTop.toInt := by
  have hw := hs.width
  have hh := hs.height
  unfold mapDdrFramePresentedPixel at hcontent ⊢
  split_ifs at hcontent ⊢ with houtside hborder hcoded
  generalize x-g.presentX.toInt+g.cropLeft.toInt=cx at *
  generalize y-g.presentY.toInt+g.cropTop.toInt=cy at *
  simp only [not_or,not_lt,not_le] at hcoded
  refine ⟨cx.toNat,cy.toNat,by omega,by omega,?_,by omega,by omega⟩
  rw [Int.toNat_of_nonneg hcoded.1,Int.toNat_of_nonneg hcoded.2.2.1]

/-- The offsets of a stored pixel: its luma sample is in the luma plane and its chroma samples
in the chroma planes. -/
theorem DdrFrameLayout.Checked.offsets {l : DdrFrameLayout} (hc : l.Checked w h k)
    {cx cy : ℕ} (hx : cx<w) (hy : cy<h) :
    l.lumaOffset cx cy=cy*w+cx ∧ cy*w+cx<32*k ∧
      l.chromaIndex cx cy=cy/2*(w/2)+cx/2 ∧ cy/2*(w/2)+cx/2<8*k := by
  have hcols := hc.size.columns
  have hrows := hc.size.rows
  have hpixels := hc.size.pixels
  have hfits := hc.size.fits
  have hluma : cy*w+cx<32*k := by
    have hrow : (cy+1)*w≤h*w := Nat.mul_le_mul_right w hy
    rw [Nat.add_mul,Nat.one_mul,Nat.mul_comm h w,hpixels] at hrow
    omega
  have hchroma : cy/2*(w/2)+cx/2<8*k := by
    have hrow : (cy/2+1)*(w/2)≤h/2*(w/2) :=
      Nat.mul_le_mul_right _ (by omega)
    have hquarter : h/2*(w/2)=8*k := by
      have hw2 : w=2*(w/2) := by omega
      have hh2 : h=2*(h/2) := by omega
      have hfour : w*h=4*(h/2*(w/2)) := by
        conv_lhs => rw [hw2,hh2]
        ring
      omega
    rw [Nat.add_mul,Nat.one_mul,hquarter] at hrow
    omega
  have hcy : toU64 (cy : ℤ)=cy := toU64_natCast (by omega)
  have hcx : toU64 (cx : ℤ)=cx := toU64_natCast (by omega)
  have hwidth : toU64 ((w : ℕ) : ℤ)=w := toU64_natCast (by omega)
  have hhalf : toU64 ((w/2 : ℕ) : ℤ)=w/2 := toU64_natCast (by omega)
  have hcy2 : toU64 ((cy : ℤ).tdiv 2)=cy/2 := by
    rw [show (cy : ℤ).tdiv 2=((cy/2 : ℕ) : ℤ) from (Int.natCast_div cy 2).symm]
    exact toU64_natCast (by omega)
  have hcx2 : toU64 ((cx : ℤ).tdiv 2)=cx/2 := by
    rw [show (cx : ℤ).tdiv 2=((cx/2 : ℕ) : ℤ) from (Int.natCast_div cx 2).symm]
    exact toU64_natCast (by omega)
  refine ⟨?_,hluma,?_,hchroma⟩
  · unfold lumaOffset
    rw [hc.planes.1,hc.line,hcy,hcx,hwidth,u64_of_lt (by omega : cy*w<2^64),
      u64_of_lt (by omega),Nat.zero_add]
  · unfold chromaIndex
    rw [hc.chromaLine,hhalf,hcy2,hcx2,u64_of_lt (by omega)]

theorem DdrFrameLayout.Checked.presented {l : DdrFrameLayout} (hc : l.Checked w h k)
    (hl : l.Valid) {x y : ℤ}
    (hcontent : (mapDdrFramePresentedPixel l.geometry x y).region = .content) :
    ∃ cx cy : ℕ, cx<w ∧ (cx : ℤ)=x-l.geometry.presentX.toInt+l.geometry.cropLeft.toInt ∧
      (cy : ℤ)=y-l.geometry.presentY.toInt+l.geometry.cropTop.toInt ∧
      (ddrFramePresentedSampleOffsets l x y).valid=true ∧
      (ddrFramePresentedSampleOffsets l x y).y.toNat=cy*w+cx ∧
      cy*w+cx<32*k ∧ cy/2*(w/2)+cx/2<8*k ∧
      (ddrFramePresentedSampleOffsets l x y).u.toNat=32*k+(cy/2*(w/2)+cx/2) ∧
      (ddrFramePresentedSampleOffsets l x y).v.toNat=40*k+(cy/2*(w/2)+cx/2) := by
  obtain ⟨cx,cy,hx,hy,hmap,hxeq,hyeq⟩ :=
    mapDdrFramePresentedPixel_content hc.size hcontent
  obtain ⟨hluma,hlumalt,hchroma,hchromalt⟩ := hc.offsets hx hy
  have hstride := hc.apart.1
  have hstridelt := l.bankStride.toNat_lt
  have hplanes := hc.planes
  have hu : u64 (l.uOffset.toNat+l.chromaIndex cx cy) =
      32*k+(cy/2*(w/2)+cx/2) := by
    rw [hchroma,hplanes.2.1,u64_of_lt (by omega)]
  have hv : u64 (l.vOffset.toNat+l.chromaIndex cx cy) =
      40*k+(cy/2*(w/2)+cx/2) := by
    rw [hchroma,hplanes.2.2.1,u64_of_lt (by omega)]
  have hresult : ddrFramePresentedSampleOffsets l x y =
      ⟨true,UInt32.ofNat (cy*w+cx),UInt32.ofNat (32*k+(cy/2*(w/2)+cx/2)),
        UInt32.ofNat (40*k+(cy/2*(w/2)+cx/2))⟩ := by
    unfold ddrFramePresentedSampleOffsets
    rw [hmap]
    simp only [hluma,hu,hv]
    rw [if_neg (by simp [hl]),if_neg (by omega)]
  refine ⟨cx,cy,hx,hxeq,hyeq,?_⟩
  rw [hresult]
  exact ⟨rfl,toNat_ofNat_of_lt (by omega),hlumalt,hchromalt,toNat_ofNat_of_lt (by omega),
    toNat_ofNat_of_lt (by omega)⟩

/-- The samples of the presented pixels: exactly the pixels that show a stored one have some,
different pixels have different luma samples, and every sample is in its plane. -/
structure DdrFrameLayout.Samples (l : DdrFrameLayout) : Prop where
  /-- Exactly the pixels that show a stored one have samples. -/
  valid_iff : ∀ x y, (ddrFramePresentedSampleOffsets l x y).valid=true ↔
    (mapDdrFramePresentedPixel l.geometry x y).region = .content
  /-- Different pixels have different luma samples. -/
  distinct : ∀ x y x' y', (mapDdrFramePresentedPixel l.geometry x y).region = .content →
    (mapDdrFramePresentedPixel l.geometry x' y').region = .content →
    (ddrFramePresentedSampleOffsets l x y).y=(ddrFramePresentedSampleOffsets l x' y').y →
    x=x' ∧ y=y'
  inPlanes : ∀ x y, (mapDdrFramePresentedPixel l.geometry x y).region = .content →
    (ddrFramePresentedSampleOffsets l x y).y<l.uOffset ∧
    l.uOffset≤(ddrFramePresentedSampleOffsets l x y).u ∧
    (ddrFramePresentedSampleOffsets l x y).u<l.vOffset ∧
    l.vOffset≤(ddrFramePresentedSampleOffsets l x y).v ∧
    (ddrFramePresentedSampleOffsets l x y).v.toNat<l.frameBytes

theorem rowMajor_inj {w x y x' y' : ℕ} (hx : x<w) (hx' : x'<w)
    (h : y*w+x=y'*w+x') : x=x' ∧ y=y' := by
  have hmod := congrArg (· % w) h
  simp only [Nat.mul_comm y w,Nat.mul_comm y' w,
    Nat.mul_add_mod,Nat.mod_eq_of_lt hx,Nat.mod_eq_of_lt hx'] at hmod
  constructor
  · exact hmod
  · rw [hmod] at h
    exact Nat.eq_of_mul_eq_mul_right (by omega) (Nat.add_right_cancel h)

theorem DdrFrameLayout.Valid.samples {l : DdrFrameLayout} (hl : l.Valid) : l.Samples := by
  obtain ⟨w,h,k,hc⟩ := hl.checked
  have hplanes := hc.planes
  exact
    { valid_iff := by
        intro x y
        constructor
        · intro hvalid
          by_contra hregion
          have hnone : ddrFramePresentedSampleOffsets l x y=⟨false,0,0,0⟩ :=
            if_pos (Or.inr hregion)
          rw [hnone] at hvalid
          exact absurd hvalid Bool.false_ne_true
        · intro hcontent
          obtain ⟨_,_,_,_,_,hvalid,_⟩ := hc.presented hl hcontent
          exact hvalid
      distinct := by
        intro x y x' y' hcontent hcontent' hsame
        obtain ⟨cx,cy,hx,hxeq,hyeq,_,hluma,_⟩ := hc.presented hl hcontent
        obtain ⟨cx',cy',hx',hxeq',hyeq',_,hluma',_⟩ := hc.presented hl hcontent'
        have hoffset : cy*w+cx=cy'*w+cx' := by
          rw [← hluma,← hluma',hsame]
        have hpixel := rowMajor_inj hx hx' hoffset
        omega
      inPlanes := by
        intro x y hcontent
        obtain ⟨cx,cy,_,_,_,_,hluma,hlumalt,hchromalt,hu,hv⟩ :=
          hc.presented hl hcontent
        rw [UInt32.lt_iff_toNat_lt,UInt32.le_iff_toNat_le,UInt32.lt_iff_toNat_lt,
          UInt32.le_iff_toNat_le,hluma,hu,hv,hplanes.2.1,hplanes.2.2.1,hplanes.2.2.2]
        omega }

/-- For every geometry, every base address but zero and every alignment the layout is blank or
valid; in every valid layout the banks and the doorbell page are apart inside the window, and
exactly the presented pixels that show a stored one have samples, each in its plane. -/
theorem ddr_layout_sound :
    (∀ (g : DdrFrameGeometry) (physBase strideAlign : UInt32) (format : DdrFrameFormat),
      physBase≠0 →
        makeDdrFrameLayout g physBase strideAlign format=DdrFrameLayout.blank ∨
          (makeDdrFrameLayout g physBase strideAlign format).Valid) ∧
      ∀ l : DdrFrameLayout, l.Valid → l.Apart ∧ l.Samples := by
  constructor
  · exact fun g physBase strideAlign format hbase =>
      makeDdrFrameLayout_valid g hbase strideAlign format
  · intro l hl
    obtain ⟨_,_,_,hc⟩ := hl.checked
    exact ⟨hc.isApart,hl.samples⟩

/-- The measured 480-line frame: coded 624 by 480, displayed 618 by 480 between pillars. -/
def plex480pDdrFrameGeometry : DdrFrameGeometry :=
  ⟨624,480,618,480,640,480,0,6,0,0,11,0,.pillarbox⟩

/-- The layout of the measured frame. -/
def plex480pLayout : DdrFrameLayout :=
  makeDdrFrameLayout plex480pDdrFrameGeometry 0x30000000 0x40000 .yuv420p

/-- The layout of the measured frame is valid and apart, and has its samples in place: those of
a pixel right of the pillar by its coded column and row. -/
theorem ddr_layout_sound_480p :
    (plex480pLayout=DdrFrameLayout.blank ∨ plex480pLayout.Valid) ∧
      plex480pLayout.Apart ∧ plex480pLayout.Samples ∧
      mapDdrFramePresentedPixel plex480pLayout.geometry 100 51=⟨.content,89,51⟩ ∧
      ddrFramePresentedSampleOffsets plex480pLayout 100 51=⟨true,31913,307364,382244⟩ := by
  have hsound := ddr_layout_sound.2 plex480pLayout (by decide)
  exact ⟨ddr_layout_sound.1 plex480pDdrFrameGeometry 0x30000000 0x40000 .yuv420p (by decide),
    hsound.1,hsound.2,by decide,by decide⟩

end Misterplex.DdrLayout
