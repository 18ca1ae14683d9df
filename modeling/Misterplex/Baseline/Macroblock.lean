import Misterplex.Baseline.Delivery

/-!
# The macroblock layer

The syntax of 7.3.5 for the macroblocks of I and P slices with one reference frame,
entropy coded with Exp-Golomb codes, up to the residual: what a macroblock is, its
code, and what a parser is to report about it. Macroblocks with their samples in the
stream and transforms of 8x8 are left out.
-/

namespace Misterplex.Baseline

open BitString ExpGolomb

/-- Types of an 8x8 partition, with their codes. -/
inductive SubMbType where
  | pL08x8
  | pL08x4
  | pL04x8
  | pL04x4
  deriving DecidableEq, Repr

namespace SubMbType

/-- The value of `sub_mb_type`. -/
def code : SubMbType → ℕ
  | pL08x8 => 0
  | pL08x4 => 1
  | pL04x8 => 2
  | pL04x4 => 3

/-- Parts with a motion vector. -/
def parts : SubMbType → ℕ
  | pL08x8 => 1
  | pL08x4 => 2
  | pL04x8 => 2
  | pL04x4 => 4

end SubMbType

/-- Partitions of a macroblock with motion. -/
inductive Partition where
  | p16x16
  /-- P_L0_L0_16x8. -/
  | p16x8
  /-- P_L0_L0_8x16. -/
  | p8x16
  | p8x8 (ref0 : Bool) (first second third fourth : SubMbType)
  deriving DecidableEq, Repr

namespace Partition

/-- The value of `mb_type` in a P slice. -/
def mbType : Partition → ℕ
  | p16x16 => 0
  | p16x8 => 1
  | p8x16 => 2
  | p8x8 ref0 .. => if ref0 then 4 else 3

/-- Types of its 8x8 partitions. -/
def subs : Partition → List SubMbType
  | p8x8 _ first second third fourth => [first,second,third,fourth]
  | _ => []

/-- Motion vectors. -/
def vectors : Partition → ℕ
  | p16x16 => 1
  | p16x8 => 2
  | p8x16 => 2
  | p8x8 _ first second third fourth =>
    first.parts+second.parts+third.parts+fourth.parts

/-- Codes of the types of 8x8 partitions. -/
def subBits (p : Partition) : List Bool := p.subs.flatMap fun t => ueCode t.code

/-- What the parser calls it. -/
def mode : Partition → PartitionMode
  | p16x16 => .p16x16
  | p16x8 => .p16x8
  | p8x16 => .p8x16
  | p8x8 .. => .p8x8

end Partition

/-- Difference of a motion vector to its prediction. -/
structure Mvd where
  /-- Difference in quarter samples. -/
  (x y : ℤ)
  deriving DecidableEq, Repr

namespace Mvd

/-- mvd_l0. -/
def bits (m : Mvd) : List Bool := seCode m.x ++ seCode m.y

/-- Differences that levels allow, in quarters of a sample. -/
structure Legal (m : Mvd) : Prop where
  x : -32768 ≤ m.x ∧ m.x≤32767
  y : -32768 ≤ m.y ∧ m.y≤32767

end Mvd

/-- Table 9-4 for 4:2:0 and 4:2:2: the coded block patterns of a code, for intra macroblocks
predicted by block and for macroblocks with motion. -/
def meTable : List (ℕ × ℕ) := [
  (47,0),(31,16),(15,1),(0,2),(23,4),(27,8),(29,32),(30,3),
  (7,5),(11,10),(13,12),(14,15),(39,47),(43,7),(45,11),(46,13),
  (16,14),(3,6),(5,9),(10,31),(12,35),(19,37),(21,42),(26,44),
  (28,33),(35,34),(37,36),(42,40),(44,39),(1,43),(2,45),(4,46),
  (8,17),(17,18),(18,20),(20,24),(24,19),(6,21),(9,26),(22,28),
  (25,23),(32,27),(33,29),(34,30),(36,22),(40,25),(38,38),(41,41)]

/-- Coded block pattern of a code in an intra macroblock predicted by block. -/
def meIntra (code : Fin 48) : ℕ := (meTable.getD code (0,0)).1

/-- Coded block pattern of a code in a macroblock with motion. -/
def meInter (code : Fin 48) : ℕ := (meTable.getD code (0,0)).2

theorem cbpIntraMap_eq : ∀ code : Fin 48, (cbpIntraMap (.ofNat 6 code)).toNat=meIntra code := by
  decide

theorem cbpInterMap_eq : ∀ code : Fin 48, (cbpInterMap (.ofNat 6 code)).toNat=meInter code := by
  decide

/-- A macroblock with motion. -/
structure InterMb where
  partition : Partition
  /-- Differences of the motion vectors. -/
  mvds : List Mvd
  counted : mvds.length=partition.vectors
  /-- Code of the coded block pattern. -/
  cbpCode : Fin 48
  qpDelta : ℤ

/-- Modes of a 4x4 block: the predicted one, or one of the remaining. -/
abbrev BlockMode := Option (BitVec 3)

/-- prev_intra4x4_pred_mode_flag and rem_intra4x4_pred_mode. -/
def modeBits : BlockMode → List Bool
  | none => [true]
  | some rem => false::ofNat 3 rem.toNat

/-- An intra macroblock. -/
inductive IntraMb where
  /-- I_NxN with blocks of 4x4. -/
  | nxn (modes : Fin 16 → BlockMode) (chroma : Fin 4) (cbpCode : Fin 48) (qpDelta : ℤ)
  /-- I_16x16 with its prediction and coded block pattern. -/
  | whole (predMode : Fin 4) (chromaCbp : Fin 3) (lumaCoded : Bool) (chroma : Fin 4) (qpDelta : ℤ)

namespace IntraMb

/-- mb_type in an I slice. -/
def mbType : IntraMb → ℕ
  | nxn .. => 0
  | whole predMode chromaCbp lumaCoded .. =>
    1+predMode+4*chromaCbp+if lumaCoded then 12 else 0

/-- What the parser calls it. -/
def mode : IntraMb → PartitionMode
  | nxn .. => .iNxN
  | whole .. => .i16x16

/-- intra_chroma_pred_mode. -/
def chroma : IntraMb → Fin 4
  | nxn _ chroma _ _ => chroma
  | whole _ _ _ chroma _ => chroma

/-- The coded block pattern. -/
def cbp : IntraMb → ℕ
  | nxn _ _ cbpCode _ => meIntra cbpCode
  | whole _ chromaCbp lumaCoded _ _ => 16*chromaCbp+if lumaCoded then 15 else 0

/-- Whether a block takes the predicted mode. -/
def flags : IntraMb → Fin 16 → Bool
  | nxn modes .. => fun b => (modes b).isNone
  | whole .. => fun _ => false

/-- Remaining mode of a block. -/
def rems : IntraMb → Fin 16 → BitVec 3
  | nxn modes .. => fun b => (modes b).getD 0
  | whole .. => fun _ => 0

/-- Change of the quantiser. -/
def qpDelta : IntraMb → ℤ
  | nxn _ _ cbpCode qpDelta => if meIntra cbpCode ≠ 0 then qpDelta else 0
  | whole _ _ _ _ qpDelta => qpDelta

/-- The code behind mb_type. -/
def bits : IntraMb → List Bool
  | nxn modes chroma cbpCode qpDelta =>
    (List.ofFn modes).flatMap modeBits ++ (ueCode chroma ++ (ueCode cbpCode ++
      if meIntra cbpCode ≠ 0 then seCode qpDelta else []))
  | whole _ _ _ chroma qpDelta => ueCode chroma ++ seCode qpDelta

end IntraMb

namespace InterMb

/-- The coded block pattern. -/
def cbp (m : InterMb) : ℕ := meInter m.cbpCode

/-- Change of the quantiser. -/
def change (m : InterMb) : ℤ := if m.cbp ≠ 0 then m.qpDelta else 0

/-- The code behind mb_type. -/
def bits (m : InterMb) : List Bool :=
  m.partition.subBits ++ (m.mvds.flatMap Mvd.bits ++ (ueCode m.cbpCode ++
    if m.cbp ≠ 0 then seCode m.qpDelta else []))

end InterMb

/-- A macroblock of a slice. -/
inductive Macroblock where
  /-- P_Skip, the first of a run. -/
  | skipped (run : ℕ) (positive : 0<run)
  | inter (m : InterMb)
  | intra (m : IntraMb)

namespace Macroblock

/-- mb_skip_run in front of it. -/
def skipRun : Macroblock → ℕ
  | skipped run _ => run
  | _ => 0

/-- mb_type in a P slice or in an I slice, nothing for a skipped macroblock. -/
def mbType (p : Bool) : Macroblock → ℕ
  | skipped .. => 0
  | inter m => m.partition.mbType
  | intra m => if p then m.mbType+5 else m.mbType

/-- What the parser calls it. -/
def mode : Macroblock → PartitionMode
  | skipped .. => .pSkip
  | inter m => m.partition.mode
  | intra m => m.mode

/-- Whether a block takes the predicted mode. -/
def flags : Macroblock → Fin 16 → Bool
  | intra m => m.flags
  | _ => fun _ => false

/-- Remaining mode of a block. -/
def rems : Macroblock → Fin 16 → BitVec 3
  | intra m => m.rems
  | _ => fun _ => 0

/-- intra_chroma_pred_mode. -/
def chroma : Macroblock → ℕ
  | intra m => m.chroma
  | _ => 0

/-- The coded block pattern. -/
def cbp : Macroblock → ℕ
  | skipped .. => 0
  | inter m => m.cbp
  | intra m => m.cbp

/-- Change of the quantiser, 0 where mb_qp_delta is not coded. -/
def qpDelta : Macroblock → ℤ
  | skipped .. => 0
  | inter m => m.change
  | intra m => m.qpDelta

/-- The code of a macroblock of a P slice or of an I slice, up to the residual. -/
def bits (p : Bool) : Macroblock → List Bool
  | skipped run _ => ueCode run
  | inter m => ueCode 0 ++ (ueCode m.partition.mbType ++ m.bits)
  | intra m => if p then ueCode 0 ++ (ueCode (m.mbType+5) ++ m.bits) else ueCode m.mbType ++ m.bits

/-- A macroblock as streams hold it, and the inputs its slice gives to the parser. -/
structure Legal (i : Inputs) (p : Bool) (m : Macroblock) : Prop where
  mode : i.mode=2
  slice : i.activeSliceType.toNat ∈ if p then [0,5] else [2,7]
  /-- An I slice has intra macroblocks. -/
  intra : p=false → ∃ a, m = .intra a
  oneReference : i.numRefIdxL0ActiveMinus1=0
  /-- The quantiser so far. -/
  qp : 0 ≤ i.qpIn.toInt ∧ i.qpIn.toInt≤51
  delta : -26 ≤ m.qpDelta ∧ m.qpDelta≤25
  /-- Differences of motion vectors. -/
  mvds : ∀ a, m = .inter a → ∀ d∈a.mvds, d.Legal

end Macroblock

end Misterplex.Baseline
