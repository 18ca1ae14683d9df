import Mathlib.Data.Fintype.Prod
import Misterplex.Inter.DecodeStub
import Misterplex.Lib.Raster

/-!
# Where the samples of two pictures lie

The three planes of a picture follow one another, each a raster, and the second bank follows
the first. A memory whose index has 18 bits holds both pictures when they have no more bytes
than that; then each sample has a cell of its own. A fill reaches a sample by the macroblock it
belongs to, whose column and row are words of 8 bits.
-/

namespace Misterplex.Inter

open Raster

namespace StubParams

variable (g : StubParams)

/-- Columns of a plane. -/
def planeW : PlaneId → ℕ
  | .y => g.width
  | _ => g.width/2

/-- Rows of a plane. -/
def planeH : PlaneId → ℕ
  | .y => g.height
  | _ => g.height/2

/-- Bytes of a picture before a plane. -/
def planeStart : PlaneId → ℕ
  | .y => 0
  | .u => g.width*g.height
  | .v => g.width*g.height+g.width/2*(g.height/2)

/-- Address of a bank. -/
def bankBase (second : Bool) : BitVec 32 :=
  if second then g.dpb.bank1Base else g.dpb.bank0Base

/-- The sizes are positive multiples of 16. -/
structure Sized (g : StubParams) : Prop where
  /-- Columns come in macroblocks. -/
  dvdW : 16 ∣ g.width
  /-- Rows come in macroblocks. -/
  dvdH : 16 ∣ g.height
  posW : 0<g.width
  posH : 0<g.height

/-- Two pictures have no more bytes than an index of 18 bits tells apart, and no more than 256
macroblocks in a row or a column. -/
structure Roomy (g : StubParams) : Prop where
  /-- Two pictures fit. -/
  bytes : 3*(g.width*g.height)≤2^18
  /-- Columns of macroblocks are words of 8 bits. -/
  columns : g.width≤4096
  /-- Rows of macroblocks are words of 8 bits. -/
  rows : g.height≤4096

end StubParams

/-- Cell of the sample in column `x` and row `y` of a plane. -/
def sampleCell (g : StubParams) (second : Bool) (p : PlaneId) (x y : ℕ) : BitVec 18 :=
  (i420Addr g.dpb (g.bankBase second) p x y).setWidth 18

/-- The cell of the memory that the fill writes. -/
def fillCell (g : StubParams) (second : Bool) (mbAddr sampleIdx : ℕ) : BitVec 18 :=
  (fillAddr g (g.bankBase second) mbAddr sampleIdx).setWidth 18

/-- Column and row of a sample of a fill in the picture. -/
def fillCoord (g : StubParams) (mbAddr sampleIdx : ℕ) : ℕ × ℕ :=
  mbSampleCoord (mbAddr%g.mbW) (mbAddr/g.mbW) (filteredPlane sampleIdx)
    (filteredSampleIdx sampleIdx)

namespace StubParams

variable {g : StubParams}

theorem Sized.inBlocks (h : g.Sized) :
    g.width=16*g.mbW ∧ g.height=16*g.mbH ∧ 0<g.mbW ∧ 0<g.mbH := by
  obtain ⟨w,hw⟩ := h.dvdW
  obtain ⟨r,hr⟩ := h.dvdH
  have hposW := h.posW
  have hposH := h.posH
  unfold mbW mbH
  omega

theorem Sized.areas (h : g.Sized) :
    g.width*g.height=256*g.mbCount ∧ g.width/2*(g.height/2)=64*g.mbCount := by
  obtain ⟨hw,hr,-,-⟩ := h.inBlocks
  have hcw : g.width/2=8*g.mbW := by omega
  have hch : g.height/2=8*g.mbH := by omega
  unfold mbCount
  rw [hcw,hch,hw,hr]
  constructor <;> ring

theorem Sized.frameBytes_eq (h : g.Sized) : g.frameBytes=384*g.mbCount := by
  obtain ⟨hy,hc⟩ := h.areas
  unfold frameBytes
  omega

theorem Sized.mbCount_pos (h : g.Sized) : 0<g.mbCount := by
  obtain ⟨-,-,hw,hr⟩ := h.inBlocks
  exact Nat.mul_pos hw hr

theorem Roomy.mbCount_le (k : g.Roomy) (h : g.Sized) : 768*g.mbCount≤2^18 := by
  obtain ⟨hy,-⟩ := h.areas
  have hbytes := k.bytes
  omega

theorem Roomy.inBlocks (k : g.Roomy) (h : g.Sized) : g.mbW≤256 ∧ g.mbH≤256 := by
  obtain ⟨hw,hr,-,-⟩ := h.inBlocks
  have hcolumns := k.columns
  have hrows := k.rows
  omega

/-- Place of a sample in a picture. -/
def offset (g : StubParams) (p : PlaneId) (x y : ℕ) : ℕ :=
  g.planeStart p+place (g.planeW p) x y

theorem i420Addr_eq (g : StubParams) (base : BitVec 32) (p : PlaneId) (x y : ℕ) :
    i420Addr g.dpb base p x y=base+BitVec.ofNat 32 (g.offset p x y) := by
  cases p with
  | y =>
    unfold offset planeStart
    rw [Nat.zero_add]
    rfl
  | u =>
    unfold offset planeStart place
    rw [← Nat.add_assoc]
    rfl
  | v =>
    unfold offset planeStart place
    rw [← Nat.add_assoc]
    rfl

variable {p : PlaneId}

theorem offset_lt {x y : ℕ} (hx : x<g.planeW p) (hy : y<g.planeH p) :
    g.planeStart p≤g.offset p x y ∧ g.offset p x y<g.planeStart p+g.planeW p*g.planeH p ∧
      g.planeStart p+g.planeW p*g.planeH p≤g.frameBytes := by
  have hplace := place_lt hx hy
  have hlow : g.planeStart p≤g.offset p x y := Nat.le_add_right _ _
  have hhigh : g.offset p x y<g.planeStart p+g.planeW p*g.planeH p :=
    Nat.add_lt_add_left hplace _
  have hframe : g.planeStart p+g.planeW p*g.planeH p≤g.frameBytes := by
    cases p with
    | y =>
      simp only [planeStart,planeW,planeH,frameBytes]
      omega
    | u =>
      simp only [planeStart,planeW,planeH,frameBytes]
      omega
    | v =>
      simp only [planeStart,planeW,planeH,frameBytes]
      omega
  exact ⟨hlow,hhigh,hframe⟩

theorem offset_inj {p q : PlaneId} {x y x' y' : ℕ} (hx : x<g.planeW p)
    (hy : y<g.planeH p) (hx' : x'<g.planeW q) (hy' : y'<g.planeH q)
    (heq : g.offset p x y=g.offset q x' y') : p=q ∧ x=x' ∧ y=y' := by
  obtain ⟨hlow,hhigh,-⟩ := offset_lt hx hy
  obtain ⟨hlow',hhigh',-⟩ := offset_lt hx' hy'
  have hplane : p=q := by
    cases p <;> cases q <;> simp only [planeStart,planeW,planeH] at * <;>
      first
        | rfl
        | omega
  subst hplane
  have hplace : place (g.planeW p) x y=place (g.planeW p) x' y' := Nat.add_left_cancel heq
  exact ⟨rfl,place_inj hx hx' hplace⟩

theorem bankBase_toNat (h : g.Sized) (k : g.Roomy) (second : Bool) :
    (g.bankBase second).toNat = if second then g.frameBytes else 0 := by
  have hframe := h.frameBytes_eq
  have hcount := k.mbCount_le h
  cases second with
  | false => rfl
  | true =>
    have hword : g.frameBytes<2^32 := by omega
    exact Nat.mod_eq_of_lt hword

theorem sampleAddr_toNat (h : g.Sized) (k : g.Roomy) (second : Bool) {x y : ℕ}
    (hx : x<g.planeW p) (hy : y<g.planeH p) : (i420Addr g.dpb (g.bankBase second) p x y).toNat =
      (if second then g.frameBytes else 0)+g.offset p x y := by
  obtain ⟨-,hhigh,hframe⟩ := offset_lt hx hy
  have hbytes := h.frameBytes_eq
  have hcount := k.mbCount_le h
  have hsum : (if second then g.frameBytes else 0)+g.offset p x y<2^32 := by
    split <;> omega
  rw [i420Addr_eq,BitVec.toNat_add,bankBase_toNat h k,BitVec.toNat_ofNat,
    Nat.mod_eq_of_lt (show g.offset p x y<2^32 by omega),Nat.mod_eq_of_lt hsum]

theorem sampleAddr_inside (h : g.Sized) (k : g.Roomy) (second : Bool) {x y : ℕ}
    (hx : x<g.planeW p) (hy : y<g.planeH p) :
    i420Addr g.dpb (g.bankBase second) p x y<BitVec.ofNat 32 g.memBytes := by
  obtain ⟨-,hhigh,hframe⟩ := offset_lt hx hy
  have hbytes := h.frameBytes_eq
  have hcount := k.mbCount_le h
  have hmem : g.memBytes<2^32 := by
    unfold memBytes
    omega
  rw [BitVec.lt_def,sampleAddr_toNat h k second hx hy,BitVec.toNat_ofNat,Nat.mod_eq_of_lt hmem]
  unfold memBytes
  split <;> omega

theorem sampleCell_toNat (h : g.Sized) (k : g.Roomy) (second : Bool) {x y : ℕ}
    (hx : x<g.planeW p) (hy : y<g.planeH p) : (sampleCell g second p x y).toNat =
      (if second then g.frameBytes else 0)+g.offset p x y := by
  obtain ⟨-,hhigh,hframe⟩ := offset_lt hx hy
  have hbytes := h.frameBytes_eq
  have hcount := k.mbCount_le h
  unfold sampleCell
  rw [BitVec.toNat_setWidth,sampleAddr_toNat h k second hx hy]
  apply Nat.mod_eq_of_lt
  split <;> omega

theorem sampleCell_inj (h : g.Sized) (k : g.Roomy) {b c : Bool} {p q : PlaneId} {x y x' y' : ℕ}
    (hx : x<g.planeW p) (hy : y<g.planeH p) (hx' : x'<g.planeW q) (hy' : y'<g.planeH q)
    (heq : sampleCell g b p x y=sampleCell g c q x' y') :
    b=c ∧ p=q ∧ x=x' ∧ y=y' := by
  obtain ⟨-,hhigh,hframe⟩ := offset_lt hx hy
  obtain ⟨-,hhigh',hframe'⟩ := offset_lt hx' hy'
  have hnat := congrArg BitVec.toNat heq
  rw [sampleCell_toNat h k b hx hy,sampleCell_toNat h k c hx' hy'] at hnat
  have hbank : b=c := by
    cases b <;> cases c <;>
      simp only [if_true,if_false,Bool.false_eq_true,reduceCtorEq] at hnat ⊢ <;> omega
  subst hbank
  exact ⟨rfl,offset_inj hx hy hx' hy' (Nat.add_left_cancel hnat)⟩

end StubParams

theorem filteredSampleIdx_eq {n : ℕ} (hn : n<384) :
    (filteredPlane n = .y ∧ filteredSampleIdx n=n ∧ n<256) ∨
    (filteredPlane n = .u ∧ filteredSampleIdx n=n-256 ∧ 256≤n ∧ n<320) ∨
    (filteredPlane n = .v ∧ filteredSampleIdx n=n-320 ∧ 320≤n) := by
  by_cases hy : n<256
  · left
    have hplane : filteredPlane n = .y := if_pos hy
    refine ⟨hplane,?_,hy⟩
    unfold filteredSampleIdx
    rw [hplane]
    exact Nat.mod_eq_of_lt hy
  · by_cases hu : n<320
    · right
      left
      have hplane : filteredPlane n = .u := by
        unfold filteredPlane
        rw [if_neg hy,if_pos hu]
      refine ⟨hplane,?_,by omega,hu⟩
      unfold filteredSampleIdx
      rw [hplane]
      exact Nat.mod_eq_of_lt (by omega)
    · right
      right
      have hplane : filteredPlane n = .v := by
        unfold filteredPlane
        rw [if_neg hy,if_neg hu]
      refine ⟨hplane,?_,by omega⟩
      unfold filteredSampleIdx
      rw [hplane]
      exact Nat.mod_eq_of_lt (by omega)

/-- Samples of a macroblock in a row of a plane. -/
def blockSide (p : PlaneId) : ℕ := if p = .y then 16 else 8

/-- First sample of a plane in a macroblock. -/
def blockStart : PlaneId → ℕ
  | .y => 0
  | .u => 256
  | .v => 320

/-- A sample of a macroblock is that of its plane, column and row in the macroblock. -/
theorem sample_in_block {n : ℕ} (hn : n<384) :
    blockStart (filteredPlane n)+filteredSampleIdx n=n ∧
      filteredSampleIdx n<blockSide (filteredPlane n)*blockSide (filteredPlane n) := by
  obtain ⟨hp,hi,hb⟩ | ⟨hp,hi,hb⟩ | ⟨hp,hi,hb⟩ := filteredSampleIdx_eq hn
  · rw [hp,hi]
    exact ⟨Nat.zero_add n,hb⟩
  · rw [hp,hi]
    simp only [blockStart,blockSide,reduceCtorEq,if_false]
    omega
  · rw [hp,hi]
    simp only [blockStart,blockSide,reduceCtorEq,if_false]
    omega

theorem mbSampleCoord_eq {mbX mbY n : ℕ} {p : PlaneId} (hn : n<blockSide p*blockSide p) :
    mbSampleCoord mbX mbY p n =
      (blockSide p*mbX+n%blockSide p,blockSide p*mbY+n/blockSide p) := by
  unfold mbSampleCoord blockSide at *
  by_cases hp : p = .y
  · simp only [hp,if_true] at *
    rw [Nat.mod_eq_of_lt (show n/16<16 by omega)]
  · simp only [hp,if_false] at *
    rw [Nat.mod_eq_of_lt (show n/8<8 by omega)]

namespace StubParams

variable {g : StubParams}

theorem plane_inBlocks (h : g.Sized) (p : PlaneId) :
    g.planeW p=blockSide p*g.mbW ∧ g.planeH p=blockSide p*g.mbH ∧ 0<blockSide p := by
  obtain ⟨hw,hr,-,-⟩ := h.inBlocks
  unfold blockSide
  cases p with
  | y =>
    simp only [planeW,planeH,if_true]
    omega
  | u =>
    simp only [planeW,planeH,reduceCtorEq,if_false]
    omega
  | v =>
    simp only [planeW,planeH,reduceCtorEq,if_false]
    omega

theorem mb_in_grid (h : g.Sized) {mb : ℕ} (hmb : mb<g.mbCount) :
    mb%g.mbW<g.mbW ∧ mb/g.mbW<g.mbH := by
  obtain ⟨-,-,hw,-⟩ := h.inBlocks
  exact ⟨Nat.mod_lt _ hw,div_lt_of_lt hmb⟩

theorem fillCoord_lt (h : g.Sized) {mb n : ℕ} (hmb : mb<g.mbCount) (hn : n<384) :
    (fillCoord g mb n).1<g.planeW (filteredPlane n) ∧
      (fillCoord g mb n).2<g.planeH (filteredPlane n) := by
  obtain ⟨-,hin⟩ := sample_in_block hn
  obtain ⟨hw,hr,hside⟩ := plane_inBlocks h (filteredPlane n)
  obtain ⟨hx,hy⟩ := mb_in_grid h hmb
  have hcol : filteredSampleIdx n%blockSide (filteredPlane n)<blockSide (filteredPlane n) :=
    Nat.mod_lt _ hside
  have hrow : filteredSampleIdx n/blockSide (filteredPlane n)<blockSide (filteredPlane n) :=
    Nat.div_lt_of_lt_mul hin
  unfold fillCoord
  rw [mbSampleCoord_eq hin,hw,hr]
  exact ⟨block_lt hx hcol,block_lt hy hrow⟩

theorem fillMb_eq (h : g.Sized) (k : g.Roomy) {mb : ℕ} (hmb : mb<g.mbCount) :
    (fillMbX g mb : ℕ)=mb%g.mbW ∧ (fillMbY g mb : ℕ)=mb/g.mbW := by
  obtain ⟨hx,hy⟩ := mb_in_grid h hmb
  obtain ⟨hw,hr⟩ := k.inBlocks h
  exact ⟨Nat.mod_eq_of_lt (by omega),Nat.mod_eq_of_lt (by omega)⟩

theorem fillAddr_eq (h : g.Sized) (k : g.Roomy) (base : BitVec 32) {mb n : ℕ}
    (hmb : mb<g.mbCount) :
    fillAddr g base mb n =
      i420Addr g.dpb base (filteredPlane n) (fillCoord g mb n).1 (fillCoord g mb n).2 := by
  obtain ⟨hx,hy⟩ := fillMb_eq h k hmb
  unfold fillAddr mbWriteAddr fillCoord
  rw [hx,hy]

theorem fillCell_eq (h : g.Sized) (k : g.Roomy) (second : Bool) {mb n : ℕ}
    (hmb : mb<g.mbCount) :
    fillCell g second mb n =
      sampleCell g second (filteredPlane n) (fillCoord g mb n).1 (fillCoord g mb n).2 := by
  unfold fillCell sampleCell
  rw [fillAddr_eq h k _ hmb]

theorem fillCoord_inj (h : g.Sized) {mb mb' n n' : ℕ} (hn : n<384) (hn' : n'<384)
    (hp : filteredPlane n=filteredPlane n') (hc : fillCoord g mb n=fillCoord g mb' n') :
    mb=mb' ∧ n=n' := by
  obtain ⟨hsum,hin⟩ := sample_in_block hn
  obtain ⟨hsum',hin'⟩ := sample_in_block hn'
  obtain ⟨-,-,hside⟩ := plane_inBlocks h (filteredPlane n')
  unfold fillCoord at hc
  rw [hp] at hin hsum hc
  rw [mbSampleCoord_eq hin,mbSampleCoord_eq hin',Prod.mk.injEq] at hc
  obtain ⟨hx,hy⟩ := hc
  obtain ⟨hcol,hi⟩ := block_inj (Nat.mod_lt _ hside) (Nat.mod_lt _ hside) hx
  obtain ⟨hrow,hj⟩ := block_inj (Nat.div_lt_of_lt_mul hin) (Nat.div_lt_of_lt_mul hin') hy
  constructor
  · exact eq_of_mod_div hcol hrow
  · have hnumber := eq_of_mod_div hi hj
    omega

theorem exists_fillCoord (h : g.Sized) {p : PlaneId} {x y : ℕ} (hx : x<g.planeW p)
    (hy : y<g.planeH p) :
    ∃ mb n, mb<g.mbCount ∧ n<384 ∧ filteredPlane n=p ∧ fillCoord g mb n=(x,y) := by
  obtain ⟨hw,hr,hside⟩ := plane_inBlocks h p
  rw [hw] at hx
  rw [hr] at hy
  have hbx : x/blockSide p<g.mbW := Nat.div_lt_of_lt_mul hx
  have hby : y/blockSide p<g.mbH := Nat.div_lt_of_lt_mul hy
  have hix : x%blockSide p<blockSide p := Nat.mod_lt _ hside
  have hiy : y%blockSide p<blockSide p := Nat.mod_lt _ hside
  have hin : place (blockSide p) (x%blockSide p) (y%blockSide p) <
      blockSide p*blockSide p := place_lt hix hiy
  have hnumber : ∃ n<384, filteredPlane n=p ∧
      filteredSampleIdx n=place (blockSide p) (x%blockSide p) (y%blockSide p) := by
    refine ⟨blockStart p+place (blockSide p) (x%blockSide p) (y%blockSide p),?_⟩
    generalize place (blockSide p) (x%blockSide p) (y%blockSide p)=i at hin
    cases p with
    | y =>
      simp only [blockSide,blockStart,if_true] at hin ⊢
      obtain ⟨hp,hi,-⟩ | ⟨hp,hi,hb⟩ | ⟨hp,hi,hb⟩ :=
        filteredSampleIdx_eq (n := 0+i) (by omega)
      · exact ⟨by omega,hp,by omega⟩
      · omega
      · omega
    | u =>
      simp only [blockSide,blockStart,reduceCtorEq,if_false] at hin ⊢
      obtain ⟨hp,hi,hb⟩ | ⟨hp,hi,-⟩ | ⟨hp,hi,hb⟩ :=
        filteredSampleIdx_eq (n := 256+i) (by omega)
      · omega
      · exact ⟨by omega,hp,by omega⟩
      · omega
    | v =>
      simp only [blockSide,blockStart,reduceCtorEq,if_false] at hin ⊢
      obtain ⟨hp,hi,hb⟩ | ⟨hp,hi,hb⟩ | ⟨hp,hi,-⟩ :=
        filteredSampleIdx_eq (n := 320+i) (by omega)
      · omega
      · omega
      · exact ⟨by omega,hp,by omega⟩
  obtain ⟨n,hn,hp,hi⟩ := hnumber
  refine ⟨place g.mbW (x/blockSide p) (y/blockSide p),n,place_lt hbx hby,hn,hp,?_⟩
  unfold fillCoord
  rw [hp,hi,mbSampleCoord_eq hin,place_mod hbx,place_div hbx,place_mod hix,place_div hix]
  exact Prod.ext (Nat.div_add_mod x _) (Nat.div_add_mod y _)

theorem fillCell_inj (h : g.Sized) (k : g.Roomy) {b c : Bool} {mb mb' n n' : ℕ}
    (hmb : mb<g.mbCount) (hmb' : mb'<g.mbCount) (hn : n<384) (hn' : n'<384)
    (heq : fillCell g b mb n=fillCell g c mb' n') : b=c ∧ mb=mb' ∧ n=n' := by
  obtain ⟨hx,hy⟩ := fillCoord_lt h hmb hn
  obtain ⟨hx',hy'⟩ := fillCoord_lt h hmb' hn'
  rw [fillCell_eq h k b hmb,fillCell_eq h k c hmb'] at heq
  obtain ⟨hbank,hp,hcol,hrow⟩ := sampleCell_inj h k hx hy hx' hy' heq
  exact ⟨hbank,fillCoord_inj h hn hn' hp (Prod.ext hcol hrow)⟩

end StubParams

/-- Samples of the fills that all have cells of their own fit, and so do the words that name
their macroblocks. -/
theorem roomy_of_fillCell_inj {g : StubParams} (h : g.Sized)
    (hinj : ∀ b c mb mb' n n', mb<g.mbCount → mb'<g.mbCount → n<384 → n'<384 →
      fillCell g b mb n=fillCell g c mb' n' → b=c ∧ mb=mb' ∧ n=n') : g.Roomy := by
  obtain ⟨hw,hr,hposW,hposH⟩ := h.inBlocks
  obtain ⟨hy,-⟩ := h.areas
  have hcells : 768*g.mbCount≤2^18 := by
    let cell : Bool × Fin g.mbCount × Fin 384 → Fin (2^18) :=
      fun t => (fillCell g t.1 t.2.1 t.2.2).toFin
    have hcell : Function.Injective cell := by
      intro s t heq
      obtain ⟨hb,hmb,hn⟩ := hinj _ _ _ _ _ _ s.2.1.isLt t.2.1.isLt s.2.2.isLt t.2.2.isLt
        (BitVec.eq_of_toFin_eq heq)
      exact Prod.ext hb (Prod.ext (Fin.ext hmb) (Fin.ext hn))
    have hcard := Fintype.card_le_of_injective cell hcell
    simp only [Fintype.card_prod,Fintype.card_bool,Fintype.card_fin] at hcard
    omega
  have hcolumns : g.mbW≤256 := by
    by_contra hwide
    have hfar : 256<g.mbCount := Nat.lt_of_lt_of_le (by omega) (Nat.le_mul_of_pos_right _ hposH)
    have hsame : fillCell g false 0 0=fillCell g false 256 0 := by
      unfold fillCell fillAddr
      congr 2
      · unfold fillMbX
        rw [Nat.zero_mod,Nat.mod_eq_of_lt (by omega)]
        rfl
      · unfold fillMbY
        rw [Nat.zero_div,Nat.div_eq_of_lt (by omega)]
    obtain ⟨-,hbad,-⟩ := hinj _ _ _ _ _ _ (by omega) hfar (by omega) (by omega) hsame
    omega
  have hrows : g.mbH≤256 := by
    by_contra htall
    have hfar : g.mbW*256<g.mbCount := Nat.mul_lt_mul_of_pos_left (by omega) hposW
    have hsame : fillCell g false 0 0=fillCell g false (g.mbW*256) 0 := by
      unfold fillCell fillAddr
      congr 2
      · unfold fillMbX
        rw [Nat.zero_mod,Nat.mul_mod_right]
      · unfold fillMbY
        rw [Nat.zero_div,Nat.mul_div_cancel_left _ hposW]
        rfl
    obtain ⟨-,hbad,-⟩ := hinj _ _ _ _ _ _ (by omega) hfar (by omega) (by omega) hsame
    omega
  constructor <;> omega

end Misterplex.Inter
