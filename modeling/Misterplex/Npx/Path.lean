import Mathlib.Data.Nat.Log
import Misterplex.Bus.AsyncFifo

/-!
# From groups of pixels to pixels

A beam makes one group of pixels a clock as long as it is let. Five clocks later, when the
store has answered, the group is put into a skid, from there into the FIFO between the two
clocks, and on the pixel clock it is taken apart into its pixels.

The bridge packs the sync flags with the lanes, as it is instantiated. The store's answer
comes from outside, so do the edges of the clocks; both sides start behind their reset.
-/

namespace Misterplex.Npx

open AsyncFifo BitVec

/-- What is pushed at a clock: the lanes of a group and its sync flags. -/
@[ext]
structure Group (n : ℕ) where
  /-- Timing of the group. -/
  (fs vs hs vb hb : Bool)
  lv : BitVec n
  /-- Colours of the lanes. -/
  (r g b : BitVec (n*8))
  deriving DecidableEq

/-- W. -/
def wordWidth (n : ℕ) : ℕ := 5+n+3*(n*8)

variable {n : ℕ} (x : Group n)

/-- One group of pixels with its timing in a FIFO word. -/
def packGroup : BitVec (wordWidth n) :=
  (BitVec.ofBool x.fs ++ BitVec.ofBool x.vs ++ BitVec.ofBool x.hs ++ BitVec.ofBool x.vb ++
    BitVec.ofBool x.hb ++ x.lv ++ x.r ++ x.g ++ x.b).setWidth (wordWidth n)

/-- pop_fs, pop_vs, pop_hs, pop_vb, pop_hb, pop_lv, pop_r, pop_g and pop_b. -/
def popGroup (rdData : BitVec (wordWidth n)) : Group n where
  fs := rdData.getLsbD (3*(n*8)+n+4)
  vs := rdData.getLsbD (3*(n*8)+n+3)
  hs := rdData.getLsbD (3*(n*8)+n+2)
  vb := rdData.getLsbD (3*(n*8)+n+1)
  hb := rdData.getLsbD (3*(n*8)+n)
  lv := rdData.extractLsb' (3*(n*8)) n
  r := rdData.extractLsb' (2*(n*8)) (n*8)
  g := rdData.extractLsb' (n*8) (n*8)
  b := rdData.extractLsb' 0 (n*8)

theorem getLsbD_packGroup (i : ℕ) (hi : i<wordWidth n) : (packGroup x).getLsbD i =
      if i < n*8 then x.b.getLsbD i
      else if i-n*8 < n*8 then x.g.getLsbD (i-n*8)
      else if i-2*(n*8) < n*8 then x.r.getLsbD (i-2*(n*8))
      else if i-3*(n*8) < n then x.lv.getLsbD (i-3*(n*8))
      else [x.hb,x.vb,x.hs,x.vs,x.fs].getD (i-(3*(n*8)+n)) false := by
  have hflag : ∀ (c : Bool) (k : ℕ), (ofBool c).getLsbD k=(decide (k=0) && c) := by
    simp
  rw [packGroup,getLsbD_setWidth,decide_eq_true hi,Bool.true_and]
  simp only [getLsbD_append,hflag]
  rw [wordWidth] at hi
  have htwo : i-n*8-n*8=i-2*(n*8) := by omega
  have hthree : i-2*(n*8)-n*8=i-3*(n*8) := by omega
  have hall : i-3*(n*8)-n=i-(3*(n*8)+n) := by omega
  rw [htwo,hthree,hall]
  by_cases hb : i<n*8
  · rw [if_pos hb,if_pos hb]
  rw [if_neg hb,if_neg hb]
  by_cases hg : i-n*8<n*8
  · rw [if_pos hg,if_pos hg]
  rw [if_neg hg,if_neg hg]
  by_cases hr : i-2*(n*8)<n*8
  · rw [if_pos hr,if_pos hr]
  by_cases hl : i-3*(n*8)<n
  · rw [if_pos hl,if_pos hl]
  have hplace : i-(3*(n*8)+n)<5 := by omega
  generalize i-(3*(n*8)+n)=k at hplace ⊢
  have hcases : k=0 ∨ k=1 ∨ k=2 ∨ k=3 ∨ k=4 := by omega
  rcases hcases with rfl | rfl | rfl | rfl | rfl <;> simp

theorem popGroup_packGroup : popGroup (packGroup x)=x := by
  have hflag : ∀ k, k<5 → (packGroup x).getLsbD (3*(n*8)+n+k) =
      [x.hb,x.vb,x.hs,x.vs,x.fs].getD k false := by
    intro k hk
    have hplace : 3*(n*8)+n+k-(3*(n*8)+n)=k := by omega
    rw [getLsbD_packGroup x _ (by rw [wordWidth]; omega),if_neg (by omega),if_neg (by omega),
      if_neg (by omega),if_neg (by omega),hplace]
  have hlv : (packGroup x).extractLsb' (3*(n*8)) n=x.lv := by
    refine eq_of_getLsbD_eq fun i hi => ?_
    have hplace : 3*(n*8)+i-3*(n*8)=i := by omega
    rw [getLsbD_extractLsb',decide_eq_true hi,Bool.true_and,
      getLsbD_packGroup x _ (by rw [wordWidth]; omega),if_neg (by omega),if_neg (by omega),
      if_neg (by omega),if_pos (by omega),hplace]
  have hr : (packGroup x).extractLsb' (2*(n*8)) (n*8)=x.r := by
    refine eq_of_getLsbD_eq fun i hi => ?_
    have hplace : 2*(n*8)+i-2*(n*8)=i := by omega
    rw [getLsbD_extractLsb',decide_eq_true hi,Bool.true_and,
      getLsbD_packGroup x _ (by rw [wordWidth]; omega),if_neg (by omega),if_neg (by omega),
      if_pos (by omega),hplace]
  have hg : (packGroup x).extractLsb' (n*8) (n*8)=x.g := by
    refine eq_of_getLsbD_eq fun i hi => ?_
    have hplace : n*8+i-n*8=i := by omega
    rw [getLsbD_extractLsb',decide_eq_true hi,Bool.true_and,
      getLsbD_packGroup x _ (by rw [wordWidth]; omega),if_neg (by omega),if_pos (by omega),
      hplace]
  have hb : (packGroup x).extractLsb' 0 (n*8)=x.b := by
    refine eq_of_getLsbD_eq fun i hi => ?_
    rw [getLsbD_extractLsb',decide_eq_true hi,Bool.true_and,Nat.zero_add,
      getLsbD_packGroup x _ (by rw [wordWidth]; omega),if_pos hi]
  rw [popGroup,hflag 4 (by omega),hflag 3 (by omega),hflag 2 (by omega),hflag 1 (by omega),
    hlv,hr,hg,hb]
  exact congrArg (fun hb : Bool => (⟨x.fs,x.vs,x.hs,x.vb,hb,x.lv,x.r,x.g,x.b⟩ : Group n))
    (hflag 0 (by omega))
/-- A pixel with its sync flags. -/
structure Pixel where
  /-- Colour. -/
  (r g b : BitVec 8)
  /-- Timing. -/
  (hblank hsync vblank vsync fstart : Bool)
  deriving DecidableEq, Repr

/-- The colours of a lane, black where the lane shows nothing. -/
def laneColour (plane : BitVec (n*8)) (lane : ℕ) : BitVec 8 :=
  if x.lv.getLsbD lane then plane.extractLsb' (lane*8) 8 else 0

/-- The pixel of one lane. -/
def lanePixel (lane : ℕ) (fstart : Bool) : Pixel where
  r := laneColour x x.r lane
  g := laneColour x x.g lane
  b := laneColour x x.b lane
  hblank := x.hb
  hsync := x.hs
  vblank := x.vb
  vsync := x.vs
  fstart := fstart

/-- Size of the picture and of what surrounds it. -/
structure Glass where
  /-- Active and total size. -/
  (hDe hTotal vActive vTotal : BitVec 12)
  /-- Where the pulses begin and end. -/
  (hSyncS hSyncE vSyncS vSyncE : BitVec 12)

/-- The registers of present_beam_ppc. -/
structure Beam (n : ℕ) where
  /-- Counters. -/
  (hc vc : BitVec 12)
  beamCe : Bool
  /-- Place of the first lane. -/
  (glassX0 glassY : BitVec 12)
  laneDe : BitVec n
  /-- Timing of the group. -/
  (hBlank hSync vBlank vSync frameStart : Bool)

namespace Beam

variable {n : ℕ}

/-- The beam at reset. -/
def reset (n : ℕ) : Beam n := ⟨0,0,false,0,0,0,true,false,true,false,false⟩

/-- The pixels that one beam step covers. -/
def stepWidth (q : Glass) (s : Beam n) : BitVec 12 :=
  let remain := (q.hTotal-1)-s.hc+1
  if remain ≥ BitVec.ofNat 12 n then BitVec.ofNat 12 n
  else if remain = 0 then BitVec.ofNat 12 n
  else remain

/-- The lanes of the next group that are in the picture. -/
def laneDeNext (q : Glass) (s : Beam n) : BitVec n :=
  (BitVec.iunfoldr (fun (li : Fin n) (_ : Unit) =>
    ((),decide (s.hc+BitVec.ofNat 12 li<q.hDe) && decide (s.vc<q.vActive))) ()).2

/-- One clock of the beam. -/
def step (q : Glass) (s : Beam n) (enable : Bool) : Beam n :=
  if enable then
    let wraps : Bool := s.hc+s.stepWidth q > q.hTotal-1
    let ends : Bool := wraps && decide (s.vc≥q.vTotal-1)
    { hc := if wraps then 0 else s.hc+s.stepWidth q
      vc := if ends then 0 else if wraps then s.vc+1 else s.vc
      beamCe := true
      glassX0 := s.hc
      glassY := s.vc
      laneDe := s.laneDeNext q
      hBlank := s.hc≥q.hDe
      hSync := decide (s.hc≥q.hSyncS) && decide (s.hc<q.hSyncE)
      vBlank := s.vc≥q.vActive
      vSync := decide (s.vc≥q.vSyncS) && decide (s.vc<q.vSyncE)
      frameStart := ends }
  else { s with beamCe := false, frameStart := false }

end Beam

/-- One stage of the pipe that keeps the flags of a group while the store answers. -/
structure Stage (n : ℕ) where
  /-- Validity and timing of the group. -/
  (v hb hs vb vs fs : Bool)
  lde : BitVec n

/-- A pipeline stage at reset. -/
def Stage.reset (n : ℕ) : Stage n := ⟨false,true,false,true,false,false,0⟩

/-- The first stage takes the flags of the beam when it makes a group. -/
def Stage.ofBeam (s : Beam n) : Stage n :=
  if s.beamCe then ⟨true,s.hBlank,s.hSync,s.vBlank,s.vSync,s.frameStart,s.laneDe⟩
  else .reset n

/-- The stages of the pipe, first to last. -/
structure Pipe (n : ℕ) where
  /-- The stages, newest first. -/
  (s0 s1 s2 s3 : Stage n)

/-- The store pipeline at reset. -/
def Pipe.reset (n : ℕ) : Pipe n := ⟨.reset n,.reset n,.reset n,.reset n⟩

/-- One clock of the pipe. -/
def Pipe.step (p : Pipe n) (s : Beam n) : Pipe n := ⟨.ofBeam s,p.s0,p.s1,p.s2⟩

/-- The answer of the store at a clock. -/
structure Answer (n : ℕ) where
  hasFrame : Bool
  /-- Colours of the lanes. -/
  (r g b : BitVec (n*8))

/-- The group that the last stage makes with the answer. -/
def Pipe.group (p : Pipe n) (a : Answer n) : Group n where
  fs := p.s3.fs
  vs := p.s3.vs
  hs := p.s3.hs
  vb := p.s3.vb
  hb := p.s3.hb
  lv := p.s3.lde &&& if a.hasFrame then BitVec.allOnes n else 0
  r := a.r
  g := a.g
  b := a.b

/-- The parameters of the bridge, its FIFO and the beam. -/
structure NpxParams where
  glass : Glass
  /-- Lanes, address width and groups before the start. -/
  (pxPerClk fifoAw prefillGroups : ℕ)

/-- The side of clk_sys. -/
structure SysSide (n : ℕ) where
  /-- skid_mem, skid_wp and skid_rp. -/
  skid : RingFifo 4 (BitVec (wordWidth n))
  wrGroupCount : BitVec 8
  prefillGoSys : Bool

/-- The side of clk_pix. -/
structure PixSide (n : ℕ) where
  /-- prefill_go, synchronised. -/
  (prefillGoP1 prefillGoPix : Bool)
  /-- A word is asked for; one is taken apart. -/
  (rdEn holdBusy : Bool)
  /-- Lane of the next pixel. -/
  laneIdx : ℕ
  /-- hold_r, hold_g, hold_b, hold_lv and the flags held. -/
  hold : Group n
  /-- A word came; a pixel is put out. -/
  (streamSeen outCe : Bool)
  /-- The pixel put out. -/
  out : Pixel
  /-- A word was due and there was none. -/
  rdUnderrun : Bool

/-- The system side at reset. -/
def SysSide.reset (g : NpxParams) : SysSide g.pxPerClk :=
  ⟨⟨fun _ => 0,0,0⟩,0,g.prefillGroups=0⟩

/-- The side of clk_pix behind its reset. -/
def PixSide.reset (n : ℕ) : PixSide n :=
  ⟨false,false,false,false,0,⟨false,false,false,true,true,0,0,0,0⟩,false,false,
    ⟨0,0,0,true,false,true,false,false⟩,false⟩

/-- The width of a lane index. -/
def laneW (n : ℕ) : ℕ := if n ≤ 1 then 1 else Nat.clog 2 n

namespace SysSide

variable {n : ℕ}

variable (s : SysSide n)

/-- The skid has no slot left. -/
def skidFull : Bool := s.skid.level.toNat=16

/-- The skid is within four slots of full. -/
def skidAf : Bool := s.skid.level.toNat≥12

/-- The path takes another group. -/
def inReady : Bool := !s.skidAf

/-- The skid's head moves into the FIFO. -/
def fifoWrFire (fifoFull : Bool) : Bool := !s.skid.isEmpty && !fifoFull

/-- The offered group enters the skid. -/
def skidAccept (inValid : Bool) : Bool := inValid && !s.skidFull

/-- One clock of clk_sys. -/
def step (g : NpxParams) (s : SysSide n) (fifoFull : Bool) (inValid : Bool) (inGroup : Group n) :
    SysSide n :=
  let fire := s.fifoWrFire fifoFull
  let filled := if s.skidAccept inValid then s.skid.push (packGroup inGroup) else s.skid
  { skid := if fire then filled.pop else filled
    wrGroupCount :=
      if fire && s.wrGroupCount != 255#8 then s.wrGroupCount+1 else s.wrGroupCount
    prefillGoSys :=
      if fire && (g.prefillGroups == 0 ||
          decide (s.wrGroupCount+1≥BitVec.ofNat 8 g.prefillGroups)) then true
      else s.prefillGoSys }

end SysSide

namespace PixSide

variable {n : ℕ}

/-- The pixel side may take from the FIFO. -/
def allowPop (g : NpxParams) (s : PixSide n) : Bool :=
  s.streamSeen || s.prefillGoPix || g.prefillGroups == 0

/-- A group is taken apart from its first lane on. -/
def pops (g : NpxParams) (s : PixSide n) (fifoEmpty : Bool) : Bool :=
  !s.holdBusy && (s.allowPop g && !fifoEmpty)

/-- One clock of clk_pix. -/
def step (g : NpxParams) (s : PixSide n) (prefillGoSys fifoEmpty : Bool)
    (rdData : BitVec (wordWidth n)) : PixSide n :=
  let s' := { s with
    prefillGoP1 := prefillGoSys, prefillGoPix := s.prefillGoP1, rdEn := false, outCe := false
    rdUnderrun := false }
  if s.holdBusy then
    { s' with
      outCe := true
      out := lanePixel s.hold s.laneIdx false
      streamSeen := true
      holdBusy := s.laneIdx != (n-1)%2^laneW n
      laneIdx := if s.laneIdx = (n-1)%2^laneW n then 0 else (s.laneIdx+1)%2^laneW n }
  else if s.pops g fifoEmpty then
    { s' with
      rdEn := true
      hold := popGroup rdData
      laneIdx := if 1 < n then 1 else 0
      holdBusy := 1<n
      outCe := true
      out := lanePixel (popGroup rdData) 0 (popGroup rdData).fs
      streamSeen := true }
  else
    { s' with
      out := { s.out with r := 0, g := 0, b := 0, fstart := false }
      rdUnderrun := s.streamSeen && fifoEmpty }

end PixSide

/-- The beam, the pipe and the bridge. -/
structure Bridge (g : NpxParams) where
  /-- The beam. -/
  beam : Beam g.pxPerClk
  /-- The store's pipeline. -/
  pipe : Pipe g.pxPerClk
  /-- The side of clk_sys. -/
  sys : SysSide g.pxPerClk
  /-- The FIFO between the clocks. -/
  fifo : Fifo (wordWidth g.pxPerClk) g.fifoAw
  /-- The side of clk_pix. -/
  pix : PixSide g.pxPerClk

/-- A moment at which one of the clocks rises, or both. -/
structure Tick (n : ℕ) where
  /-- clk_sys rises, with this answer of the store. -/
  sys : Option (Answer n)
  pix : Bool

namespace Bridge

variable {g : NpxParams}

/-- Behind the reset of both sides. -/
def reset (g : NpxParams) : Bridge g where
  beam := .reset g.pxPerClk
  pipe := .reset g.pxPerClk
  sys := .reset g
  fifo := ⟨⟨fun _ => 0,0,0⟩,0,0,0,0,0,0,0,false⟩
  pix := .reset g.pxPerClk

/-- What the FIFO sees of a moment. -/
def edge (s : Bridge g) (t : Tick g.pxPerClk) : Edge (wordWidth g.pxPerClk) where
  wr := t.sys.map fun _ => ⟨false,s.sys.fifoWrFire (wrFull s.fifo),s.sys.skid.head⟩
  rd := if t.pix then some ⟨false,s.pix.rdEn⟩ else none

/-- One moment: the registers of each clock that rises change, all from their old values. -/
def step (s : Bridge g) (t : Tick g.pxPerClk) : Bridge g where
  beam := t.sys.elim s.beam fun _ => s.beam.step g.glass s.sys.inReady
  pipe := t.sys.elim s.pipe fun _ => s.pipe.step s.beam
  sys := t.sys.elim s.sys fun a =>
    s.sys.step g (wrFull s.fifo) s.pipe.s3.v (s.pipe.group a)
  fifo := AsyncFifo.step s.fifo (s.edge t)
  pix := if t.pix then s.pix.step g s.sys.prefillGoSys (rdEmpty s.fifo) s.fifo.rdDataR else s.pix

end Bridge

end Misterplex.Npx
