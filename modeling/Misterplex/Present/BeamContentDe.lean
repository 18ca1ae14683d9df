import Mathlib.Data.BitVec

/-!
# The beam with a content-sized DE

The beam counts through the lines and columns of a frame whose geometry is requested at any time
and latched at the frame wrap. Blanks and syncs come from the next counters and the geometry that
is being left. A frame is whole when every line of it shows its pixels and one full HSync inside
its blanking, and the frame one full VSync.
-/

namespace Misterplex.BeamContentDe

/-- The parameters of present_beam_content_de. -/
structure Params where
  /-- Active columns. -/
  hDe : ℕ := 960
  /-- Active lines. -/
  vActive : ℕ := 540
  /-- Columns with blanking. -/
  hTotal : ℕ := 1182
  /-- Lines with blanking. -/
  vTotal : ℕ := 564
  hSyncS : ℕ := 960+32
  hSyncE : ℕ := 960+32+64
  vSyncS : ℕ := 540+8
  vSyncE : ℕ := 540+8+6
  hFp : ℕ := 32
  hSw : ℕ := 64
  vFp : ℕ := 8
  vSw : ℕ := 6

/-- Its inputs other than clock and reset. -/
structure Ports where
  useRtVtotal : Bool
  rtVtotal : BitVec 11
  useRtGeom : Bool
  /-- The geometry at run time. -/
  (rtHDe rtHTotal rtVActive : BitVec 11)

/-- A geometry. -/
structure Geometry where
  /-- The visible width. -/
  hde : BitVec 11
  /-- The clocks of a line. -/
  htot : BitVec 11
  /-- The visible lines. -/
  vact : BitVec 11
  /-- The lines of a frame. -/
  vtot : BitVec 11
  deriving DecidableEq, Repr

/-- The registers. -/
structure Beam where
  /-- Counters. -/
  (hc vc : BitVec 11)
  /-- hde_act, htot_act, vact_act and vtot_act. -/
  act : Geometry
  /-- Outputs. -/
  (cePix hBlank hSync vBlank vSync frameStart : Bool)
  deriving DecidableEq, Repr

/-- A value that is not below a floor. -/
def atLeast (low v : BitVec 11) : BitVec 11 := if v < low then low else v

section Module

variable (p : Params) (i : Ports)

/-- The request with its clamps. -/
def request : Geometry :=
  let hdeReq0 := if i.useRtGeom then i.rtHDe else BitVec.ofNat 11 p.hDe
  let htotReq0 := if i.useRtGeom then i.rtHTotal else BitVec.ofNat 11 p.hTotal
  let vactReq0 := if i.useRtGeom then i.rtVActive else BitVec.ofNat 11 p.vActive
  let vtotSrc := if i.useRtVtotal then i.rtVtotal else BitVec.ofNat 11 p.vTotal
  let hdeReq := atLeast 16#11 hdeReq0
  let vactReq := atLeast 16#11 vactReq0
  { hde := hdeReq
    vact := vactReq
    htot := atLeast (hdeReq+32#11) htotReq0
    vtot := atLeast (vactReq+16#11) vtotSrc }

/-- The edge under reset. -/
def resetBeam : Beam :=
  { hc := 0#11, vc := 0#11, act := request p i, cePix := false, hBlank := false, hSync := false,
    vBlank := false, vSync := false, frameStart := false }

namespace Beam

variable (s : Beam)

/-- The beam is at the end of a line. -/
def hWrap : Bool := s.hc == s.act.htot-1#11

/-- The beam is at the end of a frame. -/
def vWrap : Bool := s.hWrap && s.vc == s.act.vtot-1#11

/-- hc_n. -/
def hcNext : BitVec 11 := if s.hWrap then 0#11 else s.hc+1#11

/-- vc_n. -/
def vcNext : BitVec 11 := if s.hWrap then (if s.vWrap then 0#11 else s.vc+1#11) else s.vc

/-- hs_s. -/
def hSyncFrom : BitVec 11 :=
  if i.useRtGeom then s.act.hde+BitVec.ofNat 11 p.hFp else BitVec.ofNat 11 p.hSyncS

/-- hs_e. -/
def hSyncTo : BitVec 11 :=
  if i.useRtGeom then s.act.hde+BitVec.ofNat 11 p.hFp+BitVec.ofNat 11 p.hSw
  else BitVec.ofNat 11 p.hSyncE

/-- vs_s. -/
def vSyncFrom : BitVec 11 :=
  if i.useRtGeom then s.act.vact+BitVec.ofNat 11 p.vFp else BitVec.ofNat 11 p.vSyncS

/-- vs_e. -/
def vSyncTo : BitVec 11 :=
  if i.useRtGeom then s.act.vact+BitVec.ofNat 11 p.vFp+BitVec.ofNat 11 p.vSw
  else BitVec.ofNat 11 p.vSyncE

/-- One edge without reset. -/
def step : Beam where
  hc := s.hcNext
  vc := s.vcNext
  act := if s.vWrap then request p i else s.act
  cePix := true
  hBlank := decide (s.act.hde ≤ s.hcNext)
  hSync := decide (s.hSyncFrom p i ≤ s.hcNext) && decide (s.hcNext<s.hSyncTo p i)
  vBlank := decide (s.act.vact ≤ s.vcNext)
  vSync := decide (s.vSyncFrom p i ≤ s.vcNext) && decide (s.vcNext<s.vSyncTo p i)
  frameStart := s.vWrap

end Beam

end Module

/-- What the content asks for. -/
structure Content where
  /-- The content's width. -/
  contentW : BitVec 11
  /-- The content's height. -/
  contentH : BitVec 11
  /-- The content's frame rate. -/
  contentFps : BitVec 8
  deriving DecidableEq, Repr

/-- The builds of present_core with a runtime geometry. -/
inductive Build where
  /-- PLEX_PRESENT_720P_L4. -/
  | l4
  | beam960
  deriving DecidableEq, Repr

namespace Build

/-- The parameters of the instance. The porch and sync width of L4 go into its fixed windows
only. -/
def params : Build → Params
  | l4 => { hDe := 1280, vActive := 720, hTotal := 1312, vTotal := 762, hSyncS := 1280+8
            hSyncE := 1280+8+8, vSyncS := 720+8, vSyncE := 720+8+6 }
  | beam960 => { hDe := 960, vActive := 540, hTotal := 1182, vTotal := 564, hSyncS := 992
                 hSyncE := 1056, vSyncS := 548, vSyncE := 554 }

/-- A requested size: none is the full one, and no more than the store has. -/
def sizeReq (full frame v : BitVec 11) : BitVec 11 :=
  if v = 0#11 then full else if frame < v then frame else v

/-- The inputs of the instance. -/
def ports : Build → Content → Ports
  | l4,c =>
    { useRtVtotal := true, rtVtotal := 762#11, useRtGeom := true
      rtHDe := sizeReq 1280#11 1280#11 c.contentW
      rtHTotal := 1312#11
      rtVActive := sizeReq 720#11 720#11 c.contentH }
  | beam960,c =>
    { useRtVtotal := true, rtVtotal := if c.contentFps ≤ 25#8 then 705#11 else 564#11
      useRtGeom := true
      rtHDe := sizeReq 960#11 960#11 c.contentW
      rtHTotal := 1182#11
      rtVActive := sizeReq 540#11 540#11 c.contentH }

/-- The geometry that an edge latches. -/
def latched (b : Build) (c : Content) : Geometry := request b.params (b.ports c)

/-- The beam after the last edge of reset and some more. -/
def beamAt (b : Build) (content : ℕ → Content) : ℕ → Beam
  | 0 => resetBeam b.params (b.ports (content 0))
  | n+1 => (b.beamAt content n).step b.params (b.ports (content (n+1)))

/-- The cycle in which a frame begins. -/
def startOf (b : Build) (content : ℕ → Content) : ℕ → ℕ
  | 0 => 0
  | k+1 =>
    let t := b.startOf content k
    t+(b.beamAt content t).act.vtot.toNat*(b.beamAt content t).act.htot.toNat

end Build

/-- Exactly one pulse of the full width, inside the blanking. -/
def OnePulse (sync blank : ℕ → Bool) (len width : ℕ) : Prop :=
  ∃ s, s+width≤len ∧ ∀ x<len,
    (sync x=true ↔ s≤x ∧ x<s+width) ∧ (sync x=true → blank x=true)

/-- The frame that begins in a cycle is whole. A pixel is a cycle without a blank. -/
structure WholeFrame (p : Params) (run : ℕ → Beam) (t : ℕ) (g : Geometry) : Prop where
  held : ∀ y<g.vtot.toNat, ∀ x<g.htot.toNat, (run (t+(y*g.htot.toNat+x))).act=g
  /-- Only the last cycle wraps. -/
  wraps : ∀ y<g.vtot.toNat, ∀ x<g.htot.toNat,
    ((run (t+(y*g.htot.toNat+x))).vWrap=true ↔
      y+1=g.vtot.toNat ∧ x+1=g.htot.toNat)
  room : g.hde.toNat<g.htot.toNat ∧ g.vact.toNat<g.vtot.toNat
  /-- The pixels are those of the active lines. -/
  pixels : ∀ y<g.vtot.toNat, ∀ x<g.htot.toNat,
    ((run (t+(y*g.htot.toNat+x))).hBlank=false ∧
        (run (t+(y*g.htot.toNat+x))).vBlank=false ↔
      x<g.hde.toNat ∧ y<g.vact.toNat)
  hSync : ∀ y<g.vtot.toNat,
    OnePulse (fun x => (run (t+(y*g.htot.toNat+x))).hSync)
      (fun x => (run (t+(y*g.htot.toNat+x))).hBlank) g.htot.toNat p.hSw
  /-- Every column of the frame sees its VSync. -/
  vSync : ∀ x<g.htot.toNat,
    OnePulse (fun y => (run (t+(y*g.htot.toNat+x))).vSync)
      (fun y => (run (t+(y*g.htot.toNat+x))).vBlank) g.vtot.toNat p.vSw

/-- The beam emits whole frames. -/
structure WholeFrames (b : Build) (content : ℕ → Content) : Prop where
  /-- The geometry changes at a frame wrap only. -/
  still : ∀ n, (b.beamAt content (n+1)).act≠(b.beamAt content n).act →
    (b.beamAt content n).vWrap=true
  frames : ∀ k, WholeFrame b.params (b.beamAt content) (b.startOf content k)
    (b.beamAt content (b.startOf content k)).act

/-- The content leaves room for an HSync behind its lines. -/
def HasRoom : Build → Content → Prop
  | .l4,c => 1≤c.contentW.toNat ∧ c.contentW.toNat≤1216
  | .beam960,_ => True

theorem toNat_atLeast (low v : BitVec 11) : (atLeast low v).toNat=max v.toNat low.toNat := by
  rw [atLeast]
  by_cases h : v<low
  · rw [if_pos h,max_eq_right (le_of_lt (BitVec.lt_def.mp h))]
  · rw [if_neg h,max_eq_left (not_lt.mp (mt BitVec.lt_def.mpr h))]

theorem toNat_sizeReq_le (frame v : BitVec 11) :
    (Build.sizeReq frame frame v).toNat≤frame.toNat := by
  rw [Build.sizeReq]
  by_cases hzero : v=0#11
  · rw [if_pos hzero]
  · by_cases hover : frame<v
    · rw [if_neg hzero,if_pos hover]
    · rw [if_neg hzero,if_neg hover]
      exact not_lt.mp (mt BitVec.lt_def.mpr hover)

/-- What the clamps and the two builds ensure of a geometry. -/
structure Proper (g : Geometry) : Prop where
  hde_low : 16≤g.hde.toNat
  hde_high : g.hde.toNat≤1280
  htot_low : g.hde.toNat+32≤g.htot.toNat
  vact_low : 16≤g.vact.toNat
  vact_high : g.vact.toNat≤720
  vtot_low : g.vact.toNat+16≤g.vtot.toNat

theorem toNat_add_ofNat {v : BitVec 11} {low pad : ℕ} (hv : v.toNat=low)
    (hroom : low+pad<2048) : (v+BitVec.ofNat 11 pad).toNat=low+pad := by
  rw [BitVec.toNat_add,BitVec.toNat_ofNat,hv,Nat.add_mod_mod,Nat.mod_eq_of_lt hroom]

/-- The latched geometry in numbers. -/
structure Latched (i : Ports) (g : Geometry) : Prop where
  hde : g.hde.toNat=max i.rtHDe.toNat 16
  vact : g.vact.toNat=max i.rtVActive.toNat 16
  htot : g.htot.toNat=max i.rtHTotal.toNat (max i.rtHDe.toNat 16+32)
  vtot : g.vtot.toNat=max i.rtVtotal.toNat (max i.rtVActive.toNat 16+16)

theorem request_latched {p : Params} {i : Ports} (hgeom : i.useRtGeom=true)
    (hvtot : i.useRtVtotal=true) (hde : i.rtHDe.toNat≤1280) (hvact : i.rtVActive.toNat≤720) :
    Latched i (request p i) := by
  have heq : request p i =
      { hde := atLeast 16#11 i.rtHDe
        vact := atLeast 16#11 i.rtVActive
        htot := atLeast (atLeast 16#11 i.rtHDe+32#11) i.rtHTotal
        vtot := atLeast (atLeast 16#11 i.rtVActive+16#11) i.rtVtotal } := by
    rw [request,hgeom,hvtot]
    rfl
  have hde16 : (atLeast 16#11 i.rtHDe).toNat=max i.rtHDe.toNat 16 := toNat_atLeast _ _
  have hvact16 : (atLeast 16#11 i.rtVActive).toNat=max i.rtVActive.toNat 16 := toNat_atLeast _ _
  rw [heq]
  refine ⟨hde16,hvact16,?_,?_⟩
  · rw [toNat_atLeast,toNat_add_ofNat hde16 (by omega)]
  · rw [toNat_atLeast,toNat_add_ofNat hvact16 (by omega)]

namespace Build

variable (b : Build) (c : Content)

theorem ports_runtime : (b.ports c).useRtGeom=true ∧ (b.ports c).useRtVtotal=true := by
  cases b with
  | l4 => exact ⟨rfl,rfl⟩
  | beam960 => exact ⟨rfl,rfl⟩

theorem ports_size : (b.ports c).rtHDe.toNat≤1280 ∧ (b.ports c).rtVActive.toNat≤720 := by
  cases b with
  | l4 => exact ⟨toNat_sizeReq_le _ _,toNat_sizeReq_le _ _⟩
  | beam960 =>
    exact ⟨(toNat_sizeReq_le _ _).trans (by decide),(toNat_sizeReq_le _ _).trans (by decide)⟩

theorem latched_numbers : Latched (b.ports c) (b.latched c) :=
  request_latched (b.ports_runtime c).1 (b.ports_runtime c).2 (b.ports_size c).1 (b.ports_size c).2

theorem latched_proper : Proper (b.latched c) := by
  obtain ⟨hde,hvact⟩ := b.ports_size c
  have h := b.latched_numbers c
  exact ⟨by rw [h.hde]; omega,by rw [h.hde]; omega,by rw [h.htot,h.hde]; omega,
    by rw [h.vact]; omega,by rw [h.vact]; omega,by rw [h.vtot,h.vact]; omega⟩

/-- Behind the lines of a latched geometry there is room for an HSync exactly when the content
leaves it. -/
theorem hasRoom_iff : HasRoom b c ↔ (b.latched c).hde.toNat+96≤(b.latched c).htot.toNat := by
  have h := b.latched_numbers c
  rw [h.hde,h.htot]
  cases b with
  | l4 =>
    have htot : (l4.ports c).rtHTotal.toNat=1312 := rfl
    have hde : (l4.ports c).rtHDe=sizeReq 1280#11 1280#11 c.contentW := rfl
    rw [htot,hde,sizeReq,HasRoom]
    by_cases hzero : c.contentW=0#11
    · have hw : c.contentW.toNat=0 := congrArg BitVec.toNat hzero
      have hfull : (1280#11).toNat=1280 := rfl
      rw [if_pos hzero,hfull,hw]
      omega
    · have hw : c.contentW.toNat≠0 := fun h => hzero (BitVec.eq_of_toNat_eq h)
      rw [if_neg hzero]
      by_cases hover : 1280#11<c.contentW
      · have hlt : 1280<c.contentW.toNat := BitVec.lt_def.mp hover
        have hfull : (1280#11).toNat=1280 := rfl
        rw [if_pos hover,hfull]
        omega
      · rw [if_neg hover]
        omega
  | beam960 =>
    have htot : (beam960.ports c).rtHTotal.toNat=1182 := rfl
    have hde : (beam960.ports c).rtHDe.toNat≤960 := toNat_sizeReq_le _ _
    rw [htot,HasRoom,true_iff]
    omega

end Build

/-- The beam is at a place of a frame: the levels are those of the place. -/
structure At (g : Geometry) (x y : ℕ) (s : Beam) : Prop where
  act : s.act=g
  hc : s.hc.toNat=x
  vc : s.vc.toNat=y
  hBlank : s.hBlank=decide (g.hde.toNat≤x)
  vBlank : s.vBlank=decide (g.vact.toNat≤y)
  hSync : s.hSync=(decide (g.hde.toNat+32≤x) && decide (x<g.hde.toNat+96))
  vSync : s.vSync=(decide (g.vact.toNat+8≤y) && decide (y<g.vact.toNat+14))

theorem eq_last_iff {v total : BitVec 11} (hpos : 0<total.toNat) :
    (v == total-1#11)=decide (v.toNat+1=total.toNat) := by
  have hlast : (total-1#11).toNat=total.toNat-1 := by
    have hle : 1#11≤total := BitVec.le_def.mpr hpos
    rw [BitVec.toNat_sub_of_le hle]
    rfl
  rw [Bool.eq_iff_iff,beq_iff_eq,decide_eq_true_iff,← BitVec.toNat_inj,hlast]
  omega

section Step

variable {g : Geometry} {x y : ℕ} {s : Beam}

theorem At.hWrap (h : At g x y s) (hg : Proper g) : s.hWrap=decide (x+1=g.htot.toNat) := by
  have hpos := hg.htot_low
  rw [Beam.hWrap,h.act,eq_last_iff (by omega),h.hc]

theorem At.vWrap (h : At g x y s) (hg : Proper g) :
    s.vWrap=(decide (x+1=g.htot.toNat) && decide (y+1=g.vtot.toNat)) := by
  have hpos := hg.vtot_low
  rw [Beam.vWrap,h.hWrap hg,h.act,eq_last_iff (by omega),h.vc]

/-- The sync windows of both builds begin and end with the porch and width of the module. -/
theorem windows (b : Build) (c : Content) (hact : s.act=g) (hg : Proper g) :
    ((s.hSyncFrom b.params (b.ports c)).toNat=g.hde.toNat+32 ∧
      (s.hSyncTo b.params (b.ports c)).toNat=g.hde.toNat+96) ∧
    (s.vSyncFrom b.params (b.ports c)).toNat=g.vact.toNat+8 ∧
      (s.vSyncTo b.params (b.ports c)).toNat=g.vact.toNat+14 := by
  have hhigh := hg.hde_high
  have vhigh := hg.vact_high
  have hrt := (b.ports_runtime c).1
  have hp : b.params.hFp=32 ∧ b.params.hSw=64 ∧ b.params.vFp=8 ∧ b.params.vSw=6 := by
    cases b with
    | l4 => exact ⟨rfl,rfl,rfl,rfl⟩
    | beam960 => exact ⟨rfl,rfl,rfl,rfl⟩
  obtain ⟨hfp,hsw,vfp,vsw⟩ := hp
  have hfrom : (g.hde+BitVec.ofNat 11 32).toNat=g.hde.toNat+32 :=
    toNat_add_ofNat rfl (by omega)
  have vfrom : (g.vact+BitVec.ofNat 11 8).toNat=g.vact.toNat+8 :=
    toNat_add_ofNat rfl (by omega)
  rw [Beam.hSyncFrom,Beam.hSyncTo,Beam.vSyncFrom,Beam.vSyncTo,if_pos hrt,if_pos hrt,
    if_pos hrt,if_pos hrt,hact,hfp,hsw,vfp,vsw]
  exact ⟨⟨hfrom,toNat_add_ofNat hfrom (by omega)⟩,vfrom,toNat_add_ofNat vfrom (by omega)⟩

/-- The levels after an edge are those of the next counters in the geometry before it. -/
theorem levels_step (b : Build) (c : Content) (hact : s.act=g) (hg : Proper g)
    (hx : s.hcNext.toNat=x) (hy : s.vcNext.toNat=y) :
    At g x y { s.step b.params (b.ports c) with act := g } := by
  obtain ⟨⟨hfrom,hto⟩,vfrom,vto⟩ := windows b c hact hg
  refine ⟨rfl,hx,hy,?_,?_,?_,?_⟩
  · exact decide_eq_decide.mpr (by rw [BitVec.le_def,hact,hx])
  · exact decide_eq_decide.mpr (by rw [BitVec.le_def,hact,hy])
  · exact congrArg₂ and (decide_eq_decide.mpr (by rw [BitVec.le_def,hfrom,hx]))
      (decide_eq_decide.mpr (by rw [BitVec.lt_def,hto,hx]))
  · exact congrArg₂ and (decide_eq_decide.mpr (by rw [BitVec.le_def,vfrom,hy]))
      (decide_eq_decide.mpr (by rw [BitVec.lt_def,vto,hy]))

theorem at_first (hg : Proper g) (hact : s.act=g) (hx : s.hc.toNat=0) (hy : s.vc.toNat=0)
    (hlow : s.hBlank=false ∧ s.vBlank=false ∧ s.hSync=false ∧ s.vSync=false) :
    At g 0 0 s := by
  obtain ⟨hhb,hvb,hhs,hvs⟩ := hlow
  have hhde := hg.hde_low
  have hvact := hg.vact_low
  refine ⟨hact,hx,hy,?_,?_,?_,?_⟩
  · rw [hhb,decide_eq_false (by omega)]
  · rw [hvb,decide_eq_false (by omega)]
  · rw [hhs,decide_eq_false (by omega),Bool.false_and]
  · rw [hvs,decide_eq_false (by omega),Bool.false_and]

/-- Inside a frame the geometry stays. -/
theorem step_keeps (b : Build) (c : Content) (hact : s.act=g) (hwrap : s.vWrap=false) :
    { s.step b.params (b.ports c) with act := g } = s.step b.params (b.ports c) := by
  have hkeep : (s.step b.params (b.ports c)).act=g := by
    rw [Beam.step,hwrap,if_neg Bool.false_ne_true,hact]
  rw [← hkeep]

theorem At.right (h : At g x y s) (hg : Proper g) (b : Build) (c : Content)
    (hx : x+1<g.htot.toNat) : At g (x+1) y (s.step b.params (b.ports c)) := by
  have hwrap : s.hWrap=false := by rw [h.hWrap hg,decide_eq_false (Nat.ne_of_lt hx)]
  have hover : s.vWrap=false := by rw [Beam.vWrap,hwrap,Bool.false_and]
  have hcol : s.hcNext.toNat=x+1 := by
    rw [Beam.hcNext,hwrap,if_neg Bool.false_ne_true,toNat_add_ofNat h.hc (by omega)]
  have hrow : s.vcNext.toNat=y := by
    rw [Beam.vcNext,hwrap,if_neg Bool.false_ne_true,h.vc]
  have hnext := levels_step b c h.act hg hcol hrow
  rwa [step_keeps b c h.act hover] at hnext

theorem At.down (h : At g x y s) (hg : Proper g) (b : Build) (c : Content)
    (hx : x+1=g.htot.toNat) (hy : y+1<g.vtot.toNat) :
    At g 0 (y+1) (s.step b.params (b.ports c)) := by
  have hwrap : s.hWrap=true := by rw [h.hWrap hg,decide_eq_true hx]
  have hover : s.vWrap=false := by
    rw [h.vWrap hg,decide_eq_false (Nat.ne_of_lt hy),Bool.and_false]
  have hcol : s.hcNext.toNat=0 := by
    rw [Beam.hcNext,if_pos hwrap]
    rfl
  have hrow : s.vcNext.toNat=y+1 := by
    rw [Beam.vcNext,if_pos hwrap,hover,if_neg Bool.false_ne_true,
      toNat_add_ofNat h.vc (by omega)]
  have hnext := levels_step b c h.act hg hcol hrow
  rwa [step_keeps b c h.act hover] at hnext

theorem At.wrap (h : At g x y s) (hg : Proper g) (b : Build) (c : Content)
    (hx : x+1=g.htot.toNat) (hy : y+1=g.vtot.toNat) :
    At (b.latched c) 0 0 (s.step b.params (b.ports c)) := by
  have hwrap : s.hWrap=true := by rw [h.hWrap hg,decide_eq_true hx]
  have hover : s.vWrap=true := by
    rw [h.vWrap hg,decide_eq_true hx,decide_eq_true hy,Bool.true_and]
  have hcol : s.hcNext.toNat=0 := by
    rw [Beam.hcNext,if_pos hwrap]
    rfl
  have hrow : s.vcNext.toNat=0 := by
    rw [Beam.vcNext,if_pos hwrap,if_pos hover]
    rfl
  have hnext := levels_step b c h.act hg hcol hrow
  have hde := hg.hde_low
  have hvact := hg.vact_low
  refine at_first (b.latched_proper c) (if_pos hover) hcol hrow ⟨?_,?_,?_,?_⟩
  · exact hnext.hBlank.trans (decide_eq_false (by omega))
  · exact hnext.vBlank.trans (decide_eq_false (by omega))
  · exact hnext.hSync.trans (by rw [decide_eq_false (by omega),Bool.false_and])
  · exact hnext.vSync.trans (by rw [decide_eq_false (by omega),Bool.false_and])

end Step

namespace Build

variable (b : Build) (content : ℕ → Content)

/-- The beam goes through a line pixel by pixel. -/
theorem line_run {g : Geometry} (hg : Proper g) {t y : ℕ} (h : At g 0 y (b.beamAt content t)) :
    ∀ x<g.htot.toNat, At g x y (b.beamAt content (t+x)) := by
  intro x
  induction x with
  | zero => exact fun _ => h
  | succ x ih => exact fun hx => (ih (Nat.lt_of_succ_lt hx)).right hg b _ hx

theorem lines_run {g : Geometry} (hg : Proper g) {t : ℕ} (h : At g 0 0 (b.beamAt content t)) :
    ∀ y<g.vtot.toNat, At g 0 y (b.beamAt content (t+y*g.htot.toNat)) := by
  intro y
  induction y with
  | zero =>
    intro _
    rwa [Nat.zero_mul,Nat.add_zero]
  | succ y ih =>
    intro hy
    have hpos := hg.htot_low
    have hlast := line_run b content hg (ih (Nat.lt_of_succ_lt hy)) (g.htot.toNat-1) (by omega)
    have hplace : t+(y+1)*g.htot.toNat =
        t+y*g.htot.toNat+(g.htot.toNat-1)+1 := by
      rw [Nat.succ_mul]
      omega
    rw [hplace]
    exact hlast.down hg b _ (by omega) hy

/-- The beam goes through a frame line by line. -/
theorem frame_run {g : Geometry} (hg : Proper g) {t : ℕ} (h : At g 0 0 (b.beamAt content t)) :
    ∀ y<g.vtot.toNat, ∀ x<g.htot.toNat,
      At g x y (b.beamAt content (t+(y*g.htot.toNat+x))) := by
  intro y hy x hx
  rw [← Nat.add_assoc]
  exact line_run b content hg (lines_run b content hg h y hy) x hx

/-- Every frame starts with the geometry latched for it. -/
theorem start_run (k : ℕ) :
    At (b.latched (content (b.startOf content k))) 0 0
      (b.beamAt content (b.startOf content k)) := by
  induction k with
  | zero => exact at_first (b.latched_proper _) rfl rfl rfl ⟨rfl,rfl,rfl,rfl⟩
  | succ k ih =>
    have hg := b.latched_proper (content (b.startOf content k))
    have hwide := hg.htot_low
    have hhigh := hg.vtot_low
    rw [startOf,ih.act]
    generalize b.latched (content (b.startOf content k))=g at ih hg hwide hhigh ⊢
    have hlast := frame_run b content hg ih (g.vtot.toNat-1) (by omega) (g.htot.toNat-1)
      (by omega)
    have hplace : (g.vtot.toNat-1)*g.htot.toNat+(g.htot.toNat-1)+1 =
        g.vtot.toNat*g.htot.toNat := by
      have hsplit : g.vtot.toNat*g.htot.toNat =
          (g.vtot.toNat-1)*g.htot.toNat+g.htot.toNat := by
        rw [← Nat.succ_mul,Nat.succ_eq_add_one,Nat.sub_add_cancel (by omega)]
      omega
    rw [← hplace]
    exact hlast.wrap hg b _ (by omega) (by omega)

end Build

theorem onePulse_iff {sync blank : ℕ → Bool} {len width start act : ℕ}
    (hsync : ∀ x<len, sync x=(decide (start≤x) && decide (x<start+width)))
    (hblank : ∀ x<len, blank x=decide (act≤x)) (hact : act ≤ start) (hwidth : 0<width) :
    OnePulse sync blank len width ↔ start+width≤len := by
  have hhigh : ∀ x<len, (sync x=true ↔ start≤x ∧ x<start+width) := fun x hx => by
    rw [hsync x hx,Bool.and_eq_true,decide_eq_true_iff,decide_eq_true_iff]
  constructor
  · rintro ⟨s,hroom,hpulse⟩
    have hfirst := (hhigh s (by omega)).mp ((hpulse s (by omega)).1.mpr ⟨Nat.le_refl s,by omega⟩)
    omega
  · intro hroom
    refine ⟨start,hroom,fun x hx => ⟨hhigh x hx,fun hset => ?_⟩⟩
    have hplace := (hhigh x hx).mp hset
    rw [hblank x hx,decide_eq_true (by omega)]

section Frame

variable (b : Build) (content : ℕ → Content) {g : Geometry} {t : ℕ}

theorem hSync_iff (hg : Proper g) (h : At g 0 0 (b.beamAt content t)) {y : ℕ}
    (hy : y<g.vtot.toNat) :
    OnePulse (fun x => (b.beamAt content (t+(y*g.htot.toNat+x))).hSync)
      (fun x => (b.beamAt content (t+(y*g.htot.toNat+x))).hBlank) g.htot.toNat b.params.hSw ↔
    g.hde.toNat+96≤g.htot.toNat := by
  have hwidth : b.params.hSw=64 := by cases b <;> rfl
  have hframe := b.frame_run content hg h y hy
  rw [hwidth]
  exact onePulse_iff (fun x hx => (hframe x hx).hSync) (fun x hx => (hframe x hx).hBlank)
    (Nat.le_add_right _ 32) (by omega)

theorem wholeFrame_iff (hg : Proper g) (h : At g 0 0 (b.beamAt content t)) :
    WholeFrame b.params (b.beamAt content) t g ↔ g.hde.toNat+96≤g.htot.toNat := by
  have hframe := b.frame_run content hg h
  have hhigh := hg.vtot_low
  constructor
  · exact fun hwhole => (hSync_iff b content hg h (by omega)).mp (hwhole.hSync 0 (by omega))
  · intro hroom
    refine ⟨fun y hy x hx => (hframe y hy x hx).act,fun y hy x hx => ?_,⟨by omega,by omega⟩,
      fun y hy x hx => ?_,fun y hy => (hSync_iff b content hg h hy).mpr hroom,fun x hx => ?_⟩
    · rw [(hframe y hy x hx).vWrap hg,Bool.and_eq_true,decide_eq_true_iff,decide_eq_true_iff,
        and_comm]
    · rw [(hframe y hy x hx).hBlank,(hframe y hy x hx).vBlank,decide_eq_false_iff_not,
        decide_eq_false_iff_not,not_le,not_le]
    · have hwidth : b.params.vSw=6 := by cases b <;> rfl
      rw [hwidth]
      exact (onePulse_iff (fun y hy => (hframe y hy x hx).vSync)
        (fun y hy => (hframe y hy x hx).vBlank) (Nat.le_add_right _ 8) (by omega)).mpr (by omega)

end Frame

/-- The beam emits whole frames exactly when all geometries that it latches leave room for the
HSync. -/
theorem wholeFrames_iff (b : Build) (content : ℕ → Content) :
    WholeFrames b content ↔ ∀ k, HasRoom b (content (b.startOf content k)) := by
  have hstart := b.start_run content
  constructor
  · intro hwhole k
    have hframe := hwhole.frames k
    rw [(hstart k).act] at hframe
    exact (b.hasRoom_iff _).mpr ((wholeFrame_iff b content (b.latched_proper _) (hstart k)).mp hframe)
  · intro hroom
    refine ⟨fun n hne => ?_,fun k => ?_⟩
    · by_cases hwrap : (b.beamAt content n).vWrap=true
      · exact hwrap
      · exact absurd (if_neg hwrap) hne
    · rw [(hstart k).act]
      exact (wholeFrame_iff b content (b.latched_proper _) (hstart k)).mpr
        ((b.hasRoom_iff _).mp (hroom k))

/-- Content of the full width leaves an HSync no room in L4. -/
theorem not_wholeFrames : ¬WholeFrames .l4 fun _ => ⟨1280#11,720#11,24#8⟩ := by
  intro hwhole
  have hframe := (hwhole.frames 0).hSync 0 (by decide)
  have hroom := (hSync_iff .l4 _ (Build.latched_proper _ _) (Build.start_run _ _ 0)
    (y := 0) (by decide)).mp hframe
  exact absurd hroom (by decide)

end Misterplex.BeamContentDe
