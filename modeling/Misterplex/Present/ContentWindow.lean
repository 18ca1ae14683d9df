import Misterplex.Lib.Scale
import Misterplex.Lib.Trace
import Mathlib.Data.BitVec

/-!
# The window from display to store

A beam position of the display is taken to a position of a content window inside the frame
store: one multiplication by a scale with sixteen fractional bits, a shift, the origin of the
window and a clamp at its last position. The scales are divided from the window one cycle
earlier.
-/

namespace Misterplex.ContentWindow

open Trace BitVec

/-- The parameters. The last positions of the store are cast to 16 bits and fit them. -/
structure Params where
  /-- The frame's width. -/
  frameW : ℕ
  /-- The frame's height. -/
  frameH : ℕ
  /-- The store's width. -/
  storeW : ℕ
  /-- The store's height. -/
  storeH : ℕ
  /-- The visible width without a window. -/
  hDeDefault : ℕ
  /-- The visible height without a window. -/
  vDeDefault : ℕ
  storeW_two : 2 ≤ storeW
  storeH_two : 2 ≤ storeH
  storeW_le : storeW≤2^16
  storeH_le : storeH≤2^16

/-- The parameters of the 720p build. -/
def Params.l4 : Params where
  frameW := 1280
  frameH := 720
  storeW := 1280
  storeH := 720
  hDeDefault := 1280
  vDeDefault := 720
  storeW_two := by decide
  storeH_two := by decide
  storeW_le := by decide
  storeH_le := by decide

/-- The window registers and the display size. -/
structure Window where
  /-- The window is in force. -/
  winEnable : Bool
  /-- The content's width. -/
  contentW : BitVec 11
  /-- The content's height. -/
  contentH : BitVec 11
  /-- Its first column in the store. -/
  contentX0 : BitVec 11
  /-- Its first row in the store. -/
  contentY0 : BitVec 11
  /-- The visible width. -/
  hDe : BitVec 11
  /-- The visible height. -/
  vDe : BitVec 11
  deriving DecidableEq, Repr

/-- What one cycle brings. -/
structure Cycle where
  reset : Bool
  cePix : Bool
  /-- Column and line of the beam. -/
  (hc py : BitVec 11)
  /-- The beam is in the window. -/
  inContent : Bool
  window : Window
  deriving DecidableEq, Repr

/-- A size that is not zero, or a default, or one. -/
def deEff (de : BitVec 11) (deDefault : ℕ) : BitVec 11 :=
  let raw := if de = 0#11 then BitVec.ofNat 11 deDefault else de
  if raw = 0#11 then 1#11 else raw

/-- The content size, or the frame without a window; never zero. -/
def countEff (winEnable : Bool) (content : BitVec 11) (frame : ℕ) : BitVec 11 :=
  let raw := if winEnable then content else BitVec.ofNat 11 frame
  if raw = 0#11 then 1#11 else raw

/-- The scale of a window, rounded up. -/
def scaleWin (count de : BitVec 11) : BitVec 20 :=
  let countM1 := if count ≤ 1#11 then 0#11 else count-1#11
  let deM1 := if de ≤ 1#11 then 1#11 else de-1#11
  let numGen : BitVec 32 := countM1.setWidth 32*65536#32
  let numCeil := numGen+deM1.setWidth 32-1#32
  (numCeil/deM1.setWidth 32).setWidth 20

/-- The last position of a window, clamped into the store. -/
def lastLim (origin count : BitVec 11) (store : ℕ) : BitVec 16 :=
  let storeLast := BitVec.ofNat 16 store-1#16
  let lastAbs := origin.setWidth 16+(count.setWidth 16-1#16)
  if storeLast < lastAbs then storeLast else lastAbs

/-- The pixel path: multiply, shift, add the origin, clamp. -/
def storeComb (pos : BitVec 11) (scale : BitVec 20) (origin last : BitVec 16) : BitVec 16 :=
  let prod : BitVec 32 := pos.setWidth 32*scale.setWidth 32
  let q16 := prod.extractLsb' 16 16
  let sum : BitVec 17 := origin.setWidth 17+q16.setWidth 17
  if last.setWidth 17 < sum then last else sum.setWidth 16

/-- The registers of one axis. -/
structure Axis where
  /-- The scale in sixteen fractional bits. -/
  scale : BitVec 20
  /-- The first place. -/
  origin : BitVec 16
  /-- The last place. -/
  last : BitVec 16
  deriving DecidableEq, Repr

/-- The registers. -/
structure Registers (p : Params) where
  /-- sx_r, x0_r and last_x_r. -/
  x : Axis
  /-- sy_r, y0_r and last_y_r. -/
  y : Axis
  /-- The visible height in force. -/
  vDe : BitVec 11
  /-- The column of the store. -/
  storeX : BitVec (Nat.clog 2 p.storeW)
  /-- The row of the store. -/
  storeY : BitVec (Nat.clog 2 p.storeH)
  /-- The beam is in the content. -/
  deR : Bool

variable (p : Params)

/-- The horizontal scale without a window. -/
def storeXScale : ℕ := p.frameW*39647/320

/-- The vertical scale without a window. -/
def storeYScale : ℕ := p.frameH*65536/p.vDeDefault

/-- The registers of an axis without a window. -/
def legacyAxis (scale frame : ℕ) : Axis :=
  ⟨BitVec.ofNat 20 scale,0#16,BitVec.ofNat 16 frame-1#16⟩

/-- The next registers of an axis. -/
def axisComb (winEnable : Bool) (content origin de : BitVec 11) (scale frame store deDefault : ℕ) :
    Axis :=
  if winEnable then
    let count := countEff winEnable content frame
    ⟨scaleWin count (deEff de deDefault),origin.setWidth 16,lastLim origin count store⟩
  else legacyAxis scale frame

/-- The next registers of the horizontal axis. -/
def xComb (w : Window) : Axis :=
  axisComb w.winEnable w.contentW w.contentX0 w.hDe (storeXScale p) p.frameW p.storeW p.hDeDefault

/-- The next registers of the vertical axis. -/
def yComb (w : Window) : Axis :=
  axisComb w.winEnable w.contentH w.contentY0 w.vDe (storeYScale p) p.frameH p.storeH p.vDeDefault

/-- The registers after reset. -/
def reset : Registers p where
  x := legacyAxis (storeXScale p) p.frameW
  y := legacyAxis (storeYScale p) p.frameH
  vDe := BitVec.ofNat 11 p.vDeDefault
  storeX := 0
  storeY := 0
  deR := false

namespace Registers

variable {p} (s : Registers p) (c : Cycle)

/-- The row is behind the last one of the display. -/
def pastLastRow (py : BitVec 11) : Bool := s.vDe≤py

/-- The row, or the last one of the display. -/
def pyClamped (py : BitVec 11) : BitVec 11 :=
  if s.pastLastRow py then (if s.vDe = 0#11 then 0#11 else s.vDe-1#11) else py

/-- One rising edge. -/
def step : Registers p :=
  if c.reset then ContentWindow.reset p
  else
    { x := xComb p c.window
      y := yComb p c.window
      vDe := deEff c.window.vDe p.vDeDefault
      storeX :=
        if c.cePix then (storeComb c.hc s.x.scale s.x.origin s.x.last).setWidth _ else s.storeX
      storeY :=
        if c.cePix then (storeComb (s.pyClamped c.py) s.y.scale s.y.origin s.y.last).setWidth _
        else s.storeY
      deR := if c.cePix then c.inContent else s.deR }

end Registers

section Axes

/-- A content window inside the store, under a display size that the scale can hold. -/
structure Proper (content origin de : BitVec 11) (store : ℕ) : Prop where
  content_pos : 1≤content.toNat
  inside : origin.toNat+content.toNat ≤ store
  de_two : 2≤de.toNat
  ratio : content.toNat-1<16*(de.toNat-1)

instance (content origin de : BitVec 11) (store : ℕ) : Decidable (Proper content origin de store) :=
  decidable_of_iff (1≤content.toNat ∧ origin.toNat+content.toNat ≤ store ∧ 2≤de.toNat ∧
      content.toNat-1<16*(de.toNat-1))
    ⟨fun ⟨h1,h2,h3,h4⟩ => ⟨h1,h2,h3,h4⟩,fun ⟨h1,h2,h3,h4⟩ => ⟨h1,h2,h3,h4⟩⟩

/-- How positions of the display are taken to a window. -/
structure Maps (origin count de : ℕ) (f : BitVec 11 → ℕ) : Prop where
  /-- The first pixel shows the first place. -/
  first : f 0#11=origin
  /-- The last pixel shows the last place. -/
  last : ∀ pos : BitVec 11, pos.toNat=de-1 → f pos=origin+count-1
  /-- Never outside of the window. -/
  within : ∀ pos, origin≤f pos ∧ f pos≤origin+count-1
  /-- The places come in order. -/
  mono : ∀ pos pos', pos≤pos' → f pos≤f pos'
  /-- The exact ratio, rounded down, or one more. -/
  near : ∀ pos : BitVec 11, pos.toNat<de →
    f pos=origin+pos.toNat*(count-1)/(de-1) ∨
      f pos=origin+pos.toNat*(count-1)/(de-1)+1

variable {content origin de : BitVec 11} {store : ℕ}

open Scale

theorem toNat_scaleWin (h : Proper content origin de store) :
    (scaleWin content de).toNat=Scale.parts (2^16) (content.toNat-1) (de.toNat-1) := by
  obtain ⟨hpos,_,hde,hratio⟩ := h
  have hc : (if content ≤ 1#11 then 0#11 else content-1#11).toNat=content.toNat-1 := by
    split <;> rename_i hle <;> rw [BitVec.le_def] at hle <;> simp at hle ⊢ <;> omega
  have hd : (if de ≤ 1#11 then 1#11 else de-1#11).toNat=de.toNat-1 := by
    split <;> rename_i hle <;> rw [BitVec.le_def] at hle <;> simp at hle ⊢ <;> omega
  have hbound : parts (2^16) (content.toNat-1) (de.toNat-1)<2^20 := by
    rw [parts,Nat.div_lt_iff_lt_mul (by omega)]
    omega
  have hnum : ((if content ≤ 1#11 then 0#11 else content-1#11).setWidth 32*65536#32 +
      (if de ≤ 1#11 then 1#11 else de-1#11).setWidth 32-1#32).toNat =
        (content.toNat-1)*2^16+(de.toNat-1)-1 := by
    rw [toNat_sub,toNat_add,toNat_mul,toNat_setWidth,
      toNat_setWidth,hc,hd]
    simp
    omega
  have hden : ((if de ≤ 1#11 then 1#11 else de-1#11).setWidth 32 : BitVec 32).toNat =
      de.toNat-1 := by
    rw [toNat_setWidth,hd,Nat.mod_eq_of_lt (by omega)]
  rw [scaleWin,toNat_setWidth,toNat_udiv,hnum,hden,← parts,
    Nat.mod_eq_of_lt hbound]

theorem toNat_storeComb (pos : BitVec 11) (scale : BitVec 20) (origin last : BitVec 16) :
    (storeComb pos scale origin last).toNat =
      min (origin.toNat+pos.toNat*scale.toNat/2^16) last.toNat := by
  have hprod : pos.toNat*scale.toNat<2^31 := by
    calc pos.toNat*scale.toNat<2^11*2^20 := Nat.mul_lt_mul'' pos.isLt scale.isLt
      _ = 2^31 := by norm_num
  have hq : (((pos.setWidth 32*scale.setWidth 32 : BitVec 32).extractLsb' 16 16)).toNat =
      pos.toNat*scale.toNat/2^16 := by
    rw [extractLsb'_toNat,toNat_mul,toNat_setWidth,toNat_setWidth,
      Nat.mod_eq_of_lt (by omega : pos.toNat<2^32),
      Nat.mod_eq_of_lt (by omega : scale.toNat<2^32),Nat.mod_eq_of_lt (by omega),
      Nat.shiftRight_eq_div_pow,Nat.mod_eq_of_lt (by omega)]
  rw [storeComb]
  generalize (pos.setWidth 32*scale.setWidth 32 : BitVec 32).extractLsb' 16 16=q at hq ⊢
  have hsum : (origin.setWidth 17+q.setWidth 17).toNat=origin.toNat+q.toNat := by
    rw [toNat_add,toNat_setWidth,toNat_setWidth]
    omega
  have hlast : (last.setWidth 17).toNat=last.toNat := by
    rw [toNat_setWidth]
    omega
  by_cases hover : last.setWidth 17<origin.setWidth 17+q.setWidth 17
  · rw [if_pos hover]
    rw [lt_def,hsum,hlast] at hover
    omega
  · rw [if_neg hover]
    rw [lt_def,hsum,hlast] at hover
    rw [toNat_setWidth,hsum,Nat.mod_eq_of_lt (by omega)]
    omega

theorem toNat_lastLim (h : Proper content origin de store) (hstore : store≤2^16) :
    (lastLim origin content store).toNat=origin.toNat+content.toNat-1 := by
  obtain ⟨hpos,hinside,_,_⟩ := h
  have habs : (origin.setWidth 16+(content.setWidth 16-1#16) : BitVec 16).toNat =
      origin.toNat+content.toNat-1 := by
    simp
    omega
  have hlast : (BitVec.ofNat 16 store-1#16).toNat=store-1 := by
    simp
    omega
  rw [lastLim,if_neg,habs]
  rw [lt_def,habs,hlast]
  omega

theorem axis_maps (h : Proper content origin de store) (hstore : store≤2^16) :
    Maps origin.toNat content.toNat de.toNat fun pos =>
      (storeComb pos (scaleWin content de) (origin.setWidth 16)
        (lastLim origin content store)).toNat := by
  have hwide : (origin.setWidth 16).toNat=origin.toNat := by
    rw [toNat_setWidth,Nat.mod_eq_of_lt (by omega)]
  have hunit : de.toNat-1≤2^16 := by omega
  have hmap : ∀ pos : BitVec 11, (storeComb pos (scaleWin content de) (origin.setWidth 16)
      (lastLim origin content store)).toNat =
        min (origin.toNat+pos.toNat *
          parts (2^16) (content.toNat-1) (de.toNat-1)/2^16)
          (origin.toNat+content.toNat-1) := by
    intro pos
    rw [toNat_storeComb,hwide,toNat_scaleWin h,toNat_lastLim h hstore]
  obtain ⟨hpos,hinside,hde,hratio⟩ := h
  have hsteps : 0<de.toNat-1 := by omega
  refine ⟨?_,?_,?_,?_,?_⟩
  · rw [hmap,BitVec.toNat_ofNat,Nat.zero_mod,Nat.zero_mul,Nat.zero_div]
    omega
  · intro pos hlast
    rw [hmap,hlast,last_step hsteps hunit]
    omega
  · intro pos
    rw [hmap]
    omega
  · intro pos pos' hle
    rw [hmap,hmap]
    have hscaled : pos.toNat*parts (2^16) (content.toNat-1) (de.toNat-1)/2^16 ≤
        pos'.toNat*parts (2^16) (content.toNat-1) (de.toNat-1)/2^16 :=
      Nat.div_le_div_right (Nat.mul_le_mul_right _ (BitVec.le_def.mp hle))
    omega
  · intro pos hin
    have hle : pos.toNat≤de.toNat-1 := by omega
    have hlow : pos.toNat*(content.toNat-1)/(de.toNat-1) ≤
        pos.toNat*parts (2^16) (content.toNat-1) (de.toNat-1)/2^16 :=
      exact_le hsteps (Nat.two_pow_pos 16) pos.toNat
    have hhigh : pos.toNat*parts (2^16) (content.toNat-1) (de.toNat-1)/2^16 ≤
        pos.toNat*(content.toNat-1)/(de.toNat-1)+1 :=
      le_exact_succ hsteps hunit hle
    have hspan : pos.toNat*(content.toNat-1)/(de.toNat-1)≤content.toNat-1 := by
      rw [Nat.div_le_iff_le_mul hsteps]
      exact (Nat.mul_le_mul_right _ hle).trans (by rw [Nat.mul_comm]; omega)
    rw [hmap]
    omega

end Axes

section Module

variable {p}

/-- The registers hold what a window gives. -/
structure Registers.Settled (s : Registers p) (w : Window) : Prop where
  x : s.x=xComb p w
  y : s.y=yComb p w
  vDe : s.vDe=deEff w.vDe p.vDeDefault

/-- One clock settles the scales. -/
theorem Registers.settled_step (s : Registers p) {c : Cycle} (h : c.reset=false) :
    (s.step c).Settled c.window := by
  rw [step,if_neg (by rw [h]; exact Bool.false_ne_true)]
  exact ⟨rfl,rfl,rfl⟩

theorem Registers.settled_run (s : Registers p) {w : Window} {cs : List Cycle} (hne : cs≠[])
    (h : ∀ c∈cs, c.reset=false ∧ c.window=w) :
    (finalState Registers.step s cs).Settled w := by
  obtain ⟨past,c,rfl⟩ := (List.eq_nil_or_concat' cs).resolve_left hne
  obtain ⟨hreset,hw⟩ := h c (List.mem_append_right _ List.mem_cons_self)
  rw [finalState_append,finalState_cons,finalState_nil,← hw]
  exact settled_step _ hreset

variable {s : Registers p} {w : Window}

theorem deEff_of_two {de : BitVec 11} (h : 2≤de.toNat) (deDefault : ℕ) :
    deEff de deDefault=de := by
  have hne : de≠0#11 := fun h0 => by simp [h0] at h
  simp only [deEff,if_neg hne]

theorem countEff_of_pos {content : BitVec 11} (h : 1≤content.toNat) (frame : ℕ) :
    countEff true content frame=content := by
  have hne : content≠0#11 := fun h0 => by simp [h0] at h
  simp only [countEff,if_true,if_neg hne]

theorem axisComb_of_proper {content origin de : BitVec 11} {store : ℕ}
    (h : Proper content origin de store) (scale frame deDefault : ℕ) :
    axisComb true content origin de scale frame store deDefault =
      ⟨scaleWin content de,origin.setWidth 16,lastLim origin content store⟩ := by
  simp only [axisComb,if_true,countEff_of_pos h.content_pos,deEff_of_two h.de_two]

/-- An address of the store has room for every place. -/
theorem Maps.address {origin count de store : ℕ} {f : BitVec 11 → BitVec 16}
    (h : Maps origin count de fun pos => (f pos).toNat) (hpos : 1≤count)
    (hinside : origin+count ≤ store) :
    Maps origin count de fun pos => ((f pos).setWidth (Nat.clog 2 store)).toNat := by
  have hsame : (fun pos => ((f pos).setWidth (Nat.clog 2 store)).toNat) = fun pos => (f pos).toNat := by
    funext pos
    have hlast := (h.within pos).2
    have hstore : store≤2^Nat.clog 2 store := Nat.le_pow_clog Nat.one_lt_two store
    rw [toNat_setWidth,Nat.mod_eq_of_lt (by omega)]
  rw [hsame]
  exact h

theorem Maps.clamp {origin count de : ℕ} {f : BitVec 11 → ℕ} (h : Maps origin count de f)
    (hde : 2≤de) {clamp : BitVec 11 → BitVec 11}
    (hin : ∀ pos : BitVec 11, pos.toNat<de → clamp pos=pos)
    (hover : ∀ pos : BitVec 11, de≤pos.toNat → (clamp pos).toNat=de-1) :
    Maps origin count de fun pos => f (clamp pos) := by
  refine ⟨?_,?_,fun pos => h.within _,?_,?_⟩
  · rw [hin 0#11 (by rw [BitVec.toNat_ofNat]; omega)]
    exact h.first
  · intro pos hlast
    rw [hin pos (by omega)]
    exact h.last pos hlast
  · intro pos pos' hle
    refine h.mono _ _ ?_
    rw [BitVec.le_def] at hle ⊢
    rcases Nat.lt_or_ge pos'.toNat de with hpos' | hpos'
    · rw [hin pos' hpos',hin pos (by omega)]
      exact hle
    · rw [hover pos' hpos']
      rcases Nat.lt_or_ge pos.toNat de with hpos | hpos
      · rw [hin pos hpos]
        omega
      · rw [hover pos hpos]
  · intro pos hpos
    rw [hin pos hpos]
    exact h.near pos hpos

theorem Registers.Settled.pyClamped (h : s.Settled w) (hde : 2≤w.vDe.toNat) (py : BitVec 11) :
    (py.toNat<w.vDe.toNat → s.pyClamped py=py) ∧
      (w.vDe.toNat≤py.toNat → (s.pyClamped py).toNat=w.vDe.toNat-1) := by
  have hvDe : s.vDe=w.vDe := h.vDe.trans (deEff_of_two hde _)
  have hne : w.vDe≠0#11 := fun h0 => by simp [h0] at hde
  constructor
  · intro hpy
    rw [Registers.pyClamped,if_neg]
    rw [pastLastRow,hvDe,decide_eq_true_eq,BitVec.le_def]
    omega
  · intro hpy
    rw [Registers.pyClamped,if_pos,hvDe,if_neg hne,
      BitVec.toNat_sub_of_le (by rw [BitVec.le_def,BitVec.toNat_ofNat]; omega)]
    · rfl
    · rw [pastLastRow,hvDe,decide_eq_true_eq,BitVec.le_def]
      exact hpy

/-- One pixel clock places the pixel in the store. -/
theorem Registers.step_pixel (s : Registers p) {c : Cycle} (hreset : c.reset=false)
    (hpix : c.cePix=true) :
    (s.step c).storeX=(storeComb c.hc s.x.scale s.x.origin s.x.last).setWidth _ ∧
      (s.step c).storeY =
        (storeComb (s.pyClamped c.py) s.y.scale s.y.origin s.y.last).setWidth _ := by
  rw [step,if_neg (by rw [hreset]; exact Bool.false_ne_true)]
  exact ⟨if_pos hpix,if_pos hpix⟩

/-- Once a window has been held for a cycle, the beam is taken into it: on both axes to the first
position from the first, to the last from the last, never outside, never backwards, and to the
exact ratio rounded down or one more. -/
theorem content_window_maps (s : Registers p) {w : Window} (hwin : w.winEnable=true)
    {cs : List Cycle} (hne : cs≠[]) (hcs : ∀ c∈cs, c.reset=false ∧ c.window=w) {c : Cycle}
    (hreset : c.reset=false) (hpix : c.cePix=true) :
    (Proper w.contentW w.contentX0 w.hDe p.storeW →
      Maps w.contentX0.toNat w.contentW.toNat w.hDe.toNat fun hc =>
        ((finalState Registers.step s cs).step { c with hc := hc }).storeX.toNat) ∧
    (Proper w.contentH w.contentY0 w.vDe p.storeH →
      Maps w.contentY0.toNat w.contentH.toNat w.vDe.toNat fun py =>
        ((finalState Registers.step s cs).step { c with py := py }).storeY.toNat) := by
  have hsettled := s.settled_run hne hcs
  constructor
  · intro h
    have hx := hsettled.x
    rw [xComb,hwin,axisComb_of_proper h] at hx
    have hmaps := (axis_maps h p.storeW_le).address h.content_pos h.inside
    have hpixel : ∀ hc, ((finalState Registers.step s cs).step { c with hc := hc }).storeX.toNat =
        ((storeComb hc (scaleWin w.contentW w.hDe) (w.contentX0.setWidth 16)
          (lastLim w.contentX0 w.contentW p.storeW)).setWidth (Nat.clog 2 p.storeW)).toNat := by
      intro hc
      rw [(Registers.step_pixel _ (by exact hreset) (by exact hpix)).1,hx]
    simp only [hpixel]
    exact hmaps
  · intro h
    have hy := hsettled.y
    rw [yComb,hwin,axisComb_of_proper h] at hy
    have hmaps := ((axis_maps h p.storeH_le).address h.content_pos h.inside).clamp h.de_two
      (fun py => (hsettled.pyClamped h.de_two py).1) (fun py => (hsettled.pyClamped h.de_two py).2)
    have hpixel : ∀ py, ((finalState Registers.step s cs).step { c with py := py }).storeY.toNat =
        ((storeComb ((finalState Registers.step s cs).pyClamped py) (scaleWin w.contentH w.vDe)
          (w.contentY0.setWidth 16) (lastLim w.contentY0 w.contentH p.storeH)).setWidth
            (Nat.clog 2 p.storeH)).toNat := by
      intro py
      rw [(Registers.step_pixel _ (by exact hreset) (by exact hpix)).2,hy]
    simp only [hpixel]
    exact hmaps

/-- A picture of 960 by 540 at the corner of the store, on a display of 1280 by 720. -/
def window960 : Window := ⟨true,960#11,540#11,0#11,0#11,1280#11,720#11⟩

/-- A cycle with the beam at the first pixel of that display. -/
def pixel960 : Cycle := ⟨false,true,0#11,0#11,true,window960⟩

/-- The beam of that display is taken into that picture. -/
theorem content_window_maps_960 :
    Maps 0 960 1280 (fun hc => ((finalState Registers.step (reset Params.l4) [pixel960]).step
        { pixel960 with hc := hc }).storeX.toNat) ∧
      Maps 0 540 720 fun py => ((finalState Registers.step (reset Params.l4) [pixel960]).step
        { pixel960 with py := py }).storeY.toNat := by
  have hwindow : ∀ c∈[pixel960], c.reset=false ∧ c.window=window960 := fun c hc =>
    List.mem_singleton.mp hc ▸ ⟨rfl,rfl⟩
  have hmaps := content_window_maps (reset Params.l4) (w := window960) rfl (List.cons_ne_nil _ _)
    hwindow (c := pixel960) rfl rfl
  exact ⟨hmaps.1 (by decide),hmaps.2 (by decide)⟩

end Module

end Misterplex.ContentWindow
