import Mathlib.Data.List.Basic
import Mathlib.Tactic.Ring
import Mathlib.Tactic.Linarith

/-!
# Rows laid one behind the other

A raster puts row `y` of width `w` at `y * w`. Places inside the raster get numbers below its
area, different places different numbers, and every number below the area is a place. Cells
that fill a rectangle leave the same values in it however long the rows are.
-/

namespace Misterplex.Raster

open List

/-- Number of the place in column `x` of row `y`. -/
def place (w x y : ℕ) : ℕ := y*w+x

/-- A place inside the raster has a number below its area. -/
theorem place_lt {w h x y : ℕ} (hx : x<w) (hy : y<h) : place w x y<w*h := by
  have hrow : (y+1)*w≤h*w := Nat.mul_le_mul_right w hy
  have hnext : (y+1)*w=y*w+w := by ring
  have harea : h*w=w*h := Nat.mul_comm h w
  unfold place
  omega

/-- The column is the number modulo the width. -/
theorem place_mod {w x : ℕ} (hx : x<w) (y : ℕ) : place w x y%w=x := by
  unfold place
  rw [Nat.add_comm,Nat.add_mul_mod_self_right,Nat.mod_eq_of_lt hx]

/-- The row is the number divided by the width. -/
theorem place_div {w x : ℕ} (hx : x<w) (y : ℕ) : place w x y/w=y := by
  unfold place
  rw [Nat.add_comm,Nat.add_mul_div_right _ _ (by omega),Nat.div_eq_of_lt hx,Nat.zero_add]

/-- Different places have different numbers. -/
theorem place_inj {w x y x' y' : ℕ} (hx : x<w) (hx' : x'<w) (h : place w x y=place w x' y') :
    x=x' ∧ y=y' := by
  constructor
  · rw [← place_mod hx y,h,place_mod hx' y']
  · rw [← place_div hx y,h,place_div hx' y']

/-- Every number is the number of its remainder and its quotient. -/
theorem place_mod_div (w n : ℕ) : place w (n%w) (n/w)=n := by
  unfold place
  rw [Nat.mul_comm]
  exact Nat.div_add_mod n w

/-- Numbers with the same remainder and the same quotient are the same. -/
theorem eq_of_mod_div {w m n : ℕ} (hmod : m%w=n%w) (hdiv : m/w=n/w) : m=n := by
  rw [← place_mod_div w m,hmod,hdiv,place_mod_div]

/-- A block and a place in it are told by their number. -/
theorem block_inj {side a b i j : ℕ} (hi : i<side) (hj : j<side)
    (h : side*a+i=side*b+j) : a=b ∧ i=j := by
  have hplace : place side i a=place side j b := by
    unfold place
    rw [Nat.mul_comm a,h,Nat.mul_comm b]
  exact (place_inj hi hj hplace).symm

/-- A block's place and a place in the block lie inside the blocks. -/
theorem block_lt {side b n i : ℕ} (hb : b<n) (hi : i<side) : side*b+i<side*n := by
  have hnext : side*(b+1) ≤ side*n := Nat.mul_le_mul_left side hb
  rw [Nat.mul_add,Nat.mul_one] at hnext
  omega

/-- A number below the area lies in a row of the raster. -/
theorem div_lt_of_lt {w h n : ℕ} (hn : n<w*h) : n/w<h := Nat.div_lt_of_lt_mul hn

variable {α : Type*}

/-- A value for a place. -/
structure Cell (α : Type*) where
  /-- The column. -/
  x : ℕ
  /-- The row. -/
  y : ℕ
  /-- The value. -/
  v : α

/-- The cells of a rectangle, row by row. -/
def box (x₀ y₀ w h : ℕ) (v : ℕ → ℕ → α) : List (Cell α) :=
  (List.range h).flatMap fun y => (List.range w).map fun x => ⟨x₀+x,y₀+y,v x y⟩

/-- The memory behind cells that are written one after the other into rows of a width. -/
def write (w : ℕ) (mem : ℕ → α) (cells : List (Cell α)) : ℕ → α :=
  cells.foldl (fun m c => Function.update m (place w c.x c.y) c.v) mem

theorem write_cons (w : ℕ) (mem : ℕ → α) (c : Cell α) (cells : List (Cell α)) :
    write w mem (c::cells)=write w (Function.update mem (place w c.x c.y) c.v) cells := rfl

/-- The cells lie in a rectangle and there is one for each of its places. -/
structure Fills (w h : ℕ) (cells : List (Cell α)) : Prop where
  inside : ∀ c∈cells, c.x<w
  /-- No place is left out. -/
  covers : ∀ x<w, ∀ y<h, ∃ c∈cells, c.x=x ∧ c.y=y

/-- A place of a rectangle is in the list of its cells. -/
theorem mem_box {x₀ y₀ w h x y : ℕ} (v : ℕ → ℕ → α) (hx : x<w) (hy : y<h) :
    ⟨x₀+x,y₀+y,v x y⟩∈box x₀ y₀ w h v :=
  mem_flatMap.mpr
    ⟨y,mem_range.mpr hy,mem_map.mpr ⟨x,mem_range.mpr hx,rfl⟩⟩

/-- The cells of a rectangle lie in its columns. -/
theorem box_inside {x₀ y₀ w h : ℕ} {v : ℕ → ℕ → α} {c : Cell α} (hc : c∈box x₀ y₀ w h v) :
    c.x<x₀+w := by
  obtain ⟨y,_,hrow⟩ := mem_flatMap.mp hc
  obtain ⟨x,hx,rfl⟩ := mem_map.mp hrow
  exact Nat.add_lt_add_left (mem_range.mp hx) x₀

/-- The cells of a rectangle with one value have it. -/
theorem box_value {x₀ y₀ w h : ℕ} {v : α} {c : Cell α} (hc : c ∈ box x₀ y₀ w h fun _ _ => v) :
    c.v=v := by
  obtain ⟨y,_,hrow⟩ := mem_flatMap.mp hc
  obtain ⟨x,_,rfl⟩ := mem_map.mp hrow
  rfl

/-- A rectangle fills itself. -/
theorem fills_box (w h : ℕ) (v : ℕ → ℕ → α) : Fills w h (box 0 0 w h v) where
  inside := fun _ hc => Nat.lt_of_lt_of_eq (box_inside hc) (Nat.zero_add w)
  covers := fun x hx y hy => ⟨_,mem_box v hx hy,Nat.zero_add x,Nat.zero_add y⟩

/-- The cells of a rectangle depend on the values inside it. -/
theorem box_congr {x₀ y₀ w h : ℕ} {v v' : ℕ → ℕ → α} (hv : ∀ x<w, ∀ y<h, v x y=v' x y) :
    box x₀ y₀ w h v=box x₀ y₀ w h v' := by
  refine flatMap_congr fun y hy => map_congr_left fun x hx => ?_
  rw [hv x (mem_range.mp hx) y (mem_range.mp hy)]

/-- The places that the cells cover. -/
def places (cells : List (Cell α)) : List (ℕ × ℕ) := cells.map fun c => (c.x,c.y)

/-- Whether cells fill a rectangle is told by their places. -/
theorem fills_of_places {w h : ℕ} {cells : List (Cell α)} (hin : ∀ p∈places cells, p.1<w)
    (hcovers : ∀ x<w, ∀ y<h, (x,y)∈places cells) : Fills w h cells where
  inside := fun c hc => hin (c.x,c.y) (mem_map_of_mem hc)
  covers := by
    intro x hx y hy
    obtain ⟨c,hc,hplace⟩ := mem_map.mp (hcovers x hx y hy)
    exact ⟨c,hc,Prod.mk.inj hplace⟩

/-- At a place that is written, or equal before, rows of two widths agree afterwards. -/
theorem write_agree {w s t x y : ℕ} (hs : w ≤ s) (ht : w≤t) (hx : x<w)
    {cells : List (Cell α)} (hin : ∀ c∈cells, c.x<w) {mem mem' : ℕ → α}
    (h : (∃ c∈cells, c.x=x ∧ c.y=y) ∨ mem (place s x y)=mem' (place t x y)) :
    write s mem cells (place s x y)=write t mem' cells (place t x y) := by
  induction cells generalizing mem mem' with
  | nil =>
    rcases h with ⟨c,hc,_⟩ | hsame
    · exact absurd hc not_mem_nil
    · exact hsame
  | cons c cells ih =>
    have hcx := hin c mem_cons_self
    rw [write_cons,write_cons]
    refine ih (fun d hd => hin d (mem_cons_of_mem c hd)) ?_
    by_cases hhere : c.x=x ∧ c.y=y
    · refine Or.inr ?_
      rw [hhere.1,hhere.2,Function.update_self,Function.update_self]
    · rcases h with ⟨d,hd,hplace⟩ | hsame
      · rcases mem_cons.mp hd with rfl | hlater
        · exact absurd hplace hhere
        · exact Or.inl ⟨d,hlater,hplace⟩
      · refine Or.inr ?_
        have hother : ∀ v : ℕ, w≤v → place v x y≠place v c.x c.y := fun v hv heq =>
          have hboth := place_inj (Nat.lt_of_lt_of_le hx hv) (Nat.lt_of_lt_of_le hcx hv) heq
          hhere ⟨hboth.1.symm,hboth.2.symm⟩
        rw [Function.update_of_ne (hother s hs),Function.update_of_ne (hother t ht),hsame]

/-- What all cells have, and a place that no cell is for had before, is had behind them. -/
theorem write_of_forall {P : α → Prop} {w x y : ℕ} {cells : List (Cell α)}
    (hcells : ∀ c∈cells, P c.v) {mem : ℕ → α}
    (h : (∃ c∈cells, c.x=x ∧ c.y=y) ∨ P (mem (place w x y))) :
    P (write w mem cells (place w x y)) := by
  induction cells generalizing mem with
  | nil =>
    rcases h with ⟨c,hc,_⟩ | hbefore
    · exact absurd hc not_mem_nil
    · exact hbefore
  | cons c cells ih =>
    rw [write_cons]
    refine ih (fun d hd => hcells d (mem_cons_of_mem c hd)) ?_
    by_cases hhere : place w x y=place w c.x c.y
    · refine Or.inr ?_
      rw [hhere,Function.update_self]
      exact hcells c mem_cons_self
    · rw [Function.update_of_ne hhere]
      rcases h with ⟨d,hd,rfl,rfl⟩ | hbefore
      · rcases mem_cons.mp hd with rfl | hlater
        · exact absurd rfl hhere
        · exact Or.inl ⟨d,hlater,rfl,rfl⟩
      · exact Or.inr hbefore

/-- Two lists of cells leave the same values in a rectangle, however long the rows are. -/
def Alike (w h : ℕ) (cells cells' : List (Cell α)) : Prop :=
  ∀ s t x y : ℕ, w ≤ s → w≤t → x<w → y<h → ∀ mem mem' : ℕ → α,
    write s mem cells (place s x y)=write t mem' cells' (place t x y)

variable {w h : ℕ} {cells cells' : List (Cell α)}

/-- Cells that fill a rectangle leave the same values in it as themselves. -/
theorem Fills.alike (hfills : Fills w h cells) : Alike w h cells cells :=
  fun _ _ x y hs ht hx hy _ _ =>
    write_agree hs ht hx hfills.inside (Or.inl (hfills.covers x hx y hy))

/-- Cells of one value that fill a rectangle leave the same values in it as others do. -/
theorem Fills.alike_const {v : α} (hfills : Fills w h cells) (hfills' : Fills w h cells')
    (hv : ∀ c∈cells, c.v=v) (hv' : ∀ c∈cells', c.v=v) : Alike w h cells cells' := by
  intro s t x y _ _ hx hy mem mem'
  have hleft : write s mem cells (place s x y)=v :=
    write_of_forall (P := fun u => u=v) hv (Or.inl (hfills.covers x hx y hy))
  have hright : write t mem' cells' (place t x y)=v :=
    write_of_forall (P := fun u => u=v) hv' (Or.inl (hfills'.covers x hx y hy))
  rw [hleft,hright]

end Misterplex.Raster
