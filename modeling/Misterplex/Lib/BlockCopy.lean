import Mathlib.Data.BitVec
import Mathlib.Tactic.Ring

/-!
# Copying a range of cells block by block

A wrapping memory is read and written one block at a time. Every block is read
before it is written, so the cells of one block may overlap; the whole copy is
exact precisely when no cell is written before a later block reads it.
-/

namespace Misterplex.BlockCopy

open List

variable {w : ℕ} {α : Type*}

variable (first : BitVec w)

/-- The cells of a range, from its first address upwards. -/
def cells (n : ℕ) : List (BitVec w) :=
  (List.range n).map fun i => first+BitVec.ofNat w i

/-- Write values to a list of addresses, in order. -/
def writeAll (mem : BitVec w → α) (addrs : List (BitVec w)) (vals : List α) : BitVec w → α :=
  (addrs.zip vals).foldl (fun m c => Function.update m c.1 c.2) mem

/-- One block copied as if it were read at once. -/
def copyBlock (n : ℕ) (src dst : BitVec w) (mem : BitVec w → α) : BitVec w → α :=
  fun a => if (a-dst).toNat < n then mem (src+(a-dst)) else mem a

/-- The first `k` blocks copied one after the other. -/
def copyBlocks (n : ℕ) : ℕ → BitVec w → BitVec w → (BitVec w → α) → BitVec w → α
  | 0,_,_,mem => mem
  | k+1,src,dst,mem =>
    copyBlock n (src+BitVec.ofNat w (n*k)) (dst+BitVec.ofNat w (n*k))
      (copyBlocks n k src dst mem)

/-- No cell is written by a block before a later block reads it. -/
def Clear (n len : ℕ) (src dst : BitVec w) : Prop :=
  ∀ i<len, ∀ j<len, dst+BitVec.ofNat w i=src+BitVec.ofNat w j → j/n ≤ i/n

@[simp] theorem cells_length (n : ℕ) : (cells first n).length=n := by
  rw [cells,length_map,length_range]

/-- A range of one more cell ends with its last cell. -/
theorem cells_succ (n : ℕ) : cells first (n+1) = cells first n ++ [first+BitVec.ofNat w n] := by
  rw [cells,range_succ,map_append,map_singleton,← cells]

/-- The distance of a cell of a range from its first address. -/
theorem distance_cell {i : ℕ} (h : i<2^w) : (first+BitVec.ofNat w i-first).toNat=i := by
  have hcancel : first+BitVec.ofNat w i-first=BitVec.ofNat w i := by
    rw [BitVec.add_comm,BitVec.add_sub_cancel]
  rw [hcancel,BitVec.toNat_ofNat,Nat.mod_eq_of_lt h]

/-- A cell at a known distance. -/
theorem eq_cell_of_distance {a : BitVec w} {i : ℕ} (h : (a-first).toNat=i) :
    a=first+BitVec.ofNat w i := by
  have hdist : a-first=BitVec.ofNat w i := by
    rw [← h,BitVec.ofNat_toNat,BitVec.setWidth_eq]
  rw [← hdist,BitVec.add_comm,BitVec.sub_add_cancel]

/-- Distances below the size of the memory tell cells apart. -/
theorem cell_inj {i j : ℕ} (hi : i<2^w) (hj : j<2^w)
    (h : first+BitVec.ofNat w i=first+BitVec.ofNat w j) : i=j := by
  have hdist := congrArg (fun a => (a-first).toNat) h
  rw [distance_cell first hi,distance_cell first hj] at hdist
  exact hdist

/-- Cells of a range taken from an inner address. -/
theorem cell_add (i j : ℕ) :
    first+BitVec.ofNat w i+BitVec.ofNat w j=first+BitVec.ofNat w (i+j) := by
  rw [BitVec.add_assoc,BitVec.ofNat_add]

/-- A range is its first cells and the range behind them. -/
theorem cells_append (m n : ℕ) :
    cells first (m+n) = cells first m ++ cells (first+BitVec.ofNat w m) n := by
  rw [cells,cells,cells,range_add,map_append,map_map]
  congr 1
  apply map_congr_left
  intro i _
  exact (cell_add first m i).symm

/-- Writing one more value. -/
theorem writeAll_append_singleton (mem : BitVec w → α) {addrs : List (BitVec w)} {vals : List α}
    (a : BitVec w) (v : α) (h : addrs.length=vals.length) :
    writeAll mem (addrs ++ [a]) (vals ++ [v])=Function.update (writeAll mem addrs vals) a v := by
  rw [writeAll,zip_append h,foldl_append]
  rfl

/-- Reading a range and writing it elsewhere copies the block. -/
theorem writeAll_cells {n : ℕ} (h : n≤2^w) (src dst : BitVec w) (mem : BitVec w → α) :
    writeAll mem (cells dst n) ((cells src n).map mem)=copyBlock n src dst mem := by
  induction n with
  | zero => funext a; simp [cells,writeAll,copyBlock]
  | succ n ih =>
    rw [cells_succ,cells_succ,map_append,map_singleton,
      writeAll_append_singleton mem _ _ (by simp),ih (by omega)]
    funext a
    by_cases ha : a=dst+BitVec.ofNat w n
    · have hdist : (a-dst).toNat=n := by rw [ha,distance_cell dst (by omega)]
      have hoff : a-dst=BitVec.ofNat w n := by
        rw [ha,BitVec.add_comm,BitVec.add_sub_cancel]
      rw [← ha,Function.update_self,copyBlock,if_pos (by omega),hoff]
    · have hdist : (a-dst).toNat≠n := fun heq => ha (eq_cell_of_distance dst heq)
      rw [Function.update_of_ne ha,copyBlock,copyBlock]
      by_cases hlt : (a-dst).toNat<n
      · rw [if_pos hlt,if_pos (by omega)]
      · rw [if_neg hlt,if_neg (by omega)]

/-- A copied block outside its destination. -/
theorem copyBlock_outside {n : ℕ} {src dst a : BitVec w} (mem : BitVec w → α)
    (h : n≤(a-dst).toNat) : copyBlock n src dst mem a=mem a := by
  rw [copyBlock,if_neg (by omega)]

/-- A copied block inside its destination. -/
theorem copyBlock_cell {n i : ℕ} (src dst : BitVec w) (mem : BitVec w → α)
    (hi : i<n) (hw : i<2^w) :
    copyBlock n src dst mem (dst+BitVec.ofNat w i)=mem (src+BitVec.ofNat w i) := by
  have hoff : dst+BitVec.ofNat w i-dst=BitVec.ofNat w i := by
    rw [BitVec.add_comm,BitVec.add_sub_cancel]
  rw [copyBlock,distance_cell dst hw,if_pos hi,hoff]

/-- A cell of the whole destination that lies outside one block of it. -/
theorem outside_block {n k : ℕ} {dst a : BitVec w} (hfit : n*(k+1)≤2^w)
    (h : (a-dst).toNat<n*k ∨ n*(k+1)≤(a-dst).toNat) :
    n≤(a-(dst+BitVec.ofNat w (n*k))).toNat := by
  have hmul : n*(k+1)=n*k+n := by ring
  have ha : a=dst+BitVec.ofNat w (a-dst).toNat := eq_cell_of_distance dst rfl
  have hlt : (a-dst).toNat<2^w := (a-dst).isLt
  by_contra hin
  have hcell := eq_cell_of_distance (dst+BitVec.ofNat w (n*k)) (a := a) rfl
  rw [cell_add] at hcell
  have hwhole : n*k+(a-(dst+BitVec.ofNat w (n*k))).toNat<2^w := by omega
  have heq := cell_inj dst hlt hwhole (ha.symm.trans hcell)
  omega

/-- The blocks of a copy write only their destination. -/
theorem copyBlocks_outside {n k : ℕ} {src dst a : BitVec w} (mem : BitVec w → α)
    (hfit : n*k≤2^w) (h : n*k≤(a-dst).toNat) :
    copyBlocks n k src dst mem a=mem a := by
  induction k with
  | zero => rfl
  | succ k ih =>
    have hmul : n*(k+1)=n*k+n := by ring
    rw [copyBlocks,copyBlock_outside _ (outside_block hfit (Or.inr h))]
    exact ih (by omega) (by omega)

/-- A cell written by one block holds what that block read. -/
theorem copyBlocks_cell {n k i : ℕ} (src dst : BitVec w) (mem : BitVec w → α)
    (hfit : n*k≤2^w) (h : i<n*k) :
    copyBlocks n k src dst mem (dst+BitVec.ofNat w i) =
      copyBlocks n (i/n) src dst mem (src+BitVec.ofNat w i) := by
  induction k with
  | zero => exact absurd h (by omega)
  | succ k ih =>
    have hmul : n*(k+1)=n*k+n := by ring
    by_cases hlt : i<n*k
    · have hdist : (dst+BitVec.ofNat w i-dst).toNat<n*k := by
        rw [distance_cell dst (by omega)]
        exact hlt
      rw [copyBlocks,copyBlock_outside _ (outside_block hfit (Or.inl hdist))]
      exact ih (by omega) hlt
    · have hdiv : i/n=k := by
        apply Nat.div_eq_of_lt_le
        · rw [Nat.mul_comm]
          omega
        · rw [Nat.mul_comm]
          exact h
      have hsplit : i=n*k+(i-n*k) := by omega
      have hcell := copyBlock_cell (src+BitVec.ofNat w (n*k)) (dst+BitVec.ofNat w (n*k))
        (copyBlocks n k src dst mem) (i := i-n*k) (n := n) (by omega) (by omega)
      rw [cell_add,cell_add,← hsplit] at hcell
      rw [hdiv,copyBlocks]
      exact hcell

/-- A clear range is copied exactly. -/
theorem copyBlocks_of_clear {n k : ℕ} {src dst : BitVec w} (hfit : n*k≤2^w)
    (hclear : Clear n (n*k) src dst) (mem : BitVec w → α) {i : ℕ} (hi : i<n*k) :
    copyBlocks n k src dst mem (dst+BitVec.ofNat w i)=mem (src+BitVec.ofNat w i) := by
  have hdiv : n*(i/n) ≤ i := Nat.mul_div_le i n
  rw [copyBlocks_cell src dst mem hfit hi]
  by_cases hin : (src+BitVec.ofNat w i-dst).toNat<n*(i/n)
  · have hcell := eq_cell_of_distance dst (a := src+BitVec.ofNat w i) rfl
    have hle := hclear _ (hin.trans (by omega)) i hi hcell.symm
    have hlt := Nat.div_lt_of_lt_mul hin
    omega
  · exact copyBlocks_outside mem (by omega) (by omega)

/-- A range that is copied exactly whatever the memory holds is clear. -/
theorem clear_of_copyBlocks {n k : ℕ} {src dst : BitVec w} {x y : α} (hxy : x≠y)
    (hfit : n*k≤2^w)
    (hcopy : ∀ (mem : BitVec w → α), ∀ i<n*k,
      copyBlocks n k src dst mem (dst+BitVec.ofNat w i)=mem (src+BitVec.ofNat w i)) :
    Clear n (n*k) src dst := by
  by_contra hnot
  unfold Clear at hnot
  push Not at hnot
  obtain ⟨i,hi,j,hj,hcell,hlt⟩ := hnot
  have hdiv : n*(j/n)≤j := Nat.mul_div_le j n
  have hij : i≠j := by
    rintro rfl
    exact lt_irrefl _ hlt
  have hpos : 0<n := Nat.pos_of_lt_mul_right hi
  have hbefore : i<n*(j/n) := by
    rw [Nat.mul_comm]
    exact Nat.lt_mul_of_div_lt hlt hpos
  let mem : BitVec w → α := fun a => if a = src+BitVec.ofNat w j then x else y
  have hi' := hcopy mem i hi
  have hj' := hcopy mem j hj
  rw [copyBlocks_cell src dst mem hfit hi] at hi'
  rw [copyBlocks_cell src dst mem hfit hj,← hcell,
    copyBlocks_cell src dst mem (by omega) hbefore,hi'] at hj'
  have hne : src+BitVec.ofNat w i≠src+BitVec.ofNat w j :=
    fun heq => hij (cell_inj src (by omega) (by omega) heq)
  have hleft : mem (src+BitVec.ofNat w i)=y := if_neg hne
  have hright : mem (src+BitVec.ofNat w j)=x := if_pos rfl
  rw [hleft,hcell,hright] at hj'
  exact hxy hj'.symm

end Misterplex.BlockCopy
