import Mathlib.Data.List.Range
import Mathlib.Data.Nat.ModEq
import Mathlib.Tactic.Linarith

/-!
# Ring FIFOs with one extra pointer bit

A FIFO over a power-of-two memory keeps a write and a read pointer one bit
wider than the address. Their difference is the fill level, the low bits
address the memory. The contents are read off the memory between the two
pointers; a push below capacity appends to them and a pop removes the head.
-/

namespace Misterplex

/-- A ring FIFO of `2^aw` cells. -/
structure RingFifo (aw : ℕ) (α : Type*) where
  /-- Memory cells, addressed by the low pointer bits. -/
  mem : ℕ → α
  /-- Write pointer with its wrap bit. -/
  wr : BitVec (aw+1)
  /-- Read pointer with its wrap bit. -/
  rd : BitVec (aw+1)

namespace RingFifo

variable {aw : ℕ} {α : Type*}

/-- Memory cell of a pointer: its low address bits. -/
def slot (p : BitVec (aw+1)) : ℕ := p.toNat%2^aw

variable (q : RingFifo aw α)

/-- Fill level: the pointer difference in pointer width. -/
def level : BitVec (aw+1) := q.wr-q.rd

/-- Both pointers agree. -/
def isEmpty : Bool := q.wr == q.rd

/-- The fill level has reached the capacity. -/
def isFull : Bool := 2^aw≤q.level.toNat

/-- Cell under the read pointer. -/
def head : α := q.mem (slot q.rd)

/-- Write a cell and advance the write pointer. -/
def push (a : α) : RingFifo aw α :=
  { q with mem := Function.update q.mem (slot q.wr) a, wr := q.wr+1#(aw+1) }

/-- Advance the read pointer. -/
def pop : RingFifo aw α := { q with rd := q.rd+1#(aw+1) }

/-- Move both pointers to zero and keep the memory. -/
def clear : RingFifo aw α := { q with wr := 0#(aw+1), rd := 0#(aw+1) }

/-- Never more items than cells. -/
def Wf : Prop := q.level.toNat≤2^aw

/-- Items between the pointers, oldest first. -/
def contents : List α :=
  (List.range q.level.toNat).map fun k => q.mem ((q.rd.toNat+k)%2^aw)

@[simp] theorem length_contents : q.contents.length=q.level.toNat := by
  simp [contents]

theorem level_eq_zero_iff : q.level.toNat=0 ↔ q.wr=q.rd := by
  have hr := q.rd.isLt
  rw [level,BitVec.toNat_sub,← BitVec.toNat_inj]
  constructor
  · intro h
    rcases Nat.lt_or_ge q.wr.toNat q.rd.toNat with hlt | hge
    · rw [Nat.mod_eq_of_lt (by omega)] at h
      omega
    · have he : 2^(aw+1)-q.rd.toNat+q.wr.toNat =
          q.wr.toNat-q.rd.toNat+2^(aw+1) := by omega
      rw [he,Nat.add_mod_right,Nat.mod_eq_of_lt (by omega)] at h
      omega
  · intro h
    rw [h,Nat.sub_add_cancel hr.le,Nat.mod_self]

/-- An empty FIFO holds nothing, and only an empty one. -/
theorem contents_eq_nil_iff : q.contents=[] ↔ q.isEmpty=true := by
  rw [← List.length_eq_zero_iff,length_contents,level_eq_zero_iff,isEmpty,beq_iff_eq]

/-- The write pointer is the read pointer advanced by the level. -/
theorem wr_toNat : q.wr.toNat=(q.rd.toNat+q.level.toNat)%2^(aw+1) := by
  have h : q.wr=q.rd+q.level := by rw [level,BitVec.add_comm,BitVec.sub_add_cancel]
  conv_lhs => rw [h]
  rw [BitVec.toNat_add]

/-- The write address is the read address advanced by the level. -/
theorem slot_wr : slot q.wr=(q.rd.toNat+q.level.toNat)%2^aw := by
  rw [slot,wr_toNat,Nat.mod_mod_of_dvd _ (pow_dvd_pow 2 (Nat.le_succ aw))]

/-- Two offsets below the capacity address different cells. -/
theorem offset_slot_ne {p i j : ℕ} (hij : i<j) (hj : j<2^aw) :
    (p+i)%2^aw≠(p+j)%2^aw := by
  intro h
  have hmod : Nat.ModEq (2^aw) (p+i) (p+j) := h
  have hd := (Nat.modEq_iff_dvd' (by omega)).mp hmod
  have hle := Nat.le_of_dvd (by omega) hd
  omega

theorem level_push (a : α) (h : q.level.toNat<2^aw) :
    (q.push a).level.toNat=q.level.toNat+1 := by
  have hl : (q.push a).level=q.level+1#(aw+1) := by
    exact BitVec.sub_add_comm.symm
  have hone : (1#(aw+1)).toNat=1 := by
    rw [BitVec.toNat_ofNat,Nat.mod_eq_of_lt (Nat.one_lt_two_pow (by omega))]
  rw [hl,BitVec.toNat_add,hone,Nat.mod_eq_of_lt (by omega)]

theorem level_pop (h : q.level.toNat≠0) : q.pop.level.toNat+1=q.level.toNat := by
  have hl : q.level=q.pop.level+1#(aw+1) := by
    simp only [level,pop]
    rw [← BitVec.sub_sub,BitVec.sub_add_cancel]
  have hone : (1#(aw+1)).toNat=1 := by
    rw [BitVec.toNat_ofNat,Nat.mod_eq_of_lt (Nat.one_lt_two_pow (by omega))]
  have hn := congrArg BitVec.toNat hl
  rw [BitVec.toNat_add,hone] at hn
  rcases Nat.lt_or_ge (q.pop.level.toNat+1) (2^(aw+1)) with hc | hc
  · rw [Nat.mod_eq_of_lt hc] at hn
    exact hn.symm
  · have he : q.pop.level.toNat+1=2^(aw+1) := by omega
    rw [he,Nat.mod_self] at hn
    exact absurd hn h

/-- A push below capacity appends one item. -/
theorem contents_push (a : α) (h : q.level.toNat<2^aw) :
    (q.push a).contents = q.contents ++ [a] := by
  rw [contents,level_push q a h,List.range_succ,List.map_append,contents]
  congr 1
  · refine List.map_congr_left fun k hk => ?_
    have hne : (q.rd.toNat+k)%2^aw≠slot q.wr := by
      rw [slot_wr]
      exact offset_slot_ne (List.mem_range.mp hk) h
    exact Function.update_of_ne hne a q.mem
  · have hlast : (q.push a).mem ((q.rd.toNat+q.level.toNat)%2^aw)=a := by
      rw [← slot_wr]
      exact Function.update_self (slot q.wr) a q.mem
    exact congrArg (· :: []) hlast

/-- A nonempty FIFO is its head followed by the popped FIFO. -/
theorem contents_eq_head_cons (h : q.level.toNat≠0) : q.contents=q.head::q.pop.contents := by
  have hrd : ∀ k, (q.rd.toNat+(k+1))%2^aw=(q.pop.rd.toNat+k)%2^aw := by
    intro k
    have hone : (1#(aw+1)).toNat=1 := by
      rw [BitVec.toNat_ofNat,Nat.mod_eq_of_lt (Nat.one_lt_two_pow (by omega))]
    have hp : q.pop.rd.toNat=(q.rd.toNat+1)%2^(aw+1) := by
      change (q.rd+1#(aw+1)).toNat=_
      rw [BitVec.toNat_add,hone]
    rw [hp,Nat.add_mod ((q.rd.toNat+1)%2^(aw+1)) k,
      Nat.mod_mod_of_dvd _ (pow_dvd_pow 2 (Nat.le_succ aw)),← Nat.add_mod,Nat.add_assoc,
      Nat.add_comm 1 k]
  rw [contents,← level_pop q h,List.range_succ_eq_map,List.map_cons,List.map_map]
  refine congrArg₂ List.cons rfl (List.map_congr_left fun k _ => ?_)
  exact congrArg q.mem (hrd k)

/-- A push and a pop together hand out the first item and append the new one. -/
theorem contents_push_pop (a : α) (hroom : q.level.toNat<2^aw)
    (hsome : q.level.toNat≠0) : q.head::(q.push a).pop.contents = q.contents ++ [a] := by
  have hpush := contents_push q a hroom
  have hlevel := level_push q a hroom
  have hfirst := contents_eq_head_cons (q.push a) (by omega)
  rw [hfirst,contents_eq_head_cons q hsome,List.cons_append] at hpush
  rw [contents_eq_head_cons q hsome,List.cons_append]
  exact congrArg _ (List.cons.inj hpush).2

theorem wf_push (a : α) (h : q.level.toNat<2^aw) : (q.push a).Wf := by
  rw [Wf,level_push q a h]
  exact h

theorem wf_pop (hq : q.Wf) (h : q.level.toNat≠0) : q.pop.Wf := by
  have := level_pop q h
  unfold Wf at *
  omega

/-- A push into a FIFO that holds something keeps its head. -/
theorem head_push (a : α) (hroom : q.level.toNat<2^aw)
    (hsome : q.level.toNat≠0) : (q.push a).head=q.head := by
  have hpush := contents_push q a hroom
  have hlevel := level_push q a hroom
  rw [contents_eq_head_cons (q.push a) (by omega),contents_eq_head_cons q hsome,
    List.cons_append] at hpush
  exact (List.cons.inj hpush).1

/-- The pointers of two numbers differ by the difference of the numbers. -/
theorem ofNat_sub_ofNat {n a b : ℕ} (hab : a≤b) (hlt : b-a<2^n) :
    (BitVec.ofNat n b-BitVec.ofNat n a).toNat=b-a := by
  obtain ⟨d,rfl⟩ := Nat.exists_eq_add_of_le hab
  rw [Nat.add_sub_cancel_left] at hlt ⊢
  rw [BitVec.ofNat_add,BitVec.add_comm,BitVec.add_sub_cancel,BitVec.toNat_ofNat,
    Nat.mod_eq_of_lt hlt]

/-- Numbers less than a turn apart have different pointers. -/
theorem ofNat_eq_iff {n a b : ℕ} (hab : a≤b) (hlt : b-a<2^n) :
    BitVec.ofNat n a=BitVec.ofNat n b ↔ a=b := by
  constructor
  · intro h
    have hsub := ofNat_sub_ofNat hab hlt
    rw [h,BitVec.sub_self] at hsub
    have hzero : (0#n).toNat=0 := BitVec.toNat_zero
    omega
  · intro h
    rw [h]

end RingFifo

end Misterplex
