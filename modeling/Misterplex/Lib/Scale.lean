import Mathlib.Data.Nat.Log
import Mathlib.Tactic.Ring

/-!
# Scaling by a fraction that is rounded up

The ratio of two spans is held as a whole number of parts of a unit, rounded up. A position
times that number, in whole units, follows the exact ratio: it meets both ends of the span
exactly, never falls behind and is never more than one ahead.
-/

namespace Misterplex.Scale

variable {unit span steps : ℕ}

/-- The parts of a unit in one step, when a span is covered in some steps. -/
def parts (unit span steps : ℕ) : ℕ := (span*unit+steps-1)/steps

/-- The parts cover the span. -/
theorem le_steps_mul_parts (hsteps : 0<steps) : span*unit ≤ steps*parts unit span steps := by
  have hover : span*unit+steps-1<steps*((span*unit+steps-1)/steps+1) :=
    Nat.lt_mul_div_succ _ hsteps
  rw [Nat.mul_succ] at hover
  rw [parts]
  omega

/-- The parts are more than the span by less than one for each step. -/
theorem steps_mul_parts_lt (hsteps : 0<steps) :
    steps*parts unit span steps<span*unit+steps := by
  have hdiv : steps*((span*unit+steps-1)/steps) ≤ span*unit+steps-1 :=
    Nat.mul_div_le _ _
  rw [parts]
  omega

/-- The last step meets the end of the span. -/
theorem last_step (hsteps : 0<steps) (hunit : steps≤unit) :
    steps*parts unit span steps/unit=span := by
  have hlow : span*unit ≤ steps*parts unit span steps := le_steps_mul_parts hsteps
  have hhigh : steps*parts unit span steps<span*unit+steps := steps_mul_parts_lt hsteps
  rw [Nat.div_eq_iff (by omega)]
  omega

/-- A position never falls behind the exact ratio. -/
theorem exact_le (hsteps : 0<steps) (hunit : 0<unit) (pos : ℕ) :
    pos*span/steps≤pos*parts unit span steps/unit := by
  rw [Nat.le_div_iff_mul_le hunit]
  refine Nat.le_of_mul_le_mul_left ?_ hsteps
  calc steps*(pos*span/steps*unit)=steps*(pos*span/steps)*unit :=
        (Nat.mul_assoc _ _ _).symm
    _ ≤ pos*span*unit := Nat.mul_le_mul_right _ (Nat.mul_div_le _ _)
    _ = pos*(span*unit) := Nat.mul_assoc _ _ _
    _ ≤ pos*(steps*parts unit span steps) :=
        Nat.mul_le_mul_left _ (le_steps_mul_parts hsteps)
    _ = steps*(pos*parts unit span steps) := Nat.mul_left_comm _ _ _

/-- Within the span a position is never more than one ahead of the exact ratio. -/
theorem le_exact_succ (hsteps : 0<steps) (hunit : steps≤unit) {pos : ℕ} (hpos : pos ≤ steps) :
    pos*parts unit span steps/unit≤pos*span/steps+1 := by
  have hexact : pos*span<steps*(pos*span/steps+1) := Nat.lt_mul_div_succ _ hsteps
  refine Nat.le_of_lt_succ ((Nat.div_lt_iff_lt_mul (by omega)).mpr ?_)
  refine Nat.lt_of_mul_lt_mul_left (a := steps) ?_
  calc steps*(pos*parts unit span steps)=pos*(steps*parts unit span steps) :=
        Nat.mul_left_comm _ _ _
    _ ≤ pos*(span*unit+steps) :=
        Nat.mul_le_mul_left _ (steps_mul_parts_lt hsteps).le
    _ = pos*span*unit+pos*steps := by ring
    _ ≤ pos*span*unit+unit*steps :=
        Nat.add_le_add_left (Nat.mul_le_mul_right _ (hpos.trans hunit)) _
    _ < steps*(pos*span/steps+1)*unit+unit*steps :=
        Nat.add_lt_add_right (Nat.mul_lt_mul_of_pos_right hexact (by omega)) _
    _ = steps*((pos*span/steps+1).succ*unit) := by rw [Nat.succ_eq_add_one]; ring

end Misterplex.Scale
