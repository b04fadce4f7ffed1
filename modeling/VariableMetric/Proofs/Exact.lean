import Mathlib.Analysis.Real.Sqrt
import Mathlib.Tactic
import VariableMetric.Scalar

/-!
# Exact scalars

The real numbers with two infinities, and one value for what is undefined.  The
operations are those of floating point numbers without the rounding.  There is
only one zero, and a number divided by it is infinite with the sign of the
number.

On real numbers the operations are the usual ones, and all that is computed from
real numbers stays real as long as nothing is divided by zero.
-/

namespace VariableMetric

noncomputable section

inductive Exact where
  | real (a : ℝ)
  | infinite (negative : Bool)
  | undefined

namespace Exact

def neg : Exact → Exact
  | real a => real (-a)
  | infinite negative => infinite (!negative)
  | undefined => undefined

def add : Exact → Exact → Exact
  | real a, real b => real (a + b)
  | real _, infinite negative => infinite negative
  | infinite negative, real _ => infinite negative
  | infinite negative, infinite negative' =>
      if negative = negative' then infinite negative else undefined
  | _, _ => undefined

/-- The product of an infinity and a number. -/
def stretch (negative : Bool) (a : ℝ) : Exact :=
  if a = 0 then undefined else infinite (negative ^^ decide (a < 0))

def mul : Exact → Exact → Exact
  | real a, real b => real (a * b)
  | real a, infinite negative => stretch negative a
  | infinite negative, real a => stretch negative a
  | infinite negative, infinite negative' => infinite (negative ^^ negative')
  | _, _ => undefined

def inverse : Exact → Exact
  | real a => if a = 0 then infinite false else real a⁻¹
  | infinite _ => real 0
  | undefined => undefined

def lt : Exact → Exact → Prop
  | real a, real b => a < b
  | real _, infinite negative => negative = false
  | infinite negative, real _ => negative = true
  | infinite negative, infinite negative' => negative = true ∧ negative' = false
  | _, _ => False

def le : Exact → Exact → Prop
  | real a, real b => a ≤ b
  | real _, infinite negative => negative = false
  | infinite negative, real _ => negative = true
  | infinite negative, infinite negative' => negative = true ∨ negative' = false
  | _, _ => False

def sqrt : Exact → Exact
  | real a => if a < 0 then undefined else real √a
  | infinite false => infinite false
  | _ => undefined

def isReal : Exact → Bool
  | real _ => true
  | _ => false

end Exact

open Classical in
/-- Storing an exact scalar keeps it as it is. -/
instance : Scalar Exact where
  add := Exact.add
  sub a b := Exact.add a (Exact.neg b)
  mul := Exact.mul
  div a b := Exact.mul a (Exact.inverse b)
  neg := Exact.neg
  lt := Exact.lt
  le := Exact.le
  zero := .real 0
  one := .real 1
  half := .real (1 / 2)
  two := .real 2
  infinity := .infinite false
  sqrt := Exact.sqrt
  square a := Exact.mul a a
  isFinite := Exact.isReal
  equal a b := decide (Exact.le a b ∧ Exact.le b a)
  decLt _ _ := propDecidable _
  decLe _ _ := propDecidable _
  round _ a := a

namespace Exact

@[simp] theorem real_add (a b : ℝ) : real a + real b = real (a + b) := rfl

@[simp] theorem real_mul (a b : ℝ) : real a * real b = real (a * b) := rfl

@[simp] theorem neg_real (a : ℝ) : -real a = real (-a) := rfl

@[simp] theorem real_sub (a b : ℝ) : real a - real b = real (a - b) := by
  show real (a + -b) = real (a - b)
  rw [sub_eq_add_neg]

theorem real_div (a : ℝ) {b : ℝ} (hb : b ≠ 0) : real a / real b = real (a / b) := by
  show mul (real a) (inverse (real b)) = real (a / b)
  simp [inverse, hb, mul, div_eq_mul_inv]

theorem infinite_sub_real (negative : Bool) (b : ℝ) :
    infinite negative - real b = infinite negative := rfl

theorem infinite_div_real (negative : Bool) {b : ℝ} (hb : b ≠ 0) :
    infinite negative / real b = infinite (negative ^^ decide (b < 0)) := by
  show mul (infinite negative) (inverse (real b)) = _
  simp [inverse, hb, mul, stretch]

theorem zero_eq : (0 : Exact) = real 0 := rfl

theorem one_eq : (1 : Exact) = real 1 := rfl

@[simp] theorem real_lt (a b : ℝ) : real a < real b ↔ a < b := Iff.rfl

@[simp] theorem real_le (a b : ℝ) : real a ≤ real b ↔ a ≤ b := Iff.rfl

@[simp] theorem equal_real (a b : ℝ) : Scalar.equal (real a) (real b) = true ↔ a = b := by
  show decide (a ≤ b ∧ b ≤ a) = true ↔ a = b
  rw [decide_eq_true_iff, le_antisymm_iff]

@[simp] theorem round_eq (p : Precision) (a : Exact) : Scalar.round p a = a := rfl

end Exact

end

end VariableMetric
