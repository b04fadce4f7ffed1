import VariableMetric.Double.Scalar

/-!
# The order of scalars

Scalars that are numbers are totally ordered, one that is not a number compares
with nothing, and nothing lies above infinity.  These laws are all that a run
relies on when it compares values.  They are verified for doubles here, by cases
on the kinds of double.
-/

namespace VariableMetric

/-- Scalars whose numbers are in order, up to infinity. -/
class OrderedScalar (α : Type) [Scalar α] : Prop where
  not_infinity_lt : ∀ a : α, ¬ Scalar.infinity < a
  lt_irrefl : ∀ a : α, ¬ a < a
  le_of_not_lt : ∀ {a b : α},
    Scalar.isNaN a = false → Scalar.isNaN b = false → ¬ a < b → b ≤ a
  not_le_of_isNaN : ∀ {a : α} (b : α), Scalar.isNaN a = true → ¬ a ≤ b
  not_lt_of_isNaN : ∀ (a : α) {b : α}, Scalar.isNaN b = true → ¬ a < b

namespace Double

open Float.Model

/-- The order of magnitudes: by the exponents, then by the significands. -/
theorem swap_then_compare (e e' : Int) (m m' : Nat) :
    ((compare e e').then (compare m m')).swap = (compare e' e).then (compare m' m) := by
  rw [Ordering.swap_then, ← Std.OrientedOrd.eq_swap, ← Std.OrientedOrd.eq_swap]

theorem compare_swap (a b : UnpackedFloat) :
    b.compare a = (a.compare b).map Ordering.swap := by
  cases a with
  | notANumber => cases b <;> rfl
  | infinity s => cases s <;> cases b with
    | infinity t => cases t <;> rfl
    | _ => rfl
  | zero s => cases b with
    | infinity t => cases t <;> rfl
    | finite t m e h => cases t <;> rfl
    | _ => rfl
  | finite s m e h => cases b with
    | infinity t => cases s <;> cases t <;> rfl
    | finite t m' e' h' =>
        have hswap := swap_then_compare e e' m m'
        cases s <;> cases t
        · exact congrArg (fun o : Ordering => some o.swap) hswap.symm
        · rfl
        · rfl
        · exact congrArg some hswap.symm
    | _ => cases s <;> rfl

theorem compare_self {a : UnpackedFloat} (h : a.isNaN = false) : a.compare a = some .eq := by
  cases a with
  | notANumber => cases h
  | infinity s => cases s <;> rfl
  | zero s => rfl
  | finite s m e h =>
      have heq : (compare e e).then (compare m m) = .eq := by
        rw [Std.ReflOrd.compare_self, Std.ReflOrd.compare_self]
        rfl
      cases s
      · exact congrArg (fun o : Ordering => some o.swap) heq
      · exact congrArg some heq

/-- The kind of a double, with its sign, significand and exponent. -/
def unpacked (x : Float) : UnpackedFloat := x.toModel.unpack

theorem lt_iff (x y : Float) : x < y ↔ (unpacked x).compare (unpacked y) = some .lt := by
  have hlt : x < y ↔ (unpacked x).lt (unpacked y) = true := decide_eq_true_iff
  rw [hlt, UnpackedFloat.lt, beq_iff_eq]

theorem le_iff (x y : Float) :
    x ≤ y ↔ ((unpacked x).compare (unpacked y)).any (·.isLE) = true :=
  decide_eq_true_iff

theorem isNaN_iff (x : Float) : Scalar.isNaN x = true ↔ unpacked x = .notANumber := by
  have hbeq : Scalar.isNaN x = !((unpacked x).compare (unpacked x) == some .eq) := rfl
  rw [hbeq]
  constructor
  · intro h
    cases hx : unpacked x with
    | notANumber => rfl
    | _ => rw [hx, compare_self rfl] at h; simp at h
  · intro h
    rw [h]
    rfl

theorem compare_isSome {x y : Float} (hx : Scalar.isNaN x = false)
    (hy : Scalar.isNaN y = false) : ((unpacked x).compare (unpacked y)).isSome := by
  have hx' : unpacked x ≠ .notANumber := fun h => by simp [(isNaN_iff x).mpr h] at hx
  have hy' : unpacked y ≠ .notANumber := fun h => by simp [(isNaN_iff y).mpr h] at hy
  cases hu : unpacked x with
  | notANumber => exact absurd hu hx'
  | infinity s => cases s <;> cases hv : unpacked y with
    | notANumber => exact absurd hv hy'
    | infinity t => cases t <;> rfl
    | _ => rfl
  | zero s => cases hv : unpacked y with
    | notANumber => exact absurd hv hy'
    | infinity t => cases t <;> rfl
    | finite t m e h => cases t <;> rfl
    | zero t => rfl
  | finite s m e h => cases s <;> cases hv : unpacked y with
    | notANumber => exact absurd hv hy'
    | infinity t => cases t <;> rfl
    | finite t m e h => cases t <;> rfl
    | zero t => rfl

theorem unpacked_infinity : unpacked Scalar.infinity = .infinity .positive := by
  rfl

theorem compare_notANumber (a : UnpackedFloat) : a.compare .notANumber = none := by
  cases a with
  | infinity s => cases s <;> rfl
  | _ => rfl

/-- What is not at most another double lies above it, unless one of them is no number. -/
theorem not_le_iff (x y : Float) :
    ¬ y ≤ x ↔ x < y ∨ Scalar.isNaN x = true ∨ Scalar.isNaN y = true := by
  by_cases hx : Scalar.isNaN x = true
  · refine iff_of_true ?_ (.inr (.inl hx))
    rw [le_iff, (isNaN_iff x).mp hx, compare_notANumber]
    exact Bool.false_ne_true
  · by_cases hy : Scalar.isNaN y = true
    · refine iff_of_true ?_ (.inr (.inr hy))
      rw [le_iff, (isNaN_iff y).mp hy]
      exact Bool.false_ne_true
    · obtain ⟨o, ho⟩ := Option.isSome_iff_exists.mp
        (compare_isSome (Bool.not_eq_true _ ▸ hy) (Bool.not_eq_true _ ▸ hx))
      rw [le_iff, lt_iff, compare_swap (unpacked y) (unpacked x), ho]
      cases o <;> simp [hx, hy]

/-- One double lies at most at another one if it is not above it and both are numbers. -/
theorem le_iff_not_lt (x y : Float) :
    x ≤ y ↔ ¬ y < x ∧ Scalar.isNaN x = false ∧ Scalar.isNaN y = false := by
  rw [← Decidable.not_iff_not, not_le_iff]
  cases Scalar.isNaN x <;> cases Scalar.isNaN y <;> simp

theorem equal_iff (x y : Float) :
    Scalar.equal x y = true ↔ (unpacked x).compare (unpacked y) = some .eq := by
  have hbeq : Scalar.equal x y = ((unpacked x).compare (unpacked y) == some .eq) := rfl
  rw [hbeq, beq_iff_eq]

theorem not_equal_of_lt {x y : Float} (h : y < x) : Scalar.equal x y = false := by
  rw [lt_iff] at h
  rw [← Bool.not_eq_true, equal_iff, compare_swap (unpacked y) (unpacked x), h]
  exact nofun

theorem le_iff_lt_or_equal (x y : Float) : x ≤ y ↔ x < y ∨ Scalar.equal x y = true := by
  rw [le_iff, lt_iff, equal_iff]
  cases (unpacked x).compare (unpacked y) with
  | none => simp
  | some o => cases o <;> simp

/-- Only numbers lie below one another. -/
theorem isNaN_of_lt {x y : Float} (h : x < y) :
    Scalar.isNaN x = false ∧ Scalar.isNaN y = false :=
  ((le_iff_not_lt x y).mp ((le_iff_lt_or_equal x y).mpr (.inl h))).2

end Double

instance : OrderedScalar Float where
  not_infinity_lt x := by
    rw [Double.lt_iff, Double.unpacked_infinity]
    cases Double.unpacked x with
    | infinity s => cases s <;> exact nofun
    | _ => exact nofun
  lt_irrefl x := by
    have hswap := Double.compare_swap (Double.unpacked x) (Double.unpacked x)
    rw [Double.lt_iff]
    intro h
    rw [h] at hswap
    simp at hswap
  le_of_not_lt {x y} hx hy h := by
    rw [Double.lt_iff] at h
    rw [Double.le_iff, Double.compare_swap (Double.unpacked x) (Double.unpacked y)]
    obtain ⟨o, ho⟩ := Option.isSome_iff_exists.mp (Double.compare_isSome hx hy)
    rw [ho] at h ⊢
    cases o <;> simp at h ⊢
  not_le_of_isNaN {x} y h := by
    rw [Double.le_iff, (Double.isNaN_iff x).mp h]
    exact nofun
  not_lt_of_isNaN x y h := by
    rw [Double.lt_iff, (Double.isNaN_iff y).mp h]
    cases Double.unpacked x with
    | infinity s => cases s <;> exact nofun
    | _ => exact nofun

end VariableMetric
