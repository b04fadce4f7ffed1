import Mathlib.Algebra.GroupWithZero.Action.Units
import VariableMetric.Proofs.Exact.Order
import VariableMetric.Proofs.Exact.Vectors

/-!
# Multiples of exact scalars

An exact scalar has a multiple by every real number.  A positive factor keeps the order,
the infinities and what is undefined, so it comes out of sums, products and quotients
whether or not their parts are real numbers.

The values of a function can be shifted besides.  Their order and their differences do not
depend on the shift.
-/

namespace VariableMetric

noncomputable section

namespace Exact

@[simp] theorem real_add_infinite (a : ℝ) (s : Bool) : real a + infinite s = infinite s := rfl

@[simp] theorem infinite_add_real (s : Bool) (a : ℝ) : infinite s + real a = infinite s := rfl

@[simp] theorem add_undefined (a : Exact) : a + undefined = undefined := by
  cases a <;> rfl

@[simp] theorem undefined_add (a : Exact) : undefined + a = undefined := by
  cases a <;> rfl

@[simp] theorem real_mul_infinite (a : ℝ) (s : Bool) : real a * infinite s = stretch s a := rfl

@[simp] theorem infinite_mul_real (s : Bool) (a : ℝ) : infinite s * real a = stretch s a := rfl

@[simp] theorem infinite_mul_infinite (s t : Bool) :
    infinite s * infinite t = infinite (s ^^ t) := rfl

@[simp] theorem mul_undefined (a : Exact) : a * undefined = undefined := by
  cases a <;> rfl

@[simp] theorem undefined_mul (a : Exact) : undefined * a = undefined := by
  cases a <;> rfl

theorem stretch_mul {c : ℝ} (hc : 0 < c) (s : Bool) (a : ℝ) : stretch s (c * a) = stretch s a := by
  simp [stretch, hc.ne', mul_neg_iff, hc, not_lt.mpr hc.le]

theorem infinite_add_infinite (s t : Bool) :
    infinite s + infinite t = if s = t then infinite s else undefined := rfl

theorem div_eq (a b : Exact) : a / b = a * inverse b := rfl

theorem sub_eq (a b : Exact) : a - b = a + -b := rfl

@[simp] theorem neg_infinite (s : Bool) : -infinite s = infinite (!s) := rfl

@[simp] theorem neg_undefined : -undefined = undefined := rfl

/-! ## Finite results -/

@[simp] theorem isFinite_infinite (s : Bool) : Scalar.isFinite (infinite s) = false := rfl

@[simp] theorem isFinite_undefined : Scalar.isFinite undefined = false := rfl

theorem isFinite_stretch (s : Bool) (a : ℝ) : Scalar.isFinite (stretch s a) = false := by
  unfold stretch
  split <;> rfl

/-- A sum is finite exactly if both of its parts are. -/
theorem isFinite_add (a b : Exact) :
    Scalar.isFinite (a + b) = (Scalar.isFinite a && Scalar.isFinite b) := by
  cases a with
  | real a => cases b <;> rfl
  | infinite s => cases b with
    | infinite t =>
      rw [infinite_add_infinite]
      split <;> rfl
    | _ => rfl
  | undefined => simp

/-- And so is a product. -/
theorem isFinite_mul (a b : Exact) :
    Scalar.isFinite (a * b) = (Scalar.isFinite a && Scalar.isFinite b) := by
  cases a <;> cases b <;> simp [isFinite_stretch]

/-! ## Multiples -/

instance : MulAction ℝ Exact where
  smul c a := real c * a
  one_smul a := by
    cases a with
    | real a => exact congrArg real (one_mul a)
    | infinite s =>
      show stretch s 1 = _
      simp [stretch, not_lt.mpr (zero_le_one (α := ℝ))]
    | undefined => rfl
  mul_smul c d a := by
    cases a with
    | real a => exact congrArg real (mul_assoc c d a)
    | infinite s =>
      show stretch s (c * d) = real c * stretch s d
      by_cases hd : d = 0
      · simp [stretch, hd]
      · by_cases hc : c = 0
        · simp [stretch, hc, hd]
        · have hsign : decide (c * d < 0) = (decide (c < 0) ^^ decide (d < 0)) := by
            rcases lt_or_gt_of_ne hc with hc | hc <;> rcases lt_or_gt_of_ne hd with hd | hd <;>
              simp [mul_neg_iff, hc, hd, hc.not_gt, hd.not_gt]
          simp only [stretch, mul_eq_zero, hc, hd, or_self, if_false, real_mul_infinite, hsign]
          simp [Bool.xor_comm, Bool.xor_left_comm]
    | undefined => rfl

@[simp] theorem smul_real (c a : ℝ) : c • real a = real (c * a) := rfl

@[simp] theorem smul_undefined (c : ℝ) : c • undefined = undefined := rfl

@[simp] theorem smul_zero (c : ℝ) : c • (0 : Exact) = 0 := congrArg real (mul_zero c)

theorem smul_eq_mul (c : ℝ) (a : Exact) : c • a = real c * a := rfl

section Positive

variable {c d : ℝ} (hc : 0 < c)

include hc

@[simp] theorem smul_infinite (s : Bool) : c • infinite s = infinite s := by
  show stretch s c = _
  simp [stretch, hc.ne', not_lt.mpr hc.le]

theorem smul_stretch (s : Bool) (a : ℝ) : c • stretch s a = stretch s a := by
  unfold stretch
  split
  · rfl
  · exact smul_infinite hc _

theorem smul_add (a b : Exact) : c • (a + b) = c • a + c • b := by
  cases a with
  | real a => cases b <;> simp [smul_infinite hc, mul_add]
  | infinite s => cases b with
    | infinite t =>
      rw [infinite_add_infinite, smul_infinite hc, smul_infinite hc, infinite_add_infinite]
      split
      · exact smul_infinite hc s
      · rfl
    | _ => simp [smul_infinite hc]
  | undefined => simp

theorem smul_neg (a : Exact) : c • -a = -(c • a) := by
  cases a <;> simp [smul_infinite hc]

theorem smul_sub (a b : Exact) : c • (a - b) = c • a - c • b := by
  rw [sub_eq, sub_eq, smul_add hc, smul_neg hc]

theorem smul_mul (a b : Exact) : c • a * b = c • (a * b) := by
  cases a with
  | real a => cases b <;> simp [stretch_mul hc, smul_stretch hc, mul_assoc]
  | infinite s => cases b <;> simp [smul_infinite hc, smul_stretch hc]
  | undefined => simp

theorem mul_smul_comm (a b : Exact) : a * c • b = c • (a * b) := by
  cases b with
  | real b => cases a <;> simp [stretch_mul hc, smul_stretch hc, mul_left_comm]
  | infinite s => cases a <;> simp [smul_infinite hc, smul_stretch hc]
  | undefined => simp

theorem smul_mul_smul (hd : 0 < d) (a b : Exact) : c • a * d • b = (c * d) • (a * b) := by
  rw [smul_mul hc, mul_smul_comm hd, mul_smul]

theorem inverse_smul (a : Exact) : inverse (c • a) = c⁻¹ • inverse a := by
  cases a with
  | real a =>
    by_cases ha : a = 0
    · simp [inverse, ha, smul_infinite (inv_pos.mpr hc)]
    · simp [inverse, ha, hc.ne', mul_comm]
  | infinite s => simp [inverse, smul_infinite hc]
  | undefined => simp [inverse]

theorem smul_div_smul (hd : 0 < d) (a b : Exact) : c • a / d • b = (c / d) • (a / b) := by
  rw [div_eq, div_eq, inverse_smul hd, smul_mul_smul hc (inv_pos.mpr hd), div_eq_mul_inv]

theorem smul_lt_smul_iff (a b : Exact) : c • a < c • b ↔ a < b := by
  cases a <;> cases b <;>
    simp only [smul_real, smul_infinite hc, smul_undefined, real_lt, mul_lt_mul_iff_right₀ hc] <;>
    exact Iff.rfl

theorem smul_le_smul_iff (a b : Exact) : c • a ≤ c • b ↔ a ≤ b := by
  cases a <;> cases b <;>
    simp only [smul_real, smul_infinite hc, smul_undefined, real_le, mul_le_mul_iff_right₀ hc] <;>
    exact Iff.rfl

theorem smul_pos_iff (a : Exact) : 0 < c • a ↔ 0 < a := by
  rw [← smul_zero c, smul_lt_smul_iff hc, smul_zero]

theorem smul_neg_iff (a : Exact) : c • a < 0 ↔ a < 0 := by
  rw [← smul_zero c, smul_lt_smul_iff hc, smul_zero]

theorem smul_nonpos_iff (a : Exact) : c • a ≤ 0 ↔ a ≤ 0 := by
  rw [← smul_zero c, smul_le_smul_iff hc, smul_zero]

theorem smul_nonneg_iff (a : Exact) : 0 ≤ c • a ↔ 0 ≤ a := by
  rw [← smul_zero c, smul_le_smul_iff hc, smul_zero]

theorem equal_smul (a b : Exact) : Scalar.equal (c • a) (c • b) = Scalar.equal a b := by
  rw [Bool.eq_iff_iff, equal_iff, equal_iff, smul_le_smul_iff hc, smul_le_smul_iff hc]

theorem equal_smul_zero (a : Exact) : Scalar.equal (c • a) 0 = Scalar.equal a 0 := by
  rw [← smul_zero c, equal_smul hc, smul_zero]

theorem isNaN_smul (a : Exact) : Scalar.isNaN (c • a) = Scalar.isNaN a := by
  rw [Scalar.isNaN, Scalar.isNaN, equal_smul hc]

omit hc in
theorem isFinite_smul (a : Exact) : Scalar.isFinite (c • a) = Scalar.isFinite a := by
  rw [smul_eq_mul, isFinite_mul, isFinite_real, Bool.true_and]

theorem square_smul (a : Exact) : Scalar.square (c • a) = (c * c) • Scalar.square a :=
  smul_mul_smul hc hc a a

theorem sqrt_smul (a : Exact) : Scalar.sqrt ((c * c) • a) = c • Scalar.sqrt a := by
  cases a with
  | real a =>
    have hsign : c * c * a < 0 ↔ a < 0 := by
      rw [mul_neg_iff]
      simp [hc.ne', not_lt.mpr (mul_self_nonneg c)]
    show (if c * c * a < 0 then undefined else real √(c * c * a)) =
      c • if a < 0 then undefined else real √a
    by_cases ha : a < 0
    · rw [if_pos ha, if_pos (hsign.mpr ha)]
      rfl
    · rw [if_neg ha, if_neg fun h => ha (hsign.mp h), smul_real,
        Real.sqrt_mul (mul_self_nonneg c), Real.sqrt_mul_self hc.le]
  | infinite s =>
    rw [smul_infinite (mul_pos hc hc)]
    cases s with
    | false => exact (smul_infinite hc false).symm
    | true => rfl
  | undefined => rfl

theorem least_smul (a b : Exact) :
    Scalar.least (c • a) (c • b) = c • Scalar.least a b := by
  unfold Scalar.least
  simp only [smul_lt_smul_iff hc]
  split <;> rfl

theorem greatest_smul (a b : Exact) :
    Scalar.greatest (c • a) (c • b) = c • Scalar.greatest a b := by
  unfold Scalar.greatest
  simp only [smul_lt_smul_iff hc]
  split <;> rfl

theorem supremum_smul (first : Exact) (rest : List Exact) :
    Scalar.supremum (c • first) (rest.map (c • ·)) = c • Scalar.supremum first rest := by
  unfold Scalar.supremum
  induction rest generalizing first with
  | nil => rfl
  | cons a rest ih =>
    rw [List.map_cons, List.foldl_cons, List.foldl_cons, ← ih]
    congr 1
    simp only [isNaN_smul hc, smul_lt_smul_iff hc]
    split
    · rfl
    · split <;> rfl

end Positive

/-! ## Multiples with an offset -/

theorem add_real_sub_add_real (a b : Exact) (k : ℝ) : a + real k - (b + real k) = a - b := by
  rw [sub_eq, sub_eq]
  cases a with
  | real a => cases b <;> simp
  | infinite s => cases b with
    | real b => rfl
    | infinite t => cases s <;> cases t <;> rfl
    | undefined => rfl
  | undefined => simp

theorem add_right_comm_real (a b : Exact) (k : ℝ) : a + real k + b = a + b + real k := by
  cases a with
  | real a => cases b <;> simp [add_right_comm]
  | infinite s => cases b with
    | infinite t => cases s <;> cases t <;> rfl
    | _ => rfl
  | undefined => simp

theorem add_real_lt_add_real_iff (a b : Exact) (k : ℝ) : a + real k < b + real k ↔ a < b := by
  cases a <;> cases b <;>
    simp only [real_add, infinite_add_real, undefined_add, real_lt, add_lt_add_iff_right] <;>
    exact Iff.rfl

theorem add_real_le_add_real_iff (a b : Exact) (k : ℝ) : a + real k ≤ b + real k ↔ a ≤ b := by
  cases a <;> cases b <;>
    simp only [real_add, infinite_add_real, undefined_add, real_le, add_le_add_iff_right] <;>
    exact Iff.rfl

end Exact

/-- A positive factor for values and gradients, and a shift for values. -/
structure Rescaling where
  factor : ℝ
  shift : ℝ
  factor_pos : 0 < factor

namespace Rescaling

variable (r : Rescaling)

def value (a : Exact) : Exact := r.factor • a + .real r.shift

theorem value_infinite (s : Bool) : r.value (.infinite s) = .infinite s := by
  rw [value, Exact.smul_infinite r.factor_pos, Exact.infinite_add_real]

theorem isFinite_value (a : Exact) : Scalar.isFinite (r.value a) = Scalar.isFinite a := by
  rw [value, Exact.isFinite_add, Exact.isFinite_smul, Exact.isFinite_real, Bool.and_true]

theorem value_lt_value_iff (a b : Exact) : r.value a < r.value b ↔ a < b := by
  rw [value, value, Exact.add_real_lt_add_real_iff, Exact.smul_lt_smul_iff r.factor_pos]

theorem value_le_value_iff (a b : Exact) : r.value a ≤ r.value b ↔ a ≤ b := by
  rw [value, value, Exact.add_real_le_add_real_iff, Exact.smul_le_smul_iff r.factor_pos]

theorem value_sub_value (a b : Exact) : r.value a - r.value b = r.factor • (a - b) := by
  rw [value, value, Exact.add_real_sub_add_real, Exact.smul_sub r.factor_pos]

theorem value_add_smul (a b : Exact) : r.value a + r.factor • b = r.value (a + b) := by
  rw [value, value, Exact.add_right_comm_real, Exact.smul_add r.factor_pos]

theorem greatest_value (a b : Exact) :
    Scalar.greatest (r.value a) (r.value b) = r.value (Scalar.greatest a b) := by
  unfold Scalar.greatest
  simp only [value_lt_value_iff]
  split <;> rfl

/-- Values and gradients as they are. -/
def none : Rescaling := ⟨1, 0, one_pos⟩

@[simp] theorem value_none (a : Exact) : none.value a = a := by
  cases a with
  | real a => exact congrArg Exact.real (by simp [none])
  | infinite s => exact none.value_infinite s
  | undefined => rfl

end Rescaling

/-! ## Vectors -/

namespace Vec

variable {n : ℕ}

instance : MulAction ℝ (Vec Exact n) where
  smul c v := v.map (c • ·)
  one_smul v := by
    ext i
    exact (get_map _ v i).trans (one_smul ℝ _)
  mul_smul c d v := by
    ext i
    show (v.map ((c * d) • ·)).get i = ((v.map (d • ·)).map (c • ·)).get i
    simp [mul_smul]

@[simp] theorem get_smul (c : ℝ) (v : Vec Exact n) (i : Fin n) : (c • v).get i = c • v.get i :=
  get_map _ v i

theorem toList_smul (c : ℝ) (v : Vec Exact n) : (c • v).toList = v.toList.map (c • ·) := rfl

variable {c : ℝ} (hc : 0 < c)

include hc

theorem sum_smul (v : Vec Exact n) :
    (c • v).toList.foldl (· + ·) 0 = c • v.toList.foldl (· + ·) 0 := by
  have hfold : ∀ (l : List Exact) (a : Exact),
      (l.map (c • ·)).foldl (· + ·) (c • a) = c • l.foldl (· + ·) a := by
    intro l
    induction l with
    | nil => exact fun _ => rfl
    | cons b l ih =>
      intro a
      rw [List.map_cons, List.foldl_cons, List.foldl_cons, ← Exact.smul_add hc, ih]
  have hsum := hfold v.toList 0
  rwa [Exact.smul_zero] at hsum

/-- An inner product of which every term is the multiple of one of another inner product. -/
theorem inner_eq_smul {a b a' b' : Vec Exact n}
    (h : ∀ i, a'.get i * b'.get i = c • (a.get i * b.get i)) :
    inner a' b' = c • inner a b := by
  have hproducts : zipWith (fun x y => x * y) a' b' = c • zipWith (fun x y => x * y) a b := by
    ext i
    simp [h]
  unfold inner
  rw [hproducts, sum_smul hc]

theorem maskedInner_eq_smul {w a b a' b' : Vec Exact n}
    (h : ∀ i, w.get i * a'.get i * b'.get i = c • (w.get i * a.get i * b.get i)) :
    maskedInner w a' b' = c • maskedInner w a b := by
  have hproducts : zipWith (fun x y => x * y) (zipWith (fun m x => m * x) w a') b' =
      c • zipWith (fun x y => x * y) (zipWith (fun m x => m * x) w a) b := by
    ext i
    simp [h]
  unfold maskedInner
  rw [hproducts, sum_smul hc]

theorem norm_smul (v : Vec Exact n) : (c • v).norm = c • v.norm := by
  have hinner : inner (c • v) (c • v) = (c * c) • inner v v :=
    inner_eq_smul (mul_pos hc hc) fun i => by
      rw [get_smul, Exact.smul_mul_smul hc hc]
  rw [norm, norm, hinner, Exact.sqrt_smul hc]

theorem scale_smul (p : Precision) (a : Exact) (v : Vec Exact n) :
    scale p a (c • v) = c • scale p a v := by
  ext i
  simp [scale, Exact.smul_mul hc]

/-- A step that is divided along a direction that is multiplied leads to the same place. -/
theorem combine_smul (p : Precision) (a : Exact) (v : Vec Exact n) (k : Exact) (w : Vec Exact n) :
    combine p a v (c⁻¹ • k) (c • w) = combine p a v k w := by
  have hc' := inv_pos.mpr hc
  unfold combine addScaled
  simp only [Exact.round_eq]
  rw [Exact.equal_smul_zero hc']
  split
  · rfl
  · ext i
    simp [Exact.smul_mul_smul hc' hc, inv_mul_cancel₀ hc.ne']

theorem support_smul (v : Vec Exact n) : (c • v).support = v.support := by
  ext i
  simp [support, Exact.equal_smul_zero hc]

end Vec

end

end VariableMetric
