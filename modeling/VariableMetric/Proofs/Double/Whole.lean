import VariableMetric.Proofs.Double.Order
import VariableMetric.Value.Number

/-!
# Whole numbers and doubles

A finite double is a whole number times a power of two.  Comparing it with a whole number, and
cutting off what is behind its point, is the same as for that rational number, so nothing is
rounded.  The nearest double to a whole number that is not negative is not negative either.
-/

namespace VariableMetric

namespace Double

open Float.Model Float.Model.UnpackedFloat

variable {x : Float}

theorem isNaN_eq (x : Float) : x.isNaN = Scalar.isNaN x := by
  rw [Bool.eq_iff_iff, isNaN_iff]
  have hnan : x.isNaN = (unpacked x).isNaN := rfl
  rw [hnan]
  cases unpacked x <;> simp [UnpackedFloat.isNaN]

theorem lt_zero_iff (hx : Scalar.isNaN x = false) :
    x < 0 ↔ isNegative x = true ∧ 0 < magnitudeBits x := by
  have hzero : place 0 = 0 := rfl
  rw [lt_iff_place_lt hx rfl, hzero, place, signed]
  split
  next hneg => simp only [hneg, true_and]; omega
  next hpos => simp only [hpos, false_and, iff_false, Bool.false_eq_true]; omega

theorem significand_pos_iff (x : Float) : 0 < (significand x).1 ↔ 0 < magnitudeBits x := by
  have hplace : Nat.pow 2 52 = 4503599627370496 := rfl
  unfold significand
  rw [hplace]
  dsimp only
  split
  next hfield => omega
  next hfield =>
    dsimp only
    omega

/-! ## The nearest double -/

theorem unsigned_normalize (n : ℕ) :
    Unsigned (UnpackedFloat.normalize .binary64 n 0 .positive) ∧
      UnpackedFloat.normalize .binary64 n 0 .positive ≠ .notANumber := by
  unfold UnpackedFloat.normalize
  cases hcompare : compare (n : ℤ) 0 with
  | lt =>
    rw [compare_lt_iff_lt] at hcompare
    omega
  | eq => exact ⟨.zero, nofun⟩
  | gt => exact ⟨unsigned_roundWithAccuracy _ _ _, roundWithAccuracy_ne_notANumber _ _ _ _ _⟩

theorem unsigned_mul {m m' : ℕ} {e e' : ℤ} (hm : 0 < m) (hm' : 0 < m') :
    Unsigned (UnpackedFloat.mul .binary64 (.finite .positive m e hm)
        (.finite .positive m' e' hm')) ∧
      UnpackedFloat.mul .binary64 (.finite .positive m e hm) (.finite .positive m' e' hm') ≠
        .notANumber :=
  ⟨unsigned_roundWithAccuracy _ _ _, roundWithAccuracy_ne_notANumber _ _ _ _ _⟩

theorem unsigned_ofScientific (n : ℕ) :
    Unsigned (UnpackedFloat.ofScientific .binary64 n 0) ∧
      UnpackedFloat.ofScientific .binary64 n 0 ≠ .notANumber := by
  have hlarge : (0 : ℤ) ≤ 2 ^ Format.binary64.exponentBits := by positivity
  unfold UnpackedFloat.ofScientific
  split
  next => exact ⟨.zero, nofun⟩
  next hn =>
    rw [if_neg (not_lt.mpr hlarge), if_neg (by omega), if_pos le_rfl]
    exact unsigned_mul _ _

/-- Small numbers are converted exactly, and large ones by way of their significand. -/
theorem nonneg_ofScientific (n : ℕ) : 0 ≤ Float.ofScientific n false 0 := by
  unfold Float.ofScientific
  split
  next =>
    have hone : Float.exactlyRepresentablePowersOfTen[0] = 1 := rfl
    have hnormal := unsigned_normalize (UInt64.ofNat n).toNat
    dsimp only
    rw [if_neg Bool.false_ne_true, hone, mul_unit]
    exact nonneg_of_unsigned hnormal.1 hnormal.2 rfl
  next => exact nonneg_of_unsigned (unsigned_ofScientific n).1 (unsigned_ofScientific n).2 rfl

end Double

theorem Decimal.nonneg_nearestDouble (n : ℕ) : 0 ≤ nearestDouble n 0 := by
  unfold nearestDouble
  dsimp only
  split
  · decide
  · split
    · decide
    · split
      · decide
      · exact Double.nonneg_ofScientific n

namespace Number

theorem nonneg_nearest {i : ℤ} (h : 0 ≤ i) : 0 ≤ nearest i := by
  unfold nearest
  rw [if_neg (not_lt.mpr h)]
  exact Decimal.nonneg_nearestDouble _

theorem doubleOfInt_nonneg_iff {i : ℤ} (h : 0 ≤ i) :
    (∃ x, doubleOfInt i = .ok x ∧ 0 ≤ x) ↔ (nearest i).isFinite = true := by
  unfold doubleOfInt
  constructor
  · rintro ⟨x, hx, -⟩
    by_contra hinfinite
    rw [if_neg hinfinite] at hx
    cases hx
  · exact fun hfinite => ⟨nearest i, if_pos hfinite, nonneg_nearest h⟩

/-! ## Comparison -/

variable {x : Float} {m q : ℤ}

/-- The rational number that a finite double stands for. -/
def exact (x : Float) : ℚ := (signedSignificand x).1 * 2 ^ (signedSignificand x).2

theorem two_pow_eq (k : ℕ) : Int.pow 2 k = ((2 ^ k : ℕ) : ℤ) := by
  push_cast
  rfl

theorem exact_of_whole (h : signedSignificand x = (m, q)) (hq : 0 ≤ q) :
    exact x = ((m * Int.pow 2 q.toNat : ℤ) : ℚ) := by
  have hplace : (2 : ℚ) ^ q = 2 ^ q.toNat := by
    rw [← zpow_natCast, Int.toNat_of_nonneg hq]
  rw [exact, h, hplace, two_pow_eq]
  push_cast
  rfl

theorem exact_of_fraction (h : signedSignificand x = (m, q)) (hq : q < 0) :
    exact x = (m : ℚ) / ((2 ^ (-q).toNat : ℕ) : ℚ) := by
  have hplace : (2 : ℚ) ^ q = ((2 : ℚ) ^ (-q).toNat)⁻¹ := by
    rw [← zpow_natCast, Int.toNat_of_nonneg (by omega), zpow_neg, inv_inv]
  rw [exact, h, hplace, div_eq_mul_inv]
  push_cast
  rfl

theorem ite_finite {β : Type} (hx : x.isFinite = true) (nan infinite finite : β) :
    (if x.isNaN then nan else if !x.isFinite then infinite else finite) = finite := by
  rw [Double.isNaN_eq, Double.isNaN_of_isFinite hx, hx]
  rfl

theorem place_pos (k : ℕ) : (0 : ℚ) < ((2 ^ k : ℕ) : ℚ) := Nat.cast_pos.mpr (Nat.two_pow_pos k)

/-- A whole number is compared with a finite double as with a rational number. -/
theorem wholeAbove_iff (hx : x.isFinite = true) (i : ℤ) :
    wholeAbove i x = true ↔ exact x < i := by
  obtain ⟨m, q, hparts⟩ : ∃ m q, signedSignificand x = (m, q) := ⟨_, _, rfl⟩
  unfold wholeAbove
  rw [ite_finite hx, hparts]
  dsimp only
  split
  next hq => rw [decide_eq_true_iff, exact_of_whole hparts hq, Int.cast_lt]
  next hq =>
    rw [decide_eq_true_iff, exact_of_fraction hparts (not_le.mp hq), two_pow_eq,
      div_lt_iff₀ (place_pos _)]
    exact_mod_cast Iff.rfl

theorem wholeBelow_iff (hx : x.isFinite = true) (i : ℤ) :
    wholeBelow i x = true ↔ (i : ℚ) < exact x := by
  obtain ⟨m, q, hparts⟩ : ∃ m q, signedSignificand x = (m, q) := ⟨_, _, rfl⟩
  unfold wholeBelow
  rw [ite_finite hx, hparts]
  dsimp only
  split
  next hq => rw [decide_eq_true_iff, exact_of_whole hparts hq, Int.cast_lt]
  next hq =>
    rw [decide_eq_true_iff, exact_of_fraction hparts (not_le.mp hq), two_pow_eq,
      lt_div_iff₀ (place_pos _)]
    exact_mod_cast Iff.rfl

theorem truncated_eq (hx : x.isFinite = true) (hnonneg : 0 ≤ exact x) :
    truncated x = .ok ⌊exact x⌋ := by
  obtain ⟨m, q, hparts⟩ : ∃ m q, signedSignificand x = (m, q) := ⟨_, _, rfl⟩
  unfold truncated
  rw [ite_finite hx, hparts]
  dsimp only
  split
  next hq =>
    rw [exact_of_whole hparts hq, Int.floor_intCast]
    rfl
  next hq =>
    rw [exact_of_fraction hparts (not_le.mp hq)] at hnonneg ⊢
    -- Towards zero and downwards are the same from here on.
    have hm : 0 ≤ m := by
      rw [le_div_iff₀ (place_pos _), zero_mul] at hnonneg
      exact_mod_cast hnonneg
    rw [Rat.floor_intCast_div_natCast, two_pow_eq, Int.tdiv_eq_ediv_of_nonneg hm]
    rfl

theorem exact_lt_zero_iff (hx : x.isFinite = true) : exact x < 0 ↔ x < 0 := by
  have hpos : (0 : ℚ) < 2 ^ (Double.significand x).2 := zpow_pos (by norm_num) _
  have hsign := Double.significand_pos_iff x
  rw [Double.lt_zero_iff (Double.isNaN_of_isFinite hx), ← hsign, exact, signedSignificand]
  dsimp only
  rw [← not_le, mul_nonneg_iff_of_pos_right hpos, not_le]
  split
  next hneg => simp [hneg]
  next hpos => simp [hpos]

theorem exact_zero : exact 0.0 = 0 := by
  have hparts : signedSignificand 0.0 = (0, -1074) := by decide
  rw [exact, hparts, Int.cast_zero, zero_mul]

theorem exact_one : exact 1.0 = 1 := by
  have hparts : signedSignificand 1.0 = (2 ^ 52, -52) := by decide
  rw [exact, hparts]
  norm_num [zpow_neg]

/-! ## Against a bound -/

theorem wholeAbove_zero_iff (x : Float) : wholeAbove 0 x = true ↔ x < 0 := by
  cases hnan : Scalar.isNaN x with
  | true =>
    refine iff_of_false ?_ fun hlt => ?_
    · unfold wholeAbove
      rw [Double.isNaN_eq, hnan]
      exact Bool.false_ne_true
    · rw [(Double.isNaN_of_lt hlt).1] at hnan
      cases hnan
  | false =>
    cases hfinite : x.isFinite with
    | true => rw [wholeAbove_iff hfinite, Int.cast_zero, exact_lt_zero_iff hfinite]
    | false =>
      have hlarge : ¬ Double.magnitudeBits x < Double.infiniteBits := fun hlt => by
        rw [(Double.isFinite_iff x).mpr hlt] at hfinite
        cases hfinite
      have hbits : 0 < Double.magnitudeBits x :=
        (by decide : 0 < Double.infiniteBits).trans_le (not_lt.mp hlarge)
      unfold wholeAbove
      rw [Double.isNaN_eq, hnan, hfinite, Double.lt_zero_iff hnan]
      exact (and_iff_left hbits).symm

theorem truncated_of_not_below_one (h : wholeAbove 1 x = false)
    (hfinite : x.isFinite = true) : truncated x = .ok ⌊exact x⌋ := by
  have hone := Bool.eq_false_iff.mp h
  rw [ne_eq, wholeAbove_iff hfinite, not_lt, Int.cast_one] at hone
  exact truncated_eq hfinite (zero_le_one.trans hone)

/-- What is not finite lies on the same side of all whole numbers. -/
theorem wholeAbove_of_not_isFinite (h : x.isFinite = false) (i j : ℤ) :
    wholeAbove i x = wholeAbove j x := by
  unfold wholeAbove
  rw [h]
  rfl

theorem exists_truncated_iff (h : wholeAbove 1 x = false) :
    (∃ i, truncated x = .ok i) ↔ x.isFinite = true := by
  constructor
  · rintro ⟨i, hi⟩
    by_contra hinfinite
    unfold truncated at hi
    split at hi
    · cases hi
    · rw [if_pos (by simpa using hinfinite)] at hi
      cases hi
  · intro hfinite
    exact ⟨_, truncated_of_not_below_one h hfinite⟩

/-- What is behind the point makes no difference to a comparison with a whole number. -/
theorem truncated_lt_iff (h : wholeAbove 1 x = false) (bound : ℤ) :
    (∃ i, truncated x = .ok i ∧ i < bound) ↔ wholeAbove bound x = true := by
  cases hfinite : x.isFinite with
  | true =>
    have hcut := truncated_of_not_below_one h hfinite
    rw [wholeAbove_iff hfinite, ← Int.floor_lt]
    constructor
    · rintro ⟨i, hi, hlt⟩
      obtain rfl := Except.ok.inj (hcut.symm.trans hi)
      exact hlt
    · exact fun hlt => ⟨_, hcut, hlt⟩
  | false =>
    rw [wholeAbove_of_not_isFinite hfinite bound 1, h]
    refine iff_of_false ?_ Bool.false_ne_true
    rintro ⟨i, hi, -⟩
    rw [(exists_truncated_iff h).mp ⟨i, hi⟩] at hfinite
    cases hfinite

theorem pos_of_wholeAbove (hx : 0 ≤ x) {i : ℤ} (h : wholeAbove i x = true) :
    0 < i := by
  have hnot : ¬ x < 0 := ((Double.le_iff_not_lt 0 x).mp hx).1
  cases hfinite : x.isFinite with
  | true =>
    rw [← exact_lt_zero_iff hfinite, not_lt] at hnot
    rw [wholeAbove_iff hfinite] at h
    exact_mod_cast hnot.trans_lt h
  | false =>
    rw [wholeAbove_of_not_isFinite hfinite i 0, wholeAbove_zero_iff] at h
    exact absurd h hnot

/-- No whole number lies strictly between a number that is not negative and one. -/
theorem not_between_one (hx : 0 ≤ x) {i : ℤ} (h : wholeAbove i x = true)
    (hone : wholeBelow i 1.0 = true) : False := by
  have hpos := pos_of_wholeAbove hx h
  rw [wholeBelow_iff rfl, exact_one] at hone
  have hlt : i < 1 := by exact_mod_cast hone
  omega

end Number

end VariableMetric
