import VariableMetric.Proofs.Double.Nearest

/-!
# The order of sums, products and quotients

Products of doubles that are not negative grow with their factors, and their sums with the
summands.  So a positive factor that is at most one does not raise a double, and the middle of
two doubles lies between them, unless their sum is too large to be a number.
-/

namespace VariableMetric.Double

open Float.Model Float.Model.UnpackedFloat

variable {x y : Float}

/-! ## The order of products and sums -/

theorem le_trans {x y z : Float} (hxy : x ≤ y) (hyz : y ≤ z) : x ≤ z := by
  obtain ⟨hxy, hx, hy⟩ := (le_iff_not_lt x y).mp hxy
  obtain ⟨hyz, -, hz⟩ := (le_iff_not_lt y z).mp hyz
  rw [lt_iff_place_lt hy hx, not_lt] at hxy
  rw [lt_iff_place_lt hz hy, not_lt] at hyz
  rw [le_iff_not_lt, lt_iff_place_lt hz hx, not_lt]
  exact ⟨hxy.trans hyz, hx, hz⟩

theorem le_of_lt {x y : Float} (h : x < y) : x ≤ y := (le_iff_lt_or_equal x y).mpr (.inl h)

theorem le_refl_of_nonneg (h : 0 ≤ x) : x ≤ x := (le_iff_magnitudeBits_le h h).mpr le_rfl

theorem pos_or_equal_zero (h : 0 ≤ x) : 0 < x ∨ Scalar.equal x 0 = true := by
  rcases (le_iff_lt_or_equal 0 x).mp h with hpos | hequal
  · exact .inl hpos
  · rw [equal_iff] at hequal ⊢
    rw [compare_swap (unpacked 0) (unpacked x), hequal]
    exact .inr rfl

theorem isFinite_of_le (hx : 0 ≤ x) (h : x ≤ y) (hy : Scalar.isFinite y = true) :
    Scalar.isFinite x = true := by
  by_contra hinfinite
  rw [Bool.not_eq_true] at hinfinite
  have hlarge := unpacked_eq_of_infinite_le (unpacked_of_nonneg_of_not_isFinite hx hinfinite) h
  rw [isFinite_eq, hlarge] at hy
  cases hy

theorem mul_commute (x y : Float) : x * y = y * x := by
  have hsign (s s' : Sign) : s * s' = s' * s := by cases s <;> cases s' <;> rfl
  have hswap : UnpackedFloat.mul .binary64 (unpacked x) (unpacked y) =
      UnpackedFloat.mul .binary64 (unpacked y) (unpacked x) := by
    cases unpacked x <;> cases unpacked y <;>
      simp only [UnpackedFloat.mul, hsign, mul_comm, add_comm]
  apply ext_unpacked
  rw [unpacked_mul, unpacked_mul, hswap]

theorem unpacked_infinite_mul (hx : unpacked x = .infinity .positive) (hy : 0 ≤ y) :
    unpacked (x * y) = .notANumber ∨ unpacked (x * y) = .infinity .positive := by
  rw [unpacked_mul, hx]
  rcases (nonneg_iff y).mp hy with ⟨sign, hv⟩ | ⟨m, e, hm, hv⟩ | hv <;> rw [hv]
  · exact .inl unpack_pack_notANumber
  · exact .inr (unpack_pack_infinity _)
  · exact .inr (unpack_pack_infinity _)

/-- A product without a negative factor is not negative, or no number. -/
theorem mul_nonneg_or_isNaN (hx : 0 ≤ x) (hy : 0 ≤ y) :
    0 ≤ x * y ∨ unpacked (x * y) = .notANumber := by
  have hinfinite {a b : Float} (ha : 0 ≤ a) (hb : 0 ≤ b) (hfa : Scalar.isFinite a = false) :
      0 ≤ a * b ∨ unpacked (a * b) = .notANumber := by
    have hlarge := unpacked_of_nonneg_of_not_isFinite ha hfa
    rcases unpacked_infinite_mul hlarge hb with hnan | hlarge'
    · exact .inr hnan
    · exact .inl ((nonneg_iff _).mpr (.inr (.inr hlarge')))
  cases hfx : Scalar.isFinite x with
  | false => exact hinfinite hx hy hfx
  | true =>
    cases hfy : Scalar.isFinite y with
    | false => exact mul_commute y x ▸ hinfinite hy hx hfy
    | true => exact .inl (nearest_mul hx hy hfx hfy).nonneg

/-- The factors of a finite product are finite. -/
theorem isFinite_left_of_mul (hx : 0 ≤ x) (hy : 0 ≤ y) (h : Scalar.isFinite (x * y) = true) :
    Scalar.isFinite x = true := by
  by_contra hinfinite
  rw [Bool.not_eq_true] at hinfinite
  have hlarge := unpacked_of_nonneg_of_not_isFinite hx hinfinite
  rw [isFinite_eq] at h
  rcases unpacked_infinite_mul hlarge hy with hu | hu <;>
    (rw [hu] at h; cases h)

theorem isFinite_right_of_mul (hx : 0 ≤ x) (hy : 0 ≤ y) (h : Scalar.isFinite (x * y) = true) :
    Scalar.isFinite y = true :=
  isFinite_left_of_mul hy hx (mul_commute x y ▸ h)

/-- Products of smaller factors are smaller, and finite if the larger one is. -/
theorem mul_le_mul {a b c d : Float} (ha : 0 ≤ a) (hab : a ≤ b) (hc : 0 ≤ c) (hcd : c ≤ d)
    (hfinite : Scalar.isFinite (b * d) = true) :
    0 ≤ a * c ∧ a * c ≤ b * d ∧ Scalar.isFinite (a * c) = true := by
  have hb := le_trans ha hab
  have hd := le_trans hc hcd
  have hfb := isFinite_left_of_mul hb hd hfinite
  have hfd := isFinite_right_of_mul hb hd hfinite
  have hfa := isFinite_of_le ha hab hfb
  have hfc := isFinite_of_le hc hcd hfd
  have hsmall := nearest_mul ha hc hfa hfc
  have hlarge := nearest_mul hb hd hfb hfd
  have hunits : units a * units c ≤ units b * units d :=
    Nat.mul_le_mul ((le_iff_units_le ha hb hfa).mp hab) ((le_iff_units_le hc hd hfc).mp hcd)
  exact ⟨hsmall.nonneg, hsmall.le hlarge hunits, hsmall.isFinite_of_le hlarge hunits hfinite⟩

theorem units_one : units 1 = unitsOfOne := by
  obtain ⟨k, hk⟩ : ∃ k, 1074 = k := ⟨_, rfl⟩
  have hexponent : 52 + ((-52 : ℤ) + 1074).toNat = k := by omega
  rw [(units_of_finite unpacked_one).2, unitsOfOne_eq hk, ← pow_add, hexponent]

theorem units_half : 2 * units Scalar.half = unitsOfOne := by
  have hhalf : unpacked Scalar.half = .finite .positive (2 ^ 52) (-53) (by decide) := rfl
  obtain ⟨k, hk⟩ : ∃ k, 1074 = k := ⟨_, rfl⟩
  have hexponent : 52 + ((-53 : ℤ) + 1074).toNat + 1 = k := by omega
  rw [(units_of_finite hhalf).2, unitsOfOne_eq hk, ← pow_add, ← pow_succ', hexponent]

/-- A factor that is positive and at most one does not raise anything. -/
theorem mul_le_of_le_one {c : Float} (hc : 0 < c) (hone : c ≤ 1) (hx : 0 ≤ x) :
    0 ≤ c * x ∧ c * x ≤ x := by
  cases hfinite : Scalar.isFinite x with
  | true =>
    have hfc := isFinite_of_le (le_of_lt hc) hone rfl
    have hproduct := nearest_mul (le_of_lt hc) hx hfc hfinite
    refine ⟨hproduct.nonneg, hproduct.le (nearest_self hx hfinite) ?_⟩
    have hunits := (le_iff_units_le (le_of_lt hc) (by decide) hfc).mp hone
    rw [units_one] at hunits
    rw [mul_comm (units x)]
    exact Nat.mul_le_mul_right _ hunits
  | false =>
    have hlarge := unpacked_of_nonneg_of_not_isFinite hx hfinite
    have hproduct : unpacked (c * x) = .infinity .positive := by
      rw [unpacked_mul, hlarge]
      rcases unpacked_of_pos hc with hu | ⟨m, e, hm, hu⟩ <;>
        (rw [hu]; exact unpack_pack_infinity _)
    have hsame : c * x = x := ext_unpacked (hproduct.trans hlarge.symm)
    rw [hsame]
    exact ⟨hx, le_of_not_isFinite hx hx hfinite⟩

theorem rounded_two_mul_units (hx : 0 ≤ x) (hfinite : Scalar.isFinite x = true) :
    rounded (2 * units x * unitsOfOne) = 2 * units x * unitsOfOne := by
  rcases unpacked_of_nonneg_of_isFinite hx hfinite with ⟨sign, hu⟩ | ⟨m, e, hm, hu⟩
  · rw [units_of_zero hu, mul_zero, zero_mul, rounded_zero]
  · obtain ⟨hcanonical, hunits⟩ := units_of_finite hu
    obtain ⟨k, hk⟩ : ∃ k, 1074 = k := ⟨_, rfl⟩
    have hwhole : 2 * units x * unitsOfOne = m * 2 ^ ((e + 1074).toNat + 1 + k) := by
      rw [hunits, unitsOfOne_eq hk, pow_add, pow_succ]
      ring
    rw [hwhole]
    exact rounded_self hcanonical.lt (by omega)

/-- Smaller numbers have a finite sum if larger ones have one. -/
theorem isFinite_add_of_le {b : Float} (hx : 0 ≤ x) (hy : 0 ≤ y) (hb : Scalar.isFinite b = true)
    (hxb : x ≤ b) (hyb : y ≤ b) (hsum : Scalar.isFinite (b + b) = true) :
    Scalar.isFinite (x + y) = true := by
  have hb' := le_trans hx hxb
  have hfx := isFinite_of_le hx hxb hb
  have hfy := isFinite_of_le hy hyb hb
  refine (nearest_add hx hy hfx hfy).isFinite_of_le (nearest_add hb' hb' hb hb) ?_ hsum
  exact Nat.mul_le_mul_right _ (Nat.add_le_add ((le_iff_units_le hx hb' hfx).mp hxb)
    ((le_iff_units_le hy hb' hfy).mp hyb))

/-- The middle of two doubles does not lie above both of them, unless their sum is too large. -/
theorem half_add_le {b : Float} (hx : 0 ≤ x) (hy : 0 ≤ y) (hfx : Scalar.isFinite x = true)
    (hfy : Scalar.isFinite y = true) (hxb : x ≤ b) (hyb : y ≤ b)
    (hsum : Scalar.isFinite (x + y) = true) :
    0 ≤ Scalar.half * (x + y) ∧ Scalar.half * (x + y) ≤ b := by
  have hb := le_trans hx hxb
  have hadd := nearest_add hx hy hfx hfy
  have hmiddle : Nearest (units Scalar.half * units (x + y)) (Scalar.half * (x + y)) :=
    nearest_mul (by decide) hadd.nonneg rfl hsum
  refine ⟨hmiddle.nonneg, ?_⟩
  cases hfb : Scalar.isFinite b with
  | false => exact le_of_not_isFinite hmiddle.nonneg hb hfb
  | true =>
    have hunits : units (x + y) ≤ 2 * units b := by
      have hxb' := (le_iff_units_le hx hb hfx).mp hxb
      have hyb' := (le_iff_units_le hy hb hfy).mp hyb
      refine Nat.le_of_mul_le_mul_right ?_ unitsOfOne_pos
      rw [hadd.units_eq hsum, ← rounded_two_mul_units hb hfb]
      exact rounded_mono (Nat.mul_le_mul_right _ (by omega))
    refine hmiddle.le (nearest_self hb hfb) ?_
    calc units Scalar.half * units (x + y) ≤ units Scalar.half * (2 * units b) :=
          Nat.mul_le_mul_left _ hunits
      _ = units b * (2 * units Scalar.half) := by ring
      _ = units b * unitsOfOne := by rw [units_half]

/-- The sum is infinite if it is too large, and so is its half. -/
theorem half_add_of_not_isFinite (hx : 0 ≤ x) (hy : 0 ≤ y) (hfx : Scalar.isFinite x = true)
    (hfy : Scalar.isFinite y = true) (hsum : Scalar.isFinite (x + y) = false) :
    0 ≤ Scalar.half * (x + y) ∧ Scalar.isFinite (Scalar.half * (x + y)) = false := by
  have hnonneg := (nearest_add hx hy hfx hfy).nonneg
  refine ⟨(mul_le_of_le_one (by decide) (by decide) hnonneg).1, ?_⟩
  rw [← Bool.not_eq_true]
  intro hfinite
  rw [isFinite_right_of_mul (by decide) hnonneg hfinite] at hsum
  cases hsum

/-! ## Signs of products and quotients -/

theorem nonneg_of_unsigned {u : UnpackedFloat} (hu : Unsigned u) (hne : u ≠ .notANumber)
    (hx : unpacked x = UnpackedFloat.unpack .binary64 (UnpackedFloat.pack .binary64 u)) :
    0 ≤ x := by
  obtain ⟨exponent, mantissa, hpack⟩ := hu.pack
  refine (le_iff_not_lt 0 x).mpr ⟨?_, rfl, ?_⟩
  · rw [lt_iff, hx, hpack]
    exact not_compare_packComponents_lt exponent mantissa
  · rw [← Bool.not_eq_true, isNaN_iff, hx]
    exact unpack_pack_ne_notANumber hne

/-- The quotient of a finite double that is not negative and a positive one is not negative. -/
theorem div_nonneg_of_pos (hx : 0 ≤ x) (hfx : Scalar.isFinite x = true) (hy : 0 < y) :
    0 ≤ x / y := by
  have hquotient := unpacked_div x y
  rcases unpacked_of_nonneg_of_isFinite hx hfx with ⟨sign, hu⟩ | ⟨m, e, hm, hu⟩
  · have hzero : ∃ sign', unpacked (x / y) = .zero sign' := by
      rcases unpacked_of_pos hy with hv | ⟨m', e', hm', hv⟩ <;>
        (rw [hu, hv] at hquotient; exact ⟨_, hquotient.trans (unpack_pack_zero _)⟩)
    exact (nonneg_iff _).mpr (.inl hzero)
  · have hdiv : Unsigned (UnpackedFloat.div .binary64 (unpacked x) (unpacked y)) ∧
        UnpackedFloat.div .binary64 (unpacked x) (unpacked y) ≠ .notANumber := by
      rcases unpacked_of_pos hy with hv | ⟨m', e', hm', hv⟩ <;> rw [hu, hv]
      · exact ⟨.zero, nofun⟩
      · exact ⟨unsigned_roundWithAccuracy _ _ _, roundWithAccuracy_ne_notANumber _ _ _ _ _⟩
    exact nonneg_of_unsigned hdiv.1 hdiv.2 hquotient

theorem unpacked_notANumber_div (y : Float) (hx : unpacked x = .notANumber) :
    unpacked (x / y) = .notANumber := by
  have hdiv : UnpackedFloat.div .binary64 .notANumber (unpacked y) = .notANumber := by
    cases unpacked y <;> rfl
  rw [unpacked_div, hx, hdiv, unpack_pack_notANumber]

theorem div_nonneg_or_isNaN (hx : 0 ≤ x) (hy : 0 < y) :
    0 ≤ x / y ∨ unpacked (x / y) = .notANumber := by
  cases hfx : Scalar.isFinite x with
  | true => exact .inl (div_nonneg_of_pos hx hfx hy)
  | false =>
    have hquotient := unpacked_div x y
    rw [unpacked_of_nonneg_of_not_isFinite hx hfx] at hquotient
    rcases unpacked_of_pos hy with hv | ⟨m, e, hm, hv⟩ <;> rw [hv] at hquotient
    · exact .inr (hquotient.trans unpack_pack_notANumber)
    · exact .inl ((nonneg_iff _).mpr (.inr (.inr (hquotient.trans (unpack_pack_infinity _)))))

theorem mul_mul_div_nonneg_or_isNaN {k c : Float} (hk : 0 ≤ k) (hx : 0 ≤ x) (hc : 0 < c) :
    0 ≤ k * x * x / c ∨ unpacked (k * x * x / c) = .notANumber := by
  rcases mul_nonneg_or_isNaN hk hx with hproduct | hnan
  · rcases mul_nonneg_or_isNaN hproduct hx with hsquare | hnan
    · exact div_nonneg_or_isNaN hsquare hc
    · exact .inr (unpacked_notANumber_div c hnan)
  · have hsquare : unpacked (k * x * x) = .notANumber :=
      mul_commute x (k * x) ▸ unpacked_mul_notANumber x hnan
    exact .inr (unpacked_notANumber_div c hsquare)

theorem unpacked_sub_notANumber (x : Float) (hy : unpacked y = .notANumber) :
    unpacked (x - y) = .notANumber := by
  have hsub : unpacked (x - y) = UnpackedFloat.unpack .binary64 (UnpackedFloat.pack .binary64
      (UnpackedFloat.sub .binary64 (unpacked x) (unpacked y))) := rfl
  have hnan : UnpackedFloat.sub .binary64 (unpacked x) .notANumber = .notANumber := by
    cases unpacked x <;> rfl
  rw [hsub, hy, hnan, unpack_pack_notANumber]

/-- The product of two negative doubles is not negative. -/
theorem mul_nonneg_of_neg (hx : x < 0) (hy : y < 0) : 0 ≤ x * y := by
  have hmul : Unsigned (UnpackedFloat.mul .binary64 (unpacked x) (unpacked y)) ∧
      UnpackedFloat.mul .binary64 (unpacked x) (unpacked y) ≠ .notANumber := by
    rcases unpacked_of_neg hx with hu | ⟨m, e, hm, hu⟩ <;>
      rcases unpacked_of_neg hy with hv | ⟨m', e', hm', hv⟩ <;> rw [hu, hv]
    · exact ⟨.infinity, nofun⟩
    · exact ⟨.infinity, nofun⟩
    · exact ⟨.infinity, nofun⟩
    · exact ⟨unsigned_roundWithAccuracy _ _ _, roundWithAccuracy_ne_notANumber _ _ _ _ _⟩
  exact nonneg_of_unsigned hmul.1 hmul.2 (unpacked_mul x y)

/-- A product of doubles that are not negative is not negative if it is finite, and neither are
those that lead to it. -/
theorem mul_mul_nonneg {k first : Float} (hk : 0 ≤ k) (hx : 0 ≤ x) (hle : x ≤ first)
    (hfinite : Scalar.isFinite (k * first * first) = true) :
    0 ≤ k * x * x ∧ Scalar.isFinite (k * x * x) = true := by
  have hfirst := le_trans hx hle
  have hproduct : Scalar.isFinite (k * first) = true := by
    rcases mul_nonneg_or_isNaN hk hfirst with hnonneg | hnan
    · exact isFinite_left_of_mul hnonneg hfirst hfinite
    · rw [isFinite_eq, mul_commute, unpacked_mul_notANumber first hnan] at hfinite
      cases hfinite
  obtain ⟨hnonneg, hsmall, -⟩ := mul_le_mul hk (le_refl_of_nonneg hk) hx hle hproduct
  obtain ⟨hnonneg', -, hfinite'⟩ := mul_le_mul hnonneg hsmall hx hle hfinite
  exact ⟨hnonneg', hfinite'⟩

end VariableMetric.Double
