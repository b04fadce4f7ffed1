import VariableMetric.Proofs.Double.Bits

/-!
# Doubles beyond all numbers

A sum or a product that is too large is infinite, and one without a meaning is no number.
Both show in what is computed from them later: a bound that is computed from a length which
is not finite is infinite itself, or no number.  So such a bound is kept by everything that
is a number, or by nothing at all.
-/

namespace VariableMetric.Double

open Float.Model Float.Model.UnpackedFloat

/-! ## Packing -/

theorem unpack_pack_notANumber :
    UnpackedFloat.unpack .binary64 (UnpackedFloat.pack .binary64 .notANumber) = .notANumber :=
  rfl

theorem unpack_pack_zero (sign : Sign) :
    UnpackedFloat.unpack .binary64 (UnpackedFloat.pack .binary64 (.zero sign)) = .zero sign := by
  cases sign <;> rfl

theorem unpack_pack_infinity (sign : Sign) :
    UnpackedFloat.unpack .binary64 (UnpackedFloat.pack .binary64 (.infinity sign)) =
      .infinity sign := by
  cases sign <;> rfl

/-- What is put together with a positive sign is not negative. -/
theorem exists_kind_packComponents (exponent : BitVec 11) (mantissa : BitVec 52) :
    ∃ bits, Kind false bits
      (UnpackedFloat.unpack .binary64 (packComponents .binary64 .positive exponent mantissa)) := by
  have hexponent := exponent.isLt
  have hmantissa := mantissa.isLt
  have hbits : (packComponents .binary64 .positive exponent mantissa).toNat =
      exponent.toNat * 2 ^ 52 + mantissa.toNat := toNat_packComponents false exponent mantissa
  have hpositive : decide (2 ^ 63 ≤
      (packComponents .binary64 .positive exponent mantissa).toNat) = false :=
    decide_eq_false (by omega)
  have hkind := kind_unpack (packComponents .binary64 .positive exponent mantissa)
  rw [hpositive] at hkind
  exact ⟨_, hkind⟩

/-- And so it lies above negative infinity. -/
theorem unpack_packComponents_ne (exponent : BitVec 11) (mantissa : BitVec 52) :
    UnpackedFloat.unpack .binary64 (packComponents .binary64 .positive exponent mantissa) ≠
      .infinity .negative := by
  obtain ⟨bits, hkind⟩ := exists_kind_packComponents exponent mantissa
  intro heq
  rw [heq] at hkind
  generalize hsign : Sign.negative = sign at hkind
  cases hkind
  cases hsign

/-- What is put together without the largest exponent is a number. -/
theorem unpack_packComponents_ne_notANumber (sign : Sign) {exponent : BitVec 11}
    (h : exponent ≠ -1#11) (mantissa : BitVec 52) :
    UnpackedFloat.unpack .binary64 (packComponents .binary64 sign exponent mantissa) ≠
      .notANumber := by
  have hexponent : unpackExponent (packComponents .binary64 sign exponent mantissa) ≠ -1#11 := by
    rw [unpackExponent_packComponents]
    exact h
  unfold UnpackedFloat.unpack
  dsimp only
  rw [if_neg hexponent]
  split
  · split <;> exact nofun
  · exact nofun

/-- Rounding keeps numbers apart from what is none. -/
theorem unpack_pack_ne_notANumber {u : UnpackedFloat} (hu : u ≠ .notANumber) :
    UnpackedFloat.unpack .binary64 (UnpackedFloat.pack .binary64 u) ≠ .notANumber := by
  cases u with
  | notANumber => exact absurd rfl hu
  | zero sign =>
    rw [unpack_pack_zero]
    exact nofun
  | infinity sign =>
    rw [unpack_pack_infinity]
    exact nofun
  | finite sign m e h =>
    have hinfinity : UnpackedFloat.unpack .binary64 (packedInfinity .binary64 sign) ≠
        .notANumber := by
      rw [show packedInfinity .binary64 sign = UnpackedFloat.pack .binary64 (.infinity sign) from
        rfl, unpack_pack_infinity]
      exact nofun
    unfold UnpackedFloat.pack
    dsimp only
    split
    · exact hinfinity
    next hbelow =>
      split
      · refine unpack_packComponents_ne_notANumber sign (fun heq => ?_) _
        have hfield := congrArg BitVec.toNat heq
        have hones : (-1#11 : BitVec 11).toNat = 2047 := rfl
        rw [BitVec.toNat_ofNat, hones] at hfield
        omega
      · have hleast : (0#11 : BitVec 11) ≠ -1#11 := by decide
        exact unpack_packComponents_ne_notANumber sign hleast _

theorem roundWithAccuracy_eq (spec : Format) (sign : Sign) (m : ℕ) (e : ℤ)
    (accuracy : Accuracy) :
    roundWithAccuracy spec sign m e accuracy = .zero sign ∨
      ∃ m' e' h, roundWithAccuracy spec sign m e accuracy = .finite sign m' e' h := by
  unfold roundWithAccuracy
  dsimp only
  split
  next => exact .inl rfl
  next h => exact .inr ⟨_, _, Nat.pos_of_ne_zero h, rfl⟩

theorem roundWithAccuracy_ne_notANumber (spec : Format) (sign : Sign) (m : ℕ) (e : ℤ)
    (accuracy : Accuracy) : roundWithAccuracy spec sign m e accuracy ≠ .notANumber := by
  rcases roundWithAccuracy_eq spec sign m e accuracy with heq | ⟨_, _, _, heq⟩ <;>
    (rw [heq]; exact nofun)

/-! ## Roots -/

theorem unpack_pack_root_ne {u : UnpackedFloat}
    (h : u = .zero .positive ∨ ∃ m e h, u = .finite .positive m e h) :
    UnpackedFloat.unpack .binary64 (UnpackedFloat.pack .binary64 u) ≠ .infinity .negative := by
  rcases h with rfl | ⟨m, e, hpos, rfl⟩
  · exact unpack_packComponents_ne _ _
  · unfold UnpackedFloat.pack
    dsimp only
    split
    · exact unpack_packComponents_ne _ _
    · split
      · exact unpack_packComponents_ne _ _
      · exact unpack_packComponents_ne _ _

theorem unpacked_sqrt_ne (x : Float) : unpacked x.sqrt ≠ .infinity .negative := by
  have hsqrt : unpacked x.sqrt = UnpackedFloat.unpack .binary64
      (UnpackedFloat.pack .binary64 (UnpackedFloat.sqrt .binary64 (unpacked x))) := rfl
  rw [hsqrt]
  cases unpacked x with
  | notANumber =>
    rw [UnpackedFloat.sqrt, unpack_pack_notANumber]
    exact nofun
  | infinity sign =>
    cases sign with
    | positive =>
      rw [UnpackedFloat.sqrt, unpack_pack_infinity]
      exact nofun
    | negative =>
      rw [UnpackedFloat.sqrt, unpack_pack_notANumber]
      exact nofun
  | zero sign =>
    rw [UnpackedFloat.sqrt, unpack_pack_zero]
    exact nofun
  | finite sign m e hpos =>
    cases sign with
    | positive => exact unpack_pack_root_ne (roundWithAccuracy_eq _ _ _ _ _)
    | negative =>
      rw [UnpackedFloat.sqrt, unpack_pack_notANumber]
      exact nofun

/-! ## Sums and products -/

theorem unpacked_add (x y : Float) : unpacked (x + y) = UnpackedFloat.unpack .binary64
    (UnpackedFloat.pack .binary64 (UnpackedFloat.add .binary64 (unpacked x) (unpacked y))) :=
  rfl

theorem unpacked_mul (x y : Float) : unpacked (x * y) = UnpackedFloat.unpack .binary64
    (UnpackedFloat.pack .binary64 (UnpackedFloat.mul .binary64 (unpacked x) (unpacked y))) :=
  rfl

theorem isFinite_eq (x : Float) : Scalar.isFinite x = (unpacked x).isFinite := rfl

theorem isNaN_of_isFinite {x : Float} (h : Scalar.isFinite x = true) :
    Scalar.isNaN x = false := by
  rw [← Bool.not_eq_true, isNaN_iff]
  intro hnan
  rw [isFinite_eq, hnan] at h
  cases h

/-- A length is no number, infinite, or finite: no root lies at negative infinity. -/
theorem unpacked_of_not_isFinite {x : Float} (hx : Scalar.isFinite x = false)
    (hne : unpacked x ≠ .infinity .negative) :
    unpacked x = .notANumber ∨ unpacked x = .infinity .positive := by
  rw [isFinite_eq] at hx
  cases hu : unpacked x with
  | notANumber => exact .inl rfl
  | infinity sign =>
    cases sign with
    | positive => exact .inr rfl
    | negative => exact absurd hu hne
  | _ =>
    rw [hu] at hx
    cases hx

theorem unpacked_of_isFinite {x : Float} (hx : Scalar.isFinite x = true) :
    (∃ sign, unpacked x = .zero sign) ∨ ∃ sign m e h, unpacked x = .finite sign m e h := by
  rw [isFinite_eq] at hx
  cases hu : unpacked x with
  | zero sign => exact .inl ⟨sign, rfl⟩
  | finite sign m e h => exact .inr ⟨sign, m, e, h, rfl⟩
  | _ =>
    rw [hu] at hx
    cases hx

/-- Of what is finite and not negative, a multiple of infinity is infinite, or no number. -/
theorem unpacked_mul_infinite {a x : Float} (ha : Scalar.isFinite a = true) (hneg : ¬ a < 0)
    (hx : unpacked x = .infinity .positive) :
    unpacked (a * x) = .notANumber ∨ unpacked (a * x) = .infinity .positive := by
  rw [lt_iff] at hneg
  rw [unpacked_mul, hx]
  rcases unpacked_of_isFinite ha with ⟨sign, hzero⟩ | ⟨sign, m, e, h, hfinite⟩
  · rw [hzero]
    exact .inl unpack_pack_notANumber
  · rw [hfinite] at hneg ⊢
    cases sign with
    | positive => exact .inr (unpack_pack_infinity _)
    | negative => exact absurd rfl hneg

theorem unpacked_mul_notANumber (a : Float) {x : Float} (hx : unpacked x = .notANumber) :
    unpacked (a * x) = .notANumber := by
  have hmul : UnpackedFloat.mul .binary64 (unpacked a) .notANumber = .notANumber := by
    cases unpacked a <;> rfl
  rw [unpacked_mul, hx, hmul, unpack_pack_notANumber]

theorem unpacked_add_notANumber (a : Float) {x : Float} (hx : unpacked x = .notANumber) :
    unpacked (a + x) = .notANumber := by
  have hadd : UnpackedFloat.add .binary64 (unpacked a) .notANumber = .notANumber := by
    cases unpacked a <;> rfl
  rw [unpacked_add, hx, hadd, unpack_pack_notANumber]

theorem unpacked_add_infinite {a x : Float} (ha : Scalar.isFinite a = true)
    (hx : unpacked x = .infinity .positive) : unpacked (a + x) = .infinity .positive := by
  rw [unpacked_add, hx]
  rcases unpacked_of_isFinite ha with ⟨sign, hzero⟩ | ⟨sign, m, e, h, hfinite⟩
  · rw [hzero]
    exact unpack_pack_infinity _
  · rw [hfinite]
    exact unpack_pack_infinity _

/-! ## Bounds -/

theorem not_le_of_unpacked_eq {x b : Float} (hb : unpacked b = .notANumber) : ¬ x ≤ b := by
  rw [le_iff, hb]
  cases unpacked x with
  | infinity sign => cases sign <;> exact nofun
  | finite sign => cases sign <;> exact nofun
  | _ => exact nofun

theorem le_of_unpacked_eq {x b : Float} (hx : unpacked x ≠ .notANumber)
    (hb : unpacked b = .infinity .positive) : x ≤ b := by
  rw [le_iff, hb]
  cases hu : unpacked x with
  | notANumber => exact absurd hu hx
  | infinity sign => cases sign <;> rfl
  | finite sign => cases sign <;> rfl
  | zero sign => rfl

theorem unpacked_eq_of_infinite_le {x b : Float} (hx : unpacked x = .infinity .positive)
    (h : x ≤ b) : unpacked b = .infinity .positive := by
  rw [le_iff, hx] at h
  cases hu : unpacked b with
  | infinity sign =>
    cases sign with
    | positive => rfl
    | negative => rw [hu] at h; cases h
  | _ => rw [hu] at h; cases h

variable {a b first length : Float}

/-- A bound that is computed from a length that is not finite is kept by that length, or by
nothing. -/
theorem le_bound_of_not_isFinite (ha : Scalar.isFinite a = true) (hb : Scalar.isFinite b = true)
    (hneg : ¬ b < 0) (hne : unpacked first ≠ .infinity .negative)
    (hfirst : Scalar.isFinite first = false) (hkept : length ≤ a + b * first) :
    first ≤ a + b * first := by
  rcases unpacked_of_not_isFinite hfirst hne with hnan | hinf
  · have hbound := unpacked_add_notANumber a (unpacked_mul_notANumber b hnan)
    exact absurd hkept (not_le_of_unpacked_eq hbound)
  · rcases unpacked_mul_infinite hb hneg hinf with hnan | hlarge
    · exact absurd hkept (not_le_of_unpacked_eq (unpacked_add_notANumber a hnan))
    · refine le_of_unpacked_eq ?_ (unpacked_add_infinite ha hlarge)
      rw [hinf]
      exact nofun

/-- If a bound is kept by one length but not by the one that it is computed from, both are
finite. -/
theorem isFinite_of_le_bound (ha : Scalar.isFinite a = true) (hb : Scalar.isFinite b = true)
    (hneg : ¬ b < 0) (hne : unpacked first ≠ .infinity .negative)
    (hne' : unpacked length ≠ .infinity .negative) (habove : ¬ first ≤ a + b * first)
    (hkept : length ≤ a + b * first) :
    Scalar.isFinite first = true ∧ Scalar.isFinite length = true := by
  have hfirst : Scalar.isFinite first = true := by
    by_contra hinfinite
    rw [Bool.not_eq_true] at hinfinite
    exact habove (le_bound_of_not_isFinite ha hb hneg hne hinfinite hkept)
  refine ⟨hfirst, ?_⟩
  by_contra hinfinite
  rw [Bool.not_eq_true] at hinfinite
  rcases unpacked_of_not_isFinite hinfinite hne' with hnan | hinf
  · exact OrderedScalar.not_le_of_isNaN _ ((isNaN_iff length).mpr hnan) hkept
  · -- Nothing that is a number lies above an infinite bound.
    refine habove (le_of_unpacked_eq ?_ (unpacked_eq_of_infinite_le hinf hkept))
    intro hnan
    rw [isFinite_eq, hnan] at hfirst
    cases hfirst

end VariableMetric.Double
