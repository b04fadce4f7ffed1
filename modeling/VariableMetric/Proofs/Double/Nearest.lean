import VariableMetric.Proofs.Double.Arithmetic
import VariableMetric.Proofs.Double.Rounding

/-!
# Rounded sums and products

The exact product of two doubles is a whole number of units of a unit, and so is their sum.
What an operation gives is that number rounded to 53 digits, or infinity if it is too large.
Rounding keeps the order, so sums and products of doubles that are not negative grow with their
operands.
-/

namespace VariableMetric.Double

open Float.Model Float.Model.UnpackedFloat

/-! ## Rounding a significand -/

theorem double_mod {r d : ℕ} (h : r < d) : 2 * r % d = if d ≤ 2 * r then 2 * r - d else 2 * r := by
  split
  next hle =>
    rw [Nat.mod_eq_sub_mod hle]
    exact Nat.mod_eq_of_lt (by omega)
  next hlt => exact Nat.mod_eq_of_lt (not_le.mp hlt)

/-- The digits that are shifted out are told apart only as far as rounding needs them. -/
theorem shiftRight_eq (m k : ℕ) :
    (⟨m, false, false⟩ : ExtendedMantissa) >>> k =
      ⟨m / 2 ^ k, decide (2 ^ k ≤ 2 * (m % 2 ^ k)), decide (2 * (m % 2 ^ k) % 2 ^ k ≠ 0)⟩ := by
  induction k with
  | zero =>
    have hwhole : m % 2 ^ 0 = 0 := by rw [pow_zero, Nat.mod_one]
    rw [hwhole, pow_zero, Nat.div_one]
    rfl
  | succ k ih =>
    have hstep : (⟨m, false, false⟩ : ExtendedMantissa) >>> (k + 1) =
        ((⟨m, false, false⟩ : ExtendedMantissa) >>> k).shiftRightOne := rfl
    have hrest := Nat.mod_lt m (Nat.two_pow_pos k)
    have hsplit : m % 2 ^ (k + 1) = m % 2 ^ k + 2 ^ k * (m / 2 ^ k % 2) := Nat.mod_pow_succ
    have hbit := Nat.mod_two_eq_zero_or_one (m / 2 ^ k)
    have hwhole : m / 2 ^ k / 2 = m / 2 ^ (k + 1) := by rw [Nat.div_div_eq_div_mul, ← Nat.pow_succ]
    have hlater : 2 * (m % 2 ^ (k + 1)) % 2 ^ (k + 1) = 2 * (m % 2 ^ k) := by
      rw [Nat.pow_succ', Nat.mul_mod_mul_left, ← Nat.pow_succ', Nat.mod_pow_succ,
        Nat.add_mul_mod_self_left, Nat.mod_mod]
    rw [hstep, ih, ExtendedMantissa.shiftRightOne, hwhole, hlater, hsplit, Nat.pow_succ',
      double_mod hrest]
    have hround (r d : ℕ) (hr : r < d) {b : ℕ} (hb : b = 0 ∨ b = 1) :
        (b != 0) = decide (2 * d ≤ 2 * (r + d * b)) := by
      rcases hb with rfl | rfl
      · exact (decide_eq_false (by omega)).symm
      · exact (decide_eq_true (by omega)).symm
    have hsticky (r : ℕ) {d : ℕ} (hd : 0 < d) : (decide (d ≤ 2 * r) ||
        decide ((if d ≤ 2 * r then 2 * r - d else 2 * r) ≠ 0)) = decide (2 * r ≠ 0) := by
      by_cases hle : d ≤ 2 * r
      · rw [decide_eq_true hle, Bool.true_or, decide_eq_true (by omega)]
      · rw [decide_eq_false hle, if_neg hle, Bool.false_or]
    rw [← hround _ _ hrest hbit, ← hsticky _ (Nat.two_pow_pos k)]

theorem roundedMantissa_shiftRight (m k : ℕ) :
    ((⟨m, false, false⟩ : ExtendedMantissa) >>> k).roundedMantissa = roundHalfEven m (2 ^ k) := by
  have hrest := Nat.mod_lt m (Nat.two_pow_pos k)
  rw [shiftRight_eq, double_mod hrest]
  simp only [roundHalfEven, ExtendedMantissa.roundedMantissa]
  generalize m % 2 ^ k = r at *
  generalize m / 2 ^ k = q at *
  generalize 2 ^ k = d at *
  rcases lt_trichotomy (2 * r) d with hbelow | hhalf | habove
  · rw [if_pos hbelow, if_neg hbelow.not_ge, decide_eq_false hbelow.not_ge]
    by_cases hzero : 2 * r ≠ 0
    · rw [decide_eq_true hzero]
      rfl
    · rw [decide_eq_false hzero]
      rfl
  · rw [if_neg hhalf.not_lt, if_neg hhalf.not_gt, if_pos hhalf.ge, decide_eq_true hhalf.ge,
      decide_eq_false (by omega)]
    rfl
  · rw [if_neg habove.not_gt, if_pos habove, if_pos habove.le, decide_eq_true habove.le,
      decide_eq_true (by omega)]
    rfl

theorem roundHalfEven_mul (n d : ℕ) {c : ℕ} (hc : 0 < c) :
    roundHalfEven (n * c) (d * c) = roundHalfEven n d := by
  have hlt (a b : ℕ) : a * c < b * c ↔ a < b := Nat.mul_lt_mul_right hc
  simp only [roundHalfEven, Nat.mul_div_mul_right n d hc, Nat.mul_mod_mul_right, ← mul_assoc, hlt]

/-- Whole multiples need no rounding. -/
theorem roundHalfEven_self (n : ℕ) {d : ℕ} (hd : 0 < d) : roundHalfEven (n * d) d = n :=
  (roundHalfEven_le hd le_rfl).antisymm (le_roundHalfEven hd le_rfl)

/-- The exponent of the last of 53 digits, or the least exponent. -/
def lastPlace (m : ℕ) (e : ℤ) : ℤ := max ((m.log2 : ℤ) + e - 52) (-1074)

theorem targetExponent_totalExponent (m : ℕ) (e : ℤ) :
    Format.binary64.targetExponent (totalExponent m e) = lastPlace m e := by
  rw [targetExponent_binary64, totalExponent, lastPlace]
  congr 1
  ring

theorem shiftToTargetExponent_exact (m : ℕ) (e : ℤ) :
    shiftToTargetExponent .binary64 m e .exact =
      ((⟨m, false, false⟩ : ExtendedMantissa) >>> (lastPlace m e - e).toNat,
        e + (lastPlace m e - e).toNat) := by
  rw [shiftToTargetExponent, targetExponent_totalExponent, shiftToExponent]
  rfl

/-- A significand of 53 digits is not shifted any more. -/
theorem shiftToTargetExponent_cut {q : ℕ} {e : ℤ} (hq : q < 2 ^ 53) (he : -1074 ≤ e) :
    shiftToTargetExponent .binary64 q e .exact = (⟨q, false, false⟩, e) := by
  have hlog : q.log2 ≤ 52 := by
    by_cases hzero : q = 0
    · rw [hzero]
      decide
    · exact Nat.le_of_lt_succ ((Nat.log2_lt hzero).mpr hq)
  have hamount : (lastPlace q e - e).toNat = 0 := by
    rw [lastPlace]
    omega
  rw [shiftToTargetExponent_exact, hamount, Nat.cast_zero, add_zero]
  rfl

/-- After a carry one more digit is dropped, which is zero. -/
theorem shiftToTargetExponent_carried {e : ℤ} (he : -1074 ≤ e) :
    shiftToTargetExponent .binary64 (2 ^ 53) e .exact = (⟨2 ^ 52, false, false⟩, e + 1) := by
  have hamount : (lastPlace (2 ^ 53) e - e).toNat = 1 := by
    rw [lastPlace, Nat.log2_two_pow]
    omega
  rw [shiftToTargetExponent_exact, hamount]
  rfl

/-- A significand and an exponent of the form that doubles have, however large. -/
structure Normal (m : ℕ) (e : ℤ) : Prop where
  pos : 0 < m
  lt : m < 2 ^ 53
  least : -1074 ≤ e
  normal : e = -1074 ∨ 2 ^ 52 ≤ m

theorem Normal.canonical {m : ℕ} {e : ℤ} (h : Normal m e) (hmost : e ≤ 971) : Canonical m e :=
  ⟨h.pos, h.lt, h.least, hmost, h.normal⟩

theorem Canonical.isNormal {m : ℕ} {e : ℤ} (h : Canonical m e) : Normal m e :=
  ⟨h.pos, h.lt, h.least, h.normal⟩

/-- The digits that are left when a significand is rounded at an exponent. -/
def digitsAt (m : ℕ) (e place : ℤ) : ℕ := roundHalfEven m (2 ^ (place - e).toNat)

theorem digitsAt_lastPlace_mem {m : ℕ} {e : ℤ} (hm : 0 < m) (hplace : e ≤ lastPlace m e) :
    digitsAt m e (lastPlace m e) ≤ 2 ^ 53 ∧
      (lastPlace m e = -1074 ∨ 2 ^ 52 ≤ digitsAt m e (lastPlace m e)) := by
  obtain ⟨k, hk⟩ : ∃ k, (lastPlace m e - e).toNat = k := ⟨_, rfl⟩
  rw [digitsAt, hk]
  rw [lastPlace] at hk hplace ⊢
  constructor
  · refine roundHalfEven_le (Nat.two_pow_pos k) ?_
    rw [← pow_add]
    exact (Nat.lt_log2_self.trans_le (Nat.pow_le_pow_right Nat.two_pos (by omega))).le
  · by_cases hleast : max ((m.log2 : ℤ) + e - 52) (-1074) = -1074
    · exact .inl hleast
    · right
      refine le_roundHalfEven (Nat.two_pow_pos k) ?_
      rw [← pow_add]
      exact (Nat.pow_le_pow_right Nat.two_pos (by omega)).trans (Nat.log2_self_le hm.ne')

/-- A number in units of a unit: the products of two units are its units. -/
def fine (m : ℕ) (e : ℤ) : ℕ := m * 2 ^ (e + 2148).toNat

/-- A number of units of a unit rounded to 53 digits, but to whole units at least. -/
def rounded (n : ℕ) : ℕ := roundDigits 52 1074 n

theorem fine_digitsAt {m : ℕ} {e : ℤ} (hm : 0 < m) (he : -2148 ≤ e) (hplace : e ≤ lastPlace m e) :
    fine (digitsAt m e (lastPlace m e)) (lastPlace m e) = rounded (fine m e) := by
  have hlog := log2_mul_two_pow (e + 2148).toNat hm
  have hlast : max ((fine m e).log2 - 52) 1074 = (lastPlace m e + 2148).toNat := by
    rw [fine, hlog, lastPlace]
    omega
  have hsplit : (lastPlace m e + 2148).toNat = (lastPlace m e - e).toNat + (e + 2148).toNat := by
    omega
  rw [rounded, roundDigits, hlast, fine, digitsAt]
  congr 1
  rw [fine, hsplit, pow_add, roundHalfEven_mul _ _ (Nat.two_pow_pos _)]

/-- Rounding shifts twice, the second time for a carry. -/
theorem roundWithAccuracy_eq_dite (sign : Sign) {m q m' : ℕ} {e place e' : ℤ}
    {em : ExtendedMantissa} (hfirst : shiftToTargetExponent .binary64 m e .exact = (em, place))
    (hdigits : em.roundedMantissa = q)
    (hsecond : shiftToTargetExponent .binary64 q place .exact = (⟨m', false, false⟩, e')) :
    roundWithAccuracy .binary64 sign m e .exact =
      if h : m' = 0 then .zero sign else .finite sign m' e' (Nat.pos_of_ne_zero h) := by
  simp only [roundWithAccuracy, hfirst, hdigits, hsecond]

/-- A significand is rounded to nothing, or to a significand of 53 digits. -/
theorem roundWithAccuracy_cases (sign : Sign) {m : ℕ} {e : ℤ} (hm : 0 < m) (he : -2148 ≤ e)
    (hplace : e ≤ lastPlace m e) :
    (rounded (fine m e) = 0 ∧ roundWithAccuracy .binary64 sign m e .exact = .zero sign) ∨
    ∃ (m' : ℕ) (e' : ℤ) (h : Normal m' e'), rounded (fine m e) = fine m' e' ∧
      roundWithAccuracy .binary64 sign m e .exact = .finite sign m' e' h.pos := by
  have hleast : -1074 ≤ lastPlace m e := le_max_right _ _
  have hfine := fine_digitsAt hm he hplace
  obtain ⟨hmost, hnormal⟩ := digitsAt_lastPlace_mem hm hplace
  have hfirst : shiftToTargetExponent .binary64 m e .exact =
      ((⟨m, false, false⟩ : ExtendedMantissa) >>> (lastPlace m e - e).toNat, lastPlace m e) := by
    rw [shiftToTargetExponent_exact, Int.toNat_of_nonneg (sub_nonneg.mpr hplace),
      add_sub_cancel]
  have hdigits : ((⟨m, false, false⟩ : ExtendedMantissa) >>>
      (lastPlace m e - e).toNat).roundedMantissa = digitsAt m e (lastPlace m e) :=
    roundedMantissa_shiftRight m _
  generalize lastPlace m e = place at *
  generalize digitsAt m e place = q at *
  rw [← hfine]
  rcases hmost.lt_or_eq with hcut | rfl
  · have hround := roundWithAccuracy_eq_dite sign hfirst hdigits
      (shiftToTargetExponent_cut hcut hleast)
    rcases Nat.eq_zero_or_pos q with rfl | hpos
    · exact .inl ⟨Nat.zero_mul _, hround⟩
    · exact .inr ⟨q, place, ⟨hpos, hcut, hleast, hnormal⟩, rfl, hround.trans (dif_neg hpos.ne')⟩
  · right
    have hcarried : fine (2 ^ 53) place = fine (2 ^ 52) (place + 1) := by
      have hplace' : (place + 1 + 2148).toNat = (place + 2148).toNat + 1 := by omega
      rw [fine, fine, hplace', pow_succ, pow_succ]
      ring
    exact ⟨2 ^ 52, place + 1, ⟨by decide, by decide, by omega, .inr le_rfl⟩, hcarried,
      roundWithAccuracy_eq_dite sign hfirst hdigits (shiftToTargetExponent_carried hleast)⟩

/-! ## Units -/

/-- Units of a unit that are too many for a double. -/
def fineLimit : ℕ := 2 ^ (1024 + 2148)

/-- The number of units in one. -/
def unitsOfOne : ℕ := 2 ^ 1074

-- The exponents are kept as variables, so that the powers are never computed.
theorem unitsOfOne_eq {k : ℕ} (hk : 1074 = k) : unitsOfOne = 2 ^ k := by
  unfold unitsOfOne
  rw [hk]

theorem fineLimit_eq {k : ℕ} (hk : 1024 + 2148 = k) : fineLimit = 2 ^ k := by
  unfold fineLimit
  rw [hk]

theorem unitsOfOne_pos : 0 < unitsOfOne := by
  obtain ⟨k, hk⟩ : ∃ k, 1074 = k := ⟨_, rfl⟩
  rw [unitsOfOne_eq hk]
  exact Nat.two_pow_pos k

theorem Normal.fine_lt_iff {m : ℕ} {e : ℤ} (h : Normal m e) : fine m e < fineLimit ↔ e ≤ 971 := by
  have hleast := h.least
  obtain ⟨k, hk⟩ : ∃ k, 1024 + 2148 = k := ⟨_, rfl⟩
  rw [fineLimit_eq hk, fine]
  constructor
  · intro hlt
    by_contra hlarge
    rw [not_le] at hlarge
    have hlead := h.normal.resolve_left (by omega)
    refine hlt.not_ge ?_
    calc 2 ^ k ≤ 2 ^ (52 + (e + 2148).toNat) := Nat.pow_le_pow_right Nat.two_pos (by omega)
      _ = 2 ^ 52 * 2 ^ (e + 2148).toNat := pow_add 2 52 _
      _ ≤ m * 2 ^ (e + 2148).toNat := Nat.mul_le_mul_right _ hlead
  · intro hmost
    calc m * 2 ^ (e + 2148).toNat < 2 ^ 53 * 2 ^ (e + 2148).toNat :=
          Nat.mul_lt_mul_of_pos_right h.lt (Nat.two_pow_pos _)
      _ = 2 ^ (53 + (e + 2148).toNat) := (pow_add 2 53 _).symm
      _ ≤ 2 ^ k := Nat.pow_le_pow_right Nat.two_pos (by omega)

theorem fine_eq (m : ℕ) {e : ℤ} (he : -1074 ≤ e) :
    fine m e = m * 2 ^ (e + 1074).toNat * unitsOfOne := by
  obtain ⟨k, hk⟩ : ∃ k, 1074 = k := ⟨_, rfl⟩
  have hsplit : (e + 2148).toNat = (e + 1074).toNat + k := by omega
  rw [fine, hsplit, pow_add, ← mul_assoc, unitsOfOne_eq hk]

theorem rounded_zero : rounded 0 = 0 := by
  rw [rounded, roundDigits]
  generalize max ((0 : ℕ).log2 - 52) 1074 = place
  have hnothing := roundHalfEven_self 0 (Nat.two_pow_pos place)
  rw [zero_mul] at hnothing
  rw [hnothing, zero_mul]

/-- Numbers of 53 digits and whole units are rounded to themselves. -/
theorem rounded_self {m j : ℕ} (hm : m < 2 ^ 53) (hj : 1074 ≤ j) :
    rounded (m * 2 ^ j) = m * 2 ^ j := by
  rcases Nat.eq_zero_or_pos m with rfl | hpos
  · rw [zero_mul, rounded_zero]
  · have hlog : m.log2 < 53 := (Nat.log2_lt hpos.ne').mpr hm
    have hlog' := log2_mul_two_pow j hpos
    rw [rounded, roundDigits]
    generalize hplace : max ((m * 2 ^ j).log2 - 52) 1074 = place
    have hbelow : place ≤ j := by omega
    have hsplit : m * 2 ^ j = m * 2 ^ (j - place) * 2 ^ place := by
      rw [mul_assoc, ← pow_add, Nat.sub_add_cancel hbelow]
    rw [hsplit, roundHalfEven_self _ (Nat.two_pow_pos place)]

theorem Normal.rounded_fine {m : ℕ} {e : ℤ} (h : Normal m e) : rounded (fine m e) = fine m e := by
  have hleast := h.least
  exact rounded_self h.lt (by omega)

theorem rounded_mono {n n' : ℕ} (h : n ≤ n') : rounded n ≤ rounded n' := roundDigits_mono 52 1074 h

/-- A double that is finite is zero, or has a canonical significand. -/
theorem units_of_finite {x : Float} {sign : Sign} {m : ℕ} {e : ℤ} {hm : 0 < m}
    (hx : unpacked x = .finite sign m e hm) :
    Canonical m e ∧ units x = m * 2 ^ (e + 1074).toNat := by
  have hkind := unpacked_kind x
  rw [hx] at hkind
  generalize hs : UnpackedFloat.finite sign m e hm = u at hkind
  cases hkind with
  | finite m' e' hcanonical hbits =>
    cases hs
    refine ⟨hcanonical, ?_⟩
    obtain ⟨-, hlt, hleast, hmost, hnormal⟩ := hcanonical
    simp only [units, Nat.pow_eq]
    split
    next hfield =>
      have hexponent : (e + 1074).toNat = 0 := by omega
      rw [hexponent, pow_zero, mul_one]
      omega
    next hfield =>
      have hexponent : (e + 1074).toNat = magnitudeBits x / 2 ^ 52 - 1 := by omega
      have hsignificand : 2 ^ 52 + magnitudeBits x % 2 ^ 52 = m := by omega
      rw [hexponent, hsignificand]
  | _ => cases hs

theorem units_of_zero {x : Float} {sign : Sign} (hx : unpacked x = .zero sign) : units x = 0 := by
  have hkind := unpacked_kind x
  rw [hx] at hkind
  generalize hs : UnpackedFloat.zero sign = u at hkind
  cases hkind with
  | zero hbits => simp [units, hbits]
  | _ => cases hs

/-! ## Doubles that are not negative -/

theorem nonneg_iff (x : Float) : 0 ≤ x ↔ (∃ sign, unpacked x = .zero sign) ∨
    (∃ m e hm, unpacked x = .finite .positive m e hm) ∨ unpacked x = .infinity .positive := by
  have hzero : unpacked 0 = .zero .positive := rfl
  rw [le_iff, hzero]
  cases unpacked x with
  | notANumber => simp [UnpackedFloat.compare]
  | zero sign => simp [UnpackedFloat.compare]
  | infinity sign => cases sign <;> simp [UnpackedFloat.compare]
  | finite sign m e hm => cases sign <;> simp [UnpackedFloat.compare, hm]

theorem isNaN_of_nonneg {x : Float} (h : 0 ≤ x) : Scalar.isNaN x = false :=
  ((le_iff_not_lt 0 x).mp h).2.2

theorem unpacked_of_nonneg_of_isFinite {x : Float} (h : 0 ≤ x) (hx : Scalar.isFinite x = true) :
    (∃ sign, unpacked x = .zero sign) ∨ ∃ m e hm, unpacked x = .finite .positive m e hm := by
  rcases (nonneg_iff x).mp h with hzero | hfinite | hu
  · exact .inl hzero
  · exact .inr hfinite
  · rw [isFinite_eq, hu] at hx
    cases hx

theorem unpacked_of_nonneg_of_not_isFinite {x : Float} (h : 0 ≤ x)
    (hx : Scalar.isFinite x = false) : unpacked x = .infinity .positive := by
  rw [isFinite_eq] at hx
  rcases (nonneg_iff x).mp h with ⟨sign, hu⟩ | ⟨m, e, hm, hu⟩ | hu
  · rw [hu] at hx
    cases hx
  · rw [hu] at hx
    cases hx
  · exact hu

theorem place_of_nonneg {x : Float} (h : 0 ≤ x) : place x = magnitudeBits x := by
  have hkind := unpacked_kind x
  unfold place signed
  cases hnegative : isNegative x with
  | false => rfl
  | true =>
    rw [hnegative] at hkind
    rcases (nonneg_iff x).mp h with ⟨sign, hu⟩ | ⟨m, e, hm, hu⟩ | hu <;> rw [hu] at hkind
    · generalize hs : UnpackedFloat.zero sign = u at hkind
      cases hkind with
      | zero hbits => rw [hbits]; rfl
      | _ => cases hs
    · generalize hs : UnpackedFloat.finite .positive m e hm = u at hkind
      cases hkind <;> cases hs
    · generalize hs : UnpackedFloat.infinity .positive = u at hkind
      cases hkind <;> cases hs

theorem le_iff_magnitudeBits_le {x y : Float} (hx : 0 ≤ x) (hy : 0 ≤ y) :
    x ≤ y ↔ magnitudeBits x ≤ magnitudeBits y := by
  have hx' := isNaN_of_nonneg hx
  have hy' := isNaN_of_nonneg hy
  rw [le_iff_not_lt, lt_iff_place_lt hy' hx', place_of_nonneg hx, place_of_nonneg hy,
    Nat.cast_lt, not_lt]
  exact and_iff_left ⟨hx', hy'⟩

theorem units_lt_of_magnitudeBits_lt {x y : Float} (hy : Scalar.isFinite y = true)
    (h : magnitudeBits x < magnitudeBits y) : units x < units y := by
  have hfinite := (isFinite_iff y).mp hy
  have hkind := unpacked_kind x
  have hkind' := unpacked_kind y
  generalize hu : unpacked x = u at hkind
  generalize hv : unpacked y = v at hkind'
  rcases hkind' with hbits' | ⟨m', e', hcanonical', hbits'⟩ | hbits' | hbits'
  case finite =>
    rw [(units_of_finite hv).2]
    obtain ⟨hpos', hlt', hleast', -, hnormal'⟩ := hcanonical'
    rcases hkind with hbits | ⟨m, e, hcanonical, hbits⟩ | hbits | hbits
    case zero =>
      rw [units_of_zero hu]
      exact Nat.mul_pos hpos' (Nat.two_pow_pos _)
    case finite =>
      rw [(units_of_finite hu).2]
      obtain ⟨hpos, hlt, hleast, -, hnormal⟩ := hcanonical
      rcases lt_trichotomy e e' with hless | rfl | hgreater
      · -- The larger exponent comes with all digits of its significand.
        have hlead : 2 ^ 52 ≤ m' := hnormal'.resolve_left (by omega)
        calc m * 2 ^ (e + 1074).toNat < 2 ^ 53 * 2 ^ (e + 1074).toNat :=
              Nat.mul_lt_mul_of_pos_right hlt (Nat.two_pow_pos _)
          _ = 2 ^ 52 * 2 ^ ((e + 1074).toNat + 1) := by rw [pow_succ' 2 (e + 1074).toNat]; ring
          _ ≤ 2 ^ 52 * 2 ^ (e' + 1074).toNat :=
              Nat.mul_le_mul_left _ (Nat.pow_le_pow_right Nat.two_pos (by omega))
          _ ≤ m' * 2 ^ (e' + 1074).toNat := Nat.mul_le_mul_right _ hlead
      · exact Nat.mul_lt_mul_of_pos_right (by omega) (Nat.two_pow_pos _)
      · omega
    all_goals omega
  all_goals omega

theorem le_iff_units_le {x y : Float} (hx : 0 ≤ x) (hy : 0 ≤ y)
    (hfinite : Scalar.isFinite x = true) : x ≤ y ↔ units x ≤ units y := by
  rw [le_iff_magnitudeBits_le hx hy]
  refine ⟨units_mono, fun hunits => ?_⟩
  by_contra hgreater
  exact hunits.not_gt (units_lt_of_magnitudeBits_lt hfinite (not_le.mp hgreater))

theorem le_of_not_isFinite {x y : Float} (hx : 0 ≤ x) (hy : 0 ≤ y)
    (hinfinite : Scalar.isFinite y = false) : x ≤ y := by
  refine le_of_unpacked_eq (fun hnan => ?_) (unpacked_of_nonneg_of_not_isFinite hy hinfinite)
  have hnumber := isNaN_of_nonneg hx
  rw [(isNaN_iff x).mpr hnan] at hnumber
  cases hnumber

/-! ## What is rounded -/

/-- A double that is not negative, and into which a number of units of a unit is rounded. -/
structure Nearest (n : ℕ) (x : Float) : Prop where
  nonneg : 0 ≤ x
  isFinite_iff : Scalar.isFinite x = true ↔ rounded n < fineLimit
  units_eq : Scalar.isFinite x = true → units x * unitsOfOne = rounded n

variable {n n' : ℕ} {x y : Float}

theorem Nearest.isFinite_of_le (hx : Nearest n x) (hy : Nearest n' y) (h : n ≤ n')
    (hfinite : Scalar.isFinite y = true) : Scalar.isFinite x = true :=
  hx.isFinite_iff.mpr ((rounded_mono h).trans_lt (hy.isFinite_iff.mp hfinite))

/-- Rounding keeps the order. -/
theorem Nearest.le (hx : Nearest n x) (hy : Nearest n' y) (h : n ≤ n') : x ≤ y := by
  cases hfinite : Scalar.isFinite y with
  | false => exact le_of_not_isFinite hx.nonneg hy.nonneg hfinite
  | true =>
    have hfinite' := hx.isFinite_of_le hy h hfinite
    rw [le_iff_units_le hx.nonneg hy.nonneg hfinite']
    refine Nat.le_of_mul_le_mul_right ?_ unitsOfOne_pos
    rw [hx.units_eq hfinite', hy.units_eq hfinite]
    exact rounded_mono h

theorem nearest_of_zero {sign : Sign} (hx : unpacked x = .zero sign) : Nearest 0 x where
  nonneg := (nonneg_iff x).mpr (.inl ⟨sign, hx⟩)
  isFinite_iff := by
    obtain ⟨k, hk⟩ : ∃ k, 1024 + 2148 = k := ⟨_, rfl⟩
    rw [isFinite_eq, hx, rounded_zero, fineLimit_eq hk]
    exact iff_of_true rfl (Nat.two_pow_pos k)
  units_eq _ := by rw [units_of_zero hx, rounded_zero, zero_mul]

/-- A significand that is packed is kept if its exponent is not too large. -/
theorem Normal.nearest {m : ℕ} {e : ℤ} (h : Normal m e) (hrounded : rounded n = fine m e)
    (hx : unpacked x = UnpackedFloat.unpack .binary64
      (UnpackedFloat.pack .binary64 (.finite .positive m e h.pos))) : Nearest n x := by
  have hlimit := h.fine_lt_iff
  have hleast := h.least
  rw [← hrounded] at hlimit
  by_cases hmost : e ≤ 971
  · have hbits : ((((e + 1074) * 2 ^ 52 + m).toNat : ℕ) : ℤ) = (e + 1074) * 2 ^ 52 + m := by omega
    have hkind : Kind false _ (.finite .positive m e h.pos) :=
      .finite m e (h.canonical hmost) hbits
    rw [hkind.unpack_pack] at hx
    refine ⟨(nonneg_iff x).mpr (.inr (.inl ⟨m, e, h.pos, hx⟩)), ?_, fun _ => ?_⟩
    · rw [isFinite_eq, hx]
      exact iff_of_true rfl (hlimit.mpr hmost)
    · rw [(units_of_finite hx).2, ← fine_eq m hleast, hrounded]
  · have hpack : UnpackedFloat.pack .binary64 (.finite .positive m e h.pos) =
        UnpackedFloat.pack .binary64 (.infinity .positive) := by
      have hbias : (Format.binary64.exponentBias : ℤ) = 1023 := rfl
      have hexponent : 2 ^ Format.binary64.exponentBits ≤
          (e + Format.binary64.exponentBias + Format.binary64.mantissaBitsWithoutImplicit).toNat +
            1 := by
        simp only [hbias]
        omega
      simp only [UnpackedFloat.pack, hexponent, if_true]
    rw [hpack, unpack_pack_infinity] at hx
    refine ⟨(nonneg_iff x).mpr (.inr (.inr hx)), ?_, fun hfinite => ?_⟩
    · rw [isFinite_eq, hx]
      exact iff_of_false nofun (fun hlt => hmost (hlimit.mp hlt))
    · rw [isFinite_eq, hx] at hfinite
      cases hfinite

/-- What is rounded from a significand is the nearest double to it. -/
theorem nearest_of_round {m : ℕ} {e : ℤ} (hm : 0 < m) (he : -2148 ≤ e)
    (hplace : e ≤ lastPlace m e)
    (hx : unpacked x = UnpackedFloat.unpack .binary64
      (UnpackedFloat.pack .binary64 (roundWithAccuracy .binary64 .positive m e .exact))) :
    Nearest (fine m e) x := by
  rcases roundWithAccuracy_cases .positive hm he hplace with
    ⟨hrounded, hround⟩ | ⟨m', e', hnormal, hrounded, hround⟩
  · rw [hround, unpack_pack_zero] at hx
    have hzero := nearest_of_zero hx
    have hsame : rounded (fine m e) = rounded 0 := hrounded.trans rounded_zero.symm
    refine ⟨hzero.nonneg, ?_, ?_⟩
    · rw [hsame]
      exact hzero.isFinite_iff
    · rw [hsame]
      exact hzero.units_eq
  · rw [hround] at hx
    exact hnormal.nearest hrounded hx

/-- A finite double is the nearest one to itself. -/
theorem nearest_self (hx : 0 ≤ x) (hfinite : Scalar.isFinite x = true) :
    Nearest (units x * unitsOfOne) x := by
  rcases unpacked_of_nonneg_of_isFinite hx hfinite with ⟨sign, hu⟩ | ⟨m, e, hm, hu⟩
  · rw [units_of_zero hu, zero_mul]
    exact nearest_of_zero hu
  · obtain ⟨hcanonical, hunits⟩ := units_of_finite hu
    have hfine := fine_eq m hcanonical.least
    have hnormal := hcanonical.isNormal
    rw [hunits, ← hfine]
    refine hnormal.nearest hnormal.rounded_fine ?_
    have hkind := unpacked_kind x
    have hkept := hkind.unpack_pack
    rw [hu] at hkept
    exact hu.trans hkept.symm

/-! ## Products and sums -/

theorem lastPlace_ge {m : ℕ} {e : ℤ} (h : 2 ^ 52 ≤ m ∨ e ≤ -1074) : e ≤ lastPlace m e := by
  unfold lastPlace
  rcases h with hlead | hleast
  · have hlog : 52 ≤ m.log2 := (Nat.le_log2 (by omega)).mpr hlead
    omega
  · omega

theorem nearest_mul (hx : 0 ≤ x) (hy : 0 ≤ y) (hfx : Scalar.isFinite x = true)
    (hfy : Scalar.isFinite y = true) : Nearest (units x * units y) (x * y) := by
  have hproduct := unpacked_mul x y
  rcases unpacked_of_nonneg_of_isFinite hx hfx with ⟨sign, hu⟩ | ⟨m, e, hm, hu⟩
  · have hzero : ∃ sign', unpacked (x * y) = .zero sign' := by
      rcases unpacked_of_nonneg_of_isFinite hy hfy with ⟨sign', hv⟩ | ⟨m', e', hm', hv⟩ <;>
        (rw [hu, hv] at hproduct; exact ⟨_, hproduct.trans (unpack_pack_zero _)⟩)
    rw [units_of_zero hu, zero_mul]
    exact nearest_of_zero hzero.choose_spec
  · rcases unpacked_of_nonneg_of_isFinite hy hfy with ⟨sign', hv⟩ | ⟨m', e', hm', hv⟩
    · rw [hu, hv] at hproduct
      rw [units_of_zero hv, mul_zero]
      exact nearest_of_zero (hproduct.trans (unpack_pack_zero _))
    · obtain ⟨⟨-, -, hleast, -, hnormal⟩, hunits⟩ := units_of_finite hu
      obtain ⟨⟨-, -, hleast', -, hnormal'⟩, hunits'⟩ := units_of_finite hv
      have hfine : fine (m * m') (e + e') = units x * units y := by
        have hsplit : (e + e' + 2148).toNat = (e + 1074).toNat + (e' + 1074).toNat := by omega
        rw [fine, hunits, hunits', hsplit, pow_add, mul_mul_mul_comm]
      have hplace : 2 ^ 52 ≤ m * m' ∨ e + e' ≤ -1074 := by
        rcases hnormal with heq | hlead
        · rcases hnormal' with heq' | hlead'
          · exact .inr (by omega)
          · exact .inl (hlead'.trans (Nat.le_mul_of_pos_left m' hm))
        · exact .inl (hlead.trans (Nat.le_mul_of_pos_right m hm'))
      rw [hu, hv] at hproduct
      rw [← hfine]
      exact nearest_of_round (Nat.mul_pos hm hm') (by omega) (lastPlace_ge hplace) hproduct

theorem normalize_of_pos {m : ℕ} {e : ℤ} (hm : 0 < m) (hplace : e ≤ lastPlace m e)
    (sign : Sign) : UnpackedFloat.normalize .binary64 m e sign =
      roundWithAccuracy .binary64 .positive m e .exact := by
  have hcompare : compare (m : ℤ) 0 = .gt := compare_gt_iff_gt.mpr (by omega)
  have hamount : (e - lastPlace m e).toNat = 0 := by omega
  simp only [UnpackedFloat.normalize, hcompare, UnpackedFloat.round, Int.toNat_natCast,
    targetExponent_totalExponent, decreaseExponent, hamount, Nat.shiftLeft_zero, Nat.cast_zero,
    sub_zero]

theorem add_of_zero {sign sign' : Sign} {m : ℕ} {e : ℤ} {hm : 0 < m}
    (hx : unpacked x = .zero sign) (hy : unpacked y = .finite sign' m e hm) :
    x + y = y ∧ y + x = y := by
  have hkept := (unpacked_kind y).unpack_pack
  rw [hy] at hkept
  constructor <;>
    (apply ext_unpacked; rw [unpacked_add, hx, hy]; exact hkept)

/-- Two significands are added at the smaller one of their exponents. -/
theorem fine_aligned (m m' : ℕ) {e e' f : ℤ} (he : f ≤ e) (he' : f ≤ e') (hf : -1074 ≤ f) :
    fine (m * 2 ^ (e - f).toNat + m' * 2 ^ (e' - f).toNat) f =
      (m * 2 ^ (e + 1074).toNat + m' * 2 ^ (e' + 1074).toNat) * unitsOfOne := by
  have hshift : (e - f).toNat + (f + 1074).toNat = (e + 1074).toNat := by omega
  have hshift' : (e' - f).toNat + (f + 1074).toNat = (e' + 1074).toNat := by omega
  rw [fine_eq _ hf, add_mul, mul_assoc m, mul_assoc m', ← pow_add, ← pow_add, hshift, hshift']

theorem nearest_add (hx : 0 ≤ x) (hy : 0 ≤ y) (hfx : Scalar.isFinite x = true)
    (hfy : Scalar.isFinite y = true) : Nearest ((units x + units y) * unitsOfOne) (x + y) := by
  have hsum := unpacked_add x y
  rcases unpacked_of_nonneg_of_isFinite hx hfx with ⟨sign, hu⟩ | ⟨m, e, hm, hu⟩
  · rcases unpacked_of_nonneg_of_isFinite hy hfy with ⟨sign', hv⟩ | ⟨m', e', hm', hv⟩
    · have hzero : ∃ sign'', unpacked (x + y) = .zero sign'' := by
        rw [hu, hv] at hsum
        cases sign <;> cases sign' <;> exact ⟨_, hsum.trans (unpack_pack_zero _)⟩
      rw [units_of_zero hu, units_of_zero hv, add_zero, zero_mul]
      exact nearest_of_zero hzero.choose_spec
    · rw [units_of_zero hu, zero_add, (add_of_zero hu hv).1]
      exact nearest_self hy hfy
  · rcases unpacked_of_nonneg_of_isFinite hy hfy with ⟨sign', hv⟩ | ⟨m', e', hm', hv⟩
    · rw [units_of_zero hv, add_zero, (add_of_zero hv hu).2]
      exact nearest_self hx hfx
    · obtain ⟨⟨-, -, hleast, -, hnormal⟩, hunits⟩ := units_of_finite hu
      obtain ⟨⟨-, -, hleast', -, hnormal'⟩, hunits'⟩ := units_of_finite hv
      obtain ⟨f, hf⟩ : ∃ f, min e e' = f := ⟨_, rfl⟩
      have hunit := fine_aligned m m' (hf ▸ min_le_left e e') (hf ▸ min_le_right e e')
        (hf ▸ le_min hleast hleast')
      rw [← hunits, ← hunits'] at hunit
      obtain ⟨k, hk⟩ : ∃ k, m * 2 ^ (e - f).toNat + m' * 2 ^ (e' - f).toNat = k := ⟨_, rfl⟩
      have hle : m ≤ m * 2 ^ (e - f).toNat := Nat.le_mul_of_pos_right m (Nat.two_pow_pos _)
      have hle' : m' ≤ m' * 2 ^ (e' - f).toNat := Nat.le_mul_of_pos_right m' (Nat.two_pow_pos _)
      -- The significand with the smaller exponent is kept, and so are its leading digits.
      have hplace : f ≤ lastPlace k f := by
        apply lastPlace_ge
        rcases min_choice e e' with heq | heq <;> omega
      have hadd : UnpackedFloat.add .binary64 (.finite .positive m e hm)
          (.finite .positive m' e' hm') = roundWithAccuracy .binary64 .positive k f .exact := by
        rw [← normalize_of_pos (by omega) hplace .positive, ← hk]
        simp only [UnpackedFloat.add, decreaseExponent, Nat.shiftLeft_eq, hf]
        rw [Nat.cast_add]
        rfl
      rw [hu, hv, hadd] at hsum
      rw [← hunit, hk]
      exact nearest_of_round (by omega) (by omega) hplace hsum

end VariableMetric.Double
