import Mathlib.Data.Nat.Log
import Mathlib.Tactic.SplitIfs
import VariableMetric.Proofs.Double.Bits

/-!
# Rounding keeps the order

Rounding to single precision never puts one double past another.  Numbers that are
rounded at one binary place keep their order.  If they are rounded at two places,
the power of two that leads the larger one lies between them, and it is a multiple
of either step.
-/

namespace VariableMetric

namespace Double

/-! ## Whole numbers -/

theorem div_le_roundHalfEven (n d : ℕ) : n / d ≤ roundHalfEven n d := by
  simp only [roundHalfEven]
  split
  · exact le_rfl
  · split <;> omega

theorem roundHalfEven_le_div_add_one (n d : ℕ) : roundHalfEven n d ≤ n / d + 1 := by
  simp only [roundHalfEven]
  split
  · omega
  · split
    · omega
    · have hparity := Nat.mod_lt (n / d) Nat.two_pos
      omega

theorem le_roundHalfEven {n d b : ℕ} (hd : 0 < d) (h : b * d ≤ n) : b ≤ roundHalfEven n d :=
  ((Nat.le_div_iff_mul_le hd).mpr h).trans (div_le_roundHalfEven n d)

theorem roundHalfEven_mono {n n' : ℕ} (d : ℕ) (h : n ≤ n') :
    roundHalfEven n d ≤ roundHalfEven n' d := by
  have hdiv : n / d ≤ n' / d := Nat.div_le_div_right h
  rcases hdiv.lt_or_eq with hlt | heq
  · calc roundHalfEven n d ≤ n / d + 1 := roundHalfEven_le_div_add_one n d
      _ ≤ n' / d := hlt
      _ ≤ roundHalfEven n' d := div_le_roundHalfEven n' d
  · have hsplit := Nat.div_add_mod n d
    have hsplit' := Nat.div_add_mod n' d
    have hmod : n % d ≤ n' % d := by
      rw [← heq] at hsplit'
      omega
    have hparity := Nat.mod_lt (n / d) Nat.two_pos
    simp only [roundHalfEven, ← heq]
    split_ifs <;> omega

theorem roundHalfEven_le {n d b : ℕ} (hd : 0 < d) (h : n ≤ b * d) : roundHalfEven n d ≤ b := by
  have hexact : roundHalfEven (b * d) d = b := by
    simp only [roundHalfEven, Nat.mul_div_cancel b hd, Nat.mul_mod_left]
    rw [if_pos (by omega)]
  exact (roundHalfEven_mono d h).trans hexact.le

/-! ## Units -/

theorem log2_le_log2 {n n' : ℕ} (h : n ≤ n') : n.log2 ≤ n'.log2 := by
  rw [Nat.log2_eq_log_two, Nat.log2_eq_log_two]
  exact Nat.log_mono_right h

/-- A number rounded at the place that leaves so many digits behind the leading one, but not
below the least place. -/
def roundDigits (digits least n : ℕ) : ℕ :=
  roundHalfEven n (2 ^ max (n.log2 - digits) least) * 2 ^ max (n.log2 - digits) least

theorem roundDigits_mono (digits least : ℕ) {n n' : ℕ} (h : n ≤ n') :
    roundDigits digits least n ≤ roundDigits digits least n' := by
  have hlog := log2_le_log2 h
  unfold roundDigits
  set place := max (n.log2 - digits) least with hplace
  set place' := max (n'.log2 - digits) least with hplace'
  by_cases hsame : place = place'
  · rw [hsame]
    exact Nat.mul_le_mul_right _ (roundHalfEven_mono _ h)
  · -- The larger number is rounded at a higher place, so it has a higher leading bit.
    have hhigher : n.log2 < n'.log2 ∧ place ≤ n'.log2 ∧ place' = n'.log2 - digits ∧
        digits < n'.log2 := by
      omega
    obtain ⟨hlead, hbelow, heq, hlarge⟩ := hhigher
    have hn' : n' ≠ 0 := by
      rintro rfl
      simp at hlarge
    have hlow : n ≤ 2 ^ (n'.log2 - place) * 2 ^ place := by
      rw [← Nat.pow_add, Nat.sub_add_cancel hbelow]
      exact (Nat.lt_log2_self.trans_le (Nat.pow_le_pow_right Nat.two_pos hlead)).le
    have hhigh : 2 ^ digits * 2 ^ place' ≤ n' := by
      rw [heq, ← Nat.pow_add, Nat.add_sub_cancel' hlarge.le]
      exact Nat.log2_self_le hn'
    calc roundHalfEven n (2 ^ place) * 2 ^ place ≤ 2 ^ (n'.log2 - place) * 2 ^ place :=
          Nat.mul_le_mul_right _ (roundHalfEven_le (Nat.two_pow_pos _) hlow)
      _ = 2 ^ digits * 2 ^ place' := by
          rw [heq, ← Nat.pow_add, ← Nat.pow_add, Nat.sub_add_cancel hbelow,
            Nat.add_sub_cancel' hlarge.le]
      _ ≤ roundHalfEven n' (2 ^ place') * 2 ^ place' :=
          Nat.mul_le_mul_right _ (le_roundHalfEven (Nat.two_pow_pos _) hhigh)

theorem roundUnits_eq (n : ℕ) : roundUnits n = roundDigits 23 925 n := rfl

theorem roundUnits_mono {n n' : ℕ} (h : n ≤ n') : roundUnits n ≤ roundUnits n' := by
  rw [roundUnits_eq, roundUnits_eq]
  exact roundDigits_mono 23 925 h

/-- The leading digits of a number of units are those of a significand. -/
theorem leading_mem {n : ℕ} (h : 2 ^ 52 ≤ n) :
    52 ≤ n.log2 ∧ 2 ^ 52 ≤ n / 2 ^ (n.log2 - 52) ∧ n / 2 ^ (n.log2 - 52) < 2 ^ 53 := by
  have hne : n ≠ 0 := by omega
  have hlog : 52 ≤ n.log2 := (Nat.le_log2 hne).mpr h
  refine ⟨hlog, ?_, ?_⟩
  · rw [Nat.le_div_iff_mul_le (Nat.two_pow_pos _), ← Nat.pow_add, Nat.add_sub_cancel' hlog]
    exact Nat.log2_self_le hne
  · rw [Nat.div_lt_iff_lt_mul (Nat.two_pow_pos _), ← Nat.pow_add]
    have hsum : 53 + (n.log2 - 52) = n.log2 + 1 := by omega
    rw [hsum]
    exact Nat.lt_log2_self

theorem bitsOfUnits_mono {n n' : ℕ} (h : n ≤ n') : bitsOfUnits n ≤ bitsOfUnits n' := by
  simp only [bitsOfUnits, Nat.pow_eq]
  by_cases hn : n < 2 ^ 52
  · rw [if_pos hn]
    split
    · exact h
    · have hlead' := leading_mem (n := n') (by omega)
      omega
  · have hlead := leading_mem (n := n) (by omega)
    have hlead' := leading_mem (n := n') (by omega)
    rw [if_neg hn, if_neg (by omega)]
    rcases (log2_le_log2 h).lt_or_eq with hlt | heq
    · omega
    · have hdiv : n / 2 ^ (n.log2 - 52) ≤ n' / 2 ^ (n'.log2 - 52) := by
        rw [heq]
        exact Nat.div_le_div_right h
      omega

-- The exponent is kept as a variable, so that the power is never computed.
theorem singleLimit_eq {k : ℕ} (hk : 128 + 1074 = k) : singleLimit = 2 ^ k := by
  unfold singleLimit
  rw [hk]
  exact Nat.pow_eq

theorem bitsOfUnits_lt {n : ℕ} (h : n < singleLimit) : bitsOfUnits n < infiniteBits := by
  have hvalue : infiniteBits = 2047 * 2 ^ 52 := rfl
  simp only [bitsOfUnits, Nat.pow_eq]
  split
  next => omega
  next hlarge =>
    have hlead := leading_mem (not_lt.mp hlarge)
    have hne : n ≠ 0 := by omega
    obtain ⟨k, hk⟩ : ∃ k, 128 + 1074 = k := ⟨_, rfl⟩
    rw [singleLimit_eq hk, ← Nat.log2_lt hne] at h
    omega

theorem units_mono {x y : Float} (h : magnitudeBits x ≤ magnitudeBits y) :
    units x ≤ units y := by
  simp only [units, Nat.pow_eq]
  have hfield : magnitudeBits x / 2 ^ 52 ≤ magnitudeBits y / 2 ^ 52 := Nat.div_le_div_right h
  have hfraction := Nat.mod_lt (magnitudeBits x) (Nat.two_pow_pos 52)
  by_cases hsame : magnitudeBits x / 2 ^ 52 = magnitudeBits y / 2 ^ 52
  · have hle : magnitudeBits x % 2 ^ 52 ≤ magnitudeBits y % 2 ^ 52 := by omega
    rw [hsame]
    split
    · exact hle
    · exact Nat.mul_le_mul_right _ (Nat.add_le_add_left hle _)
  · have hpos : magnitudeBits y / 2 ^ 52 ≠ 0 := by omega
    rw [if_neg hpos]
    split
    · calc magnitudeBits x % 2 ^ 52 ≤ 2 ^ 52 + magnitudeBits y % 2 ^ 52 := by omega
        _ ≤ (2 ^ 52 + magnitudeBits y % 2 ^ 52) * 2 ^ (magnitudeBits y / 2 ^ 52 - 1) :=
          Nat.le_mul_of_pos_right _ (Nat.two_pow_pos _)
    · have hstep : magnitudeBits x / 2 ^ 52 - 1 + 1 ≤ magnitudeBits y / 2 ^ 52 - 1 := by omega
      calc (2 ^ 52 + magnitudeBits x % 2 ^ 52) * 2 ^ (magnitudeBits x / 2 ^ 52 - 1)
          ≤ (2 ^ 52 * 2) * 2 ^ (magnitudeBits x / 2 ^ 52 - 1) :=
            Nat.mul_le_mul_right _ (by omega)
        _ = 2 ^ 52 * 2 ^ (magnitudeBits x / 2 ^ 52 - 1 + 1) :=
            (Nat.mul_assoc _ _ _).trans (congrArg (2 ^ 52 * ·) Nat.pow_succ'.symm)
        _ ≤ 2 ^ 52 * 2 ^ (magnitudeBits y / 2 ^ 52 - 1) :=
            Nat.mul_le_mul_left _ (Nat.pow_le_pow_right Nat.two_pos hstep)
        _ ≤ (2 ^ 52 + magnitudeBits y % 2 ^ 52) * 2 ^ (magnitudeBits y / 2 ^ 52 - 1) :=
            Nat.mul_le_mul_right _ (Nat.le_add_right _ _)

/-! ## Rounding to single precision -/

/-- The magnitude bits of a finite double that is rounded to single precision. -/
def singleBits (n : ℕ) : ℕ :=
  if roundUnits n < singleLimit then bitsOfUnits (roundUnits n) else infiniteBits

theorem singleBits_le (n : ℕ) : singleBits n ≤ infiniteBits := by
  unfold singleBits
  split
  next h => exact (bitsOfUnits_lt h).le
  next => exact le_rfl

theorem singleBits_mono {n n' : ℕ} (h : n ≤ n') : singleBits n ≤ singleBits n' := by
  have hround := roundUnits_mono h
  by_cases hlt' : roundUnits n' < singleLimit
  · have hlt : roundUnits n < singleLimit := hround.trans_lt hlt'
    rw [singleBits, singleBits, if_pos hlt, if_pos hlt']
    exact bitsOfUnits_mono hround
  · have hinfinite : singleBits n' = infiniteBits := if_neg hlt'
    rw [hinfinite]
    exact singleBits_le n

theorem roundToSingle_of_isFinite {x : Float} (h : x.isFinite = true) :
    roundToSingle x = ofMagnitudeBits (isNegative x) (singleBits (units x)) := by
  rw [roundToSingle, if_pos h]
  exact (apply_ite (ofMagnitudeBits (isNegative x)) _ _ _).symm

theorem roundToSingle_of_infinite {x : Float} (h : magnitudeBits x = infiniteBits) :
    roundToSingle x = x := by
  have hfinite : ¬ x.isFinite = true := by
    rw [isFinite_iff]
    omega
  rw [roundToSingle, if_neg hfinite]

theorem isNegative_roundToSingle {x : Float} (h : magnitudeBits x ≤ infiniteBits) :
    isNegative (roundToSingle x) = isNegative x := by
  rcases h.lt_or_eq with hlt | heq
  · rw [roundToSingle_of_isFinite ((isFinite_iff x).mpr hlt),
      isNegative_ofMagnitudeBits _ (singleBits_le _)]
  · rw [roundToSingle_of_infinite heq]

theorem magnitudeBits_roundToSingle {x : Float} (h : magnitudeBits x < infiniteBits) :
    magnitudeBits (roundToSingle x) = singleBits (units x) := by
  rw [roundToSingle_of_isFinite ((isFinite_iff x).mpr h),
    magnitudeBits_ofMagnitudeBits _ (singleBits_le _)]

theorem magnitudeBits_roundToSingle_le {x : Float} (h : magnitudeBits x ≤ infiniteBits) :
    magnitudeBits (roundToSingle x) ≤ infiniteBits := by
  rcases h.lt_or_eq with hlt | heq
  · rw [magnitudeBits_roundToSingle hlt]
    exact singleBits_le _
  · rw [roundToSingle_of_infinite heq]
    exact h

theorem magnitudeBits_roundToSingle_mono {x y : Float} (hy : magnitudeBits y ≤ infiniteBits)
    (h : magnitudeBits x ≤ magnitudeBits y) :
    magnitudeBits (roundToSingle x) ≤ magnitudeBits (roundToSingle y) := by
  rcases hy.lt_or_eq with hlt | heq
  · rw [magnitudeBits_roundToSingle (h.trans_lt hlt), magnitudeBits_roundToSingle hlt]
    exact singleBits_mono (units_mono h)
  · rw [roundToSingle_of_infinite heq, heq]
    exact magnitudeBits_roundToSingle_le (h.trans hy)

theorem magnitudeBits_roundToSingle_zero {x : Float} (h : magnitudeBits x = 0) :
    magnitudeBits (roundToSingle x) = 0 := by
  have hunits : units x = 0 := by simp [units, h]
  have hround : roundUnits 0 = 0 := by simp [roundUnits, roundHalfEven]
  have hfinite : magnitudeBits x < infiniteBits := by
    rw [h]
    decide
  have hlimit : 0 < singleLimit := by
    obtain ⟨k, hk⟩ : ∃ k, 128 + 1074 = k := ⟨_, rfl⟩
    rw [singleLimit_eq hk]
    exact Nat.two_pow_pos k
  rw [magnitudeBits_roundToSingle hfinite, hunits, singleBits, hround, if_pos hlimit]
  simp [bitsOfUnits]

theorem place_roundToSingle_mono {x y : Float} (hx : magnitudeBits x ≤ infiniteBits)
    (hy : magnitudeBits y ≤ infiniteBits) (h : place x ≤ place y) :
    place (roundToSingle x) ≤ place (roundToSingle y) := by
  have hrising := magnitudeBits_roundToSingle_mono (x := x) hy
  have hfalling := magnitudeBits_roundToSingle_mono (x := y) hx
  have hzero := magnitudeBits_roundToSingle_zero (x := x)
  have hzero' := magnitudeBits_roundToSingle_zero (x := y)
  unfold place signed at h ⊢
  rw [isNegative_roundToSingle hx, isNegative_roundToSingle hy]
  split_ifs at h ⊢ with hxneg hyneg hyneg <;> omega

theorem isNaN_roundToSingle {x : Float} (h : Scalar.isNaN x = false) :
    Scalar.isNaN (roundToSingle x) = false := by
  rw [isNaN_eq_false_iff] at h ⊢
  exact magnitudeBits_roundToSingle_le h

theorem not_roundToSingle_lt {x y : Float} (hx : Scalar.isNaN x = false)
    (hy : Scalar.isNaN y = false) (h : ¬ x < y) : ¬ roundToSingle x < roundToSingle y := by
  rw [lt_iff_place_lt hx hy, not_lt] at h
  rw [lt_iff_place_lt (isNaN_roundToSingle hx) (isNaN_roundToSingle hy), not_lt]
  exact place_roundToSingle_mono ((isNaN_eq_false_iff y).mp hy) ((isNaN_eq_false_iff x).mp hx) h

end Double

/-- Scalars that storage formats keep in order: rounded to a format, numbers stay
numbers, and none is put past another. -/
class StoredScalar (α : Type) [Scalar α] : Prop extends OrderedScalar α where
  lt_asymm : ∀ {a b : α}, a < b → ¬ b < a
  isNaN_round : ∀ (p : Precision) {a : α},
    Scalar.isNaN a = false → Scalar.isNaN (Scalar.round p a) = false
  not_round_lt : ∀ (p : Precision) {a b : α},
    Scalar.isNaN a = false → Scalar.isNaN b = false → ¬ a < b →
      ¬ Scalar.round p a < Scalar.round p b

instance : StoredScalar Float where
  lt_asymm {x y} h := by
    rw [Double.lt_iff] at h ⊢
    rw [Double.compare_swap, h]
    exact nofun
  isNaN_round p _ h := by
    cases p with
    | single => exact Double.isNaN_roundToSingle h
    | double => exact h
  not_round_lt p _ _ ha hb h := by
    cases p with
    | single => exact Double.not_roundToSingle_lt ha hb h
    | double => exact h

end VariableMetric
