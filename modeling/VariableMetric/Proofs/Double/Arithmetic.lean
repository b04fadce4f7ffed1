import VariableMetric.Proofs.Double.Overflow

/-!
# Exact operations on doubles

A product with one or with minus one needs no rounding, so a sum with the opposite
multiple of a double is a difference.  What is rounded keeps its sign: the quotient of two
positive doubles is not negative, though it may be zero, infinite, or no number.  The product of
two doubles that are not zero is a number, however large.
-/

namespace VariableMetric.Double

open Float.Model Float.Model.UnpackedFloat

/-! ## Packing and unpacking -/

/-- The bits tell what they stand for. -/
theorem Kind.unique {negative : Bool} {bits : ℕ} {u u' : UnpackedFloat}
    (h : Kind negative bits u) (h' : Kind negative bits u') : u = u' := by
  have hinfinite : 0 < infiniteBits := by decide
  rcases h with hbits | ⟨m, e, hcanonical, hbits⟩ | hbits | hbits
  case finite =>
    have hmem := hcanonical.bits_mem
    rcases h' with hbits' | ⟨m', e', hcanonical', hbits'⟩ | hbits' | hbits'
    case finite =>
      obtain ⟨hpos, hlt, hleast, -, hnormal⟩ := hcanonical
      obtain ⟨hpos', hlt', hleast', -, hnormal'⟩ := hcanonical'
      have hexponents : e = e' := by omega
      have hsignificands : m = m' := by omega
      subst hexponents hsignificands
      rfl
    all_goals omega
  all_goals
    rcases h' with hbits' | ⟨m', e', hcanonical', hbits'⟩ | hbits' | hbits'
    case finite =>
      have hmem' := hcanonical'.bits_mem
      omega
    all_goals first | rfl | omega

theorem Kind.bits_le {negative : Bool} {bits : ℕ} {u : UnpackedFloat}
    (h : Kind negative bits u) (hu : u ≠ .notANumber) : bits ≤ infiniteBits := by
  rcases h with hbits | ⟨m, e, hcanonical, hbits⟩ | hbits | hbits
  case notANumber => exact absurd rfl hu
  case finite =>
    have hmem := hcanonical.bits_mem
    omega
  all_goals omega

theorem Kind.unpack_pack {negative : Bool} {bits : ℕ} {u : UnpackedFloat}
    (h : Kind negative bits u) :
    UnpackedFloat.unpack .binary64 (UnpackedFloat.pack .binary64 u) = u := by
  by_cases hu : u = .notANumber
  · rw [hu, unpack_pack_notANumber]
  · have hbits := h.bits_le hu
    have hkind := kind_unpack (UnpackedFloat.pack .binary64 u)
    rw [h.toNat_pack hu, word_mod hbits, decide_le_word hbits] at hkind
    exact hkind.unique h

theorem pack_unpack {b : BitVec Format.binary64.numBits} (hvalid : Format.binary64.Valid b) :
    UnpackedFloat.pack .binary64 (UnpackedFloat.unpack .binary64 b) = b := by
  have hlt : b.toNat < 2 ^ 64 := b.isLt
  have hkind := kind_unpack b
  by_cases hu : UnpackedFloat.unpack .binary64 b = .notANumber
  · have hbits : infiniteBits < b.toNat % 2 ^ 63 := by
      rw [hu] at hkind
      cases hkind
      assumption
    rw [infiniteBits] at hbits
    have hmost : unpackExponent b = -1#_ := by
      have hones : (-1#11 : BitVec 11).toNat = 2047 := rfl
      apply BitVec.eq_of_toNat_eq
      rw [toNat_unpackExponent, hones]
      omega
    have hsome : unpackMantissa b ≠ 0#_ := by
      intro hzero
      have hfraction := toNat_unpackMantissa b
      rw [hzero, BitVec.toNat_ofNat, Nat.zero_mod] at hfraction
      omega
    rw [hu, hvalid.eq_packedNaN hmost hsome]
    rfl
  · apply BitVec.eq_of_toNat_eq
    rw [hkind.toNat_pack hu, word]
    by_cases hnegative : 2 ^ 63 ≤ b.toNat
    · rw [decide_eq_true hnegative, if_pos rfl]
      omega
    · rw [decide_eq_false hnegative, if_neg Bool.false_ne_true]
      omega

/-- A double is what its bits stand for. -/
theorem ext_unpacked {x y : Float} (h : unpacked x = unpacked y) : x = y := by
  have hbits : x.toModel.toBits = y.toModel.toBits := by
    apply UInt64.toBitVec_inj.mp
    have hx := pack_unpack x.toModel.valid
    have hy := pack_unpack y.toModel.valid
    exact hx.symm.trans ((congrArg (UnpackedFloat.pack .binary64) h).trans hy)
  obtain ⟨⟨bits, hvalid⟩⟩ := x
  obtain ⟨⟨bits', hvalid'⟩⟩ := y
  cases hbits
  rfl

/-! ## Rounding of what needs none -/

theorem targetExponent_binary64 (total : ℤ) :
    Format.binary64.targetExponent total = max (total - 53) (-1074) := rfl

/-- Zeros behind a significand are dropped without a rest. -/
theorem shiftRight_mul_two_pow (m k : ℕ) :
    (⟨m * 2 ^ k, false, false⟩ : ExtendedMantissa) >>> k = ⟨m, false, false⟩ := by
  induction k generalizing m with
  | zero =>
    rw [pow_zero, mul_one]
    rfl
  | succ k ih =>
    have hodd : m * 2 ^ (k + 1) = (m * 2) * 2 ^ k := by ring
    have hstep : (⟨m * 2 ^ (k + 1), false, false⟩ : ExtendedMantissa) >>> (k + 1) =
        ((⟨m * 2 ^ (k + 1), false, false⟩ : ExtendedMantissa) >>> k).shiftRightOne := rfl
    rw [hstep, hodd, ih]
    simp [ExtendedMantissa.shiftRightOne]

theorem Canonical.targetExponent_eq {m : ℕ} {e : ℤ} (h : Canonical m e) :
    Format.binary64.targetExponent (totalExponent m e) = e := by
  obtain ⟨hpos, hlt, hleast, -, hnormal⟩ := h
  have hlog : m.log2 < 53 := (Nat.log2_lt (by omega)).mpr hlt
  rw [targetExponent_binary64, totalExponent]
  rcases hnormal with hsmall | hlarge
  · omega
  · have hlog' : 52 ≤ m.log2 := (Nat.le_log2 (by omega)).mpr hlarge
    omega

theorem log2_mul_two_pow {m : ℕ} (k : ℕ) (h : 0 < m) : (m * 2 ^ k).log2 = m.log2 + k := by
  rw [Nat.log2_eq_iff (by positivity), pow_add, pow_succ, pow_add, mul_right_comm]
  have hle := Nat.log2_self_le h.ne'
  have hlt := Nat.lt_log2_self (n := m)
  exact ⟨Nat.mul_le_mul_right _ hle, Nat.mul_lt_mul_of_pos_right hlt (by positivity)⟩

/-- A significand with zeros behind it is rounded to itself. -/
theorem Canonical.roundWithAccuracy_mul {m : ℕ} {e : ℤ} (h : Canonical m e) (sign : Sign)
    (k : ℕ) :
    roundWithAccuracy .binary64 sign (m * 2 ^ k) (e - k) .exact = .finite sign m e h.pos := by
  have hshift (k : ℕ) : shiftToTargetExponent .binary64 (m * 2 ^ k) (e - k) .exact =
      (⟨m, false, false⟩, e) := by
    have htotal : totalExponent (m * 2 ^ k) (e - k) = totalExponent m e := by
      rw [totalExponent, totalExponent, log2_mul_two_pow k h.pos]
      omega
    have hamount : (e - (e - k)).toNat = k := by omega
    rw [shiftToTargetExponent, htotal, h.targetExponent_eq, shiftToExponent, hamount]
    simp only [ExtendedMantissa.ofMantissaAndAccuracy, shiftRight_mul_two_pow]
    rw [sub_add_cancel]
  have hrounded : (⟨m, false, false⟩ : ExtendedMantissa).roundedMantissa = m := rfl
  have hagain := hshift 0
  rw [pow_zero, mul_one, Nat.cast_zero, sub_zero] at hagain
  simp only [roundWithAccuracy, hshift, hrounded, hagain]
  exact dif_neg h.pos.ne'

/-! ## Multiples with one and minus one -/

theorem unpacked_one : unpacked 1 = .finite .positive (2 ^ 52) (-52) (by decide) := by
  rfl

theorem unpacked_neg_one : unpacked (-1) = .finite .negative (2 ^ 52) (-52) (by decide) := by
  rfl

theorem Kind.mul_one {negative : Bool} {bits : ℕ} {u : UnpackedFloat}
    (h : Kind negative bits u) : UnpackedFloat.mul .binary64 u (unpacked 1) = u := by
  rw [unpacked_one]
  rcases h with - | ⟨m, e, hcanonical, -⟩ | - | -
  case finite =>
    have hsign : signOf negative * Sign.positive = signOf negative := by cases negative <;> rfl
    have hround := hcanonical.roundWithAccuracy_mul (signOf negative) 52
    simp only [UnpackedFloat.mul, hsign]
    exact hround
  all_goals cases negative <;> rfl

theorem Kind.neg_one_mul {negative : Bool} {bits : ℕ} {u : UnpackedFloat}
    (h : Kind negative bits u) : UnpackedFloat.mul .binary64 (unpacked (-1)) u = u.neg := by
  rw [unpacked_neg_one]
  rcases h with - | ⟨m, e, hcanonical, -⟩ | - | -
  case finite =>
    have hsign : Sign.negative * signOf negative = -signOf negative := by cases negative <;> rfl
    have hround := hcanonical.roundWithAccuracy_mul (-signOf negative) 52
    simp only [UnpackedFloat.mul, UnpackedFloat.neg, hsign, mul_comm (2 ^ 52) m,
      add_comm (-52 : ℤ) e]
    exact hround
  all_goals cases negative <;> rfl

theorem Kind.neg {negative : Bool} {bits : ℕ} {u : UnpackedFloat} (h : Kind negative bits u) :
    Kind (!negative) bits u.neg := by
  have hsign : -signOf negative = signOf (!negative) := by cases negative <;> rfl
  rcases h with hbits | ⟨m, e, hcanonical, hbits⟩ | hbits | hbits
  · rw [UnpackedFloat.neg, hsign]
    exact .zero hbits
  · simp only [UnpackedFloat.neg, hsign]
    exact .finite m e hcanonical hbits
  · rw [UnpackedFloat.neg, hsign]
    exact .infinite hbits
  · exact .notANumber hbits

theorem add_neg (u v : UnpackedFloat) :
    UnpackedFloat.add .binary64 u v.neg = UnpackedFloat.sub .binary64 u v := by
  cases u with
  | finite s m e h =>
    cases v with
    | finite s' m' e' h' =>
      have hsign : (-s').apply = fun k => -s'.apply k := by
        funext k
        cases s' with
        | negative => exact (Int.neg_neg k).symm
        | positive => rfl
      simp only [UnpackedFloat.add, UnpackedFloat.sub, UnpackedFloat.neg, hsign, sub_eq_add_neg]
    | _ => rfl
  | _ => cases v <;> rfl

theorem mul_unit (x : Float) : x * 1 = x := by
  apply ext_unpacked
  rw [unpacked_mul, (unpacked_kind x).mul_one, (unpacked_kind x).unpack_pack]

/-- The sum with the opposite multiple is the difference. -/
theorem add_neg_one_mul (x y : Float) : x + -1 * y = x - y := by
  have hopposite : unpacked (-1 * y) = (unpacked y).neg := by
    rw [unpacked_mul, (unpacked_kind y).neg_one_mul, (unpacked_kind y).neg.unpack_pack]
  apply ext_unpacked
  rw [unpacked_add, hopposite, add_neg]
  rfl

/-! ## Quotients and products -/

theorem unpacked_div (x y : Float) : unpacked (x / y) = UnpackedFloat.unpack .binary64
    (UnpackedFloat.pack .binary64 (UnpackedFloat.div .binary64 (unpacked x) (unpacked y))) :=
  rfl

/-- What has no negative sign: the positive numbers, the positive zero, and what is no
number. -/
inductive Unsigned : UnpackedFloat → Prop
  | notANumber : Unsigned .notANumber
  | zero : Unsigned (.zero .positive)
  | infinity : Unsigned (.infinity .positive)
  | finite (m : ℕ) (e : ℤ) (h : 0 < m) : Unsigned (.finite .positive m e h)

theorem unsigned_roundWithAccuracy (m : ℕ) (e : ℤ) (accuracy : Accuracy) :
    Unsigned (roundWithAccuracy .binary64 .positive m e accuracy) := by
  rcases roundWithAccuracy_eq .binary64 .positive m e accuracy with heq | ⟨m', e', hm', heq⟩
  · rw [heq]
    exact .zero
  · rw [heq]
    exact .finite m' e' hm'

theorem Unsigned.pack {u : UnpackedFloat} (h : Unsigned u) :
    ∃ exponent mantissa,
      UnpackedFloat.pack .binary64 u = packComponents .binary64 .positive exponent mantissa := by
  cases h with
  | finite m e h =>
    unfold UnpackedFloat.pack
    dsimp only
    split
    · exact ⟨_, _, rfl⟩
    · split
      · exact ⟨_, _, rfl⟩
      · exact ⟨_, _, rfl⟩
  | _ => exact ⟨_, _, rfl⟩

theorem not_compare_packComponents_lt (exponent : BitVec 11) (mantissa : BitVec 52) :
    (UnpackedFloat.unpack .binary64
      (packComponents .binary64 .positive exponent mantissa)).compare (unpacked 0) ≠ some .lt := by
  obtain ⟨bits, hkind⟩ := exists_kind_packComponents exponent mantissa
  have hzero : unpacked 0 = .zero .positive := rfl
  generalize UnpackedFloat.unpack .binary64 _ = u at hkind
  rw [hzero]
  rcases hkind with - | - | - | - <;> exact nofun

theorem unpacked_of_pos {x : Float} (h : 0 < x) :
    unpacked x = .infinity .positive ∨ ∃ m e hm, unpacked x = .finite .positive m e hm := by
  have hzero : unpacked 0 = .zero .positive := rfl
  rw [lt_iff, hzero] at h
  cases hu : unpacked x with
  | infinity s =>
    rw [hu] at h
    cases s with
    | positive => exact .inl rfl
    | negative => cases h
  | finite s m e hm =>
    rw [hu] at h
    cases s with
    | positive => exact .inr ⟨m, e, hm, rfl⟩
    | negative => cases h
  | _ =>
    rw [hu] at h
    cases h

/-- The quotient of two positive doubles is positive, vanishes, or is no number. -/
theorem not_div_lt_zero {x y : Float} (hx : 0 < x) (hy : 0 < y) : ¬ x / y < 0 := by
  have hunsigned : Unsigned (UnpackedFloat.div .binary64 (unpacked x) (unpacked y)) := by
    rcases unpacked_of_pos hx with hu | ⟨m, e, hm, hu⟩ <;>
      rcases unpacked_of_pos hy with hv | ⟨m', e', hm', hv⟩ <;> rw [hu, hv]
    · exact .notANumber
    · exact .infinity
    · exact .zero
    · exact unsigned_roundWithAccuracy _ _ _
  obtain ⟨exponent, mantissa, hpack⟩ := hunsigned.pack
  rw [lt_iff, unpacked_div, hpack]
  exact not_compare_packComponents_lt exponent mantissa

theorem unpacked_of_neg {x : Float} (h : x < 0) :
    unpacked x = .infinity .negative ∨ ∃ m e hm, unpacked x = .finite .negative m e hm := by
  have hzero : unpacked 0 = .zero .positive := rfl
  rw [lt_iff, hzero] at h
  cases hu : unpacked x with
  | infinity s =>
    rw [hu] at h
    cases s with
    | negative => exact .inl rfl
    | positive => cases h
  | finite s m e hm =>
    rw [hu] at h
    cases s with
    | negative => exact .inr ⟨m, e, hm, rfl⟩
    | positive => cases h
  | _ =>
    rw [hu] at h
    cases h

/-- The product of a positive and a negative double is a number. -/
theorem isNaN_mul_of_pos_of_neg {x y : Float} (hx : 0 < x) (hy : y < 0) :
    Scalar.isNaN (x * y) = false := by
  have hmul : UnpackedFloat.mul .binary64 (unpacked x) (unpacked y) ≠ .notANumber := by
    rcases unpacked_of_pos hx with hu | ⟨m, e, hm, hu⟩ <;>
      rcases unpacked_of_neg hy with hv | ⟨m', e', hm', hv⟩ <;> rw [hu, hv]
    · exact nofun
    · exact nofun
    · exact nofun
    · exact roundWithAccuracy_ne_notANumber _ _ _ _ _
  rw [← Bool.not_eq_true, isNaN_iff, unpacked_mul]
  exact unpack_pack_ne_notANumber hmul

end VariableMetric.Double
