import Mathlib
import VariableMetric.Proofs.ScalarOrder

/-!
# The bits of a double

A double is a sign and the 63 bits of its magnitude.  The magnitudes of numbers
are in the order of their bits, and the bits of infinity are the largest of them,
so that the order of doubles is the order of whole numbers.  A double that is put
together from such bits has these bits again.
-/

namespace VariableMetric.Double

open Float.Model Float.Model.UnpackedFloat

/-- The magnitude bits of infinity; those of what is not a number lie above. -/
def infiniteBits : ℕ := 2047 * 2 ^ 52

def signOf (negative : Bool) : Sign := if negative then .negative else .positive

def word (negative : Bool) (bits : ℕ) : ℕ := if negative then 2 ^ 63 + bits else bits

/-- A significand and an exponent of the form that doubles have. -/
structure Canonical (m : ℕ) (e : ℤ) : Prop where
  pos : 0 < m
  lt : m < 2 ^ 53
  least : -1074 ≤ e
  most : e ≤ 971
  normal : e = -1074 ∨ 2 ^ 52 ≤ m

/-- What the bits of a magnitude stand for. -/
inductive Kind (negative : Bool) (bits : ℕ) : UnpackedFloat → Prop
  | zero : bits = 0 → Kind negative bits (.zero (signOf negative))
  | finite (m : ℕ) (e : ℤ) (h : Canonical m e) : (bits : ℤ) = (e + 1074) * 2 ^ 52 + m →
      Kind negative bits (.finite (signOf negative) m e h.pos)
  | infinite : bits = infiniteBits → Kind negative bits (.infinity (signOf negative))
  | notANumber : infiniteBits < bits → Kind negative bits .notANumber

theorem toNat_unpackMantissa (b : BitVec Format.binary64.numBits) :
    (unpackMantissa b).toNat = b.toNat % 2 ^ 52 := by
  simp [unpackMantissa, BitVec.extractLsb]

theorem toNat_unpackExponent (b : BitVec Format.binary64.numBits) :
    (unpackExponent b).toNat = b.toNat / 2 ^ 52 % 2 ^ 11 := by
  simp [unpackExponent, BitVec.extractLsb, Nat.shiftRight_eq_div_pow]

theorem ofBitVec_unpackSign (b : BitVec Format.binary64.numBits) :
    Sign.ofBitVec (unpackSign b) = signOf (decide (2 ^ 63 ≤ b.toNat)) := by
  have hlt : b.toNat < 2 ^ 64 := b.isLt
  have hbit : (unpackSign b).toNat = b.toNat / 2 ^ 63 := by
    simp [unpackSign, BitVec.extractLsb, Nat.shiftRight_eq_div_pow]
    omega
  by_cases h : 2 ^ 63 ≤ b.toNat
  · have hone : unpackSign b ≠ 0#1 := by
      intro hzero
      rw [hzero] at hbit
      simp at hbit
      omega
    rw [decide_eq_true h, Sign.ofBitVec, if_neg hone, signOf, if_pos rfl]
  · have hzero : unpackSign b = 0#1 := by
      apply BitVec.eq_of_toNat_eq
      rw [hbit]
      simp
      omega
    rw [decide_eq_false h, Sign.ofBitVec, if_pos hzero, signOf, if_neg Bool.false_ne_true]

theorem kind_unpack (b : BitVec Format.binary64.numBits) :
    Kind (decide (2 ^ 63 ≤ b.toNat)) (b.toNat % 2 ^ 63) (UnpackedFloat.unpack .binary64 b) := by
  have hmantissa := toNat_unpackMantissa b
  have hexponent := toNat_unpackExponent b
  have hones : (-1#11 : BitVec 11).toNat = 2047 := rfl
  have hbias : Format.binary64.exponentBias = 1023 := rfl
  simp only [UnpackedFloat.unpack, ofBitVec_unpackSign]
  split
  next hmost =>
    have hfield : (unpackExponent b).toNat = 2047 := by rw [hmost]; rfl
    split
    next hnone =>
      have hfraction : (unpackMantissa b).toNat = 0 := by rw [hnone]; rfl
      apply Kind.infinite
      rw [infiniteBits]
      omega
    next hsome =>
      have hfraction : (unpackMantissa b).toNat ≠ 0 := fun h =>
        hsome (BitVec.eq_of_toNat_eq h)
      apply Kind.notANumber
      rw [infiniteBits]
      omega
  next hmost =>
    have hfield : (unpackExponent b).toNat ≠ 2047 := fun h =>
      hmost (BitVec.eq_of_toNat_eq h)
    split
    next hleast =>
      have hfield : (unpackExponent b).toNat = 0 := by rw [hleast]; rfl
      split
      next hnone =>
        have hfraction : (unpackMantissa b).toNat = 0 := by rw [hnone]; rfl
        apply Kind.zero
        omega
      next hsome =>
        have hfraction : (unpackMantissa b).toNat ≠ 0 := fun h =>
          hsome (BitVec.eq_of_toNat_eq h)
        refine Kind.finite _ _ ⟨?_, ?_, ?_, ?_, ?_⟩ ?_ <;> omega
    next hleast =>
      have hfield : (unpackExponent b).toNat ≠ 0 := fun h =>
        hleast (BitVec.eq_of_toNat_eq h)
      have himplicit : (1#1 ++ unpackMantissa b).toNat =
          2 ^ 52 + (unpackMantissa b).toNat := by
        rw [BitVec.toNat_append, ← Nat.shiftLeft_add_eq_or_of_lt (unpackMantissa b).isLt]
        rfl
      refine Kind.finite _ _ ⟨?_, ?_, ?_, ?_, ?_⟩ ?_ <;> omega

theorem unpacked_kind (x : Float) : Kind (isNegative x) (magnitudeBits x) (unpacked x) :=
  kind_unpack x.toModel.toBits.toBitVec

/-! ## Order -/

def signed (negative : Bool) (bits : ℕ) : ℤ := if negative then -bits else bits

/-- The place of a double among the doubles. -/
def place (x : Float) : ℤ := signed (isNegative x) (magnitudeBits x)

/-- Significands and exponents are in the order of the bits. -/
theorem Canonical.then_eq_lt_iff {m m' : ℕ} {e e' : ℤ} (h : Canonical m e)
    (h' : Canonical m' e') :
    (compare e e').then (compare m m') = .lt ↔
      (e + 1074) * 2 ^ 52 + m < (e' + 1074) * 2 ^ 52 + m' := by
  have hlex : (compare e e').then (compare m m') = .lt ↔ e < e' ∨ e = e' ∧ m < m' := by
    rw [Ordering.then_eq_lt, compare_lt_iff_lt, compare_eq_iff_eq, compare_lt_iff_lt]
  rw [hlex]
  obtain ⟨hpos, hlt, hleast, -, hnormal⟩ := h
  obtain ⟨hpos', hlt', hleast', -, hnormal'⟩ := h'
  omega

theorem Canonical.bits_mem {m : ℕ} {e : ℤ} (h : Canonical m e) :
    0 < (e + 1074) * 2 ^ 52 + m ∧ (e + 1074) * 2 ^ 52 + m < infiniteBits := by
  obtain ⟨hpos, hlt, hleast, hmost, hnormal⟩ := h
  rw [infiniteBits]
  omega

theorem compare_signOf_eq_lt_iff (negative negative' : Bool) :
    compare (signOf negative) (signOf negative') = .lt ↔ negative = true ∧ negative' = false := by
  cases negative <;> cases negative' <;> decide

/-- Among numbers of one sign the magnitudes decide, otherwise the signs do. -/
theorem Kind.compare_eq_lt_iff {negative negative' : Bool} {bits bits' : ℕ}
    {u u' : UnpackedFloat} (h : Kind negative bits u) (h' : Kind negative' bits' u')
    (hu : u ≠ .notANumber) (hu' : u' ≠ .notANumber) :
    u.compare u' = some .lt ↔ signed negative bits < signed negative' bits' := by
  have hinfinite : (0 : ℤ) < infiniteBits := by decide
  rcases h with hbits | ⟨m, e, hcanonical, hbits⟩ | hbits | hbits
  case notANumber => exact absurd rfl hu
  case finite =>
    have hmem := hcanonical.bits_mem
    rcases h' with hbits' | ⟨m', e', hcanonical', hbits'⟩ | hbits' | hbits'
    case notANumber => exact absurd rfl hu'
    case finite =>
      have hmem' := hcanonical'.bits_mem
      have hlt := hcanonical.then_eq_lt_iff hcanonical'
      have hgt := hcanonical'.then_eq_lt_iff hcanonical
      rw [← hbits, ← hbits'] at hlt hgt
      rw [← swap_then_compare] at hgt
      cases negative <;> cases negative'
      · exact Option.some_inj.trans hlt
      · simp [UnpackedFloat.compare, signed, signOf]
      · simp [UnpackedFloat.compare, signed, signOf]
        omega
      · exact (Option.some_inj.trans hgt).trans neg_lt_neg_iff.symm
    all_goals cases negative <;> cases negative' <;>
      simp [UnpackedFloat.compare, signed, signOf] <;> omega
  all_goals
    rcases h' with hbits' | ⟨m', e', hcanonical', hbits'⟩ | hbits' | hbits'
    case notANumber => exact absurd rfl hu'
    case finite =>
      have hmem' := hcanonical'.bits_mem
      cases negative <;> cases negative' <;>
        simp [UnpackedFloat.compare, signed, signOf] <;> omega
    all_goals
      have hsigns := compare_signOf_eq_lt_iff negative negative'
      cases negative <;> cases negative' <;>
        simp [UnpackedFloat.compare, signed, signOf] at hsigns ⊢ <;> grind

theorem lt_iff_place_lt {x y : Float} (hx : Scalar.isNaN x = false)
    (hy : Scalar.isNaN y = false) : x < y ↔ place x < place y := by
  have hx' : unpacked x ≠ .notANumber := fun h => by simp [(isNaN_iff x).mpr h] at hx
  have hy' : unpacked y ≠ .notANumber := fun h => by simp [(isNaN_iff y).mpr h] at hy
  rw [lt_iff]
  exact (unpacked_kind x).compare_eq_lt_iff (unpacked_kind y) hx' hy'

theorem lt_trans {x y z : Float} (hxy : x < y) (hyz : y < z) : x < z := by
  obtain ⟨hx, hy⟩ := isNaN_of_lt hxy
  have hz := (isNaN_of_lt hyz).2
  rw [lt_iff_place_lt hx hy] at hxy
  rw [lt_iff_place_lt hy hz] at hyz
  rw [lt_iff_place_lt hx hz]
  exact hxy.trans hyz

theorem isNaN_eq_false_iff (x : Float) :
    Scalar.isNaN x = false ↔ magnitudeBits x ≤ infiniteBits := by
  have hkind := unpacked_kind x
  rw [← Bool.not_eq_true, isNaN_iff]
  generalize unpacked x = u at hkind
  rcases hkind with hbits | ⟨m, e, hcanonical, hbits⟩ | hbits | hbits
  · simp [hbits]
  · have hmem := hcanonical.bits_mem
    simp only [reduceCtorEq, not_false_eq_true, true_iff]
    omega
  · simp [hbits]
  · simp only [not_true_eq_false, false_iff]
    omega

theorem isFinite_iff (x : Float) : x.isFinite = true ↔ magnitudeBits x < infiniteBits := by
  have hkind := unpacked_kind x
  have hfinite : x.isFinite = (unpacked x).isFinite := rfl
  rw [hfinite]
  generalize unpacked x = u at hkind
  rcases hkind with hbits | ⟨m, e, hcanonical, hbits⟩ | hbits | hbits
  · simp [UnpackedFloat.isFinite, hbits, infiniteBits]
  · have hmem := hcanonical.bits_mem
    simp only [UnpackedFloat.isFinite, true_iff]
    omega
  · simp [UnpackedFloat.isFinite, hbits]
  · simp only [UnpackedFloat.isFinite, Bool.false_eq_true, false_iff]
    omega

/-! ## Doubles put together from bits -/

theorem toNat_packComponents (negative : Bool) (exponent : BitVec 11) (mantissa : BitVec 52) :
    (packComponents .binary64 (signOf negative) exponent mantissa).toNat =
      word negative (exponent.toNat * 2 ^ 52 + mantissa.toNat) := by
  have hexponent := exponent.isLt
  have hmantissa := mantissa.isLt
  have hsign : ((signOf negative).toBitVec ++ exponent).toNat =
      (signOf negative).toBitVec.toNat * 2 ^ 11 + exponent.toNat := by
    rw [BitVec.toNat_append, ← Nat.shiftLeft_add_eq_or_of_lt hexponent, Nat.shiftLeft_eq]
  have hall : (packComponents .binary64 (signOf negative) exponent mantissa).toNat =
      ((signOf negative).toBitVec ++ exponent).toNat * 2 ^ 52 + mantissa.toNat := by
    rw [packComponents, BitVec.toNat_append, ← Nat.shiftLeft_add_eq_or_of_lt hmantissa,
      Nat.shiftLeft_eq]
  rw [hall, hsign]
  cases negative with
  | false => simp [signOf, Sign.toBitVec, word]
  | true =>
    simp [signOf, Sign.toBitVec, word]
    omega

/-- Packing gives the bits back. -/
theorem Kind.toNat_pack {negative : Bool} {bits : ℕ} {u : UnpackedFloat}
    (h : Kind negative bits u) (hu : u ≠ .notANumber) :
    (UnpackedFloat.pack .binary64 u).toNat = word negative bits := by
  rcases h with hbits | ⟨m, e, hcanonical, hbits⟩ | hbits | hbits
  case notANumber => exact absurd rfl hu
  case zero =>
    rw [UnpackedFloat.pack, packedZero, toNat_packComponents, hbits]
    rfl
  case infinite =>
    rw [UnpackedFloat.pack, packedInfinity, toNat_packComponents, hbits]
    rfl
  case finite =>
    obtain ⟨hpos, hlt, hleast, hmost, hnormal⟩ := hcanonical
    have hbias : (Format.binary64.exponentBias : ℤ) = 1023 := rfl
    have hdigits : Format.binary64.mantissaBits = 53 := rfl
    have hexponent : ¬ 2 ^ Format.binary64.exponentBits ≤
        (e + Format.binary64.exponentBias + Format.binary64.mantissaBitsWithoutImplicit).toNat +
          1 := by
      simp only [hbias]
      omega
    simp only [UnpackedFloat.pack, hexponent, if_false]
    by_cases hlarge : 2 ^ 52 ≤ m
    · have hlog : m.log2 = 52 := (Nat.log2_eq_iff (by omega)).mpr ⟨hlarge, hlt⟩
      rw [if_pos (by rw [hlog, hdigits]), toNat_packComponents]
      congr 1
      simp only [BitVec.toNat_ofNat, hbias]
      omega
    · have hlog : m.log2 < 52 := (Nat.log2_lt (by omega)).mpr (by omega)
      rw [if_neg (by omega), toNat_packComponents]
      congr 1
      simp only [BitVec.toNat_ofNat]
      omega

theorem word_mod {negative : Bool} {bits : ℕ} (h : bits ≤ infiniteBits) :
    word negative bits % 2 ^ 63 = bits := by
  have hvalue : infiniteBits = 2047 * 2 ^ 52 := rfl
  unfold word
  split <;> omega

theorem decide_le_word {negative : Bool} {bits : ℕ} (h : bits ≤ infiniteBits) :
    decide (2 ^ 63 ≤ word negative bits) = negative := by
  have hvalue : infiniteBits = 2047 * 2 ^ 52 := rfl
  cases negative with
  | false => exact decide_eq_false (by simp [word]; omega)
  | true => exact decide_eq_true (Nat.le_add_right _ _)

theorem toNat_toBits_ofMagnitudeBits (negative : Bool) {bits : ℕ} (h : bits ≤ infiniteBits) :
    (ofMagnitudeBits negative bits).toBits.toNat = word negative bits := by
  have hvalue : infiniteBits = 2047 * 2 ^ 52 := rfl
  have hword : word negative bits < 2 ^ 64 := by
    unfold word
    split <;> omega
  have hkind := kind_unpack (UInt64.ofNat (word negative bits)).toBitVec
  have hnat : (UInt64.ofNat (word negative bits)).toBitVec.toNat = word negative bits := by
    rw [UInt64.toNat_toBitVec, UInt64.toNat_ofNat', Nat.mod_eq_of_lt hword]
  rw [hnat, word_mod h, decide_le_word h] at hkind
  refine hkind.toNat_pack ?_
  intro hnan
  rw [hnan] at hkind
  cases hkind
  omega

theorem isNegative_ofMagnitudeBits (negative : Bool) {bits : ℕ} (h : bits ≤ infiniteBits) :
    isNegative (ofMagnitudeBits negative bits) = negative := by
  rw [isNegative, toNat_toBits_ofMagnitudeBits negative h]
  exact decide_le_word h

theorem magnitudeBits_ofMagnitudeBits (negative : Bool) {bits : ℕ} (h : bits ≤ infiniteBits) :
    magnitudeBits (ofMagnitudeBits negative bits) = bits := by
  rw [magnitudeBits, toNat_toBits_ofMagnitudeBits negative h]
  exact word_mod h

end VariableMetric.Double
