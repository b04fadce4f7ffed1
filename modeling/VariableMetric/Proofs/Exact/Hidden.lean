import VariableMetric.Proofs.Exact.Scaling

/-!
# Hidden components

Two gradients are told apart neither by a positive factor nor by what they hold in some
hidden components, if all that is looked at there is whether it is finite.  Operations on
vectors keep such gradients together, and an inner product does not see a hidden
component where the other vector vanishes.
-/

namespace VariableMetric

noncomputable section

namespace Exact

/-- What a product with zero can be. -/
def IsNull (a : Exact) : Prop := a = 0 ∨ a = undefined

theorem isNull_zero : IsNull 0 := .inl rfl

theorem zero_mul_eq (b : Exact) :
    0 * b = if Scalar.isFinite b = true then 0 else undefined := by
  cases b with
  | real b => exact congrArg real (zero_mul b)
  | infinite s =>
    show stretch s 0 = _
    simp [stretch]
  | undefined => rfl

variable {a b b' : Exact}

theorem IsNull.mul (h : a.IsNull) (b : Exact) : (a * b).IsNull := by
  rcases h with rfl | rfl
  · rw [zero_mul_eq]
    split
    · exact .inl rfl
    · exact .inr rfl
  · exact .inr (undefined_mul b)

/-- Only whether the other factor is finite matters. -/
theorem IsNull.mul_eq (h : a.IsNull) (hfinite : Scalar.isFinite b' = Scalar.isFinite b) :
    a * b' = a * b := by
  rcases h with rfl | rfl
  · rw [zero_mul_eq, zero_mul_eq, hfinite]
  · rw [undefined_mul, undefined_mul]

theorem IsNull.smul (h : a.IsNull) (c : ℝ) : c • a = a := by
  rcases h with rfl | rfl
  · exact smul_zero c
  · rfl

protected theorem mul_comm (a b : Exact) : a * b = b * a := by
  cases a with
  | real a => cases b with
    | real b => exact congrArg real ((mul_comm a b))
    | _ => rfl
  | infinite s => cases b with
    | infinite t => exact congrArg infinite (Bool.xor_comm s t)
    | _ => rfl
  | undefined => simp

end Exact

namespace Vec

variable {n : ℕ} {P : Finset (Fin n)} {c d : ℝ}

/-- The second vector is a multiple of the first one outside of some components; in these
both are finite, or neither is. -/
structure ScaledOff (P : Finset (Fin n)) (c : ℝ) (v v' : Vec Exact n) : Prop where
  shown : ∀ i ∉ P, v'.get i = c • v.get i
  hidden : ∀ i ∈ P, Scalar.isFinite (v'.get i) = Scalar.isFinite (v.get i)

def NullOn (P : Finset (Fin n)) (v : Vec Exact n) : Prop := ∀ i ∈ P, (v.get i).IsNull

def FiniteOn (P : Finset (Fin n)) (v : Vec Exact n) : Prop :=
  ∀ i ∈ P, Scalar.isFinite (v.get i) = true

theorem scaledOff_smul (P : Finset (Fin n)) (c : ℝ) (v : Vec Exact n) :
    ScaledOff P c v (c • v) where
  shown i _ := get_smul c v i
  hidden i _ := by rw [get_smul, Exact.isFinite_smul]

theorem ScaledOff.refl (P : Finset (Fin n)) (v : Vec Exact n) : ScaledOff P 1 v v where
  shown _ _ := (one_smul ℝ _).symm
  hidden _ _ := rfl

theorem ScaledOff.finiteOn {v v' : Vec Exact n} (h : ScaledOff P c v v') (hv : FiniteOn P v) :
    FiniteOn P v' :=
  fun i hi => (h.hidden i hi).trans (hv i hi)

/-- With nothing hidden there is only one such vector. -/
theorem ScaledOff.eq_smul {v v' : Vec Exact n} (h : ScaledOff ∅ c v v') : v' = c • v := by
  ext i
  rw [h.shown i (Finset.notMem_empty i), get_smul]

section Operations

variable {v v' w a a' b b' : Vec Exact n} {p : Precision}

theorem NullOn.hadamard (hw : NullOn P w) (v : Vec Exact n) :
    NullOn P (Vec.hadamard p v w) := by
  intro i hi
  simp only [Vec.hadamard, get_zipWith, Exact.round_eq]
  rw [Exact.mul_comm]
  exact (hw i hi).mul _

/-- A mask drops what is hidden. -/
theorem ScaledOff.hadamard_eq (h : ScaledOff P 1 v v') (hw : NullOn P w) :
    Vec.hadamard p v' w = Vec.hadamard p v w := by
  ext i
  simp only [Vec.hadamard, get_zipWith, Exact.round_eq]
  by_cases hi : i ∈ P
  · rw [Exact.mul_comm, (hw i hi).mul_eq (h.hidden i hi), Exact.mul_comm]
  · rw [h.shown i hi, one_smul]

variable (hc : 0 < c)

include hc

theorem ScaledOff.difference (ha : ScaledOff P c a a') (hb : ScaledOff P c b b') :
    ScaledOff P c (Vec.difference p a b) (Vec.difference p a' b') where
  shown i hi := by
    simp only [Vec.difference, scale, get_zipWith, get_map, Exact.round_eq, ha.shown i hi,
      hb.shown i hi]
    rw [Exact.smul_mul hc, Exact.mul_smul_comm hc, Exact.smul_add hc]
  hidden i hi := by
    simp only [Vec.difference, scale, get_zipWith, get_map, Exact.round_eq, Exact.isFinite_add,
      Exact.isFinite_mul, ha.hidden i hi, hb.hidden i hi]

theorem ScaledOff.addScaled (hv : ScaledOff P c v v') (ha : ScaledOff P c a a') (k : Exact) :
    ScaledOff P c (Vec.addScaled p v k a) (Vec.addScaled p v' k a') := by
  unfold Vec.addScaled
  dsimp only
  split
  · exact hv
  · constructor
    · intro i hi
      simp only [get_zipWith, Exact.round_eq, hv.shown i hi, ha.shown i hi]
      rw [Exact.mul_smul_comm hc, Exact.smul_add hc]
    · intro i hi
      simp only [get_zipWith, Exact.round_eq, Exact.isFinite_add, Exact.isFinite_mul,
        hv.hidden i hi, ha.hidden i hi]

theorem ScaledOff.scale (hv : ScaledOff P c v v') (hd : 0 < d) (k : Exact) :
    ScaledOff P (c * d) (Vec.scale p k v) (Vec.scale p (d • k) v') where
  shown i hi := by
    simp only [Vec.scale, get_map, Exact.round_eq, hv.shown i hi]
    exact Exact.smul_mul_smul hc hd _ _
  hidden i hi := by
    simp only [Vec.scale, get_map, Exact.round_eq, Exact.isFinite_mul, hv.hidden i hi,
      Exact.isFinite_smul]

theorem ScaledOff.inner (h : ScaledOff P c v v') (hw : NullOn P w) :
    inner w v' = c • inner w v := by
  refine inner_eq_smul hc fun i => ?_
  by_cases hi : i ∈ P
  · rw [(hw i hi).mul_eq (h.hidden i hi), ((hw i hi).mul _).smul]
  · rw [h.shown i hi, Exact.mul_smul_comm hc]

theorem ScaledOff.inner_left (h : ScaledOff P c v v') (hw : NullOn P w) :
    Vec.inner v' w = c • Vec.inner v w := by
  refine inner_eq_smul hc fun i => ?_
  by_cases hi : i ∈ P
  · rw [Exact.mul_comm, Exact.mul_comm (v.get i), (hw i hi).mul_eq (h.hidden i hi),
      ((hw i hi).mul _).smul]
  · rw [h.shown i hi, Exact.smul_mul hc]

theorem ScaledOff.maskedInner (ha : ScaledOff P c a a') (hb : ScaledOff P d b b') (hd : 0 < d)
    (hw : NullOn P w) : maskedInner w a' b' = (c * d) • maskedInner w a b := by
  refine maskedInner_eq_smul (mul_pos hc hd) fun i => ?_
  by_cases hi : i ∈ P
  · rw [(hw i hi).mul_eq (ha.hidden i hi), ((hw i hi).mul _).mul_eq (hb.hidden i hi),
      (((hw i hi).mul _).mul _).smul]
  · rw [ha.shown i hi, hb.shown i hi, Exact.mul_smul_comm hc, Exact.smul_mul_smul hc hd]

end Operations

end Vec

end

end VariableMetric
