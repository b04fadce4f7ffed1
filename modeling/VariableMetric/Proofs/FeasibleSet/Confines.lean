import Mathlib.Algebra.Order.Field.Pi
import Mathlib.Order.Interval.Set.OrdConnected
import VariableMetric.FeasibleSet
import VariableMetric.Proofs.Exact.Vectors

/-!
# Feasible sets of real vectors

In exact arithmetic the whole space and a box confine every component to an interval
of its own.  A component is loose along a direction if some step along it keeps the
component in its interval, and otherwise stuck.  The set drops the stuck components
of a direction, and those of a gradient that are stuck along its opposite.

A direction without stuck components can be followed for a while, and the step beyond
which its path rests is positive.  A component that is loose along the opposite
gradient but stuck along a direction does not descend along it, so a direction only
descends more without it.
-/

namespace VariableMetric

open Matrix

noncomputable section

def Loose (C : Set ℝ) (x d : ℝ) : Prop := ∃ t, 0 < t ∧ x + t * d ∈ C

variable {n : ℕ}

open Classical in
/-- A vector without the components that are stuck along a direction. -/
def loosened (C : Fin n → Set ℝ) (x d a : Fin n → ℝ) : Fin n → ℝ :=
  fun i => if Loose (C i) (x i) (d i) then a i else 0

/-- A set that confines every component of real vectors to an interval. -/
structure FeasibleSet.Confines (S : FeasibleSet Exact n) (C : Fin n → Set ℝ) : Prop where
  ordConnected : ∀ i, (C i).OrdConnected
  point : ∀ x, ∃ y, S.projectVariables (.ofReals x) = .ok (.ofReals y) ∧
    (∀ i, y i ∈ C i) ∧ ((∀ i, x i ∈ C i) → y = x)
  gradient : ∀ x g, (∀ i, x i ∈ C i) →
    S.projectGradient (.ofReals x) (.ofReals g) = .ok (.ofReals (loosened C x (-g) g))
  direction : ∀ x d, (∀ i, x i ∈ C i) →
    S.projectDirection (.ofReals x) (.ofReals d) = .ok (.ofReals (loosened C x d d))
  shortcut : ∀ x d, (∀ i, x i ∈ C i) → (∀ i, d i ≠ 0 → Loose (C i) (x i) (d i)) → d ≠ 0 →
    ∃ cap, S.shortcutStep (.ofReals x) (.ofReals d) = .ok cap ∧ 0 < cap
  initial : ∀ x d lengths, S.initialStep x d lengths = .ok (FeasibleSet.firstStep x d lengths)

section Loose

variable {C : Set ℝ} {x d g : ℝ}

/-- Only the sign of a component matters. -/
theorem Loose.of_mul {c : ℝ} (hc : 0 < c) (h : Loose C x (c * d)) : Loose C x d := by
  obtain ⟨t, ht, hmem⟩ := h
  refine ⟨t * c, mul_pos ht hc, ?_⟩
  rw [mul_assoc]
  exact hmem

theorem mul_nonneg_of_not_loose (hg : Loose C x (-g)) (hd : ¬ Loose C x d) : 0 ≤ d * g := by
  by_contra hneg
  rw [not_le] at hneg
  have hne : d ≠ 0 := by
    rintro rfl
    simp at hneg
  have hratio : 0 < -g / d := by
    have hsame : -g / d = -(d * g) / (d * d) := by field_simp
    rw [hsame]
    exact div_pos (neg_pos.mpr hneg) (mul_self_pos.mpr hne)
  apply hd
  apply Loose.of_mul hratio
  rw [div_mul_cancel₀ _ hne]
  exact hg

/-- An interval that a step leads into is not left before that step. -/
theorem mem_of_step_le (hC : C.OrdConnected) (hx : x ∈ C) {t a : ℝ} (ht : x + t * d ∈ C)
    (ha : 0 ≤ a) (hat : a ≤ t) : x + a * d ∈ C := by
  rcases le_total 0 d with hpos | hneg
  · have hstep := mul_le_mul_of_nonneg_right hat hpos
    have hforth := mul_nonneg ha hpos
    exact hC.out hx ht ⟨by linarith, by linarith⟩
  · have hstep := mul_le_mul_of_nonpos_right hat hneg
    have hback := mul_nonpos_of_nonneg_of_nonpos ha hneg
    exact hC.out ht hx ⟨by linarith, by linarith⟩

/-- A direction without stuck components can be followed in all of them at once. -/
theorem exists_pos_forall_mem {C : Fin n → Set ℝ} {x d : Fin n → ℝ}
    (hC : ∀ i, (C i).OrdConnected) (hx : ∀ i, x i ∈ C i)
    (hd : ∀ i, d i ≠ 0 → Loose (C i) (x i) (d i)) :
    ∃ t, 0 < t ∧ ∀ i, x i + t * d i ∈ C i := by
  have hall : ∀ i, ∃ t, 0 < t ∧ x i + t * d i ∈ C i := by
    intro i
    by_cases hzero : d i = 0
    · exact ⟨1, one_pos, by simpa [hzero] using hx i⟩
    · exact hd i hzero
  choose t ht hmem using hall
  obtain ⟨ε, hε, hlt⟩ := Pi.exists_forall_pos_add_lt (x := 0) (y := t) ht
  refine ⟨ε, hε, fun i => ?_⟩
  have hle : ε ≤ t i := by simpa using (hlt i).le
  exact mem_of_step_le (hC i) (hx i) (hmem i) hε.le hle

end Loose

namespace FeasibleSet

/-! ## The whole space -/

theorem loosened_univ (x d a : Fin n → ℝ) : loosened (fun _ => Set.univ) x d a = a := by
  ext i
  exact if_pos ⟨1, one_pos, Set.mem_univ _⟩

theorem freeStep_of_ne_zero {d : Fin n → ℝ} (hne : d ≠ 0) :
    freeStep (Vec.ofReals d) = Scalar.infinity := by
  obtain ⟨i, hi⟩ := Function.ne_iff.mp hne
  have hmoves : (Vec.ofReals d).any (fun a => !Scalar.equal a 0) = true := by
    refine List.any_eq_true.mpr ⟨.real (d i), ?_, ?_⟩
    · rw [← Vec.get_ofReals]
      exact Vec.get_mem _ _
    · simpa [Exact.zero_eq, ← Bool.not_eq_true] using hi
  rw [freeStep, if_pos hmoves]

theorem unconstrained_confines :
    (unconstrained : FeasibleSet Exact n).Confines fun _ => Set.univ where
  ordConnected _ := Set.ordConnected_univ
  point x := ⟨x, rfl, fun i => Set.mem_univ _, fun _ => rfl⟩
  gradient x g _ := by rw [loosened_univ]; rfl
  direction x d _ := by rw [loosened_univ]; rfl
  shortcut x d _ _ hne := by
    exact ⟨Scalar.infinity, congrArg Except.ok (freeStep_of_ne_zero hne), rfl⟩
  initial x d lengths := rfl

/-! ## The first step -/

/-- The first step along a direction that does not vanish is positive. -/
theorem firstStep_pos (x : Fin n → ℝ) {d : Fin n → ℝ} (hd : d ≠ 0) (u v : ℝ) :
    ∃ a, 0 < a ∧ firstStep (.ofReals x) (Vec.ofReals d) (.real u, .real v) = .real a := by
  have hnorm : 0 < √(d ⬝ᵥ d) := Real.sqrt_pos.mpr (dotProduct_self_pos hd)
  set length := max (u * √(x ⬝ᵥ x)) v with hlength
  refine ⟨(if length ≤ 0 then 1 else length) / √(d ⬝ᵥ d), ?_, ?_⟩
  · refine div_pos ?_ hnorm
    split
    next => exact one_pos
    next hpos => exact not_le.mp hpos
  · have hpositive : ¬ (Vec.ofReals d).norm ≤ 0 := by
      rw [Vec.norm_ofReals]
      exact not_le.mpr hnorm
    unfold firstStep
    dsimp only
    rw [if_neg hpositive, Vec.norm_ofReals, Vec.norm_ofReals, Exact.real_mul,
      Exact.greatest_real, ← hlength]
    by_cases hle : length ≤ 0
    · rw [if_pos hle, if_pos (show Exact.real length ≤ 0 from hle)]
      exact Exact.real_div 1 hnorm.ne'
    · rw [if_neg hle, if_neg (show ¬ Exact.real length ≤ 0 from hle)]
      exact Exact.real_div _ hnorm.ne'

end FeasibleSet

end

end VariableMetric
