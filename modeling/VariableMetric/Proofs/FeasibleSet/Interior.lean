import VariableMetric.Proofs.FeasibleSet.RealBox

/-!
# Points strictly between bounds

At a point strictly inside a box the box does what the whole space does: it keeps the
variables, and drops no component of a gradient or of a direction.  Only the step beyond
which a path rests differs, and a path rests after it has left the inside.
-/

namespace VariableMetric

noncomputable section

theorem Exact.exists_real_of_between {a b c : Exact} (hab : a < b) (hbc : b < c) :
    ∃ r, b = .real r := by
  cases b with
  | real r => exact ⟨r, rfl⟩
  | infinite negative =>
    cases negative with
    | false =>
      cases c with
      | infinite negative => cases hbc.1
      | real c => cases hbc
      | undefined => exact absurd hbc id
    | true =>
      cases a with
      | infinite negative => cases hab.2
      | real a => cases hab
      | undefined => exact absurd hab id
  | undefined => cases a <;> exact absurd hab id

namespace Range

variable {r : Range Exact} {a : Exact}

theorem clamp_of_between (hlower : r.lower < a) (hupper : a < r.upper) : r.clamp a = a := by
  have hnotlower : ¬ a < r.lower := StoredScalar.lt_asymm hlower
  have hnotupper : ¬ r.upper < a := StoredScalar.lt_asymm hupper
  unfold clamp
  split
  · simp only [Scalar.confine, if_neg hnotlower, if_neg hnotupper]
  · simp only [Scalar.clamp, if_pos hlower, if_pos hupper, ite_self]

theorem blocks_of_between (hlower : r.lower < a) (hupper : a < r.upper) (v : Exact) :
    r.blocks a v = false := by
  simp [blocks, Exact.not_le_of_lt hlower, Exact.not_le_of_lt hupper]

end Range

variable {n : ℕ}

namespace Bounds

/-- Whether every component lies strictly between its bounds. -/
def Surround (b : Bounds Exact n) (x : Vec Exact n) : Prop :=
  ∀ i, (b.get i).lower < x.get i ∧ x.get i < (b.get i).upper

variable {b : Bounds Exact n} {x : Vec Exact n}

theorem Surround.clamp (h : b.Surround x) : b.clamp x = x := by
  ext i
  rw [Bounds.clamp, Vec.get_zipWith, Range.clamp_of_between (h i).1 (h i).2]

theorem Surround.cleared (h : b.Surround x) (v a : Vec Exact n) :
    Bounds.cleared (b.blocked x v) a = a := by
  ext i
  simp [Bounds.cleared, blocked, Range.blocks_of_between (h i).1 (h i).2]

/-- No step but a number leads along a direction to a point inside the bounds. -/
theorem Surround.exists_step {p : Precision} {x d : Fin n → ℝ} {step : Exact} (hne : d ≠ 0)
    (h : b.Surround (Vec.combine p 1 (.ofReals x) step (.ofReals d))) :
    ∃ t, step = .real t := by
  obtain ⟨i, hi⟩ := Function.ne_iff.mp hne
  have hi : d i ≠ 0 := hi
  obtain ⟨r, hr⟩ := Exact.exists_real_of_between (h i).1 (h i).2
  -- A step that vanishes is a number; any other one is taken along the component.
  have hget : ¬ Scalar.equal step 0 = true → Exact.real (x i) + step * .real (d i) = .real r := by
    intro hnonzero
    rw [← hr]
    simp [Vec.combine, Vec.addScaled, Vec.scale, Exact.one_eq, hnonzero]
  cases step with
  | real t => exact ⟨t, rfl⟩
  | infinite negative =>
    have hproduct : Exact.infinite negative * .real (d i) =
        .infinite (negative ^^ decide (d i < 0)) := if_neg hi
    rw [hproduct] at hget
    cases hget fun hzero => by
      obtain ⟨hle, hge⟩ := (Exact.equal_iff _ _).mp hzero
      cases hle.symm.trans hge
  | undefined => cases hget fun hzero => ((Exact.equal_iff _ _).mp hzero).1

/-- A path from inside the bounds rests after every step that ends inside. -/
theorem Surround.lt_shortcutStep {p : Precision} {x d : Fin n → ℝ} {step : Exact}
    (h : b.Surround (.ofReals x)) (hne : d ≠ 0)
    (hstep : b.Surround (Vec.combine p 1 (.ofReals x) step (.ofReals d))) :
    step < b.shortcutStep p p (.ofReals x) (.ofReals d) := by
  obtain ⟨t, rfl⟩ := Surround.exists_step hne hstep
  rcases le_or_gt 0 t with ht | ht
  · rw [Vec.combine_ofReals] at hstep
    have hbetween : ∀ i, (b.get i).lower < .real (x i + t * d i) ∧
        .real (x i + t * d i) < (b.get i).upper := by
      intro i
      have hi := hstep i
      rwa [Vec.get_ofReals] at hi
    exact FeasibleSet.lt_shortcutStep ht (fun i _ => (hbetween i).2) (fun i _ => (hbetween i).1)
      hne
  · have hpositive : Exact.real 0 < b.shortcutStep p p (.ofReals x) (.ofReals d) := by
      refine FeasibleSet.lt_shortcutStep le_rfl (fun i _ => ?_) (fun i _ => ?_) hne
      · simpa using (h i).2
      · simpa using (h i).1
    exact Exact.lt_of_le_of_lt ((Exact.real_le t 0).mpr ht.le) hpositive

end Bounds

namespace Box

variable {box : Box Exact} {shape : Shape} {x : Vec Exact shape.size}

/-- Whether every component lies strictly between its bounds. -/
def Surrounds (box : Box Exact) (shape : Shape) (x : Vec Exact shape.size) : Prop :=
  ∀ i, (box.lower.spread shape).get i < x.get i ∧ x.get i < (box.upper.spread shape).get i

theorem Surrounds.surround_ranges (h : box.Surrounds shape x) (p : Precision) :
    (box.ranges shape p).Surround x := by
  intro i
  rw [get_ranges]
  exact h i

end Box

end

end VariableMetric
