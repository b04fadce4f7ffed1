import VariableMetric.FeasibleSet.Domain
import VariableMetric.Proofs.FeasibleSet.Box
import VariableMetric.Proofs.FeasibleSet.Confines

/-!
# Boxes of real vectors

In exact arithmetic a range keeps a component in an interval, which reaches to
infinity where there is no bound.  A component is blocked exactly if it is stuck along
the opposite, and one that can move reaches its bound at a positive step.  So a box
confines real vectors, as long as it has room for them: no lower bound may be infinite
and no upper one the opposite of that.
-/

namespace VariableMetric

noncomputable section

variable {n : ℕ}

/-! ## One component of a box -/

namespace Range

/-- The real numbers in a range. -/
def reals (r : Range Exact) : Set ℝ := {a | r.lower ≤ .real a ∧ .real a ≤ r.upper}

/-- A range with real numbers in it begins at one of them or has no beginning, and
likewise for its end. -/
inductive Shape : Range Exact → Prop
  | closed (l u : ℝ) (keeps : Bool) : l ≤ u → Shape ⟨.real l, .real u, keeps⟩
  | above (l : ℝ) (keeps : Bool) : Shape ⟨.real l, .infinite false, keeps⟩
  | below (u : ℝ) (keeps : Bool) : Shape ⟨.infinite true, .real u, keeps⟩
  | all (keeps : Bool) : Shape ⟨.infinite true, .infinite false, keeps⟩

theorem shape_of_mem_reals {r : Range Exact} {z : ℝ} (hz : z ∈ r.reals) : r.Shape := by
  obtain ⟨lower, upper, keeps⟩ := r
  obtain ⟨hlower, hupper⟩ := hz
  cases lower with
  | undefined => exact absurd hlower id
  | real l => cases upper with
    | undefined => exact absurd hupper id
    | real u => exact .closed l u keeps (le_trans (α := ℝ) hlower hupper)
    | infinite negative =>
      obtain rfl : negative = false := hupper
      exact .above l keeps
  | infinite negative =>
    obtain rfl : negative = true := hlower
    cases upper with
    | undefined => exact absurd hupper id
    | real u => exact .below u keeps
    | infinite negative =>
      obtain rfl : negative = false := hupper
      exact .all keeps

variable {r : Range Exact}

theorem le_real_of_le {a : Exact} {x z : ℝ} (h : a ≤ .real x) (hxz : x ≤ z) : a ≤ .real z := by
  cases a with
  | real l => exact le_trans (α := ℝ) h hxz
  | infinite negative => exact h
  | undefined => exact absurd h id

theorem real_le_of_le {a : Exact} {y z : ℝ} (h : .real y ≤ a) (hzy : z ≤ y) : .real z ≤ a := by
  cases a with
  | real u => exact le_trans (α := ℝ) hzy h
  | infinite negative => exact h
  | undefined => exact absurd h id

theorem ordConnected_reals (r : Range Exact) : r.reals.OrdConnected :=
  ⟨fun _ hx _ hy _ hz => ⟨le_real_of_le hx.1 hz.1, real_le_of_le hy.2 hz.2⟩⟩

/-- At equality it makes no difference whether the component or the bound is taken. -/
theorem clamp_eq_least_greatest (r : Range Exact) (a : ℝ) :
    r.clamp (.real a) = Scalar.least (Scalar.greatest (.real a) r.lower) r.upper ∨
      r.clamp (.real a) = Scalar.least r.upper (Scalar.greatest r.lower (.real a)) := by
  unfold clamp
  split
  · exact .inl rfl
  · right
    rw [Scalar.clamp, if_neg (by simp)]
    rfl

theorem Shape.clamp_real (h : r.Shape) (a : ℝ) :
    ∃ b, r.clamp (.real a) = .real b ∧ b ∈ r.reals ∧ (a ∈ r.reals → b = a) := by
  have hclamp := r.clamp_eq_least_greatest a
  cases h with
  | closed l u keeps hle =>
    refine ⟨min (max a l) u, ?_, ⟨?_, ?_⟩, ?_⟩
    · simpa [max_comm l, min_comm u] using hclamp
    · exact le_min (le_max_right a l) hle
    · exact min_le_right _ u
    · rintro ⟨hlower, hupper⟩
      rw [Exact.real_le] at hlower hupper
      rw [max_eq_left hlower, min_eq_left hupper]
  | above l keeps =>
    refine ⟨max a l, ?_, ⟨le_max_right a l, rfl⟩, ?_⟩
    · simpa [max_comm l] using hclamp
    · rintro ⟨hlower, -⟩
      exact max_eq_left hlower
  | below u keeps =>
    refine ⟨min a u, ?_, ⟨rfl, min_le_right a u⟩, ?_⟩
    · simpa [min_comm u] using hclamp
    · rintro ⟨-, hupper⟩
      exact min_eq_left hupper
  | all keeps => exact ⟨a, by simpa using hclamp, ⟨rfl, rfl⟩, fun _ => rfl⟩

theorem le_of_real_le_of_le_real {a : Exact} {x z : ℝ} (h : .real x ≤ a) (h' : a ≤ .real z) :
    x ≤ z := by
  cases a with
  | real b => exact le_trans (α := ℝ) h h'
  | infinite negative => cases h.symm.trans h'
  | undefined => exact absurd h id

/-- Above a bound there is room down to a number that is not below it. -/
theorem exists_lt_of_not_le {a : Exact} {x : ℝ} (h : a ≤ .real x) (hnot : ¬ .real x ≤ a) :
    ∃ l < x, a ≤ .real l := by
  cases a with
  | real l =>
    rw [Exact.real_le, not_le] at hnot
    exact ⟨l, hnot, le_refl l⟩
  | infinite negative => exact ⟨x - 1, sub_one_lt x, h⟩
  | undefined => exact absurd h id

theorem exists_gt_of_not_le {a : Exact} {x : ℝ} (h : .real x ≤ a) (hnot : ¬ a ≤ .real x) :
    ∃ u > x, .real u ≤ a := by
  cases a with
  | real u =>
    rw [Exact.real_le, not_le] at hnot
    exact ⟨u, hnot, le_refl u⟩
  | infinite negative => exact ⟨x + 1, lt_add_one x, h⟩
  | undefined => exact absurd h id

theorem blocks_real_iff (r : Range Exact) (x v : ℝ) :
    r.blocks (.real x) (.real v) = true ↔
      (.real x ≤ r.lower ∧ 0 < v) ∨ (r.upper ≤ .real x ∧ v < 0) := by
  simp [blocks, Exact.zero_eq]

/-- A component is blocked exactly if it is stuck along the opposite. -/
theorem blocks_iff_not_loose {x : ℝ} (hx : x ∈ r.reals) (v : ℝ) :
    r.blocks (.real x) (.real v) = true ↔ ¬ Loose r.reals x (-v) := by
  rw [blocks_real_iff]
  constructor
  · rintro (⟨hlower, hv⟩ | ⟨hupper, hv⟩) ⟨t, ht, hmem⟩
    · have hback := le_of_real_le_of_le_real hlower hmem.1
      nlinarith
    · have hforth := le_of_real_le_of_le_real hmem.2 hupper
      nlinarith
  · intro hstuck
    by_contra hnot
    rw [not_or] at hnot
    apply hstuck
    rcases lt_trichotomy v 0 with hv | rfl | hv
    · obtain ⟨u, hu, hle⟩ := exists_gt_of_not_le hx.2 fun h => hnot.2 ⟨h, hv⟩
      refine ⟨(u - x) / -v, div_pos (sub_pos.mpr hu) (neg_pos.mpr hv), ?_⟩
      rw [div_mul_cancel₀ _ (neg_ne_zero.mpr hv.ne), add_sub_cancel]
      exact ⟨le_real_of_le hx.1 hu.le, hle⟩
    · exact ⟨1, one_pos, by simpa using hx⟩
    · obtain ⟨l, hl, hle⟩ := exists_lt_of_not_le hx.1 fun h => hnot.1 ⟨h, hv⟩
      refine ⟨(l - x) / -v, div_pos_of_neg_of_neg (sub_neg.mpr hl) (neg_neg_of_pos hv), ?_⟩
      rw [div_mul_cancel₀ _ (neg_ne_zero.mpr hv.ne'), add_sub_cancel]
      exact ⟨hle, real_le_of_le hx.2 hl.le⟩

theorem lt_upper_of_loose {x d : ℝ} (hx : x ∈ r.reals) (hd : 0 < d)
    (h : Loose r.reals x d) : .real x < r.upper := by
  refine Exact.lt_of_le_of_not_le hx.2 fun hle => ?_
  have hblocked := (blocks_real_iff r x (-d)).mpr (.inr ⟨hle, neg_neg_of_pos hd⟩)
  rw [blocks_iff_not_loose hx, neg_neg] at hblocked
  exact hblocked h

theorem lower_lt_of_loose {x d : ℝ} (hx : x ∈ r.reals) (hd : d < 0)
    (h : Loose r.reals x d) : r.lower < .real x := by
  refine Exact.lt_of_le_of_not_le hx.1 fun hle => ?_
  have hblocked := (blocks_real_iff r x (-d)).mpr (.inl ⟨hle, neg_pos.mpr hd⟩)
  rw [blocks_iff_not_loose hx, neg_neg] at hblocked
  exact hblocked h

/-- A component that rises reaches its upper bound after every step that ends below. -/
theorem lt_breakpoint_upper (p q : Precision) {x d a : ℝ} (hd : 0 < d)
    (h : .real (x + a * d) < r.upper) :
    .real a < Bounds.breakpoint p q r.upper (.real x) (.real d) := by
  simp only [Bounds.breakpoint, Exact.round_eq]
  cases hr : r.upper with
  | real u =>
    rw [hr, Exact.real_lt] at h
    rw [Exact.real_sub, Exact.real_div _ hd.ne', Exact.real_lt, lt_div_iff₀ hd]
    linarith
  | infinite negative =>
    rw [hr, Exact.real_lt_infinite] at h
    rw [Exact.infinite_sub_real, Exact.infinite_div_real _ hd.ne', Exact.real_lt_infinite, h]
    simpa using hd.le
  | undefined =>
    rw [hr] at h
    exact absurd h id

theorem lt_breakpoint_lower (p q : Precision) {x d a : ℝ} (hd : d < 0)
    (h : r.lower < .real (x + a * d)) :
    .real a < Bounds.breakpoint p q r.lower (.real x) (.real d) := by
  simp only [Bounds.breakpoint, Exact.round_eq]
  cases hr : r.lower with
  | real l =>
    rw [hr, Exact.real_lt] at h
    rw [Exact.real_sub, Exact.real_div _ hd.ne, Exact.real_lt, lt_div_iff_of_neg hd]
    linarith
  | infinite negative =>
    rw [hr] at h
    obtain rfl : negative = true := h
    rw [Exact.infinite_sub_real, Exact.infinite_div_real _ hd.ne, Exact.real_lt_infinite]
    simpa using hd
  | undefined =>
    rw [hr] at h
    exact absurd h id

end Range

namespace FeasibleSet

/-! ## Boxes -/

section Box

variable {p : Precision} {b : Bounds Exact n} {x d : Fin n → ℝ}

theorem get_blocked (b : Bounds Exact n) (x v : Fin n → ℝ) (i : Fin n) :
    (b.blocked (.ofReals x) (.ofReals v)).get i = (b.get i).blocks (.real (x i)) (.real (v i)) := by
  simp [Bounds.blocked]

/-- Clearing what is blocked for a move along the opposite of `v` leaves what is loose
along that opposite. -/
theorem cleared_blocked (hx : ∀ i, x i ∈ (b.get i).reals) (v a : Fin n → ℝ) :
    Bounds.cleared (b.blocked (.ofReals x) (.ofReals v)) (.ofReals a) =
      .ofReals (loosened (fun i => (b.get i).reals) x (-v) a) := by
  ext i
  have hiff := Range.blocks_iff_not_loose (hx i) (v i)
  rw [Bounds.cleared, Vec.get_zipWith, get_blocked, Vec.get_ofReals, Vec.get_ofReals, loosened]
  by_cases hloose : Loose (b.get i).reals (x i) (-v i)
  · rw [if_pos (show Loose _ _ ((-v) i) from hloose), if_neg fun h => hiff.mp h hloose]
  · rw [if_neg (show ¬ Loose _ _ ((-v) i) from hloose), if_pos (hiff.mpr hloose)]
    rfl

theorem lt_greatest {t : ℝ} (ht : 0 ≤ t) {a c : Exact} (ha : a = 0 ∨ .real t < a)
    (hc : .real t < c) : .real t < Scalar.greatest a c := by
  unfold Scalar.greatest
  split
  next => exact hc
  next hnot =>
    rcases ha with rfl | ha
    · exact absurd (Exact.lt_of_le_of_lt ((Exact.real_le 0 t).mpr ht) hc) hnot
    · exact ha

theorem lt_withLargest {t : ℝ} (ht : 0 ≤ t) {step : Exact} {l : List Exact}
    (hstep : step = 0 ∨ .real t < step) (hl : ∀ a ∈ l, .real t < a)
    (hsome : .real t < step ∨ l ≠ []) : .real t < Bounds.withLargest step l := by
  cases l with
  | nil => exact hsome.resolve_right fun hne => hne rfl
  | cons first rest =>
    exact lt_greatest ht hstep (hl _ (Scalar.supremum_mem first rest))

theorem mem_components {c : Range Exact × Exact × Exact} :
    c ∈ b.components (.ofReals x) (.ofReals d) ↔
      ∃ i, c = (b.get i, .real (x i), .real (d i)) := by
  have hget : ∀ i, (Vec.zipWith Prod.mk b
      (Vec.zipWith Prod.mk (.ofReals x) (.ofReals d))).get i =
        (b.get i, .real (x i), .real (d i)) := fun i => by simp
  constructor
  · intro hc
    obtain ⟨i, hi⟩ := Vec.exists_get_of_mem hc
    exact ⟨i, by rw [← hi, hget]⟩
  · rintro ⟨i, rfl⟩
    rw [← hget]
    exact Vec.get_mem _ i

/-- The last component comes to rest after every step from which no component that moves
has reached its bound. -/
theorem lt_shortcutStep {t : ℝ} (ht : 0 ≤ t)
    (hupper : ∀ i, 0 < d i → .real (x i + t * d i) < (b.get i).upper)
    (hlower : ∀ i, d i < 0 → (b.get i).lower < .real (x i + t * d i)) (hne : d ≠ 0) :
    .real t < b.shortcutStep p p (.ofReals x) (.ofReals d) := by
  obtain ⟨j, hj⟩ := Function.ne_iff.mp hne
  have hmem : (b.get j, Exact.real (x j), Exact.real (d j)) ∈
      b.components (.ofReals x) (.ofReals d) := mem_components.mpr ⟨j, rfl⟩
  unfold Bounds.shortcutStep
  dsimp only
  set rising := (b.components (.ofReals x) (.ofReals d)).filterMap fun (r, x, d) =>
    if 0 < d then some (Bounds.breakpoint p p r.upper x d) else none with hrising
  set falling := (b.components (.ofReals x) (.ofReals d)).filterMap fun (r, x, d) =>
    if d < 0 then some (Bounds.breakpoint p p r.lower x d) else none with hfalling
  -- Components come to rest after that step only, and at least one of them moves.
  have hrises : ∀ a ∈ rising, .real t < a := by
    intro a ha
    obtain ⟨c, hc, hstep⟩ := List.mem_filterMap.mp ha
    obtain ⟨i, rfl⟩ := mem_components.mp hc
    obtain ⟨hpos, ⟨⟩⟩ := Option.ite_none_right_eq_some.mp hstep
    have hpos : 0 < d i := hpos
    exact Range.lt_breakpoint_upper p p hpos (hupper i hpos)
  have hfalls : ∀ a ∈ falling, .real t < a := by
    intro a ha
    obtain ⟨c, hc, hstep⟩ := List.mem_filterMap.mp ha
    obtain ⟨i, rfl⟩ := mem_components.mp hc
    obtain ⟨hneg, ⟨⟩⟩ := Option.ite_none_right_eq_some.mp hstep
    have hneg : d i < 0 := hneg
    exact Range.lt_breakpoint_lower p p hneg (hlower i hneg)
  have hfirst : Bounds.withLargest 0 rising = 0 ∨ .real t < Bounds.withLargest 0 rising := by
    by_cases hnil : rising = []
    · exact .inl (by rw [hnil]; rfl)
    · exact .inr (lt_withLargest ht (.inl rfl) hrises (.inr hnil))
  refine lt_withLargest ht hfirst hfalls ?_
  rcases lt_or_gt_of_ne hj with hneg | hpos
  · right
    apply List.ne_nil_of_mem
    rw [hfalling]
    exact List.mem_filterMap.mpr ⟨_, hmem, if_pos hneg⟩
  · left
    refine lt_withLargest ht (.inl rfl) hrises (.inr ?_)
    apply List.ne_nil_of_mem
    rw [hrising]
    exact List.mem_filterMap.mpr ⟨_, hmem, if_pos hpos⟩

/-- The step at which the last component comes to rest is positive if some component
moves and all that move can. -/
theorem shortcutStep_pos (hx : ∀ i, x i ∈ (b.get i).reals)
    (hd : ∀ i, d i ≠ 0 → Loose (b.get i).reals (x i) (d i)) (hne : d ≠ 0) :
    0 < b.shortcutStep p p (.ofReals x) (.ofReals d) := by
  refine lt_shortcutStep le_rfl (fun i hi => ?_) (fun i hi => ?_) hne
  · rw [zero_mul, add_zero]
    exact Range.lt_upper_of_loose (hx i) hi (hd i hi.ne')
  · rw [zero_mul, add_zero]
    exact Range.lower_lt_of_loose (hx i) hi (hd i hi.ne)

/-- Bounds confine real vectors if there is a real number between any two of them. -/
theorem within_confines (hreal : ∀ i, (b.get i).reals.Nonempty) :
    (within p b).Confines fun i => (b.get i).reals where
  ordConnected i := (b.get i).ordConnected_reals
  point x := by
    have hclamp : ∀ i, ∃ c, (b.get i).clamp (.real (x i)) = .real c ∧ c ∈ (b.get i).reals ∧
        (x i ∈ (b.get i).reals → c = x i) := by
      intro i
      obtain ⟨z, hz⟩ := hreal i
      exact (Range.shape_of_mem_reals hz).clamp_real (x i)
    choose y hy hmem hsame using hclamp
    refine ⟨y, ?_, hmem, fun hx => funext fun i => hsame i (hx i)⟩
    have hvec : b.clamp (.ofReals x) = .ofReals y := by
      ext i
      simp [Bounds.clamp, hy]
    rw [← hvec]
    rfl
  gradient x g hx := by
    rw [← cleared_blocked hx g g]
    rfl
  direction x d hx := by
    have hopposite : (Vec.ofReals d).map (fun a => -a) = .ofReals (-d) := by
      ext i
      simp
    have hcleared := cleared_blocked hx (-d) d
    rw [neg_neg, ← hopposite] at hcleared
    rw [← hcleared]
    rfl
  shortcut x d hx hd hne := ⟨_, rfl, shortcutStep_pos hx hd hne⟩
  initial x d lengths := rfl

end Box

end FeasibleSet

/-! ## Domains -/

theorem Range.Ordered.nonempty_reals {r : Range Exact} (h : r.Ordered)
    (hlower : r.lower ≠ .infinite false) (hupper : r.upper ≠ .infinite true) :
    r.reals.Nonempty := by
  obtain ⟨lower, upper, keeps⟩ := r
  have hle := h.lower_le_upper
  cases lower with
  | undefined => exact absurd hle id
  | real l => exact ⟨l, le_refl l, hle⟩
  | infinite negative =>
    cases negative with
    | false => exact absurd rfl hlower
    | true => cases upper with
      | undefined => exact absurd hle id
      | real u => exact ⟨u, rfl, le_refl u⟩
      | infinite negative => cases negative with
        | false => exact ⟨0, rfl, rfl⟩
        | true => exact absurd rfl hupper

namespace Domain

variable {shape : Shape} {d : Domain Exact}

/-- The whole space, or a box with room for real vectors. -/
inductive Proper (shape : Shape) : Domain Exact → Prop
  | unconstrained : Proper shape .unconstrained
  | box {lower upper : Tensor Exact} {b : Box Exact} (hnew : Box.new lower upper = .ok b)
      (hlower : lower.shape.broadcastsTo shape = true)
      (hupper : upper.shape.broadcastsTo shape = true)
      (hbelow : Scalar.infinity ∉ lower.toList) (habove : -Scalar.infinity ∉ upper.toList) :
      Proper shape (.box b)

/-- The intervals that a domain leaves to the components. -/
def intervals (d : Domain Exact) (shape : Shape) (p : Precision) : Fin shape.size → Set ℝ :=
  match d with
  | .box b => fun i => ((b.ranges shape p).get i).reals
  | _ => fun _ => Set.univ

theorem Proper.confines (h : d.Proper shape) (p : Precision) :
    (d.toSet shape p).Confines (d.intervals shape p) := by
  cases h with
  | unconstrained => exact FeasibleSet.unconstrained_confines
  | @box lower upper b hnew hlower hupper hbelow habove =>
    obtain ⟨rfl, -⟩ := Box.of_new_eq_ok hnew
    have hset : (Domain.box ⟨lower, upper⟩).toSet shape p =
        .within p (Box.ranges ⟨lower, upper⟩ shape p) := Box.toSet_eq hlower hupper
    rw [hset]
    refine FeasibleSet.within_confines fun i => ?_
    apply (Box.ordered_ranges hnew hlower hupper i).nonempty_reals
    · rw [Box.get_ranges]
      intro heq
      have hmem := lower.get_spread_mem (Shape.fits_of_broadcastsTo hlower) i
      rw [show (lower.spread shape).get i = Scalar.infinity from heq] at hmem
      exact hbelow hmem
    · rw [Box.get_ranges]
      intro heq
      have hmem := upper.get_spread_mem (Shape.fits_of_broadcastsTo hupper) i
      rw [show (upper.spread shape).get i = -Scalar.infinity from heq] at hmem
      exact habove hmem

end Domain

end

end VariableMetric
