import VariableMetric.Proofs.FeasibleSet.RealBox
import VariableMetric.Proofs.Memory.Rescaling

/-!
# Sets and rescaled gradients

A set drops from the multiple of a gradient what it drops from the gradient itself, and a
path that is walked along `u` times as fast comes to rest after `u⁻¹` times the step.  A
component between two equal bounds is pinned: its gradient is dropped, whatever it is, and
it never moves.  So a set does not tell apart gradients that differ in pinned components.
-/

namespace VariableMetric

noncomputable section

variable {n : ℕ} {P : Finset (Fin n)} {b : Fin n → ℝ} {c u : ℝ}

/-- A vector that has given real numbers in some components. -/
def Vec.PinnedAt (P : Finset (Fin n)) (b : Fin n → ℝ) (x : Vec Exact n) : Prop :=
  ∀ i ∈ P, x.get i = .real (b i)

theorem Vec.pinnedAt_empty (b : Fin n → ℝ) (x : Vec Exact n) : Vec.PinnedAt ∅ b x :=
  fun i hi => absurd hi (Finset.notMem_empty i)

/-- Pinned components do not differ. -/
theorem Vec.PinnedAt.difference {x y : Vec Exact n} (hx : PinnedAt P b x) (hy : PinnedAt P b y)
    (p : Precision) : NullOn P (Vec.difference p x y) := by
  intro i hi
  left
  simp only [Vec.difference, scale, get_zipWith, get_map, Exact.round_eq, hx i hi, hy i hi]
  show Exact.real (b i * 1 + -1 * b i) = .real 0
  congr 1
  ring

/-- A projected gradient and that of a rescaled one, which vanish in the pinned components. -/
structure Vec.ProjectedAlike (P : Finset (Fin n)) (c : ℝ) (v v' : Vec Exact n) : Prop where
  scaled : v' = c • v
  pinned : ∀ i ∈ P, v.get i = 0

theorem Vec.ProjectedAlike.nullOn_support {v v' : Vec Exact n} (h : v.ProjectedAlike P c v') :
    NullOn P v.support := by
  intro i hi
  left
  rw [support, get_map, h.pinned i hi]
  exact if_pos ((Exact.equal_iff 0 0).mpr ⟨le_refl (0 : ℝ), le_refl (0 : ℝ)⟩)

namespace FeasibleSet

/-- What a set that pins some components makes of rescaled gradients and directions. -/
structure Rescales (S : FeasibleSet Exact n) (P : Finset (Fin n)) (b : Fin n → ℝ) : Prop where
  gradient : ∀ {x g g' : Vec Exact n} {c : ℝ}, x.PinnedAt P b → 0 < c → g.ScaledOff P c g' →
    g.FiniteOn P → Agree (Vec.ProjectedAlike P c) (S.projectGradient x g) (S.projectGradient x g')
  direction : ∀ {x d d' : Vec Exact n}, x.PinnedAt P b → S.projectDirection x d = .ok d' →
    d.NullOn P → d'.NullOn P
  shortcut : ∀ (x d : Vec Exact n) {u : ℝ}, 0 < u →
    S.shortcutStep x (u • d) = (S.shortcutStep x d).map (u⁻¹ • ·)
  initial : ∀ (x d : Vec Exact n) (lengths : Exact × Exact) {u : ℝ}, 0 < u →
    S.initialStep x (u • d) lengths = (S.initialStep x d lengths).map (u⁻¹ • ·)

/-! ## The first step and the free step -/

theorem firstStep_smul (hu : 0 < u) (x d : Vec Exact n) (lengths : Exact × Exact) :
    firstStep x (u • d) lengths = u⁻¹ • firstStep x d lengths := by
  unfold firstStep
  rw [Vec.norm_smul hu]
  dsimp only
  simp only [Exact.smul_nonpos_iff hu]
  split
  · exact (Exact.smul_zero _).symm
  · generalize (if Scalar.greatest (lengths.1 * x.norm) lengths.2 ≤ 0 then (1 : Exact)
      else Scalar.greatest (lengths.1 * x.norm) lengths.2) = length
    have hdivided := Exact.smul_div_smul one_pos hu length d.norm
    rwa [one_smul, one_div u] at hdivided

theorem freeStep_smul (hu : 0 < u) (d : Vec Exact n) : freeStep (u • d) = u⁻¹ • freeStep d := by
  have hany : (u • d).any (fun a => !Scalar.equal a 0) = d.any fun a => !Scalar.equal a 0 := by
    rw [Vec.any, Vec.any, Vec.toList_smul, List.any_map]
    congr 1
    funext a
    exact congrArg (! ·) (Exact.equal_smul_zero hu a)
  unfold freeStep
  rw [hany]
  split
  · exact (Exact.smul_infinite (inv_pos.mpr hu) false).symm
  · exact (Exact.smul_zero _).symm

/-! ## Sets that pin nothing -/

theorem projectedAlike_of_scaledOff {g g' : Vec Exact n} (h : g.ScaledOff ∅ c g') :
    g.ProjectedAlike ∅ c g' where
  scaled := h.eq_smul
  pinned i hi := absurd hi (Finset.notMem_empty i)

theorem nullOn_empty (d : Vec Exact n) : d.NullOn ∅ :=
  fun i hi => absurd hi (Finset.notMem_empty i)

theorem rescales_unconstrained (b : Fin n → ℝ) :
    (unconstrained : FeasibleSet Exact n).Rescales ∅ b where
  gradient _ _ h _ := projectedAlike_of_scaledOff h
  direction _ _ _ := nullOn_empty _
  shortcut _ d _ hu := congrArg Except.ok (freeStep_smul hu d)
  initial x d lengths _ hu := congrArg Except.ok (firstStep_smul hu x d lengths)

theorem rescales_undefined (b : Fin n → ℝ) : (undefined : FeasibleSet Exact n).Rescales ∅ b where
  gradient _ _ _ _ := rfl
  direction _ _ _ := nullOn_empty _
  shortcut _ _ _ _ := rfl
  initial x d lengths _ hu := congrArg Except.ok (firstStep_smul hu x d lengths)

theorem rescales_resting (b : Fin n → ℝ) : (resting : FeasibleSet Exact n).Rescales ∅ b :=
  { rescales_unconstrained b with
    direction := fun _ _ _ => nullOn_empty _
    shortcut := fun _ _ _ _ => congrArg Except.ok (Exact.smul_zero _).symm }

theorem rescales_flipping (b : Fin n → ℝ) : (flipping : FeasibleSet Exact n).Rescales ∅ b :=
  { rescales_unconstrained b with direction := fun _ _ _ => nullOn_empty _ }

end FeasibleSet

/-! ## Bounds -/

namespace Range

theorem blocks_smul (hc : 0 < c) (r : Range Exact) (x v : Exact) :
    r.blocks x (c • v) = r.blocks x v := by
  unfold blocks
  simp only [Exact.smul_pos_iff hc, Exact.smul_neg_iff hc]

/-- At a pinned component a number is blocked unless it is zero. -/
theorem blocks_of_pinned {r : Range Exact} {z : ℝ} (hlower : r.lower = .real z)
    (hupper : r.upper = .real z) (v : ℝ) (hv : v ≠ 0) : r.blocks (.real z) (.real v) = true := by
  unfold blocks
  rw [hlower, hupper]
  rcases lt_or_gt_of_ne hv with hneg | hpos
  · simp [Exact.zero_eq, hneg]
  · simp [Exact.zero_eq, hpos]

end Range

namespace Bounds

variable {bounds : Bounds Exact n}

/-- Bounds that leave only one real number to some components. -/
def PinsAt (bounds : Bounds Exact n) (P : Finset (Fin n)) (b : Fin n → ℝ) : Prop :=
  ∀ i ∈ P, (bounds.get i).lower = .real (b i) ∧ (bounds.get i).upper = .real (b i)

theorem pinsAt_empty (bounds : Bounds Exact n) (b : Fin n → ℝ) : bounds.PinsAt ∅ b :=
  fun i hi => absurd hi (Finset.notMem_empty i)

theorem get_blocked (x v : Vec Exact n) (i : Fin n) :
    (bounds.blocked x v).get i = (bounds.get i).blocks (x.get i) (v.get i) := by
  simp [blocked]

theorem get_cleared (marks : Vec Bool n) (v : Vec Exact n) (i : Fin n) :
    (cleared marks v).get i = if marks.get i = true then 0 else v.get i := by
  simp [cleared]

theorem PinsAt.projectGradient (hpins : bounds.PinsAt P b) {x g g' : Vec Exact n}
    (hx : x.PinnedAt P b) (hc : 0 < c) (hg : g.ScaledOff P c g') (hfinite : g.FiniteOn P) :
    (bounds.projectGradient x g).ProjectedAlike P c (bounds.projectGradient x g') := by
  have hdropped : ∀ v : Vec Exact n, v.FiniteOn P → ∀ i ∈ P,
      (bounds.projectGradient x v).get i = 0 := by
    intro v hv i hi
    obtain ⟨hlower, hupper⟩ := hpins i hi
    obtain ⟨a, ha⟩ := Exact.exists_real_of_isFinite (hv i hi)
    rw [Bounds.projectGradient, get_cleared, get_blocked, hx i hi, ha]
    by_cases hzero : a = 0
    · rw [hzero, ← Exact.zero_eq, ite_self]
    · rw [if_pos (Range.blocks_of_pinned hlower hupper a hzero)]
  refine ⟨?_, hdropped g hfinite⟩
  ext i
  rw [Vec.get_smul]
  by_cases hi : i ∈ P
  · rw [hdropped g hfinite i hi, hdropped g' (hg.finiteOn hfinite) i hi, Exact.smul_zero]
  · rw [Bounds.projectGradient, Bounds.projectGradient, get_cleared, get_cleared, get_blocked,
      get_blocked, hg.shown i hi, Range.blocks_smul hc]
    split
    · exact (Exact.smul_zero c).symm
    · rfl

theorem nullOn_projectDirection {x d : Vec Exact n} (hd : d.NullOn P) :
    (bounds.projectDirection x d).NullOn P := by
  intro i hi
  rw [projectDirection, get_cleared]
  split
  · exact Exact.isNull_zero
  · exact hd i hi

theorem components_smul (x d : Vec Exact n) :
    bounds.components x (u • d) =
      (bounds.components x d).map fun part => (part.1, part.2.1, u • part.2.2) := by
  have hzip : Vec.zipWith Prod.mk bounds (Vec.zipWith Prod.mk x (u • d)) =
      (Vec.zipWith Prod.mk bounds (Vec.zipWith Prod.mk x d)).map
        fun part => (part.1, part.2.1, u • part.2.2) := by
    refine Vec.ext fun i => ?_
    simp
  exact congrArg Vec.toList hzip

variable (hu : 0 < u)

include hu

theorem breakpoint_smul (p q : Precision) (bound x d : Exact) :
    breakpoint p q bound x (u • d) = u⁻¹ • breakpoint p q bound x d := by
  have hdivided := Exact.smul_div_smul one_pos hu (bound - x) d
  rwa [one_smul, one_div u] at hdivided

theorem withLargest_smul (step : Exact) (l : List Exact) :
    withLargest (u⁻¹ • step) (l.map (u⁻¹ • ·)) = u⁻¹ • withLargest step l := by
  cases l with
  | nil => rfl
  | cons first rest =>
    show Scalar.greatest (u⁻¹ • step) (Scalar.supremum (u⁻¹ • first) (rest.map (u⁻¹ • ·))) = _
    rw [Exact.supremum_smul (inv_pos.mpr hu), Exact.greatest_smul (inv_pos.mpr hu)]
    rfl

theorem shortcutStep_smul (p : Precision) (x d : Vec Exact n) :
    bounds.shortcutStep p p x (u • d) = u⁻¹ • bounds.shortcutStep p p x d := by
  -- The same components rise and fall, and reach their bounds after `u⁻¹` times the step.
  have hsteps : ∀ (moves : Exact → Prop) [DecidablePred moves] (bound : Range Exact → Exact),
      (∀ a, moves (u • a) ↔ moves a) →
      ((bounds.components x (u • d)).filterMap fun (r, x, d) =>
        if moves d then some (breakpoint p p (bound r) x d) else none) =
      ((bounds.components x d).filterMap fun (r, x, d) =>
        if moves d then some (breakpoint p p (bound r) x d) else none).map (u⁻¹ • ·) := by
    intro moves _ bound hmoves
    rw [components_smul, List.filterMap_map, List.map_filterMap]
    congr 1
    funext part
    simp only [Function.comp_apply, hmoves, breakpoint_smul hu]
    split <;> rfl
  have hrising := hsteps (0 < ·) Range.upper (Exact.smul_pos_iff hu)
  have hfalling := hsteps (· < 0) Range.lower (Exact.smul_neg_iff hu)
  unfold shortcutStep
  dsimp only at hrising hfalling ⊢
  rw [hrising, hfalling, ← withLargest_smul hu, ← withLargest_smul hu, Exact.smul_zero]

omit hu in
theorem PinsAt.rescales (hpins : bounds.PinsAt P b) (p : Precision) :
    (FeasibleSet.within p bounds).Rescales P b where
  gradient hx hc hg hfinite := hpins.projectGradient hx hc hg hfinite
  direction _ hd hnull := by
    cases hd
    exact nullOn_projectDirection hnull
  shortcut x d _ hu := congrArg Except.ok (shortcutStep_smul hu p x d)
  initial x d lengths _ hu := congrArg Except.ok (FeasibleSet.firstStep_smul hu x d lengths)

end Bounds

/-! ## Domains -/

/-- Every domain treats rescaled gradients alike, whether or not anything is pinned. -/
theorem Domain.rescales_empty (d : Domain Exact) (shape : Shape) (p : Precision)
    (b : Fin shape.size → ℝ) : (d.toSet shape p).Rescales ∅ b := by
  cases d with
  | unconstrained => exact FeasibleSet.rescales_unconstrained b
  | undefined => exact FeasibleSet.rescales_undefined b
  | resting => exact FeasibleSet.rescales_resting b
  | flipping => exact FeasibleSet.rescales_flipping b
  | box box =>
    show (Box.toSet box shape p).Rescales ∅ b
    unfold Box.toSet
    cases box.bounds shape (Scalar.round p) (box.keepsEqual shape true) with
    | ok bounds => exact (bounds.pinsAt_empty b).rescales p
    | error fault =>
      exact
        { FeasibleSet.rescales_undefined b with
          gradient := fun _ _ _ _ => rfl
          direction := fun _ _ _ => FeasibleSet.nullOn_empty _
          shortcut := fun _ _ _ _ => rfl }

/-! ## Boxes with equal bounds -/

namespace Box

open Classical in
/-- The components whose two bounds are equal. -/
def pinned (box : Box Exact) (shape : Shape) : Finset (Fin shape.size) :=
  {i | (box.lower.spread shape).get i = (box.upper.spread shape).get i}

variable {lower upper : Tensor Exact} {box : Box Exact} {shape : Shape} {i : Fin shape.size}

theorem mem_pinned :
    i ∈ box.pinned shape ↔ (box.lower.spread shape).get i = (box.upper.spread shape).get i := by
  simp [pinned]

/-- Equal bounds between which there is room for a real number are that number. -/
theorem exists_pinned_real (hnew : Box.new lower upper = .ok box)
    (hlower : lower.shape.broadcastsTo shape = true)
    (hupper : upper.shape.broadcastsTo shape = true)
    (hbelow : Scalar.infinity ∉ lower.toList) (habove : -Scalar.infinity ∉ upper.toList)
    (p : Precision) (hi : i ∈ box.pinned shape) :
    ∃ b : ℝ, ((box.ranges shape p).get i).lower = .real b ∧
      ((box.ranges shape p).get i).upper = .real b := by
  have hnumber := (Box.ordered_ranges (p := p) hnew hlower hupper i).lower_number
  obtain ⟨rfl, -⟩ := Box.of_new_eq_ok hnew
  have hsame := mem_pinned.mp hi
  have hmem := lower.get_spread_mem (Shape.fits_of_broadcastsTo hlower) i
  have hmem' := upper.get_spread_mem (Shape.fits_of_broadcastsTo hupper) i
  rw [Box.get_ranges] at hnumber ⊢
  simp only [Exact.round_eq] at hsame hnumber ⊢
  rw [← hsame] at hmem' ⊢
  cases hvalue : (lower.spread shape).get i with
  | real b => exact ⟨b, rfl, rfl⟩
  | undefined =>
    rw [hvalue, (Exact.isNaN_iff _).mpr rfl] at hnumber
    cases hnumber
  | infinite negative =>
    rw [hvalue] at hmem hmem'
    cases negative with
    | false => exact absurd hmem hbelow
    | true => exact absurd hmem' habove

end Box

/-- In a box with room for real vectors, the components with equal bounds are pinned. -/
theorem Domain.Proper.exists_rescales {shape : Shape} {box : Box Exact}
    (h : (Domain.box box).Proper shape) (p : Precision) :
    ∃ b, ((Domain.box box).toSet shape p).Rescales (box.pinned shape) b ∧
      ∀ x : Fin shape.size → ℝ, (∀ i, x i ∈ (Domain.box box).intervals shape p i) →
        (Vec.ofReals x).PinnedAt (box.pinned shape) b := by
  obtain ⟨b, hpins, hset⟩ : ∃ b, (box.ranges shape p).PinsAt (box.pinned shape) b ∧
      (Domain.box box).toSet shape p = .within p (box.ranges shape p) := by
    cases h with
    | @box lower upper _ hnew hlower hupper hbelow habove =>
      have hreal : ∀ i, ∃ b : ℝ, i ∈ box.pinned shape →
          ((box.ranges shape p).get i).lower = .real b ∧
            ((box.ranges shape p).get i).upper = .real b := by
        intro i
        by_cases hi : i ∈ box.pinned shape
        · obtain ⟨b, hb⟩ := Box.exists_pinned_real hnew hlower hupper hbelow habove p hi
          exact ⟨b, fun _ => hb⟩
        · exact ⟨0, fun hmem => absurd hmem hi⟩
      choose b hb using hreal
      obtain ⟨rfl, -⟩ := Box.of_new_eq_ok hnew
      exact ⟨b, hb, Box.toSet_eq hlower hupper⟩
  refine ⟨b, hset ▸ hpins.rescales p, fun x hx i hi => ?_⟩
  obtain ⟨hlower, hupper⟩ : x i ∈ ((box.ranges shape p).get i).reals := hx i
  rw [(hpins i hi).1] at hlower
  rw [(hpins i hi).2] at hupper
  rw [Vec.get_ofReals, le_antisymm (α := ℝ) hupper hlower]

end

end VariableMetric
