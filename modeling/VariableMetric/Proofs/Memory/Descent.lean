import VariableMetric.Proofs.FeasibleSet.Confines
import VariableMetric.Proofs.Memory.Direction

/-!
# Directions descend

At a point of a set where the projected gradient does not vanish, the opposite of that
gradient descends.  So does the direction of a memory with a usable pair: corrections
by pairs of positive curvature keep a matrix positive, and the selected components are
those of the projected gradient, which are loose along the opposite gradient.  Hence
the set only drops components of the direction that do not descend.

A memory therefore never refuses its direction, and never forgets its pairs.
-/

namespace VariableMetric

open Matrix

noncomputable section

/-! ## Positive matrices -/

section Positive

variable {ι : Type} [Fintype ι] [DecidableEq ι]

/-- A step of positive curvature keeps a matrix positive. -/
theorem dotProduct_correction_pos {H : Matrix ι ι ℝ} (hH : ∀ v ≠ 0, 0 < v ⬝ᵥ (H *ᵥ v))
    {q : Pair ι} (hq : 0 < q.2 ⬝ᵥ q.1) {v : ι → ℝ} (hv : v ≠ 0) :
    0 < v ⬝ᵥ (correction q H *ᵥ v) := by
  obtain ⟨s, y⟩ := q
  set ρ := 1 / (y ⬝ᵥ s) with hρ
  set r := v + -(ρ * (v ⬝ᵥ s)) • y with hr
  have hρpos : 0 < ρ := one_div_pos.mpr hq
  have hvalue : v ⬝ᵥ (correction (s, y) H *ᵥ v) = r ⬝ᵥ (H *ᵥ r) + ρ * (v ⬝ᵥ s) ^ 2 := by
    have happlied := correction_mulVec s y v H
    simp only [← hρ, ← hr] at happlied
    have hsplit : r ⬝ᵥ (H *ᵥ r) = v ⬝ᵥ (H *ᵥ r) - ρ * (v ⬝ᵥ s) * ((H *ᵥ r) ⬝ᵥ y) := by
      nth_rewrite 1 [hr]
      rw [add_dotProduct, smul_dotProduct, dotProduct_comm y, smul_eq_mul]
      ring
    rw [happlied, dotProduct_add, dotProduct_smul, smul_eq_mul, hsplit]
    ring
  rw [hvalue]
  -- A vector of which the correction leaves nothing is not orthogonal to the step.
  by_cases hzero : r = 0
  · have hne : v ⬝ᵥ s ≠ 0 := by
      intro hflat
      rw [hflat, mul_zero, neg_zero, zero_smul, add_zero] at hr
      exact hv (hr.symm.trans hzero)
    rw [hzero, zero_dotProduct, zero_add]
    exact mul_pos hρpos (sq_pos_of_ne_zero hne)
  · exact add_pos_of_pos_of_nonneg (hH r hzero) (mul_nonneg hρpos.le (sq_nonneg _))

/-- So do the corrections of all pairs, in any order. -/
theorem dotProduct_corrections_pos {γ : ℝ} (hγ : 0 < γ) {pairs : List (Pair ι)}
    (hpairs : ∀ q ∈ pairs, 0 < q.2 ⬝ᵥ q.1) {v : ι → ℝ} (hv : v ≠ 0) :
    0 < v ⬝ᵥ (corrections γ pairs *ᵥ v) := by
  induction pairs generalizing v with
  | nil =>
    have hsquare : v ⬝ᵥ (corrections γ [] *ᵥ v) = γ * (v ⬝ᵥ v) := by
      simp [corrections, smul_mulVec]
    rw [hsquare]
    exact mul_pos hγ (dotProduct_self_pos hv)
  | cons q older ih =>
    have holder := fun w hw => ih (fun q hq => hpairs q (List.mem_cons_of_mem _ hq)) (v := w) hw
    exact dotProduct_correction_pos holder (hpairs q List.mem_cons_self) hv

end Positive

/-! ## Descent inside a set -/

section Descends

variable {n : ℕ} {C : Fin n → Set ℝ} {x g d : Fin n → ℝ}

/-- A direction that descends against a gradient and can be followed inside the set. -/
structure Descends (C : Fin n → Set ℝ) (x g d : Fin n → ℝ) : Prop where
  slope : d ⬝ᵥ g < 0
  loose : ∀ i, d i ≠ 0 → Loose (C i) (x i) (d i)

theorem Descends.ne_zero (h : Descends C x g d) : d ≠ 0 := by
  rintro rfl
  simpa using h.slope

theorem loosened_mul_self (C : Fin n → Set ℝ) (x d a : Fin n → ℝ) (i : Fin n) :
    loosened C x d a i * a i = loosened C x d a i * loosened C x d a i := by
  unfold loosened
  split <;> simp

theorem loose_of_loosened_ne_zero {a : Fin n → ℝ} {i : Fin n}
    (h : loosened C x d a i ≠ 0) : Loose (C i) (x i) (d i) ∧ loosened C x d a i = a i := by
  unfold loosened at h ⊢
  split at h
  next hloose => exact ⟨hloose, if_pos hloose⟩
  next => exact absurd rfl h

/-- The opposite of a projected gradient descends by its square. -/
theorem neg_loosened_dotProduct (C : Fin n → Set ℝ) (x d g : Fin n → ℝ) :
    -(loosened C x d g) ⬝ᵥ g = -(loosened C x d g ⬝ᵥ loosened C x d g) := by
  rw [neg_dotProduct]
  exact congrArg Neg.neg (Finset.sum_congr rfl fun i _ => loosened_mul_self C x d g i)

theorem descends_steepest (hne : loosened C x (-g) g ≠ 0) :
    Descends C x g (-(loosened C x (-g) g)) where
  slope := by
    rw [neg_loosened_dotProduct]
    exact neg_neg_of_pos (dotProduct_self_pos hne)
  loose i hi := by
    have hgradient : loosened C x (-g) g i ≠ 0 := by simpa using hi
    obtain ⟨hloose, heq⟩ := loose_of_loosened_ne_zero hgradient
    rw [Pi.neg_apply, heq]
    exact hloose

/-- Dropping the stuck components keeps a direction descending if all its components
are loose along the opposite gradient. -/
theorem descends_loosened (hslope : d ⬝ᵥ g < 0)
    (hfree : ∀ i, d i ≠ 0 → Loose (C i) (x i) (-g i)) :
    Descends C x g (loosened C x d d) where
  slope := by
    refine lt_of_le_of_lt (Finset.sum_le_sum fun i _ => ?_) hslope
    by_cases hloose : Loose (C i) (x i) (d i)
    · rw [loosened, if_pos hloose]
    · rw [loosened, if_neg hloose, zero_mul]
      by_cases hzero : d i = 0
      · rw [hzero, zero_mul]
      · exact mul_nonneg_of_not_loose (hfree i hzero) hloose
  loose i hi := by
    obtain ⟨hloose, heq⟩ := loose_of_loosened_ne_zero hi
    rw [heq]
    exact hloose

end Descends

/-! ## The direction of a memory -/

namespace Memory

variable {n m : ℕ} {p : Precision} {mem : Memory Exact n m} {C : Fin n → Set ℝ}
  {x g : Fin n → ℝ}

theorem usable_curvature_pos (F : Finset (Fin n)) (pairs : List (Pair (Fin n))) :
    ∀ q ∈ usable F pairs, 0 < q.2 ⬝ᵥ q.1 := by
  intro q hq
  obtain ⟨q', hmem, rfl⟩ := List.mem_map.mp hq
  have hpos : 0 < curvature F q' := by simpa using (List.mem_filter.mp hmem).2
  exact hpos

theorem usable_eq_nil {F : Finset (Fin n)} {pairs : List (Pair (Fin n))}
    (h : ¬ ∃ q ∈ pairs, 0 < curvature F q) : usable F pairs = [] := by
  have hfilter : pairs.filter (fun q => 0 < curvature F q) = [] := by
    rw [List.filter_eq_nil_iff]
    intro q hq hpos
    exact h ⟨q, hq, by simpa using hpos⟩
  rw [usable, hfilter, List.map_nil]

/-- The components that do not vanish. -/
def moving (a : Fin n → ℝ) : Finset (Fin n) := Finset.univ.filter fun i => a i ≠ 0

theorem support_ofReals (a : Fin n → ℝ) : (Vec.ofReals a).support = .mask (moving a) := by
  ext i
  rw [Vec.support, Vec.get_map, Vec.get_ofReals, Vec.get_mask]
  by_cases hzero : a i = 0
  · have hequal : Scalar.equal (Exact.real (a i)) 0 = true := (Exact.equal_real _ 0).mpr hzero
    rw [if_pos hequal, if_neg (by simp [moving, hzero])]
    rfl
  · have hequal : ¬ Scalar.equal (Exact.real (a i)) 0 = true :=
      fun h => hzero ((Exact.equal_real _ 0).mp h)
    rw [if_neg hequal, if_pos (by simp [moving, hzero])]
    rfl

theorem loose_of_mem_moving {i : Fin n} (hi : i ∈ moving (loosened C x (-g) g)) :
    Loose (C i) (x i) (-g i) ∧ loosened C x (-g) g i = g i :=
  loose_of_loosened_ne_zero (Finset.mem_filter.mp hi).2

theorem restrict_moving_ne_zero (hne : loosened C x (-g) g ≠ 0) :
    restrict (moving (loosened C x (-g) g)) g ≠ 0 := by
  intro hzero
  apply hne
  ext i
  by_contra hi
  have hmem : i ∈ moving (loosened C x (-g) g) := by simpa [moving] using hi
  have hvalue : g i = 0 := congrFun hzero ⟨i, hmem⟩
  rw [(loose_of_mem_moving hmem).2] at hi
  exact hi hvalue

/-- What the two sweeps make of the opposite gradient along the selected components. -/
def swept (F : Finset (Fin n)) (pairs : List (Pair (Fin n))) (g : Fin n → ℝ) : Fin n → ℝ :=
  fun i => if i ∈ F then
      sweepUp F pairs (-g) (initialScale (usable F pairs) • sweepDown F pairs (-g)) i
    else 0

theorem swept_dotProduct_neg {F : Finset (Fin n)} {pairs : List (Pair (Fin n))}
    (husable : ∃ q ∈ pairs, 0 < curvature F q) (hne : restrict F g ≠ 0) :
    swept F pairs g ⬝ᵥ g < 0 := by
  set γ := initialScale (usable F pairs) with hγ
  set z := sweepUp F pairs (-g) (γ • sweepDown F pairs (-g)) with hz
  have hselected : swept F pairs g ⬝ᵥ g = restrict F z ⬝ᵥ restrict F g := by
    rw [← sum_eq_restrict_dotProduct]
    refine Finset.sum_congr rfl fun i _ => ?_
    by_cases hi : i ∈ F <;> simp [swept, ← hγ, ← hz, hi]
  have hpos := dotProduct_corrections_pos (initialScale_usable_pos husable)
    (usable_curvature_pos F pairs) hne
  rw [hselected, restrict_sweepUp, restrict_neg, mulVec_neg, neg_dotProduct, dotProduct_comm]
  exact neg_neg_of_pos hpos

/-- The selected components are loose along the opposite gradient, so the direction still
descends when the stuck ones are dropped. -/
theorem descends_swept {pairs : List (Pair (Fin n))} (hne : loosened C x (-g) g ≠ 0)
    (husable : ∃ q ∈ pairs, 0 < curvature (moving (loosened C x (-g) g)) q) :
    Descends C x g (loosened C x (swept (moving (loosened C x (-g) g)) pairs g)
      (swept (moving (loosened C x (-g) g)) pairs g)) := by
  apply descends_loosened (swept_dotProduct_neg husable (restrict_moving_ne_zero hne))
  intro i hi
  have hmem : i ∈ moving (loosened C x (-g) g) := by
    by_contra hnot
    exact hi (if_neg hnot)
  exact (loose_of_mem_moving hmem).1

variable [Capacity m]

section Cases

variable {α : Type} [Scalar α] {mem : Memory α n m} {opposite g d w : Vec α n}
  {project : Vec α n → Except Fault (Vec α n)}

theorem directionFrom_of_gamma_le (before : Vec α n) (hlive : ¬ mem.live < 1)
    (hgamma : (mem.backward p w opposite).gamma ≤ 0) :
    mem.directionFrom p project before opposite g w =
      (.ok ⟨false, 0, (mem.backward p w opposite).vector⟩,
        mem.learned (mem.backward p w opposite),
        (mem.backward p w opposite).notices ++ [.curvatureMissing mem.live]) := by
  unfold directionFrom
  rw [if_neg hlive]
  dsimp only
  rw [if_pos hgamma]
  rfl

theorem directionFrom_of_slope_neg (before : Vec α n) (hlive : ¬ mem.live < 1)
    (hgamma : ¬ (mem.backward p w opposite).gamma ≤ 0)
    (hproject : project ((mem.learned (mem.backward p w opposite)).forward p w
      ((mem.backward p w opposite).vector.scale p (mem.backward p w opposite).gamma)) = .ok d)
    (hslope : ¬ 0 ≤ d.inner g) :
    mem.directionFrom p project before opposite g w =
      (.ok ⟨true, d.inner g, d⟩, mem.learned (mem.backward p w opposite),
        (mem.backward p w opposite).notices) := by
  unfold learned at hproject
  unfold directionFrom
  rw [if_neg hlive]
  dsimp only
  rw [if_neg hgamma, hproject]
  dsimp only
  rw [if_neg hslope]
  rfl

end Cases

/-- From a usable pair a memory takes the direction that its sweeps make, brought into the
set, if it descends there. -/
theorem direction_of_usable {project : Vec Exact n → Except Fault (Vec Exact n)}
    {F : Finset (Fin n)} {pairs : List (Pair (Fin n))} {d : Fin n → ℝ} (hroom : mem.live ≤ m)
    (hlive : ¬ mem.live < 1) (hpairs : mem.pairs = pairs.map stored)
    (husable : ∃ q ∈ pairs, 0 < curvature F q)
    (hproject : project (.ofReals (swept F pairs g)) = .ok (.ofReals d)) (hslope : d ⬝ᵥ g < 0)
    (before : Vec Exact n) :
    mem.direction p project before (.ofReals g) (.mask F) =
      (.ok ⟨true, .real (d ⬝ᵥ g), .ofReals d⟩,
        mem.learned (mem.backward p (.mask F) (.ofReals (-g))),
        (mem.backward p (.mask F) (.ofReals (-g))).notices) := by
  have hopposite : Vec.scale p (-1) (.ofReals g) = .ofReals (-g) := by
    rw [Exact.one_eq, Exact.neg_real, Vec.scale_ofReals, neg_one_smul]
  have hvector := backward_vector (p := p) (F := F) hpairs (-g)
  have hgamma := backward_gamma (p := p) (F := F) hpairs (-g)
  have hpositive : ¬ (mem.backward p (.mask F) (.ofReals (-g))).gamma ≤ 0 := by
    rw [hgamma]
    exact not_le.mpr (initialScale_usable_pos husable)
  have hprojected : project ((mem.learned (mem.backward p (.mask F) (.ofReals (-g)))).forward p
      (.mask F) ((mem.backward p (.mask F) (.ofReals (-g))).vector.scale p
        (mem.backward p (.mask F) (.ofReals (-g))).gamma)) = .ok (.ofReals d) := by
    rw [hvector, hgamma, Vec.scale_ofReals, forward_learned hroom hpairs]
    exact hproject
  have hdownward : ¬ 0 ≤ (Vec.ofReals d).inner (.ofReals g) := by
    rw [Vec.inner_ofReals]
    exact not_le.mpr hslope
  have hanswer := directionFrom_of_slope_neg before hlive hpositive hprojected hdownward
  rw [Vec.inner_ofReals] at hanswer
  rw [direction, hopposite]
  exact hanswer

/-- A memory answers with a direction that descends, or with none if no pair is
usable.  In both cases it keeps its pairs. -/
theorem direction_descends {S : FeasibleSet Exact n} (hS : S.Confines C)
    (hx : ∀ i, x i ∈ C i) (hroom : mem.live ≤ m) {pairs : List (Pair (Fin n))}
    (hpairs : mem.pairs = pairs.map stored) (hne : loosened C x (-g) g ≠ 0)
    (before : Vec Exact n) :
    ∃ direction memory notices,
      mem.direction p (S.projectDirection (.ofReals x)) before (.ofReals g)
        (Vec.ofReals (loosened C x (-g) g)).support = (.ok direction, memory, notices) ∧
      memory.pairs = mem.pairs ∧ memory.live = mem.live ∧
      (∀ slope, .directionRefused slope ∉ notices) ∧
      (direction.descends = true → ∃ d, direction.vector = .ofReals d ∧
        direction.slope = .real (d ⬝ᵥ g) ∧ Descends C x g d) := by
  set F := moving (loosened C x (-g) g) with hF
  have hskips : ∀ slope, .directionRefused slope ∉
      (mem.backward p (.mask F) (.ofReals (-g))).notices :=
    fun slope => foldl_sweepBack_notices (by simp)
  rw [support_ofReals, ← hF]
  by_cases hlive : mem.live < 1
  · exact ⟨⟨false, 0, before⟩, mem, [], if_pos hlive, rfl, rfl, by simp, nofun⟩
  by_cases husable : ∃ q ∈ pairs, 0 < curvature F q
  · have hdescends : Descends C x g (loosened C x (swept F pairs g) (swept F pairs g)) :=
      descends_swept hne husable
    have hanswer := direction_of_usable (p := p) hroom hlive hpairs husable
      (hS.direction x (swept F pairs g) hx) hdescends.slope before
    exact ⟨_, _, _, hanswer, rfl, rfl, hskips, fun _ => ⟨_, rfl, rfl, hdescends⟩⟩
  · have hopposite : Vec.scale p (-1) (.ofReals g) = .ofReals (-g) := by
      rw [Exact.one_eq, Exact.neg_real, Vec.scale_ofReals, neg_one_smul]
    have hflat : (mem.backward p (.mask F) (.ofReals (-g))).gamma ≤ 0 := by
      rw [backward_gamma hpairs, usable_eq_nil husable]
      exact le_refl (0 : ℝ)
    rw [direction, hopposite]
    refine ⟨_, _, _, directionFrom_of_gamma_le before hlive hflat, rfl, rfl, ?_, nofun⟩
    simpa using hskips

end Memory

end

end VariableMetric
