import VariableMetric.Proofs.FeasibleSet.Path
import VariableMetric.Proofs.Memory.Descent

/-!
# Stationary points of a box

For a while the path that is brought into a box is straight: it follows the direction without
its stuck components, which is the projected direction.  The path along the opposite of a
gradient follows the projected gradient in the same way, so that gradient vanishes exactly where
no point of the box lies below in first order.
-/

namespace VariableMetric

open Matrix

noncomputable section

variable {n : ℕ}

/-! ## Where the path begins -/

/-- A stuck component does not move at all. -/
theorem Range.clamp_of_not_loose {r : Range Exact} {x d : ℝ} (hx : x ∈ r.reals)
    (hstuck : ¬ Loose r.reals x d) {a : ℝ} (ha : 0 ≤ a) :
    r.clamp (.real (x + a * d)) = .real x := by
  have hinside (z : ℝ) (c : ℝ) (hc : r.clamp (.real z) = .real c) : c ∈ r.reals := by
    obtain ⟨c', hc', hmem, -⟩ := (Range.shape_of_mem_reals hx).clamp_real z
    rwa [Exact.real.inj (hc.symm.trans hc')]
  have hrests := Range.restsFrom_restingStep hx d
  generalize r.restingStep x d = s at hrests
  cases hrests with
  | bounded t ht hhindered hpath =>
    -- The bound would be a place that a positive step leads to.
    have hzero : t = 0 := by
      by_contra hne
      refine hstuck ⟨t, lt_of_le_of_ne ht (Ne.symm hne), hinside (x + t * d) _ ?_⟩
      rw [hpath t ht, min_self]
    rw [hpath a ha, hzero, min_eq_right ha, zero_mul, add_zero]
  | unbounded hmoves hunhindered hpath =>
    exact absurd ⟨1, one_pos, hinside _ _ (hpath 1 zero_le_one)⟩ hstuck

/-- For a while the path follows the direction without its stuck components. -/
theorem Bounds.exists_straight {b : Bounds Exact n} {x : Fin n → ℝ}
    (hx : ∀ i, x i ∈ (b.get i).reals) (d : Fin n → ℝ) :
    ∃ t : ℝ, 0 < t ∧ ∀ a, 0 ≤ a → a ≤ t → b.clamp (.ofReals (x + a • d)) =
      .ofReals (x + a • loosened (fun i => (b.get i).reals) x d d) := by
  set D := loosened (fun i => (b.get i).reals) x d d with hD
  have hloose (i : Fin n) (hi : D i ≠ 0) : Loose (b.get i).reals (x i) (D i) := by
    obtain ⟨hloose, heq⟩ := loose_of_loosened_ne_zero hi
    rwa [hD, heq]
  obtain ⟨t, ht, hmem⟩ := exists_pos_forall_mem (fun i => (b.get i).ordConnected_reals) hx hloose
  refine ⟨t, ht, fun a ha hat => ?_⟩
  ext i
  rw [Bounds.clamp, Vec.get_zipWith, Vec.get_ofReals, Vec.get_ofReals]
  show (b.get i).clamp (.real (x i + a * d i)) = .real (x i + a * D i)
  by_cases hi : Loose (b.get i).reals (x i) (d i)
  · have hsame : D i = d i := if_pos hi
    have hkept := mem_of_step_le (b.get i).ordConnected_reals (hx i) (hmem i) ha hat
    rw [← hsame]
    exact Range.clamp_of_mem_reals hkept
  · have hdropped : D i = 0 := if_neg hi
    rw [hdropped, mul_zero, add_zero]
    exact Range.clamp_of_not_loose (hx i) hi ha

/-! ## Stationary points -/

section Stationary

variable {C : Fin n → Set ℝ} {x : Fin n → ℝ}

theorem loosened_neg (C : Fin n → Set ℝ) (x d a : Fin n → ℝ) :
    loosened C x d (-a) = -loosened C x d a := by
  ext i
  rw [loosened, Pi.neg_apply, Pi.neg_apply, loosened, neg_ite, neg_zero]

/-- Nothing is left of a gradient exactly if no point of the set lies below in first order. -/
theorem loosened_eq_zero_iff (hC : ∀ i, (C i).OrdConnected) (hx : ∀ i, x i ∈ C i)
    (g : Fin n → ℝ) :
    loosened C x (-g) g = 0 ↔ ∀ z, (∀ i, z i ∈ C i) → 0 ≤ g ⬝ᵥ (z - x) := by
  constructor
  · intro hzero z hz
    refine Finset.sum_nonneg fun i _ => ?_
    by_cases hloose : Loose (C i) (x i) (-g i)
    · have hgradient : g i = 0 := by
        have hi := congrFun hzero i
        rwa [loosened, if_pos (show Loose _ _ ((-g) i) from hloose)] at hi
      rw [hgradient, zero_mul]
    · have hreaches : Loose (C i) (x i) (-(-(z - x) i)) := ⟨1, one_pos, by simpa using hz i⟩
      have hascends := mul_nonneg_of_not_loose hreaches hloose
      rwa [neg_mul_neg] at hascends
  · intro hstationary
    by_contra hne
    have hdescends := descends_steepest hne
    obtain ⟨t, ht, hmem⟩ := exists_pos_forall_mem hC hx hdescends.loose
    have hbelow := hstationary (x + t • -(loosened C x (-g) g)) hmem
    rw [add_sub_cancel_left, dotProduct_smul, dotProduct_comm, smul_eq_mul] at hbelow
    exact hbelow.not_gt (mul_neg_of_pos_of_neg ht hdescends.slope)

end Stationary

namespace Box

variable {box : Box Exact} {shape : Shape} {p : Precision}

/-- The projected direction and the projected gradient are what the paths along them begin
with, and the projected gradient vanishes exactly at the stationary points. -/
theorem paths_follow_projections (hlower : box.lower.shape.broadcastsTo shape = true)
    (hupper : box.upper.shape.broadcastsTo shape = true) {x : Fin shape.size → ℝ}
    (hx : x ∈ box.reals shape) (d g : Fin shape.size → ℝ) :
    ∃ D G : Fin shape.size → ℝ,
      (box.toSet shape p).projectDirection (.ofReals x) (.ofReals d) = .ok (.ofReals D) ∧
      (box.toSet shape p).projectGradient (.ofReals x) (.ofReals g) = .ok (.ofReals G) ∧
      (∃ t₀ : ℝ, 0 < t₀ ∧ ∀ t, 0 ≤ t → t ≤ t₀ →
        (box.toSet shape p).projectVariables (.ofReals (x + t • d)) =
          .ok (.ofReals (x + t • D)) ∧
        (box.toSet shape p).projectVariables (.ofReals (x - t • g)) =
          .ok (.ofReals (x - t • G))) ∧
      (G = 0 ↔ ∀ z ∈ box.reals shape, 0 ≤ g ⬝ᵥ (z - x)) := by
  set b := box.ranges shape p with hb
  have hinside : ∀ i, x i ∈ (b.get i).reals := mem_ranges_of_mem hx p
  have hconfines := FeasibleSet.within_confines (p := p) fun i => ⟨x i, hinside i⟩
  obtain ⟨t, ht, halong⟩ := Bounds.exists_straight hinside d
  obtain ⟨u, hu, hagainst⟩ := Bounds.exists_straight hinside (-g)
  rw [toSet_eq hlower hupper]
  refine ⟨_, _, hconfines.direction x d hinside, hconfines.gradient x g hinside,
    ⟨min t u, lt_min ht hu, fun a ha hle => ⟨?_, ?_⟩⟩, ?_⟩
  · exact congrArg Except.ok (halong a ha (hle.trans (min_le_left t u)))
  · have hback := hagainst a ha (hle.trans (min_le_right t u))
    rw [loosened_neg, smul_neg, smul_neg, ← sub_eq_add_neg, ← sub_eq_add_neg] at hback
    exact congrArg Except.ok hback
  · rw [loosened_eq_zero_iff hconfines.ordConnected hinside g]
    refine forall_congr' fun z => imp_congr_left (forall_congr' fun i => ?_)
    rw [hb, get_ranges]
    exact Iff.rfl

end Box

namespace Sample

theorem edge_paths_follow_projections :
    openBox.lower.shape.broadcastsTo [3] = true ∧ openBox.upper.shape.broadcastsTo [3] = true ∧
      edgePoint ∈ openBox.reals [3] ∧
      ∃ D G : Fin (Shape.size [3]) → ℝ,
        (openBox.toSet [3] .double).projectDirection (.ofReals edgePoint)
          (.ofReals edgeDirection) = .ok (.ofReals D) ∧
        (openBox.toSet [3] .double).projectGradient (.ofReals edgePoint)
          (.ofReals edgeDirection) = .ok (.ofReals G) ∧
        (∃ t₀ : ℝ, 0 < t₀ ∧ ∀ t, 0 ≤ t → t ≤ t₀ →
          (openBox.toSet [3] .double).projectVariables
              (.ofReals (edgePoint + t • edgeDirection)) = .ok (.ofReals (edgePoint + t • D)) ∧
          (openBox.toSet [3] .double).projectVariables
              (.ofReals (edgePoint - t • edgeDirection)) = .ok (.ofReals (edgePoint - t • G))) ∧
        (G = 0 ↔ ∀ z ∈ openBox.reals [3], 0 ≤ edgeDirection ⬝ᵥ (z - edgePoint)) :=
  ⟨rfl, rfl, edgePoint_mem,
    Box.paths_follow_projections rfl rfl edgePoint_mem edgeDirection edgeDirection⟩

end Sample

end

end VariableMetric
