import VariableMetric.Proofs.Exact.Scaling
import VariableMetric.Proofs.LineSearch.Steps

/-!
# Strategies with rescaled values and steps

If the values of the objective are multiplied by a positive factor and shifted, and the
direction is multiplied by a factor of its own, then the slopes along it are multiplied by
both factors and the steps are divided by the second one.  A strategy that is told so
answers accordingly, if its least step does not change when it is divided.
-/

namespace VariableMetric

noncomputable section

variable (r : Rescaling) {u : ℝ} (hu : 0 < u)

/-- The same answer, for a direction that is `u` times as long. -/
structure Reply.Rescaled (u : ℝ) (reply reply' : Reply Exact) : Prop where
  status : reply'.status = reply.status
  step : reply'.step = u⁻¹ • reply.step

namespace Search

def rescaled (s : Search Exact) (r : Rescaling) (u : ℝ) : Search Exact :=
  { s with value := r.value s.value, slope := (r.factor * u) • s.slope, cap := u⁻¹ • s.cap }

variable (s : Search Exact) (rule : Safeguard Exact) (reference step value slope cap : Exact)

include hu

theorem slope_mul_step_rescaled :
    (r.factor * u) • slope * u⁻¹ • step = r.factor • (slope * step) := by
  rw [Exact.smul_mul_smul (mul_pos r.factor_pos hu) (inv_pos.mpr hu),
    mul_inv_cancel_right₀ hu.ne']

theorem start_rescaled :
    let answer := Search.start value slope step cap
    let answer' := Search.start (r.value value) ((r.factor * u) • slope) (u⁻¹ • step) (u⁻¹ • cap)
    Reply.Rescaled u answer.1 answer'.1 ∧ answer'.2 = answer.2.rescaled r u := by
  unfold Search.start
  dsimp only
  rw [Exact.least_smul (inv_pos.mpr hu)]
  simp only [Exact.smul_neg_iff (mul_pos r.factor_pos hu), Exact.smul_pos_iff (inv_pos.mpr hu)]
  split
  · split <;> exact ⟨⟨rfl, rfl⟩, rfl⟩
  · exact ⟨⟨rfl, rfl⟩, rfl⟩

theorem excess_rescaled :
    (s.rescaled r u).excess (u⁻¹ • step) (r.value value) = r.factor • s.excess step value := by
  show r.value value - r.value s.value - (r.factor * u) • s.slope * u⁻¹ • step = _
  rw [r.value_sub_value, slope_mul_step_rescaled r hu, ← Exact.smul_sub r.factor_pos]
  rfl

theorem target_rescaled (factor : Exact) :
    (s.rescaled r u).target (r.value reference) factor (u⁻¹ • step) =
      r.value (s.target reference factor step) := by
  show r.value reference + factor * u⁻¹ • step * (r.factor * u) • s.slope = _
  rw [Exact.mul_smul_comm (inv_pos.mpr hu),
    Exact.smul_mul_smul (inv_pos.mpr hu) (mul_pos r.factor_pos hu), mul_comm r.factor,
    inv_mul_cancel_left₀ hu.ne', r.value_add_smul]
  rfl

theorem accepts_rescaled :
    (s.rescaled r u).accepts rule (r.value reference) (u⁻¹ • step) (r.value value) =
      s.accepts rule reference step value := by
  unfold accepts
  rw [r.isFinite_value, target_rescaled r hu]
  simp only [r.value_le_value_iff]

/-- The minimizer of the parabola is divided like the step. -/
theorem shorterStep_rescaled :
    (s.rescaled r u).shorterStep rule (u⁻¹ • step) (r.value value) =
      u⁻¹ • s.shorterStep rule step value := by
  have hu' := inv_pos.mpr hu
  have hslope : (s.rescaled r u).slope = (r.factor * u) • s.slope := rfl
  have hminimizer : -Scalar.half * (r.factor * u) • s.slope * u⁻¹ • step * u⁻¹ • step /
      r.factor • s.excess step value =
      u⁻¹ • (-Scalar.half * s.slope * step * step / s.excess step value) := by
    have hfactor : r.factor * u * u⁻¹ * u⁻¹ / r.factor = u⁻¹ := by
      have hne := r.factor_pos.ne'
      field_simp
    rw [Exact.mul_smul_comm (mul_pos r.factor_pos hu),
      Exact.smul_mul_smul (mul_pos r.factor_pos hu) hu',
      Exact.smul_mul_smul (mul_pos (mul_pos r.factor_pos hu) hu') hu',
      Exact.smul_div_smul (mul_pos (mul_pos (mul_pos r.factor_pos hu) hu') hu') r.factor_pos,
      hfactor]
  unfold shorterStep
  dsimp only
  rw [r.isFinite_value, excess_rescaled r hu, hslope, hminimizer]
  rw [Exact.mul_smul_comm hu', Exact.mul_smul_comm hu', ← apply_ite (u⁻¹ • ·)]
  simp only [Exact.smul_pos_iff r.factor_pos]
  split
  · rw [Exact.greatest_smul hu', Exact.least_smul hu']
  · rfl

theorem backtrack_rescaled (hstpmin : u⁻¹ • rule.stpmin = rule.stpmin) :
    let answer := s.backtrack rule reference step value
    let answer' := (s.rescaled r u).backtrack rule (r.value reference) (u⁻¹ • step) (r.value value)
    Reply.Rescaled u answer.1 answer'.1 ∧ answer'.2 = answer.2.rescaled r u := by
  have hshort : u⁻¹ • s.shorterStep rule step value < rule.stpmin ↔
      s.shorterStep rule step value < rule.stpmin := by
    rw [← hstpmin, Exact.smul_lt_smul_iff (inv_pos.mpr hu), hstpmin]
  unfold backtrack
  rw [accepts_rescaled r hu, shorterStep_rescaled r hu,
    show (s.rescaled r u).status = s.status from rfl,
    show (s.rescaled r u).trials = s.trials from rfl]
  dsimp only
  simp only [hshort]
  split
  · split
    · exact ⟨⟨rfl, rfl⟩, rfl⟩
    · split
      · exact ⟨⟨rfl, rfl⟩, rfl⟩
      · split <;> exact ⟨⟨rfl, rfl⟩, rfl⟩
  · exact ⟨⟨rfl, rfl⟩, rfl⟩

end Search

namespace Wolfe

def rescaled (b : Wolfe Exact) (r : Rescaling) (u : ℝ) : Wolfe Exact :=
  { b with search := b.search.rescaled r u, lo := u⁻¹ • b.lo, hi := u⁻¹ • b.hi }

variable (b : Wolfe Exact) (step value slope : Exact)

include hu

theorem nextStep_rescaled : (b.rescaled r u).nextStep = u⁻¹ • b.nextStep := by
  have hu' := inv_pos.mpr hu
  show (if Scalar.isFinite (u⁻¹ • b.hi) then Scalar.half * (u⁻¹ • b.lo + u⁻¹ • b.hi)
    else Scalar.least (Scalar.two * u⁻¹ • b.lo) (u⁻¹ • b.search.cap)) = u⁻¹ • b.nextStep
  rw [Exact.isFinite_smul, ← Exact.smul_add hu', Exact.mul_smul_comm hu',
    Exact.mul_smul_comm hu', Exact.least_smul hu', ← apply_ite (u⁻¹ • ·)]
  rfl

theorem reject_rescaled (hstpmin : u⁻¹ • b.rule.stpmin = b.rule.stpmin) :
    Reply.Rescaled u b.reject.1 (b.rescaled r u).reject.1 ∧
      (b.rescaled r u).reject.2 = b.reject.2.rescaled r u := by
  have hshort : u⁻¹ • b.nextStep < b.rule.stpmin ↔ b.nextStep < b.rule.stpmin := by
    rw [← hstpmin, Exact.smul_lt_smul_iff (inv_pos.mpr hu), hstpmin]
  unfold reject
  rw [nextStep_rescaled r hu, show (b.rescaled r u).rule = b.rule from rfl,
    show (b.rescaled r u).search.trials = b.search.trials from rfl]
  dsimp only
  simp only [hshort]
  split
  · exact ⟨⟨rfl, rfl⟩, rfl⟩
  · split <;> exact ⟨⟨rfl, rfl⟩, rfl⟩

theorem iterate_rescaled (hstpmin : u⁻¹ • b.rule.stpmin = b.rule.stpmin) :
    let answer := b.iterate step value slope
    let answer' := (b.rescaled r u).iterate (u⁻¹ • step) (r.value value) ((r.factor * u) • slope)
    Reply.Rescaled u answer.1 answer'.1 ∧ answer'.2 = answer.2.rescaled r u := by
  have hhigh : (b.rescaled r u).tooHigh (u⁻¹ • step) (r.value value) = b.tooHigh step value := by
    show (!Scalar.isFinite (r.value value) || decide ((b.search.rescaled r u).target
      (r.value b.search.value) b.rule.ftol (u⁻¹ • step) < r.value value)) = _
    rw [r.isFinite_value, Search.target_rescaled r hu]
    simp only [r.value_lt_value_iff]
    rfl
  have hsteep : (b.rescaled r u).tooSteep ((r.factor * u) • slope) = b.tooSteep slope := by
    show decide ((r.factor * u) • slope < b.rule.gtol * (r.factor * u) • b.search.slope) = _
    rw [Exact.mul_smul_comm (mul_pos r.factor_pos hu)]
    simp only [Exact.smul_lt_smul_iff (mul_pos r.factor_pos hu)]
    rfl
  have hcap : (b.rescaled r u).search.cap ≤ u⁻¹ • step ↔ b.search.cap ≤ step :=
    Exact.smul_le_smul_iff (inv_pos.mpr hu) _ _
  unfold iterate
  rw [hhigh, hsteep, show (b.rescaled r u).search.status = b.search.status from rfl]
  dsimp only
  simp only [hcap]
  split
  · split
    · exact reject_rescaled r hu { b with hi := step } hstpmin
    · split
      · split
        · exact ⟨⟨rfl, rfl⟩, rfl⟩
        · exact reject_rescaled r hu { b with lo := step } hstpmin
      · exact ⟨⟨rfl, rfl⟩, rfl⟩
  · exact ⟨⟨rfl, rfl⟩, rfl⟩

end Wolfe

theorem Nonmonotone.foldl_greatest_value (value : Exact) (rest : List Exact) :
    (rest.map r.value).foldl Scalar.greatest (r.value value) =
      r.value (rest.foldl Scalar.greatest value) := by
  induction rest generalizing value with
  | nil => rfl
  | cons a rest ih => rw [List.map_cons, List.foldl_cons, List.foldl_cons, r.greatest_value, ih]

namespace Strategy

def rescaled : Strategy Exact → Rescaling → ℝ → Strategy Exact
  | backtracking b, r, u => .backtracking { b with search := b.search.rescaled r u }
  | nonmonotone b, r, u =>
    .nonmonotone { b with search := b.search.rescaled r u, history := b.history.map r.value }
  | wolfe b, r, u => .wolfe (b.rescaled r u)

/-- A strategy that will start like another one with rescaled values: all that is left of
earlier searches is the history. -/
def StartsLike (r : Rescaling) : Strategy Exact → Strategy Exact → Prop
  | backtracking b, backtracking b' => b'.rule = b.rule
  | nonmonotone b, nonmonotone b' =>
    b'.rule = b.rule ∧ b'.window = b.window ∧ b'.history = b.history.map r.value
  | wolfe b, wolfe b' => b'.rule = b.rule
  | _, _ => False

variable {t t' : Strategy Exact} (step value slope cap : Exact)

theorem startsLike_reset (t : Strategy Exact) : StartsLike r t.reset t.reset := by
  cases t with
  | nonmonotone b => exact ⟨rfl, rfl, rfl⟩
  | _ => exact rfl

theorem startsLike_rescaled (t : Strategy Exact) (u : ℝ) : StartsLike r t (t.rescaled r u) := by
  cases t with
  | nonmonotone b => exact ⟨rfl, rfl, rfl⟩
  | _ => exact rfl

include hu

theorem start_rescaled (h : StartsLike r t t') :
    let answer := t.start value slope step cap
    let answer' := t'.start (r.value value) ((r.factor * u) • slope) (u⁻¹ • step) (u⁻¹ • cap)
    Reply.Rescaled u answer.1 answer'.1 ∧ answer'.2 = answer.2.rescaled r u := by
  obtain ⟨hreply, hsearch⟩ := Search.start_rescaled r hu step value slope cap
  cases t with
  | backtracking b => cases t' with
    | backtracking b' =>
      obtain ⟨rule, search⟩ := b'
      obtain rfl : rule = b.rule := h
      refine ⟨hreply, ?_⟩
      simp only [start, Backtracking.start, rescaled, hsearch]
    | _ => exact h.elim
  | nonmonotone b => cases t' with
    | nonmonotone b' =>
      obtain ⟨rule, window, search, history⟩ := b'
      obtain ⟨rfl, rfl, rfl⟩ : rule = b.rule ∧ window = b.window ∧
        history = b.history.map r.value := h
      simp only [start, Nonmonotone.start, hreply.status]
      split
      · refine ⟨hreply, ?_⟩
        simp only [rescaled, hsearch, Nonmonotone.remember, List.map_drop, List.map_append,
          List.length_append, List.length_map, List.map_cons, List.map_nil, List.length_singleton]
      · refine ⟨hreply, ?_⟩
        simp only [rescaled, hsearch]
    | _ => exact h.elim
  | wolfe b => cases t' with
    | wolfe b' =>
      obtain ⟨rule, search, lo, hi⟩ := b'
      obtain rfl : rule = b.rule := h
      refine ⟨hreply, ?_⟩
      have hlo : u⁻¹ • (0 : Exact) = 0 := Exact.smul_zero _
      have hhi : u⁻¹ • (Scalar.infinity : Exact) = Scalar.infinity :=
        Exact.smul_infinite (inv_pos.mpr hu) false
      simp only [start, Wolfe.start, rescaled, Wolfe.rescaled, hsearch, hlo, hhi]
    | _ => exact h.elim

theorem iterate_rescaled (hstpmin : u⁻¹ • t.rule.stpmin = t.rule.stpmin) :
    let answer := t.iterate step value slope
    let answer' := (t.rescaled r u).iterate (u⁻¹ • step) (r.value value) ((r.factor * u) • slope)
    Reply.Rescaled u answer.1 answer'.1 ∧ answer'.2 = answer.2.rescaled r u := by
  cases t with
  | backtracking b =>
    obtain ⟨hreply, hsearch⟩ :=
      b.search.backtrack_rescaled r hu b.rule b.search.value step value hstpmin
    refine ⟨hreply, ?_⟩
    show backtracking { b with
      search := ((b.search.rescaled r u).backtrack b.rule (r.value b.search.value)
        (u⁻¹ • step) (r.value value)).2 } = _
    rw [hsearch]
    rfl
  | nonmonotone b =>
    have hreference : Nonmonotone.reference
        { b with search := b.search.rescaled r u, history := b.history.map r.value } =
        r.value b.reference := by
      unfold Nonmonotone.reference
      cases b.history with
      | nil => rfl
      | cons value rest => exact Nonmonotone.foldl_greatest_value r value rest
    obtain ⟨hreply, hsearch⟩ :=
      b.search.backtrack_rescaled r hu b.rule b.reference step value hstpmin
    rw [← hreference] at hreply hsearch
    refine ⟨hreply, ?_⟩
    show nonmonotone
      { b with
        search := ((b.search.rescaled r u).backtrack b.rule
          (Nonmonotone.reference
            { b with search := b.search.rescaled r u, history := b.history.map r.value })
          (u⁻¹ • step) (r.value value)).2
        history := b.history.map r.value } = _
    rw [hsearch]
    rfl
  | wolfe b =>
    obtain ⟨hreply, hsearch⟩ := b.iterate_rescaled r hu step value slope hstpmin
    exact ⟨hreply, congrArg wolfe hsearch⟩

end Strategy

end

end VariableMetric
