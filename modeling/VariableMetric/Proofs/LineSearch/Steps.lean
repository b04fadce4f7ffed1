import VariableMetric.Config.Strategy
import VariableMetric.Proofs.LineSearch.Trials
import VariableMetric.Proofs.ScalarOrder

/-!
# The steps that a strategy asks for

A search is begun with a positive step, and goes on with steps that do not lie below the
least one of its rule.  So a strategy never asks for a step of no length if the least step
is positive.  A strategy that was built from options tries at least one step, but its least
step may be zero, or no number at all.
-/

namespace VariableMetric

variable {α : Type}

/-- Below this step a search gives up. -/
def Rule.stpmin : Rule α → α
  | backtracking r => r.stpmin
  | nonmonotone r _ => r.stpmin
  | wolfe r => r.stpmin

section Steps

variable [Scalar α] {value slope step cap reference : α}

/-- A step that a search may be on: the positive one with which it was begun, or a later one
that is long enough. -/
def Rule.Allows (rule : Rule α) (step : α) : Prop := 0 < step ∨ ¬ step < rule.stpmin

theorem Search.step_pos_of_start (h : (Search.start value slope step cap).1.status = .searching) :
    0 < (Search.start value slope step cap).1.step := by
  rcases Search.start_cases value slope step cap with ⟨_, heq⟩ | ⟨-, hpos, heq⟩
  · rw [heq] at h
    cases h
  · rw [heq]
    exact hpos

theorem Search.not_lt_stpmin_of_backtrack {s : Search α} {rule : Safeguard α}
    (h : (s.backtrack rule reference step value).1.status = .searching) :
    ¬ (s.backtrack rule reference step value).1.step < rule.stpmin := by
  have hrejected : (s.backtrack rule reference step value).1.status ≠ .converged := by
    rw [h]
    exact nofun
  intro hshort
  have hfailed := (backtrack_failed_iff (goesOn_backtrack h).before hrejected).mpr (.inl hshort)
  cases hfailed.symm.trans h

theorem Wolfe.not_lt_stpmin_of_reject {b : Wolfe α} (h : b.reject.1.status = .searching) :
    ¬ b.reject.1.step < b.rule.stpmin := by
  rcases b.reject_cases with ⟨_, -, heq⟩ | ⟨-, hlong, heq⟩
  · rw [heq] at h
    cases h
  · rw [heq]
    exact hlong

theorem Wolfe.not_lt_stpmin_of_iterate {b : Wolfe α}
    (h : (b.iterate step value slope).1.status = .searching) :
    ¬ (b.iterate step value slope).1.step < b.rule.stpmin := by
  rcases b.iterate_cases step value slope with
    ⟨hover, heq⟩ | ⟨-, heq | ⟨b', -, hrule, heq⟩⟩
  · rw [heq] at h
    exact absurd h hover
  · rw [heq] at h
    cases h
  · rw [heq] at h ⊢
    rw [← hrule]
    exact not_lt_stpmin_of_reject h

namespace Strategy

variable {s : Strategy α}

theorem allows_start (h : (s.start value slope step cap).1.status = .searching) :
    s.rule.Allows (s.start value slope step cap).1.step := by
  rw [(s.start_search value slope step cap).1] at h ⊢
  exact .inl (Search.step_pos_of_start h)

theorem allows_iterate (h : (s.iterate step value slope).1.status = .searching) :
    s.rule.Allows (s.iterate step value slope).1.step := by
  right
  cases s with
  | backtracking b => exact Search.not_lt_stpmin_of_backtrack h
  | nonmonotone b => exact Search.not_lt_stpmin_of_backtrack h
  | wolfe b => exact Wolfe.not_lt_stpmin_of_iterate h

end Strategy

end Steps

/-! ## Doubles that are zero -/

namespace Double

open Float.Model

theorem compare_zero (sign : UnpackedFloat.Sign) (u : UnpackedFloat) :
    (UnpackedFloat.zero sign).compare u = (UnpackedFloat.zero .positive).compare u := by
  cases u with
  | infinity sign' => cases sign' <;> rfl
  | finite sign' => cases sign' <;> rfl
  | _ => rfl

theorem exists_unpacked_zero {a : Float} (h : Scalar.equal a 0 = true) :
    ∃ sign, unpacked a = .zero sign := by
  have hequal : Scalar.equal a 0 =
      ((unpacked a).compare (.zero .positive) == some .eq) := rfl
  rw [hequal, beq_iff_eq] at h
  cases hu : unpacked a with
  | zero sign => exact ⟨sign, rfl⟩
  | notANumber => rw [hu] at h; cases h
  | infinity sign => cases sign <;> (rw [hu] at h; cases h)
  | finite sign => cases sign <;> (rw [hu] at h; cases h)

theorem lt_of_equal_zero {a b : Float} (ha : Scalar.equal a 0 = true) (hb : 0 < b) : a < b := by
  obtain ⟨sign, hzero⟩ := exists_unpacked_zero ha
  rw [lt_iff] at hb ⊢
  rw [hzero, compare_zero]
  exact hb

end Double

/-- A step of no length is allowed only if the least step is not positive. -/
theorem Rule.Allows.not_stpmin_pos {rule : Rule Float} {step : Float} (h : rule.Allows step)
    (hzero : Scalar.equal step 0 = true) : ¬ 0 < rule.stpmin := by
  intro hpos
  rcases h with hstep | hlong
  · exact OrderedScalar.lt_irrefl step (Double.lt_of_equal_zero hzero hstep)
  · exact hlong (Double.lt_of_equal_zero hzero hpos)

/-! ## Strategies that are built from options -/

theorem Number.one_le_of_truncated {x : Float} {i : ℤ} (habove : wholeAbove 1 x = false)
    (h : truncated x = .ok i) : 1 ≤ i := by
  unfold truncated at h
  unfold wholeAbove at habove
  split at h
  next => cases h
  next hnumber =>
    rw [if_neg hnumber] at habove
    split at h
    next => cases h
    next hfinite =>
      rw [if_neg hfinite] at habove
      generalize signedSignificand x = significand at h habove
      obtain ⟨m, q⟩ := significand
      obtain rfl := Except.ok.inj h
      dsimp only at habove ⊢
      split at habove
      next hwhole =>
        rw [if_pos hwhole]
        rw [decide_eq_false_iff_not] at habove
        omega
      next hfraction =>
        rw [if_neg hfraction]
        rw [decide_eq_false_iff_not, one_mul, not_lt] at habove
        have hpos : 0 < Int.pow 2 (-q).toNat := Int.pow_pos (by decide)
        rw [Int.tdiv_eq_ediv_of_nonneg (hpos.le.trans habove)]
        exact (Int.le_ediv_iff_mul_le hpos).mpr ((one_mul _).le.trans habove)

theorem Value.one_le_of_toInt {v : Value} {i : ℤ}
    (hbound : Config.isNotBelow v (.int 1) = .ok true) (h : v.toInt = .ok i) : 1 ≤ i := by
  obtain ⟨below, hbelow, hnot⟩ := exists_of_bind_eq_ok hbound
  obtain rfl : below = false := by simpa using Except.ok.inj hnot
  cases v with
  | bool b =>
    obtain rfl := Except.ok.inj h
    simpa [number?, Number.below] using Except.ok.inj hbelow
  | int j =>
    obtain rfl := Except.ok.inj h
    simpa [number?, Number.below] using Except.ok.inj hbelow
  | float x => exact Number.one_le_of_truncated (Except.ok.inj hbelow) h
  | _ => cases hbelow

namespace Strategy

open Config

theorem met_of_require {met : Except Fault Bool} {option : String} {requirement : Requirement}
    {given : Value} {u : Unit} (h : require met option requirement given = .ok u) :
    met = .ok true := by
  obtain ⟨b, hmet, hcheck⟩ := exists_of_bind_eq_ok h
  cases b with
  | true => exact hmet
  | false => cases hcheck

/-- What is known of a rule that was read from parameters: its smallest factor is at most one
half, and its limit at least one. -/
structure ReadFrom (p : StrategyParameters) (rule : Safeguard Float) : Prop where
  amin_checked : isAtMostHalf p.amin = .ok true
  amin_eq : p.amin.toDouble = .ok rule.amin
  limit_checked : isNotBelow p.maxiter (.int 1) = .ok true
  limit_eq : ∃ limit, p.maxiter.toInt = .ok limit ∧ limit.toNat = rule.limit

theorem readFrom_of_safeguard {p : StrategyParameters} {rule : Safeguard Float}
    (h : safeguard p = .ok rule) : ReadFrom p rule := by
  obtain ⟨_, _, h⟩ := exists_of_bind_eq_ok h
  obtain ⟨_, hhalf, h⟩ := exists_of_bind_eq_ok h
  obtain ⟨_, _, h⟩ := exists_of_bind_eq_ok h
  obtain ⟨_, hlimit, h⟩ := exists_of_bind_eq_ok h
  obtain ⟨ftol, _, h⟩ := exists_of_bind_eq_ok h
  obtain ⟨amin, hamin, h⟩ := exists_of_bind_eq_ok h
  obtain ⟨stpmin, _, h⟩ := exists_of_bind_eq_ok h
  obtain ⟨limit, hwhole, h⟩ := exists_of_bind_eq_ok h
  obtain rfl := Except.ok.inj h
  exact ⟨met_of_require hhalf, hamin, met_of_require hlimit, limit, hwhole, rfl⟩

theorem one_le_limit_of_safeguard {p : StrategyParameters} {rule : Safeguard Float}
    (h : safeguard p = .ok rule) : 1 ≤ rule.limit := by
  have hread := readFrom_of_safeguard h
  obtain ⟨limit, hwhole, hlimit⟩ := hread.limit_eq
  have hone := Value.one_le_of_toInt hread.limit_checked hwhole
  omega

theorem one_le_limit_of_wolfeRule {p : StrategyParameters} {rule : WolfeRule Float}
    (h : wolfeRule p = .ok rule) : 1 ≤ rule.limit := by
  obtain ⟨ordered, _, h⟩ := exists_of_bind_eq_ok h
  cases ordered with
  | false => cases h
  | true =>
    obtain ⟨_, hlimit, h⟩ := exists_of_bind_eq_ok h
    obtain ⟨ftol, _, h⟩ := exists_of_bind_eq_ok h
    obtain ⟨gtol, _, h⟩ := exists_of_bind_eq_ok h
    obtain ⟨stpmin, _, h⟩ := exists_of_bind_eq_ok h
    obtain ⟨limit, hwhole, h⟩ := exists_of_bind_eq_ok h
    obtain rfl := Except.ok.inj h
    have hone := Value.one_le_of_toInt (met_of_require hlimit) hwhole
    show 1 ≤ limit.toNat
    omega

/-- However a strategy is built, it may reject at least one trial. -/
theorem one_le_limit_of_build {kind : StrategyKind} {p : StrategyParameters}
    {s : Strategy Float} (h : build kind p = .ok s) : 1 ≤ s.limit := by
  cases kind with
  | backtracking =>
    obtain ⟨rule, hrule, h⟩ := exists_of_bind_eq_ok h
    obtain rfl := Except.ok.inj h
    exact one_le_limit_of_safeguard hrule
  | nonmonotone =>
    obtain ⟨rule, hrule, h⟩ := exists_of_bind_eq_ok h
    obtain ⟨window, -, h⟩ := exists_of_bind_eq_ok h
    obtain rfl := Except.ok.inj h
    exact one_le_limit_of_safeguard hrule
  | wolfe =>
    obtain ⟨rule, hrule, h⟩ := exists_of_bind_eq_ok h
    obtain rfl := Except.ok.inj h
    exact one_le_limit_of_wolfeRule hrule

end Strategy

end VariableMetric
