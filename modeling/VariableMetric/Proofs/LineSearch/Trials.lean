import VariableMetric.Proofs.LineSearch.Search
import VariableMetric.Proofs.LineSearch.Strategy

/-!
# How many trials a strategy asks for

A strategy counts the trials that it rejects, and goes on searching only while the count
stays below its limit.  So a search that has been started is over after as many trials
as the limit allows, whatever the values and slopes of the trials are.  A trial where
the objective is not finite is never accepted.
-/

namespace VariableMetric

variable {α : Type}

/-- A search that goes on has rejected one more trial, and may reject another one. -/
structure Search.GoesOn (s s' : Search α) (limit : ℕ) : Prop where
  before : s.status = .searching
  trials : s'.trials = s.trials + 1
  below : s'.trials < limit

def Rule.limit : Rule α → ℕ
  | backtracking r => r.limit
  | nonmonotone r _ => r.limit
  | wolfe r => r.limit

theorem Strategy.limit_rule (s : Strategy α) : s.rule.limit = s.limit := by
  cases s <;> rfl

theorem Strategy.limit_reset (s : Strategy α) : s.reset.limit = s.limit := by
  rw [← limit_rule, rule_reset, limit_rule]

variable [Scalar α]

/-! ## One search -/

namespace Search

variable {s : Search α} {rule : Safeguard α} {reference step value : α}

theorem trials_start (value slope step cap : α) :
    (Search.start value slope step cap).2.trials = 0 := by
  rcases start_cases value slope step cap with ⟨_, heq⟩ | ⟨-, -, heq⟩ <;> rw [heq]

theorem status_start (value slope step cap : α) :
    (Search.start value slope step cap).2.status =
      (Search.start value slope step cap).1.status := by
  rcases start_cases value slope step cap with ⟨_, heq⟩ | ⟨-, -, heq⟩ <;> rw [heq]

theorem status_backtrack (s : Search α) (rule : Safeguard α) (reference step value : α) :
    (s.backtrack rule reference step value).2.status =
      (s.backtrack rule reference step value).1.status := by
  rcases s.backtrack_cases rule reference step value with
    ⟨-, heq⟩ | ⟨-, -, heq⟩ | ⟨-, -, _, _, -, -, heq⟩ <;> rw [heq]

theorem isFinite_of_backtrack (hsearching : s.status = .searching)
    (h : (s.backtrack rule reference step value).1.status = .converged) :
    Scalar.isFinite value = true := by
  exact ((backtrack_converged_iff hsearching rule reference step value).mp h).1

theorem goesOn_backtrack (h : (s.backtrack rule reference step value).1.status = .searching) :
    s.GoesOn (s.backtrack rule reference step value).2 rule.limit := by
  rcases s.backtrack_cases rule reference step value with
    ⟨hover, heq⟩ | ⟨-, -, heq⟩ | ⟨hsearching, -, status, _, -, hfailed, heq⟩
  · rw [heq] at h
    exact absurd h hover
  · rw [heq] at h
    cases h
  · rw [heq] at h ⊢
    have hleft : ¬ rule.limit ≤ s.trials + 1 := by
      intro hspent
      cases (hfailed.mpr (.inr hspent)).symm.trans h
    exact ⟨hsearching, rfl, Nat.lt_of_not_le hleft⟩

end Search

namespace Wolfe

variable {b b' : Wolfe α} {step value slope : α}

theorem status_reject (hsearching : b.search.status = .searching) :
    b.reject.2.search.status = b.reject.1.status := by
  rcases b.reject_cases with ⟨_, -, heq⟩ | ⟨-, -, heq⟩ <;> rw [heq]
  exact hsearching

theorem goesOn_reject (hsearching : b.search.status = .searching)
    (h : b.reject.1.status = .searching) : b.search.GoesOn b.reject.2.search b.rule.limit := by
  rcases b.reject_cases with ⟨_, -, heq⟩ | ⟨hleft, -, heq⟩
  · rw [heq] at h
    cases h
  · rw [heq]
    exact ⟨hsearching, rfl, hleft⟩

theorem status_iterate (b : Wolfe α) (step value slope : α) :
    (b.iterate step value slope).2.search.status =
      (b.iterate step value slope).1.status := by
  rcases b.iterate_cases step value slope with
    ⟨-, heq⟩ | ⟨hsearching, heq | ⟨b', hsearch, -, heq⟩⟩
  · rw [heq]
  · rw [heq]
    rfl
  · rw [heq]
    exact status_reject (hsearch ▸ hsearching)

theorem goesOn_iterate (h : (b.iterate step value slope).1.status = .searching) :
    b.search.GoesOn (b.iterate step value slope).2.search b.rule.limit := by
  rcases b.iterate_cases step value slope with
    ⟨hover, heq⟩ | ⟨hsearching, heq | ⟨b', hsearch, hrule, heq⟩⟩
  · rw [heq] at h
    exact absurd h hover
  · rw [heq] at h
    cases h
  · rw [heq] at h ⊢
    rw [← hsearch, ← hrule]
    exact goesOn_reject (hsearch ▸ hsearching) h

/-- A trial that is accepted was not too high, so its value is finite. -/
theorem isFinite_of_converged (hsearching : b.search.status = .searching)
    (h : (b.iterate step value slope).1.status = .converged) :
    Scalar.isFinite value = true := by
  have hlow := ((converged_iff hsearching step value slope).mp h).1
  rw [tooHigh, Bool.or_eq_false_iff, Bool.not_eq_false'] at hlow
  exact hlow.1

end Wolfe

/-! ## The strategies -/

namespace Strategy

variable {s : Strategy α} {value slope step cap : α} {trials : List (α × α × α)}

theorem limit_start (s : Strategy α) (value slope step cap : α) :
    (s.start value slope step cap).2.limit = s.limit := by
  rw [← limit_rule, rule_start, limit_rule]

theorem limit_iterate (s : Strategy α) (step value slope : α) :
    (s.iterate step value slope).2.limit = s.limit := by
  rw [← limit_rule, rule_iterate, limit_rule]

/-- Every strategy starts its search in the same way. -/
theorem start_search (s : Strategy α) (value slope step cap : α) :
    (s.start value slope step cap).1 = (Search.start value slope step cap).1 ∧
      (s.start value slope step cap).2.search = (Search.start value slope step cap).2 := by
  cases s with
  | nonmonotone b =>
    unfold start Nonmonotone.start
    dsimp only
    split <;> exact ⟨rfl, rfl⟩
  | _ => exact ⟨rfl, rfl⟩

theorem trials_start (s : Strategy α) (value slope step cap : α) :
    (s.start value slope step cap).2.search.trials = 0 := by
  rw [(s.start_search value slope step cap).2]
  exact Search.trials_start value slope step cap

theorem status_start (s : Strategy α) (value slope step cap : α) :
    (s.start value slope step cap).2.search.status =
      (s.start value slope step cap).1.status := by
  obtain ⟨hreply, hsearch⟩ := s.start_search value slope step cap
  rw [hreply, hsearch]
  exact Search.status_start value slope step cap

theorem status_iterate (s : Strategy α) (step value slope : α) :
    (s.iterate step value slope).2.search.status =
      (s.iterate step value slope).1.status := by
  cases s with
  | backtracking b => exact b.search.status_backtrack _ _ _ _
  | nonmonotone b => exact b.search.status_backtrack _ _ _ _
  | wolfe b => exact b.status_iterate _ _ _

theorem goesOn_iterate (h : (s.iterate step value slope).1.status = .searching) :
    s.search.GoesOn (s.iterate step value slope).2.search s.limit := by
  cases s with
  | backtracking b => exact Search.goesOn_backtrack h
  | nonmonotone b => exact Search.goesOn_backtrack h
  | wolfe b => exact Wolfe.goesOn_iterate h

/-- No strategy accepts a trial where the objective is not finite. -/
theorem isFinite_of_converged (hsearching : s.search.status = .searching)
    (h : (s.iterate step value slope).1.status = .converged) :
    Scalar.isFinite value = true := by
  cases s with
  | backtracking b => exact Search.isFinite_of_backtrack hsearching h
  | nonmonotone b => exact Search.isFinite_of_backtrack hsearching h
  | wolfe b => exact Wolfe.isFinite_of_converged hsearching h

/-- The strategy after it has been told of some trials, each a step, a value and a
slope. -/
def after (s : Strategy α) (trials : List (α × α × α)) : Strategy α :=
  trials.foldl (fun s trial => (s.iterate trial.1 trial.2.1 trial.2.2).2) s

theorem after_cons (s : Strategy α) (trial : α × α × α) (trials : List (α × α × α)) :
    s.after (trial :: trials) = (s.iterate trial.1 trial.2.1 trial.2.2).2.after trials := rfl

theorem limit_after (s : Strategy α) (trials : List (α × α × α)) :
    (s.after trials).limit = s.limit := by
  induction trials generalizing s with
  | nil => rfl
  | cons trial trials ih => rw [after_cons, ih, limit_iterate]

/-- A search that is still on has counted every trial. -/
theorem trials_after (h : (s.after trials).search.status = .searching) :
    s.search.status = .searching ∧
      (s.after trials).search.trials = s.search.trials + trials.length := by
  induction trials generalizing s with
  | nil => exact ⟨h, rfl⟩
  | cons trial trials ih =>
    obtain ⟨hstatus, htrials⟩ := ih h
    rw [status_iterate] at hstatus
    have hgoesOn := goesOn_iterate hstatus
    refine ⟨hgoesOn.before, ?_⟩
    rw [after_cons, htrials, hgoesOn.trials, List.length_cons]
    omega

/-- A search that has been started does not outlast its limit. -/
theorem over_after_limit (s : Strategy α) (value slope step cap : α)
    (h : s.limit ≤ trials.length + 1) (trial : α × α × α) :
    ((((s.start value slope step cap).2.after trials).iterate trial.1 trial.2.1
      trial.2.2).1.status ≠ .searching) := by
  intro hsearching
  have hgoesOn := goesOn_iterate hsearching
  have hbelow := hgoesOn.below
  rw [hgoesOn.trials, (trials_after hgoesOn.before).2, trials_start, limit_after,
    limit_start] at hbelow
  omega

end Strategy

theorem LineSearch.ofStrategy_start (uses : Bool) :
    (LineSearch.ofStrategy uses : LineSearch α (Strategy α)).start = Strategy.start := rfl

/-- A strategy that drives a run always has an answer. -/
theorem LineSearch.ofStrategy_iterate (uses : Bool) (s : Strategy α) (step value slope : α) :
    (LineSearch.ofStrategy uses).iterate s step value slope =
      (.ok (s.iterate step value slope).1, (s.iterate step value slope).2) := rfl

end VariableMetric
