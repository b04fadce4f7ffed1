import VariableMetric.LineSearch.Strategy

/-!
# What a call of a line search can do

A search is refused or begun.  A trial is answered by the status of a search that is over; it
is accepted, and ends the search; or it is rejected and counted, and the search goes on with
another step or is given up.
-/

namespace VariableMetric

variable {α : Type} [Scalar α]

namespace Search

/-- A search is refused, or begun at what it was started with. -/
theorem start_cases (value slope step cap : α) :
    (∃ notices, Search.start value slope step cap =
      (⟨.failed, Scalar.least step cap, notices⟩, ⟨.failed, value, slope, cap, 0⟩)) ∨
    slope < 0 ∧ 0 < Scalar.least step cap ∧ Search.start value slope step cap =
      (⟨.searching, Scalar.least step cap, []⟩, ⟨.searching, value, slope, cap, 0⟩) := by
  unfold Search.start
  dsimp only
  split
  next hdescends =>
    split
    next hpos => exact .inr ⟨hdescends, hpos, rfl⟩
    next => exact .inl ⟨_, rfl⟩
  next => exact .inl ⟨_, rfl⟩

theorem accepts_iff (s : Search α) (rule : Safeguard α) (reference step value : α) :
    s.accepts rule reference step value = true ↔
      Scalar.isFinite value = true ∧ value ≤ reference + rule.ftol * step * s.slope := by
  rw [accepts, Bool.and_eq_true, decide_eq_true_iff, target]

/-- A trial is answered by the status of the search, accepted, or rejected; a rejected one is
counted, and the search is given up for a step below the least one or for the number of its
trials. -/
theorem backtrack_cases (s : Search α) (rule : Safeguard α) (reference step value : α) :
    s.status ≠ .searching ∧
        s.backtrack rule reference step value = (⟨s.status, step, []⟩, s) ∨
      s.status = .searching ∧ s.accepts rule reference step value = true ∧
        s.backtrack rule reference step value =
          (⟨.converged, step, []⟩, { s with status := .converged }) ∨
      s.status = .searching ∧ s.accepts rule reference step value = false ∧
        ∃ status notices, status ≠ .converged ∧
          (status = .failed ↔ s.shorterStep rule step value < rule.stpmin ∨
            rule.limit ≤ s.trials + 1) ∧
          s.backtrack rule reference step value =
            (⟨status, s.shorterStep rule step value, notices⟩,
              { s with status := status, trials := s.trials + 1 }) := by
  unfold backtrack
  by_cases hsearching : s.status = .searching
  · rw [if_pos hsearching]
    cases haccepts : s.accepts rule reference step value with
    | true => exact .inr (.inl ⟨hsearching, rfl, if_pos rfl⟩)
    | false =>
      refine .inr (.inr ⟨hsearching, rfl, ?_⟩)
      rw [if_neg Bool.false_ne_true]
      dsimp only
      split
      next hshort => exact ⟨.failed, _, nofun, iff_of_true rfl (.inl hshort), rfl⟩
      next hlong =>
        split
        next hspent => exact ⟨.failed, _, nofun, iff_of_true rfl (.inr hspent), rfl⟩
        next hleft =>
          refine ⟨.searching, [], nofun, iff_of_false nofun (not_or.mpr ⟨hlong, hleft⟩), ?_⟩
          rw [← hsearching]
  · rw [if_neg hsearching]
    exact .inl ⟨hsearching, rfl⟩

/-- A search that is on accepts a trial with a finite value that reaches its target. -/
theorem backtrack_converged_iff {s : Search α} (hsearching : s.status = .searching)
    (rule : Safeguard α) (reference step value : α) :
    (s.backtrack rule reference step value).1.status = .converged ↔
      Scalar.isFinite value = true ∧ value ≤ reference + rule.ftol * step * s.slope := by
  rw [← accepts_iff]
  rcases s.backtrack_cases rule reference step value with
    ⟨hover, -⟩ | ⟨-, haccepts, heq⟩ | ⟨-, hnot, status, _, hrejected, -, heq⟩
  · exact absurd hsearching hover
  · rw [heq]
    exact iff_of_true rfl haccepts
  · rw [heq, hnot]
    exact iff_of_false hrejected Bool.false_ne_true

/-- A search that is on answers with the trial if it is accepted, and with a shorter step if it
is not. -/
theorem backtrack_step {s : Search α} (hsearching : s.status = .searching)
    (rule : Safeguard α) (reference step value : α) :
    (s.backtrack rule reference step value).1.step =
      if (s.backtrack rule reference step value).1.status = .converged then step
      else s.shorterStep rule step value := by
  rcases s.backtrack_cases rule reference step value with
    ⟨hover, -⟩ | ⟨-, -, heq⟩ | ⟨-, -, status, _, hrejected, -, heq⟩
  · exact absurd hsearching hover
  · rw [heq, if_pos rfl]
  · rw [heq, if_neg hrejected]

/-- A search is given up at a trial that it rejects if the next step is below the least one, or
if its trials are spent. -/
theorem backtrack_failed_iff {s : Search α} {rule : Safeguard α} {reference step value : α}
    (hsearching : s.status = .searching)
    (hrejected : (s.backtrack rule reference step value).1.status ≠ .converged) :
    (s.backtrack rule reference step value).1.status = .failed ↔
      (s.backtrack rule reference step value).1.step < rule.stpmin ∨
        rule.limit ≤ s.trials + 1 := by
  rcases s.backtrack_cases rule reference step value with
    ⟨hover, -⟩ | ⟨-, -, heq⟩ | ⟨-, -, status, _, -, hfailed, heq⟩
  · exact absurd hsearching hover
  · rw [heq] at hrejected
    exact absurd rfl hrejected
  · rw [heq]
    exact hfailed

end Search

namespace Wolfe

/-- A rejected trial is counted, and the search is given up for the number of its trials or for
a step below the least one. -/
theorem reject_cases (b : Wolfe α) :
    (∃ notices, (b.rule.limit ≤ b.search.trials + 1 ∨ b.nextStep < b.rule.stpmin) ∧
        b.reject = (⟨.failed, b.nextStep, notices⟩,
          { b with search :=
            { b.search with status := .failed, trials := b.search.trials + 1 } })) ∨
      b.search.trials + 1 < b.rule.limit ∧ ¬ b.nextStep < b.rule.stpmin ∧
        b.reject = (⟨.searching, b.nextStep, []⟩,
          { b with search := { b.search with trials := b.search.trials + 1 } }) := by
  unfold reject
  dsimp only
  split
  next hspent => exact .inl ⟨_, .inl hspent, rfl⟩
  next hleft =>
    split
    next hshort => exact .inl ⟨_, .inr hshort, rfl⟩
    next hlong => exact .inr ⟨Nat.lt_of_not_le hleft, hlong, rfl⟩

/-- A trial that is not low enough becomes the upper end of the bracket, and one that is only
too steep its lower end, unless it is at the cap. -/
theorem iterate_branches (b : Wolfe α) (step value slope : α) :
    b.search.status ≠ .searching ∧
        b.iterate step value slope = (⟨b.search.status, step, []⟩, b) ∨
      b.search.status = .searching ∧
        (b.tooHigh step value = true ∧
            b.iterate step value slope = { b with hi := step }.reject ∨
          b.tooHigh step value = false ∧ b.tooSteep slope = true ∧ ¬ b.search.cap ≤ step ∧
            b.iterate step value slope = { b with lo := step }.reject ∨
          b.tooHigh step value = false ∧ (b.tooSteep slope = false ∨ b.search.cap ≤ step) ∧
            b.iterate step value slope = b.accept step) := by
  unfold iterate
  split
  next hsearching =>
    refine .inr ⟨hsearching, ?_⟩
    cases b.tooHigh step value with
    | true => exact .inl ⟨rfl, rfl⟩
    | false =>
      cases b.tooSteep slope with
      | false => exact .inr (.inr ⟨rfl, .inl rfl, rfl⟩)
      | true =>
        by_cases hcap : b.search.cap ≤ step
        · exact .inr (.inr ⟨rfl, .inr hcap, if_pos hcap⟩)
        · exact .inr (.inl ⟨rfl, rfl, hcap, if_neg hcap⟩)
  next hover => exact .inl ⟨hover, rfl⟩

/-- A trial is answered by the status of the search, accepted, or rejected with one end of
the bracket moved. -/
theorem iterate_cases (b : Wolfe α) (step value slope : α) :
    b.search.status ≠ .searching ∧
        b.iterate step value slope = (⟨b.search.status, step, []⟩, b) ∨
      b.search.status = .searching ∧
        (b.iterate step value slope = b.accept step ∨
          ∃ b' : Wolfe α, b'.search = b.search ∧ b'.rule = b.rule ∧
            b.iterate step value slope = b'.reject) := by
  rcases b.iterate_branches step value slope with
    hidle | ⟨hsearching, ⟨-, heq⟩ | ⟨-, -, -, heq⟩ | ⟨-, -, heq⟩⟩
  · exact .inl hidle
  · exact .inr ⟨hsearching, .inr ⟨{ b with hi := step }, rfl, rfl, heq⟩⟩
  · exact .inr ⟨hsearching, .inr ⟨{ b with lo := step }, rfl, rfl, heq⟩⟩
  · exact .inr ⟨hsearching, .inl heq⟩

theorem status_reject_ne_converged (b : Wolfe α) : b.reject.1.status ≠ .converged := by
  rcases b.reject_cases with ⟨_, -, heq⟩ | ⟨-, -, heq⟩ <;> (rw [heq]; exact nofun)

/-- A search that is on accepts a trial that is low enough, unless it is too steep and below
the cap. -/
theorem converged_iff {b : Wolfe α} (hsearching : b.search.status = .searching)
    (step value slope : α) :
    (b.iterate step value slope).1.status = .converged ↔
      b.tooHigh step value = false ∧ (b.tooSteep slope = false ∨ b.search.cap ≤ step) := by
  rcases b.iterate_branches step value slope with
    ⟨hover, -⟩ | ⟨-, ⟨hhigh, heq⟩ | ⟨-, hsteep, hcap, heq⟩ | ⟨hlow, hflat, heq⟩⟩
  · exact absurd hsearching hover
  · rw [heq]
    exact iff_of_false (status_reject_ne_converged _) fun h => by simp [h.1] at hhigh
  · rw [heq]
    refine iff_of_false (status_reject_ne_converged _) fun h => ?_
    rcases h.2 with hflat | hcapped
    · simp [hflat] at hsteep
    · exact hcap hcapped
  · rw [heq]
    exact iff_of_true rfl ⟨hlow, hflat⟩

/-- What is accepted is the trial itself. -/
theorem step_of_converged {b : Wolfe α} {step value slope : α}
    (hsearching : b.search.status = .searching)
    (h : (b.iterate step value slope).1.status = .converged) :
    (b.iterate step value slope).1.step = step := by
  rcases b.iterate_cases step value slope with ⟨hover, -⟩ | ⟨-, heq | ⟨b', -, -, heq⟩⟩
  · exact absurd hsearching hover
  · rw [heq]
    rfl
  · rw [heq] at h
    exact absurd h b'.status_reject_ne_converged

end Wolfe

end VariableMetric
