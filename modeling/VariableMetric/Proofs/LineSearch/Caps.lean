import VariableMetric.Proofs.LineSearch.Trials

/-!
# Strategies with another cap

The largest step allowed is told to a strategy when a search is begun.  Backtracking
never looks at it again.  Bracketing cuts down its trials to it, and accepts a trial there
for its decrease alone, so two of its searches that differ in the cap go on alike as long
as no trial comes up to a cap.
-/

namespace VariableMetric

variable {α : Type}

def Search.withCap (s : Search α) (cap : α) : Search α := { s with cap }

def Wolfe.withCap (b : Wolfe α) (cap : α) : Wolfe α := { b with search := b.search.withCap cap }

def Strategy.withCap : Strategy α → α → Strategy α
  | backtracking b, cap => .backtracking { b with search := b.search.withCap cap }
  | nonmonotone b, cap => .nonmonotone { b with search := b.search.withCap cap }
  | wolfe b, cap => .wolfe (b.withCap cap)

theorem Strategy.withCap_self (t : Strategy α) : t.withCap t.search.cap = t := by
  cases t <;> rfl

variable [Scalar α]

/-! ## Beginning a search -/

section Start

variable {value slope step cap cap' : α}

theorem Search.cap_start (value slope step cap : α) :
    (Search.start value slope step cap).2.cap = cap := by
  rcases Search.start_cases value slope step cap with ⟨_, heq⟩ | ⟨-, -, heq⟩ <;> rw [heq]

theorem Strategy.cap_start (t : Strategy α) (value slope step cap : α) :
    (t.start value slope step cap).2.search.cap = cap := by
  rw [(t.start_search value slope step cap).2]
  exact Search.cap_start value slope step cap

theorem Strategy.step_start (t : Strategy α) (value slope step cap : α) :
    (t.start value slope step cap).1.step = Scalar.least step cap := by
  rw [(t.start_search value slope step cap).1]
  rcases Search.start_cases value slope step cap with ⟨_, heq⟩ | ⟨-, -, heq⟩ <;> rw [heq]

/-- Only the step that is cut down depends on the cap. -/
theorem Search.start_withCap (h : Scalar.least step cap' = Scalar.least step cap) :
    Search.start value slope step cap' =
      ((Search.start value slope step cap).1,
        (Search.start value slope step cap).2.withCap cap') := by
  unfold Search.start
  rw [h]
  dsimp only
  split
  · split <;> rfl
  · rfl

/-- What was left of an older cap is overwritten. -/
theorem Strategy.start_withCap (t : Strategy α) (older : α)
    (h : Scalar.least step cap' = Scalar.least step cap) :
    (t.withCap older).start value slope step cap' =
      ((t.start value slope step cap).1, (t.start value slope step cap).2.withCap cap') := by
  have hstart : Search.start value slope step cap' =
      ((Search.start value slope step cap).1,
        (Search.start value slope step cap).2.withCap cap') := Search.start_withCap h
  cases t with
  | backtracking b =>
    simp only [withCap, start, Backtracking.start, hstart]
  | nonmonotone b =>
    simp only [withCap, start, Nonmonotone.start, hstart]
    split <;> rfl
  | wolfe b =>
    simp only [withCap, Wolfe.withCap, start, Wolfe.start, hstart]

end Start

/-! ## Reporting a trial -/

theorem Search.backtrack_withCap (s : Search α) (cap : α) (rule : Safeguard α)
    (reference step value : α) :
    (s.withCap cap).backtrack rule reference step value =
      ((s.backtrack rule reference step value).1,
        (s.backtrack rule reference step value).2.withCap cap) := by
  have hstatus : (s.withCap cap).status = s.status := rfl
  have htrials : (s.withCap cap).trials = s.trials := rfl
  have haccepts : (s.withCap cap).accepts rule reference step value =
      s.accepts rule reference step value := rfl
  have hshorter : (s.withCap cap).shorterStep rule step value =
      s.shorterStep rule step value := rfl
  unfold backtrack
  simp only [hstatus, htrials, haccepts, hshorter]
  split
  · split
    · rfl
    · split
      · rfl
      · split <;> rfl
  · rfl

theorem Wolfe.cap_reject (b : Wolfe α) : b.reject.2.search.cap = b.search.cap := by
  rcases b.reject_cases with ⟨_, -, heq⟩ | ⟨-, -, heq⟩ <;> rw [heq]

theorem Search.cap_backtrack (s : Search α) (rule : Safeguard α) (reference step value : α) :
    (s.backtrack rule reference step value).2.cap = s.cap := by
  rcases s.backtrack_cases rule reference step value with
    ⟨-, heq⟩ | ⟨-, -, heq⟩ | ⟨-, -, _, _, -, -, heq⟩ <;> rw [heq]

theorem Strategy.cap_iterate (t : Strategy α) (step value slope : α) :
    (t.iterate step value slope).2.search.cap = t.search.cap := by
  cases t with
  | backtracking b => exact b.search.cap_backtrack _ _ _ _
  | nonmonotone b => exact b.search.cap_backtrack _ _ _ _
  | wolfe b =>
    show (b.iterate step value slope).2.search.cap = b.search.cap
    rcases b.iterate_cases step value slope with ⟨-, heq⟩ | ⟨-, heq | ⟨b', hsearch, -, heq⟩⟩
    · rw [heq]
    · rw [heq]
      rfl
    · rw [heq, Wolfe.cap_reject, hsearch]

/-! ## Searches without a cap

The trials of a search whose cap is infinite are those of a search with any cap above
them. -/

/-- An answer of a search with a cap: it has the status of another answer, asks for the
same trial if it asks for one, and leaves the search in the same state but for the cap. -/
structure Strategy.AnswersAlike (cap : α) (answer answer' : Reply α × Strategy α) : Prop where
  status : answer'.1.status = answer.1.status
  step : answer.1.status = .searching → answer'.1.step = answer.1.step
  search : answer'.2 = answer.2.withCap cap

section Exact

variable {b : Wolfe Exact} {cap step : Exact}

theorem Exact.not_infinity_le_of_lt (h : step < cap) :
    ¬ (Scalar.infinity : Exact) ≤ step := by
  intro hle
  cases step with
  | real a => cases hle
  | infinite negative =>
    rcases hle with hle | hle
    · cases hle
    · cases negative with
      | true => cases hle
      | false => exact OrderedScalar.not_infinity_lt cap h
  | undefined => exact hle

theorem Wolfe.nextStep_withCap (hfree : b.search.cap = Scalar.infinity) :
    (b.withCap cap).nextStep = b.nextStep ∨
      cap < b.nextStep ∧ (b.withCap cap).nextStep = cap := by
  have hhi : (b.withCap cap).hi = b.hi := rfl
  have hlo : (b.withCap cap).lo = b.lo := rfl
  have hcap : (b.withCap cap).search.cap = cap := rfl
  unfold nextStep
  rw [hhi, hlo, hcap, hfree]
  split
  · exact .inl rfl
  · rw [Scalar.least, Scalar.least, if_neg (OrderedScalar.not_infinity_lt _)]
    split
    next hlong => exact .inr ⟨hlong, rfl⟩
    next => exact .inl rfl

theorem Wolfe.reject_withCap (hfree : b.search.cap = Scalar.infinity)
    (hnext : b.reject.1.status = .searching → b.reject.1.step < cap) :
    Strategy.AnswersAlike cap (b.reject.1, .wolfe b.reject.2)
      ((b.withCap cap).reject.1, .wolfe (b.withCap cap).reject.2) := by
  have htrials : (b.withCap cap).search.trials = b.search.trials := rfl
  have hrule : (b.withCap cap).rule = b.rule := rfl
  have hsteps : (b.withCap cap).nextStep = b.nextStep ∨
      cap < b.nextStep ∧ (b.withCap cap).nextStep = cap := b.nextStep_withCap hfree
  unfold reject at hnext ⊢
  dsimp only at hnext ⊢
  rw [htrials, hrule]
  by_cases hspent : b.rule.limit ≤ b.search.trials + 1
  · rw [if_pos hspent, if_pos hspent]
    exact ⟨rfl, nofun, rfl⟩
  · rw [if_neg hspent] at hnext ⊢
    rw [if_neg hspent]
    by_cases hshort : b.nextStep < b.rule.stpmin
    · -- A trial that is cut down is even shorter.
      have hshort' : (b.withCap cap).nextStep < b.rule.stpmin := by
        rcases hsteps with hsame | ⟨hlong, hcut⟩
        · rwa [hsame]
        · rw [hcut]
          exact Exact.lt_of_le_of_lt (Exact.le_of_lt hlong) hshort
      rw [if_pos hshort, if_pos hshort']
      exact ⟨rfl, nofun, rfl⟩
    · rw [if_neg hshort] at hnext ⊢
      have hsame : (b.withCap cap).nextStep = b.nextStep :=
        hsteps.resolve_right fun hcut => StoredScalar.lt_asymm hcut.1 (hnext rfl)
      rw [hsame, if_neg hshort]
      exact ⟨rfl, fun _ => rfl, rfl⟩

theorem Wolfe.iterate_withCap {value slope : Exact} (hfree : b.search.cap = Scalar.infinity)
    (hstep : step < cap)
    (hnext : (b.iterate step value slope).1.status = .searching →
      (b.iterate step value slope).1.step < cap) :
    Strategy.AnswersAlike cap
      ((b.iterate step value slope).1, .wolfe (b.iterate step value slope).2)
      (((b.withCap cap).iterate step value slope).1,
        .wolfe ((b.withCap cap).iterate step value slope).2) := by
  have hstatus : (b.withCap cap).search.status = b.search.status := rfl
  have hhigh : (b.withCap cap).tooHigh step value = b.tooHigh step value := rfl
  have hsteep : (b.withCap cap).tooSteep slope = b.tooSteep slope := rfl
  have hcap : (b.withCap cap).search.cap = cap := rfl
  -- No cap is reached, so the decrease alone is enough for neither of them.
  have hnotfree : ¬ b.search.cap ≤ step := by
    rw [hfree]
    exact Exact.not_infinity_le_of_lt hstep
  unfold iterate at hnext ⊢
  rw [hstatus, hhigh, hsteep, hcap]
  by_cases hsearching : b.search.status = .searching
  · rw [if_pos hsearching] at hnext ⊢
    rw [if_pos hsearching]
    by_cases htoohigh : b.tooHigh step value = true
    · rw [if_pos htoohigh] at hnext ⊢
      rw [if_pos htoohigh]
      exact reject_withCap (b := { b with hi := step }) hfree hnext
    · rw [if_neg htoohigh] at hnext ⊢
      rw [if_neg htoohigh]
      by_cases htoosteep : b.tooSteep slope = true
      · rw [if_pos htoosteep, if_neg hnotfree] at hnext ⊢
        rw [if_pos htoosteep, if_neg (Exact.not_le_of_lt hstep)]
        exact reject_withCap (b := { b with lo := step }) hfree hnext
      · rw [if_neg htoosteep, if_neg htoosteep]
        exact ⟨rfl, nofun, rfl⟩
  · rw [if_neg hsearching, if_neg hsearching]
    exact ⟨rfl, fun _ => rfl, rfl⟩

/-- A search with a cap answers like a search without one, as long as the cap lies above
its trials. -/
theorem Strategy.iterate_withCap {t : Strategy Exact} {value slope : Exact}
    (hfree : t.search.cap = Scalar.infinity) (hstep : step < cap)
    (hnext : (t.iterate step value slope).1.status = .searching →
      (t.iterate step value slope).1.step < cap) :
    AnswersAlike cap (t.iterate step value slope)
      ((t.withCap cap).iterate step value slope) := by
  cases t with
  | backtracking b =>
    have hsame := b.search.backtrack_withCap cap b.rule b.search.value step value
    have hanswer : (withCap (.backtracking b) cap).iterate step value slope =
        ((iterate (.backtracking b) step value slope).1,
          (iterate (.backtracking b) step value slope).2.withCap cap) := by
      show (((b.search.withCap cap).backtrack b.rule b.search.value step value).1,
        Strategy.backtracking { b with
          search := ((b.search.withCap cap).backtrack b.rule b.search.value step value).2 }) = _
      rw [hsame]
      rfl
    rw [hanswer]
    exact ⟨rfl, fun _ => rfl, rfl⟩
  | nonmonotone b =>
    have hsame := b.search.backtrack_withCap cap b.rule b.reference step value
    have hanswer : (withCap (.nonmonotone b) cap).iterate step value slope =
        ((iterate (.nonmonotone b) step value slope).1,
          (iterate (.nonmonotone b) step value slope).2.withCap cap) := by
      show (((b.search.withCap cap).backtrack b.rule b.reference step value).1,
        Strategy.nonmonotone { b with
          search := ((b.search.withCap cap).backtrack b.rule b.reference step value).2 }) = _
      rw [hsame]
      rfl
    rw [hanswer]
    exact ⟨rfl, fun _ => rfl, rfl⟩
  | wolfe b => exact Wolfe.iterate_withCap hfree hstep hnext

end Exact

end VariableMetric
