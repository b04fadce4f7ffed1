import VariableMetric.Config.Strategy
import VariableMetric.Proofs.LineSearch.Calls

/-!
# A window of one origin

A nonmonotone strategy whose window holds a single origin is the monotone one.  What it
remembers need not be the value at the origin of its search: a reset empties its history, and
a search that is refused leaves an older value there.  But it takes its reference from the
history only while a search is on, and then the history holds the value at the origin of that
search and nothing else.
-/

namespace VariableMetric

variable {α : Type}

/-- What a session shows: the calls with their answers, and the search as it was left. -/
def SearchSession.shown (t : SearchSession α) : List (SearchEntry α) × Search α :=
  (t.log, t.strategy.search)

/-- A monotone and a nonmonotone strategy in the same search; while it is on, the latter
remembers its origin and no other. -/
structure Backtracking.Twin (b : Backtracking α) (b' : Nonmonotone α) : Prop where
  rule : b'.rule = b.rule
  window : b'.window = 1
  search : b'.search = b.search
  history : b.search.status = .searching → b'.history = [b.search.value]

namespace Backtracking.Twin

variable {b : Backtracking α} {b' : Nonmonotone α}

theorem remember_eq (h : b.Twin b') (value : α) : b'.remember value = [value] := by
  unfold Nonmonotone.remember
  dsimp only
  rw [h.window, List.length_append, List.length_singleton, Nat.add_sub_cancel]
  exact List.drop_left

theorem reset (h : b.Twin b') : b.reset.Twin b'.reset where
  rule := h.rule
  window := h.window
  search := congrArg Search.reset h.search
  history := nofun

variable [Scalar α]

theorem start (h : b.Twin b') (value slope step cap : α) :
    (b'.start value slope step cap).1 = (b.start value slope step cap).1 ∧
      (b.start value slope step cap).2.Twin (b'.start value slope step cap).2 := by
  unfold Backtracking.start Nonmonotone.start
  rcases Search.start_cases value slope step cap with ⟨notices, heq⟩ | ⟨-, -, heq⟩
  · rw [heq]
    exact ⟨rfl, h.rule, h.window, rfl, nofun⟩
  · rw [heq]
    exact ⟨rfl, h.rule, h.window, rfl, fun _ => h.remember_eq value⟩

/-- The references are looked at only while they agree. -/
theorem backtrack_eq (h : b.Twin b') (step value : α) :
    b'.search.backtrack b'.rule b'.reference step value =
      b.search.backtrack b.rule b.search.value step value := by
  rw [h.rule, h.search]
  by_cases hsearching : b.search.status = .searching
  · have hreference : b'.reference = b.search.value := by
      unfold Nonmonotone.reference
      rw [h.history hsearching]
      rfl
    rw [hreference]
  · unfold Search.backtrack
    rw [if_neg hsearching, if_neg hsearching]

theorem iterate (h : b.Twin b') (step value : α) :
    (b'.iterate step value).1 = (b.iterate step value).1 ∧
      (b.iterate step value).2.Twin (b'.iterate step value).2 := by
  have heq := h.backtrack_eq step value
  refine ⟨congrArg Prod.fst heq, h.rule, h.window, congrArg Prod.snd heq, fun hafter => ?_⟩
  have hreply := (b.search.status_backtrack b.rule b.search.value step value).symm.trans hafter
  have horigin := b.search.origin_backtrack b.rule b.search.value step value
  rw [show (b.iterate step value).2.search.value = b.search.value from
    congrArg Origin.value horigin]
  exact h.history (Search.goesOn_backtrack hreply).before

end Backtracking.Twin

variable [Scalar α]

/-- Whatever is asked of them, the strategies answer alike and leave their searches alike. -/
theorem Backtracking.Twin.shown_foldl {b : Backtracking α} {b' : Nonmonotone α}
    (h : b.Twin b') (calls : List (SearchCall α)) (log : List (SearchEntry α)) :
    (calls.foldl SearchSession.serve ⟨.nonmonotone b', log⟩).shown =
      (calls.foldl SearchSession.serve ⟨.backtracking b, log⟩).shown := by
  induction calls generalizing b b' log with
  | nil => exact congrArg (Prod.mk log) h.search
  | cons call calls ih =>
    cases call with
    | reset => exact ih h.reset _
    | start value slope step cap =>
      obtain ⟨hreply, hnext⟩ := h.start value slope step cap
      show (calls.foldl SearchSession.serve ⟨.nonmonotone (b'.start value slope step cap).2,
        ⟨_, some (b'.start value slope step cap).1⟩ :: log⟩).shown = _
      rw [hreply]
      exact ih hnext _
    | iterate step value slope =>
      obtain ⟨hreply, hnext⟩ := h.iterate step value
      show (calls.foldl SearchSession.serve ⟨.nonmonotone (b'.iterate step value).2,
        ⟨_, some (b'.iterate step value).1⟩ :: log⟩).shown = _
      rw [hreply]
      exact ih hnext _

theorem Backtracking.twin_new (rule : Safeguard α) :
    (Backtracking.new rule).Twin (Nonmonotone.new rule 1) where
  rule := rfl
  window := rfl
  search := rfl
  history := nofun

/-- A window of one origin makes the nonmonotone strategy the monotone one. -/
theorem shown_serve_window_one (rule : Safeguard α) (calls : List (SearchCall α)) :
    ((Rule.nonmonotone rule 1).new.serve calls).shown =
      ((Rule.backtracking rule).new.serve calls).shown :=
  (Backtracking.twin_new rule).shown_foldl calls []

theorem Strategy.historyWindow_one : historyWindow (.int 1) = .ok 1 := rfl

/-- Built from the same parameters, the nonmonotone strategy with a window of one origin and
the monotone one are refused alike or, whatever calls are made, answer every call alike and
end in the same search. -/
theorem Strategy.build_window_one (p : StrategyParameters) (calls : List (SearchCall Float)) :
    ((build .nonmonotone { p with mem := .int 1 }).map fun s => (s.serve calls).shown) =
      (build .backtracking p).map fun s => (s.serve calls).shown := by
  have hsafeguard : safeguard { p with mem := .int 1 } = safeguard p := rfl
  unfold build
  dsimp only
  rw [hsafeguard, historyWindow_one]
  cases safeguard p with
  | error fault => rfl
  | ok rule => exact congrArg Except.ok (shown_serve_window_one rule calls)

end VariableMetric
