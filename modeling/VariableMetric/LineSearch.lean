import VariableMetric.Fault
import VariableMetric.Notice
import VariableMetric.Scalar

/-!
# Line searches

A line search looks for an acceptable step along a direction.  The run that
drives it owns the evaluations: it starts the search at the current point, and
while the search is on it reports the value, and the slope if the search wants
it, at the step that was asked for.  An answer that is converged accepts the
reported step, one that has failed gives the search up.

The part shared by the strategies is kept here: where the search began, the
step that it must not exceed, and the number of rejected trials.
-/

namespace VariableMetric

inductive SearchStatus where
  | searching
  | converged
  | failed
  deriving DecidableEq, Repr

/-- What a line search answers: where it stands, the step it asks for or ends
with, and the notices it leaves. -/
structure Reply (α : Type) where
  status : SearchStatus
  step : α
  notices : List (Notice α) := []

structure LineSearch (α τ : Type) where
  usesDerivative : Bool
  /-- Called once before every run. -/
  reset : τ → τ
  /-- Begins a search: the value and the slope at the origin, the first step
  and the largest step allowed. -/
  start : τ → (value slope step cap : α) → Reply α × τ
  /-- Reports a trial: the step, the value and the slope there. -/
  iterate : τ → (step value slope : α) → Except Fault (Reply α) × τ

/-- The progress of one search, whatever the strategy. -/
structure Search (α : Type) where
  status : SearchStatus
  value : α
  slope : α
  cap : α
  trials : Nat

namespace Search

variable {α : Type} [Scalar α]

def idle : Search α := ⟨.failed, 0, 0, Scalar.infinity, 0⟩

def reset (s : Search α) : Search α := { s with status := .failed, trials := 0 }

/-- Begins a search.  It is refused unless the direction descends and the first
step, cut down to the largest one allowed, is positive. -/
def start (value slope step cap : α) : Reply α × Search α :=
  let step := Scalar.least step cap
  let begun : Search α := ⟨.searching, value, slope, cap, 0⟩
  if slope < 0 then
    if 0 < step then (⟨.searching, step, []⟩, begun)
    else (⟨.failed, step, [.searchWithoutStep step]⟩, { begun with status := .failed })
  else (⟨.failed, step, [.searchWithoutDescent slope]⟩, { begun with status := .failed })

/-- The value that a step has to reach: the reference lowered by a fraction of
the decrease that the slope at the origin promises. -/
def target (s : Search α) (reference factor step : α) : α :=
  reference + factor * step * s.slope

end Search

end VariableMetric
