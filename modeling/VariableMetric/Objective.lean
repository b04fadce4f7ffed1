import VariableMetric.Fault
import VariableMetric.Vec

/-!
# Objectives

An objective gives a value and a gradient at a point.  It may keep a state, may
look at what the gradient held before, and may refuse to answer.
-/

namespace VariableMetric

/-- An objective for variables with `n` components. -/
structure Objective (σ α : Type) (n : Nat) where
  evaluate : σ → (point gradient : Vec α n) → Except Fault (α × Vec α n) × σ

end VariableMetric
