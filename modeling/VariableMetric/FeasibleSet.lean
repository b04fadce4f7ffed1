import VariableMetric.Fault
import VariableMetric.Vec.Algebra

/-!
# Feasible sets

A feasible set is given by the operations that keep a run inside it: bringing
variables into the set, dropping the components of a gradient or of a direction
that would leave it, the step beyond which a projected path no longer moves, and
the first step along a steepest descent.
-/

namespace VariableMetric

/-- A feasible set for variables with `n` components. -/
structure FeasibleSet (α : Type) (n : Nat) where
  projectVariables : Vec α n → Except Fault (Vec α n)
  /-- The gradient without the components whose descent leaves the set. -/
  projectGradient : (x g : Vec α n) → Except Fault (Vec α n)
  /-- The direction without the components that leave the set. -/
  projectDirection : (x d : Vec α n) → Except Fault (Vec α n)
  /-- The step beyond which the projected path from `x` along `d` rests. -/
  shortcutStep : (x d : Vec α n) → Except Fault α
  /-- The length of the first step along a steepest descent, from a length
  relative to the variables and an absolute one. -/
  initialStep : (x d : Vec α n) → α × α → Except Fault α

namespace FeasibleSet

variable {α : Type} [Scalar α] {n : Nat}

/-- The first step moves the variables by the larger one of the relative and
the absolute length, and by one if that vanishes.  There is none along a
direction that is zero. -/
def firstStep {m : Nat} (x : Vec α n) (d : Vec α m) (lengths : α × α) : α :=
  let dnorm := d.norm
  if dnorm ≤ 0 then 0
  else
    let length := Scalar.greatest (lengths.1 * x.norm) lengths.2
    (if length ≤ 0 then 1 else length) / dnorm

/-- A path in the whole space never rests, unless it does not move at all. -/
def freeStep (d : Vec α n) : α :=
  if d.any fun a => !Scalar.equal a 0 then Scalar.infinity else 0

def unconstrained : FeasibleSet α n where
  projectVariables x := pure x
  projectGradient _ g := pure g
  projectDirection _ d := pure d
  shortcutStep _ d := pure (freeStep d)
  initialStep x d lengths := pure (firstStep x d lengths)

def undefined : FeasibleSet α n where
  projectVariables _ := throw .notImplemented
  projectGradient _ _ := throw .notImplemented
  projectDirection _ _ := throw .notImplemented
  shortcutStep _ _ := throw .notImplemented
  initialStep x d lengths := pure (firstStep x d lengths)

def resting : FeasibleSet α n :=
  { unconstrained with shortcutStep := fun _ _ => pure 0 }

def flipping : FeasibleSet α n :=
  { unconstrained with projectDirection := fun _ d => pure (d.map fun a => -a) }

end FeasibleSet

end VariableMetric
