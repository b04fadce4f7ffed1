import VariableMetric.FeasibleSet.Box

/-!
# Kinds of feasible sets

A domain is a feasible set before the shape and the precision of the variables
are known.
-/

namespace VariableMetric

inductive Domain (α : Type) where
  | unconstrained
  | box (b : Box α)
  | undefined
  | resting
  | flipping

namespace Domain

variable {α : Type} [Scalar α]

def toSet (d : Domain α) (shape : Shape) (p : Precision) : FeasibleSet α shape.size :=
  match d with
  | unconstrained => .unconstrained
  | box b => b.toSet shape p
  | undefined => .undefined
  | resting => .resting
  | flipping => .flipping

end Domain

end VariableMetric
