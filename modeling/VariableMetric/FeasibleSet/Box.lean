import VariableMetric.FeasibleSet.Bounds
import VariableMetric.Tensor

/-!
# Boxes

A box holds its bounds as arrays of any shapes that can be used together.  For
variables of a given shape and precision the bounds are spread over the shape
and rounded to the precision, so that a component that was brought to a bound
compares equal to it.
-/

namespace VariableMetric

structure Box (α : Type) where
  lower : Tensor α
  upper : Tensor α

namespace Box

variable {α : Type} [Scalar α]

def isCrossed (shape : Shape) (lower upper : Tensor α) : Bool :=
  (Vec.zipWith (fun a b => decide (b < a)) (lower.spread shape) (upper.spread shape)).toList.any id

def new (lower upper : Tensor α) : Except Fault (Box α) :=
  if lower.toList.any Scalar.isNaN || upper.toList.any Scalar.isNaN then throw .boundNotANumber
  else
    match Shape.join? lower.shape upper.shape with
    | none => throw (.boundShapes lower.shape upper.shape)
    | some shape =>
      if isCrossed shape lower upper then throw .boundsCrossed else pure ⟨lower, upper⟩

def varies (bound shape : Shape) : List Bool :=
  (List.replicate (shape.length - bound.length) 1 ++ bound).map (· != 1)

/-- The axes of a shape that hold more than one entry, outermost first, with
whether the lower and the upper bound vary along each. -/
def axes (box : Box α) (shape : Shape) : List (Nat × Bool × Bool) :=
  (shape.zip ((varies box.lower.shape shape).zip (varies box.upper.shape shape))).filter
    fun axis => axis.1 != 1

/-- Whether the variables and a bound are walked through alike, entry by entry,
or the bound is a single one. -/
def isAligned (bound shape : Shape) : Bool := bound = [] || bound = shape

def isSteady (axes : List (Nat × Bool × Bool)) : Bool :=
  axes.all fun (_, lower, upper) => !lower && !upper

/-- Whether variables that equal a bound are kept as they are.  They are where
the bounds stay the same during a pass over the variables.  Aligned arrays are
walked through in one pass, except for a single entry that is replaced in place.
Otherwise a pass goes over all axes, unless it is cheaper to make one pass for
each of two rows, when both bounds vary along the outermost axis only. -/
def keepsEqual (box : Box α) (shape : Shape) (inPlace : Bool) : Bool :=
  let single := inPlace && shape.size = 1
  if isAligned box.lower.shape shape && isAligned box.upper.shape shape && !single then
    box.lower.shape = [] && box.upper.shape = []
  else
    match box.axes shape with
    | (2, true, true) :: axis :: inner => isSteady (axis :: inner)
    | axes => isSteady axes

/-- The bounds for variables of a shape that both of them can be spread over, as
the storage of the variables holds them. -/
def bounds (box : Box α) (shape : Shape) (hold : α → α) (keepsEqual : Bool) :
    Except Fault (Bounds α shape.size) := do
  let lower ← box.lower.spread? shape
  let upper ← box.upper.spread? shape
  pure (Vec.zipWith (fun a b => ⟨hold a, hold b, keepsEqual⟩) lower upper)

/-- The box as a feasible set for variables of a shape and a precision, which
are brought into it in place. -/
def toSet (box : Box α) (shape : Shape) (p : Precision) : FeasibleSet α shape.size :=
  .ofBounds p (box.bounds shape (Scalar.round p) (box.keepsEqual shape true))

end Box

end VariableMetric
