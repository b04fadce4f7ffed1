import VariableMetric.Double.Scalar
import VariableMetric.FeasibleSet.Box
import VariableMetric.Value.Number

/-!
# Values as arrays of doubles

A number is an array without axes, and nested lists are arrays whose rows have
to have one shape.  Inside lists a missing value is not a number.
-/

namespace VariableMetric

namespace Value

mutual

/-- The shape of a value as an array.  It is found before any element is
read. -/
def arrayShape : Value → Except Fault Shape
  | list items => do
    let shapes ← itemShapes items
    match shapes with
    | [] => pure [0]
    | first :: rest =>
      if rest.all (· == first) then pure (shapes.length :: first) else throw .unreadable
  | _ => pure []

def itemShapes : List Value → Except Fault (List Shape)
  | [] => pure []
  | v :: rest => do
    let shape ← v.arrayShape
    let shapes ← itemShapes rest
    pure (shape :: shapes)

end

def toElement : Value → Except Fault Float
  | null => pure (0.0 / 0.0)
  | v => v.toDouble

mutual

/-- The elements of a value in row-major order. -/
def elements : Value → Except Fault (List Float)
  | list items => itemElements items
  | v => do
    let x ← v.toElement
    pure [x]

def itemElements : List Value → Except Fault (List Float)
  | [] => pure []
  | v :: rest => do
    let xs ← v.elements
    let ys ← itemElements rest
    pure (xs ++ ys)

end

def toArray (v : Value) : Except Fault (Tensor Float) := do
  let shape ← v.arrayShape
  if Shape.axisLimit < shape.length then throw .tooManyAxes
  let elements ← v.elements
  pure (Tensor.ofList shape (.floating .double) elements)

end Value

/-- A box from bounds given as values; a missing bound is infinite. -/
def Box.ofValues (lower upper : Value) : Except Fault (Box Float) := do
  let lower ← (match lower with
    | .null => .float (-Scalar.infinity)
    | v => v : Value).toArray
  let upper ← (match upper with
    | .null => .float Scalar.infinity
    | v => v : Value).toArray
  Box.new lower upper

end VariableMetric
