import VariableMetric.Double.Scalar
import VariableMetric.Tensor
import VariableMetric.Value.Number

/-!
# Elements of arrays of doubles

Arrays of whole numbers have cells of 64 bits, and arithmetic on them wraps
around.  Arrays of truth values can be compared and copied, but have neither
opposites nor differences.  Whatever an array stores, its elements are held as
doubles; a cell of 64 bits is written from a double, so a double holds it
exactly.
-/

namespace VariableMetric

namespace Storage

/-- The least whole number of a cell.  A double that no cell can hold is stored
as this one. -/
def leastWhole : Int := -(Int.pow 2 63)

def wrapped (i : Int) : Int := i.bmod (Nat.pow 2 64)

def wholePart (x : Float) : Int :=
  match Number.truncated x with
  | .ok i => if leastWhole ≤ i ∧ i < -leastWhole then i else leastWhole
  | .error _ => leastWhole

def hold (s : Storage) (x : Float) : Float :=
  match s with
  | floating p => Scalar.round p x
  | integer => Number.nearest (wholePart x)
  | boolean => if x == 0.0 then 0.0 else 1.0

/-- The opposite of the number in a cell.  It is never a negative zero, and the
least number is its own opposite. -/
def wholeOpposite (x : Float) : Float := Number.nearest (wrapped (-wholePart x))

def opposite (s : Storage) (x : Float) : Except Fault Float :=
  match s with
  | floating _ => pure (-x)
  | integer => pure (wholeOpposite x)
  | boolean => throw .wrongKind

def difference (s : Storage) (x y : Float) : Except Fault Float :=
  match s with
  | floating p => pure (Scalar.round p (x - y))
  | integer => pure (Number.nearest (wrapped (wholePart x - wholePart y)))
  | boolean => throw .wrongKind

/-- The precision of the quotient of a difference and an element.  Truth values
take the precision of what stands beside them, and whole numbers ask for the
double one. -/
def quotientPrecision (difference divisor : Storage) : Precision :=
  match difference, divisor with
  | floating p, boolean => p
  | _, _ => difference.precision.wider divisor.precision

end Storage

namespace Tensor

/-- The array of the opposites.  There is none of truth values, even if the
array is empty. -/
def opposite (t : Tensor Float) : Except Fault (Tensor Float) := do
  if t.storage = .boolean then throw .wrongKind
  let elements ← t.toList.mapM t.storage.opposite
  pure (ofList t.shape t.storage elements)

end Tensor

end VariableMetric
