import VariableMetric.Fault
import VariableMetric.Scalar

/-!
# Layouts

The layout of an array is its shape and the storage of its elements.  Arrays
have few axes, and their bytes have to be countable even if an axis without
entries leaves nothing to store.
-/

namespace VariableMetric

inductive Storage where
  | floating (p : Precision)
  | integer
  | boolean
  deriving DecidableEq, Repr

namespace Storage

def precision : Storage → Precision
  | floating p => p
  | _ => .double

def isFloating : Storage → Bool
  | floating _ => true
  | _ => false

/-- Whether elements of one storage type may be written into another one.
Truth values go everywhere, whole numbers do not go among truth values, and
floating point numbers only go among their like. -/
def goesInto : Storage → Storage → Bool
  | boolean, _ => true
  | integer, boolean => false
  | integer, _ => true
  | floating _, floating _ => true
  | floating _, _ => false

def bytes : Storage → Nat
  | floating .single => 4
  | boolean => 1
  | _ => 8

end Storage

structure Layout where
  shape : Shape
  storage : Storage
  deriving DecidableEq

namespace Layout

/-- Counts of bytes stay below this one. -/
def countLimit : Nat := Nat.pow 2 63

/-- The bytes that are counted for an array.  An axis without entries counts as
one that has a single entry. -/
def countedBytes (l : Layout) : Nat := l.storage.bytes * Shape.size (l.shape.filter (· != 0))

def bytes (l : Layout) : Nat := l.storage.bytes * l.shape.size

def check (l : Layout) : Except Fault Unit :=
  if Shape.axisLimit < l.shape.length then throw .tooManyAxes
  else if countLimit ≤ l.countedBytes then throw .tooManyCells
  else pure ()

end Layout

end VariableMetric
