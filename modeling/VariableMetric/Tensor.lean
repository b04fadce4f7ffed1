import VariableMetric.Layout
import VariableMetric.Vec

/-!
# Arrays

An array has a shape, a storage type, and its elements in row-major order.  The
elements of every storage type are held as scalars that the type can hold.
-/

namespace VariableMetric

structure Tensor (α : Type) where
  shape : Shape
  storage : Storage
  data : Vec α shape.size

namespace Tensor

variable {α : Type} [Scalar α]

def layout (t : Tensor α) : Layout := ⟨t.shape, t.storage⟩

def toList (t : Tensor α) : List α := t.data.toList

def precision (t : Tensor α) : Precision := t.storage.precision

/-- An array of the given shape whose elements are listed in order. -/
def ofList (shape : Shape) (storage : Storage) (elements : List α) : Tensor α :=
  ⟨shape, storage, Vec.ofList shape.size 0 elements⟩

def spread (t : Tensor α) (shape : Shape) : Vec α shape.size :=
  let elements := t.toList.toArray
  Vec.ofList shape.size 0 ((t.shape.broadcastIndices shape).map fun i => elements.getD i 0)

def spread? (t : Tensor α) (shape : Shape) : Except Fault (Vec α shape.size) :=
  if t.shape.broadcastsTo shape then pure (t.spread shape) else throw .notBroadcastable

/-- A result rounded to the storage of its destination. -/
def stored (layout : Layout) (v : Vec α layout.shape.size) : Tensor α :=
  ⟨layout.shape, layout.storage, v.map (Scalar.round layout.storage.precision)⟩

/-- The elements of a copy into a destination that the array can be spread over.
Leading axes of extent one that the destination lacks do not count. -/
def contentsFor (t : Tensor α) (out : Layout) : Except Fault (Vec α out.shape.size) := do
  if t.storage.goesInto out.storage then pure () else throw .wrongKind
  (ofList (t.shape.trimmed out.shape.length) t.storage t.toList).spread? out.shape

def copyInto (t : Tensor α) (out : Layout) : Except Fault (Tensor α) :=
  (t.contentsFor out).map (stored out)

/-- An array of given elements whose shape is given by its extents, one of which
may be left open. -/
def ofExtents (storage : Storage) (elements : List α) (extents : List Int) :
    Except Fault (Tensor α) := do
  match Shape.fill? elements.length extents with
  | none => throw .badExtents
  | some shape =>
    Layout.check ⟨shape, storage⟩
    pure (ofList shape storage elements)

end Tensor

end VariableMetric
