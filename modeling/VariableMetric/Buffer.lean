import VariableMetric.Tensor

/-!
# Buffers and views

Arrays that share memory are views into buffers.  A view picks cells of one
buffer: it starts at an offset and has a distance between neighbours, a stride,
along every axis.  Strides may be negative, and views may overlap.
-/

namespace VariableMetric

structure Buffer (α : Type) where
  storage : Storage
  cells : Array α
  /-- What the scalars leave out of whole numbers that they cannot hold, cell by
  cell; nothing until such a number is stored. -/
  rests : Array Int

abbrev Heap (α : Type) := Array (Buffer α)

/-- A view into a buffer.  Two views with one label are the same array object;
views with different labels are different objects even if they pick the same
cells. -/
structure View where
  label : Nat
  buffer : Nat
  storage : Storage
  offset : Nat
  shape : Shape
  strides : List Int

namespace View

/-- The distances from the first cell to all cells, in row-major order. -/
def displacements : Shape → List Int → List Int
  | [], _ => [0]
  | extent :: shape, strides =>
    let stride := strides.headD 0
    let inner := displacements shape strides.tail
    (List.range extent).flatMap fun (i : Nat) => inner.map fun k => (i : Int) * stride + k

/-- The cells of a view, in row-major order. -/
def positions (v : View) : List Nat :=
  (displacements v.shape v.strides).map fun k => ((v.offset : Int) + k).toNat

/-- Whether reversed extents and strides are those of elements lying in order,
`expected` cells apart along the innermost axis.  An axis of extent one may
have any stride. -/
def inOrder (expected : Int) : List (Nat × Int) → Bool
  | [] => true
  | (extent, stride) :: rest =>
    (extent == 1 || stride == expected) && inOrder (expected * extent) rest

/-- Whether the elements lie in order without gaps; so does an array without
elements. -/
def isContiguous (v : View) : Bool :=
  v.shape.size == 0 || inOrder 1 (v.shape.zip v.strides).reverse

/-- The total displacement along the axes whose stride satisfies a test. -/
def reach (test : Int → Bool) : List (Nat × Int) → Int
  | [] => 0
  | (extent, stride) :: rest =>
    (if test stride then ((extent : Int) - 1) * stride else 0) + reach test rest

def lowest (v : View) : Int := v.offset + reach (· < 0) (v.shape.zip v.strides)

def highest (v : View) : Int := v.offset + reach (0 < ·) (v.shape.zip v.strides)

/-- Whether the extents of two views meet.  Views may be found to meet although
they have no cell in common, but not the other way round. -/
def mayOverlap (v w : View) : Bool :=
  v.buffer == w.buffer && v.shape.size != 0 && w.shape.size != 0
    && v.lowest ≤ w.highest && w.lowest ≤ v.highest

end View

namespace Heap

variable {α : Type} [Scalar α]

def cell (h : Heap α) (buffer position : Nat) : α :=
  match h[buffer]? with
  | some b => b.cells.getD position 0
  | none => 0

def setCell (h : Heap α) (buffer position : Nat) (a : α) : Heap α :=
  h.modify buffer fun b => { b with cells := b.cells.setIfInBounds position a }

def read (h : Heap α) (v : View) : List α := v.positions.map (h.cell v.buffer)

def write (h : Heap α) (v : View) (elements : List α) : Heap α :=
  (v.positions.zip elements).foldl (fun h (i, a) => h.setCell v.buffer i a) h

def tensor (h : Heap α) (v : View) : Tensor α := Tensor.ofList v.shape v.storage (h.read v)

end Heap

end VariableMetric
