import VariableMetric.Buffer

/-!
# Slices and other shapes of views

A slice picks entries along the first axis of a view.  A view can also be given
another shape with as many elements: it still shows the same cells if the axes
that have to be split or merged lie in order, and otherwise becomes a copy in a
buffer of its own.
-/

namespace VariableMetric

/-- What is picked along an axis: the first position, the number of positions,
and the distance between them. -/
structure Slice where
  first : Int
  count : Nat
  step : Int

namespace Slice

/-- A position given from the start, or from the end if it is negative, brought
between two limits. -/
def place (extent : Nat) (low high : Int) (position : Int) : Int :=
  max low (min high (if position < 0 then position + extent else position))

def between (extent : Nat) (start stop step : Option Int) : Except Fault Slice :=
  let step := step.getD 1
  if step = 0 then throw .sliceWithoutStep
  else if 0 < step then
    let first := (start.map (place extent 0 extent)).getD 0
    let last := (stop.map (place extent 0 extent)).getD extent
    pure ⟨first, ((last - first + step - 1) / step).toNat, step⟩
  else
    let first := (start.map (place extent (-1) (extent - 1))).getD (extent - 1)
    let last := (stop.map (place extent (-1) (extent - 1))).getD (-1)
    pure ⟨first, ((first - last - step - 1) / (-step)).toNat, step⟩

end Slice

namespace View

def sliced (v : View) (label : Nat) (start stop step : Option Int) : Except Fault View :=
  match v.shape, v.strides with
  | extent :: shape, stride :: strides => do
    let slice ← Slice.between extent start stop step
    pure { v with
      label
      offset := ((v.offset : Int) + slice.first * stride).toNat
      shape := slice.count :: shape
      strides := slice.step * stride :: strides }
  | _, _ => throw .badIndex

/-- Extents and strides, innermost first, with neighbouring axes merged where
the elements of both lie in order, and without axes of one entry. -/
def merged : List (Nat × Int) → List (Nat × Int)
  | [] => []
  | (extent, stride) :: rest =>
    if extent = 1 then merged rest
    else
      match merged rest with
      | [] => [(extent, stride)]
      | (outer, outerStride) :: others =>
        if outerStride = extent * stride then (extent * outer, stride) :: others
        else (extent, stride) :: (outer, outerStride) :: others

/-- The strides for new extents, innermost first, if every merged axis can be
split into some of them. -/
def fitted : List (Nat × Int) → List Nat → Option (List Int)
  | _, [] => some []
  | axes, extent :: extents =>
    if extent = 1 then (fitted axes extents).map (0 :: ·)
    else
      match axes with
      | [] => none
      | (size, stride) :: others =>
        if size % extent ≠ 0 then none
        else
          let left := if size = extent then others else (size / extent, stride * extent) :: others
          (fitted left extents).map (stride :: ·)

/-- The strides with which a view shows its elements in another shape, if there
are any. -/
def stridesFor? (v : View) (shape : Shape) : Option (List Int) :=
  if shape.size = 0 then some (shape.strides.map fun (k : Nat) => (k : Int))
  else (fitted (merged (v.shape.zip v.strides).reverse) shape.reverse).map List.reverse

end View

namespace Heap

variable {α : Type} [Scalar α]

def allocate (h : Heap α) (label : Nat) (t : Tensor α) : View × Heap α :=
  (⟨label, h.size, t.storage, 0, t.shape, t.shape.strides.map fun (k : Nat) => (k : Int)⟩,
    h.push ⟨t.storage, t.toList.toArray, #[]⟩)

/-- A view in another shape, whose extents are given; one of them may be left
open. -/
def reshaped (h : Heap α) (v : View) (extents : List Int) : Except Fault (View × Heap α) := do
  let t ← Tensor.ofExtents v.storage (h.read v) extents
  match v.stridesFor? t.shape with
  | some strides => pure ({ v with shape := t.shape, strides }, h)
  | none => pure (h.allocate v.label t)

end Heap

end VariableMetric
