/-!
# Shapes and broadcasting

The shape of an array is the list of its extents, the last one running fastest.
An array of one shape can stand for an array of a larger shape when, counted
from the last axis, each of its extents is either one or the extent wanted.
-/

namespace VariableMetric

/-- The extents of an array, outermost axis first. -/
abbrev Shape := List Nat

namespace Shape

def size (s : Shape) : Nat := s.foldr (· * ·) 1

def shown : Shape → String
  | [] => "()"
  | [n] => "(" ++ toString n ++ ",)"
  | n :: rest => "(" ++ ", ".intercalate ((n :: rest).map toString) ++ ")"

def joinExtent? (a b : Nat) : Option Nat :=
  if a = b then some a
  else if a = 1 then some b
  else if b = 1 then some a
  else none

def joinReversed? : Shape → Shape → Option Shape
  | [], t => some t
  | s, [] => some s
  | a :: s, b :: t => do
    let n ← joinExtent? a b
    let rest ← joinReversed? s t
    pure (n :: rest)

def join? (s t : Shape) : Option Shape :=
  (joinReversed? s.reverse t.reverse).map List.reverse

/-- Whether an array of shape `s` can stand for one of shape `t`. -/
def broadcastsTo (s t : Shape) : Bool := join? s t == some t

/-- A shape without the axes of extent one that stand before its last `rank`
axes. -/
def trimmed (s : Shape) (rank : Nat) : Shape :=
  match s with
  | [] => []
  | n :: rest => if rank < s.length && n = 1 then trimmed rest rank else s

/-- Whether marks of shape `marks` select entries along the leading axes of an
array of shape `s`.  Marks without an entry along some axis select nothing. -/
def selects (marks s : Shape) : Bool :=
  marks.length ≤ s.length && (marks.zip s).all fun (m, n) => m = 0 || m = n

def axisLimit : Nat := 64

def ofExtents? (extents : List Int) : Option Shape :=
  if extents.any (· < 0) then none else some (extents.map Int.toNat)

/-- The shape of given extents for a number of elements.  One extent may be
negative, and is then the one that fits. -/
def fill? (size : Nat) (extents : List Int) : Option Shape :=
  let known := Shape.size ((extents.filter (0 ≤ ·)).map Int.toNat)
  match extents.filter (· < 0) with
  | [] => if known = size then some (extents.map Int.toNat) else none
  | [_] =>
    if known = 0 || size % known ≠ 0 then none
    else some (extents.map fun e => if e < 0 then size / known else e.toNat)
  | _ => none

/-- The distance between neighbours along each axis, in elements, when the
elements lie in order. -/
def strides : Shape → List Nat
  | [] => []
  | _ :: rest => size rest :: strides rest

/-- For each element of an array of the reversed shape `t`, the position of the
element that stands for it in an array of the reversed shape `s`: the offset
along an axis of extent one is zero. -/
def sourceIndices : List (Nat × Nat × Nat) → List Nat
  | [] => [0]
  | (extent, wanted, stride) :: rest =>
    (List.range wanted).flatMap fun i =>
      (sourceIndices rest).map fun k => (if extent = 1 then 0 else i * stride) + k

/-- The positions in an array of shape `s` of the elements that stand for those
of an array of shape `t`, in order. -/
def broadcastIndices (s t : Shape) : List Nat :=
  let missing := t.length - s.length
  let extents := List.replicate missing 1 ++ s
  let steps := List.replicate missing 0 ++ strides s
  sourceIndices (extents.zip (t.zip steps))

end Shape

end VariableMetric
