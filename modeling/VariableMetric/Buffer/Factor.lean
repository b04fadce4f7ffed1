import VariableMetric.Buffer.Algebra
import VariableMetric.Tensor.Arithmetic

/-!
# Arrays as factors

A factor of a multiple need not be a number: an array multiplies element by
element, wherever a plain product is formed.  Adding a multiple in place takes a
number, and only an array without axes is one.
-/

namespace VariableMetric

inductive Factor where
  | missing
  | number (x : Float)
  | array (v : View)

namespace Factor

def plain? : Factor → Option (Option Float)
  | missing => some none
  | number x => some (some x)
  | array _ => none

end Factor

namespace Heap

def whole (h : Heap Float) (buffer position : Nat) : Int :=
  match h[buffer]? with
  | some b => Storage.wholePart (b.cells.getD position 0) + b.rests.getD position 0
  | none => 0

def wholes (h : Heap Float) (v : View) : List Int := v.positions.map (h.whole v.buffer)

def setWhole (h : Heap Float) (buffer position : Nat) (n : Int) : Heap Float :=
  h.modify buffer fun b =>
    let near := Number.nearest n
    let rests := if b.rests.isEmpty then Array.replicate b.cells.size 0 else b.rests
    { b with
      cells := b.cells.setIfInBounds position near
      rests := rests.setIfInBounds position (n - Storage.wholePart near) }

def elements (h : Heap Float) (v : View) : Elements :=
  match v.storage with
  | .floating p => .reals p (h.read v)
  | .integer => .wholes (h.wholes v)
  | .boolean => .truths ((h.read v).map (· != 0.0))

def operand (h : Heap Float) (v : View) : Operand := ⟨v.shape, h.elements v⟩

def put (h : Heap Float) (dst : View) (e : Elements) : Heap Float :=
  match dst.storage with
  | .floating p => h.write dst (e.toReals.map (Scalar.round p))
  | .integer =>
    (dst.positions.zip e.toWholes).foldl (fun h (i, n) => h.setWhole dst.buffer i n) h
  | .boolean => h.write dst (Elements.truths e.toTruths).toReals

def number? (h : Heap Float) : Factor → Option Float
  | .missing => none
  | .number x => some x
  | .array v => if v.shape = [] then (h.elements v).toReals.head? else none

/-- Writes the product of two arrays, the second of which has the shape of the
destination. -/
def putProduct (h : Heap Float) (dst : View) (f a : Operand) : Except Fault (Heap Float) := do
  if (a.storage.joined f.storage).goesInto dst.storage then pure () else throw .castRefused
  let product ← Operand.operate .product a f
  if product.shape = dst.shape then pure (h.put dst product.elements)
  else throw .notBroadcastable

def multiplyBy (h : Heap Float) (dst : View) (f : Factor) (a : View) :
    Except Fault (Heap Float) :=
  match f with
  | .missing => h.multiply dst none a
  | .number c => h.multiply dst (some c) a
  | .array v => h.putProduct dst (h.operand v) (h.operand a)

def updateBy (h : Heap Float) (dst : View) (f : Factor) (a : View) :
    Except Fault View × Heap Float :=
  h.update dst (h.number? f) a

def multiple (h : Heap Float) (f : Factor) (a : View) : Except Fault Operand :=
  match f with
  | .missing => throw .wrongKind
  | .number c => Operand.operate .product (Operand.number a.storage c) (h.operand a)
  | .array v => Operand.operate .product (h.operand v) (h.operand a)

def factorSum (h : Heap Float) (c k : Factor) : Except Fault Operand :=
  match c, k with
  | .array v, .array w => Operand.operate .sum (h.operand v) (h.operand w)
  | .array v, .number x => Operand.operate .sum (h.operand v) (Operand.number v.storage x)
  | .number x, .array v => Operand.operate .sum (Operand.number v.storage x) (h.operand v)
  | .number x, .number y => pure (Operand.number (.floating .double) (x + y))
  | _, _ => throw .wrongKind

/-- Copies an array into a view that it can be spread over.  Leading axes of
extent one that the view lacks do not count. -/
def putCopy (h : Heap Float) (dst : View) (a : Operand) : Except Fault (Heap Float) := do
  if a.storage.goesInto dst.storage then pure () else throw .wrongKind
  let a : Operand := { a with shape := a.shape.trimmed dst.shape.length }
  if a.shape.broadcastsTo dst.shape then pure (h.put dst (a.spread dst.shape))
  else throw .notBroadcastable

/-- Writes the sum of multiples of two views, computed before anything is
written. -/
def putSum (h : Heap Float) (dst : View) (c : Factor) (a : View) (k : Factor) (b : View) :
    Except Fault (Heap Float) := do
  let left ← h.multiple c a
  let right ← h.multiple k b
  h.putCopy dst (← Operand.operate .sum left right)

/-- The combination of views where some factor is an array. -/
def combineArrays (h : Heap Float) (dst : View) (c : Factor) (a : View) (k : Factor) :
    Option View → Except Fault View × Heap Float
  | none =>
    match checkShapes dst [a] with
    | .error fault => (.error fault, h)
    | .ok () => h.handBack dst (h.multiplyBy dst c a)
  | some b =>
    match checkShapes dst [a, b] with
    | .error fault => (.error fault, h)
    | .ok () =>
      if dst.mayOverlap b then
        if a.label = b.label then
          h.handBack dst do h.putProduct dst (← h.factorSum c k) (h.operand a)
        else if dst.mayOverlap a then h.handBack dst (h.putSum dst c a k b)
        else
          match h.multiplyBy dst k b with
          | .error fault => (.error fault, h)
          | .ok h => h.updateBy dst c a
      else
        match h.multiplyBy dst c a with
        | .error fault => (.error fault, h)
        | .ok h => h.updateBy dst k b

def combineBy (h : Heap Float) (dst : View) (c : Factor) (a : View) (k : Factor)
    (b : Option View) : Except Fault View × Heap Float :=
  match c.plain?, k.plain? with
  | some c, some k => h.combine dst c a k b
  | _, _ => h.combineArrays dst c a k b

end Heap

end VariableMetric
