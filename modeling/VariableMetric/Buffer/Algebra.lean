import VariableMetric.Buffer
import VariableMetric.Vec.Algebra

/-!
# Vector algebra in place

Sums and multiples of views are written into a view, which may share cells with
the operands.  A pass that reads its operand completely before it writes is
safe under any overlap; the pass that adds a multiple in place is not, and is
used only where its operand lies apart from the destination.

A factor may be missing, and an operation that needs it then fails.  An operation that
succeeds hands its destination back, the view that it was given.
-/

namespace VariableMetric

namespace Heap

variable {α : Type} [Scalar α]

/-- Compares the shapes of several views with the first one. -/
def checkShapes (first : View) : List View → Except Fault Unit
  | [] => pure ()
  | v :: rest => if v.shape = first.shape then checkShapes first rest
    else throw (.shapesDiffer first.shape v.shape)

def inner (h : Heap α) (a b : View) (w : Option View) : Except Fault α :=
  match w with
  | none => do
    checkShapes a [b]
    pure ((List.zipWith (fun x y => x * y) (h.read a) (h.read b)).foldl (· + ·) 0)
  | some w => do
    checkShapes w [a, b]
    let masked := List.zipWith (fun m x => m * x) (h.read w) (h.read a)
    pure ((List.zipWith (fun x y => x * y) masked (h.read b)).foldl (· + ·) 0)

def norm (h : Heap α) (a : View) : Except Fault α := do
  let s ← h.inner a a none
  pure (Scalar.sqrt s)

/-- A multiple of an element stored in precision `p`. -/
def product (p : Precision) (c x : α) : α := Scalar.round p (x * Scalar.round p c)

def multiply (h : Heap α) (dst : View) (c : Option α) (a : View) : Except Fault (Heap α) :=
  match dst.storage, c with
  | .floating p, some c =>
    pure (h.write dst ((h.read a).map fun x => Scalar.round p (product a.storage.precision c x)))
  | _, _ => throw .castRefused

/-- Adds a multiple of a view cell by cell, each cell being read when its turn
comes. -/
def addInPlace (p : Precision) (c : α) (dst a : View) (h : Heap α) : Heap α :=
  (dst.positions.zip a.positions).foldl
    (fun h (i, j) =>
      let sum := h.cell dst.buffer i + Scalar.round p (c * h.cell a.buffer j)
      h.setCell dst.buffer i (Scalar.round p sum))
    h

/-- Adds a multiple of a view that has been computed before anything is
written. -/
def addComputed (c : α) (dst a : View) (h : Heap α) : Except Fault (Heap α) :=
  match dst.storage with
  | .floating p =>
    let terms := (h.read a).map (product a.storage.precision c)
    pure (h.write dst (List.zipWith (fun y t => Scalar.round p (y + t)) (h.read dst) terms))
  | _ => throw .castRefused

/-- The destination once it has been written.  A write that is refused leaves the memory as
it was. -/
def handBack (h : Heap α) (dst : View) : Except Fault (Heap α) → Except Fault View × Heap α
  | .ok written => (.ok dst, written)
  | .error fault => (.error fault, h)

def canAddInPlace (dst a : View) : Bool :=
  dst.storage.isFloating && dst.storage == a.storage && dst.isContiguous && a.isContiguous

/-- Adds a multiple of a view to the destination.  Nothing is done for a factor
that vanishes, but any other one needs elements to add in one pass. -/
def update (h : Heap α) (dst : View) (c : Option α) (a : View) : Except Fault View × Heap α :=
  h.handBack dst do
    checkShapes dst [a]
    match c with
    | none => throw .wrongKind
    | some c =>
      if Scalar.equal c 0 then pure h
      else if canAddInPlace dst a then
        if dst.shape.size = 0 then throw .nothingToAdd
        let p := dst.storage.precision
        let c := Scalar.round p c
        pure (if Scalar.equal c 0 then h else addInPlace p c dst a h)
      else addComputed c dst a h

/-- Writes the sum of multiples of two views, computed before anything is
written. -/
def sumComputed (h : Heap α) (dst : View) (c : α) (a : View) (k : α) (b : View) :
    Except Fault (Heap α) :=
  match dst.storage with
  | .floating p =>
    let pa := a.storage.precision
    let pb := b.storage.precision
    let terms := List.zipWith
      (fun x y => Scalar.round (pa.wider pb) (product pa c x + product pb k y))
      (h.read a) (h.read b)
    pure (h.write dst (terms.map (Scalar.round p)))
  | _ => throw .wrongKind

/-- The combination when the destination may share cells with the second
operand. -/
def combineOverlapping (h : Heap α) (dst : View) (c : Option α) (a : View) (k : Option α)
    (b : View) : Except Fault View × Heap α :=
  if a.label = b.label then
    match c, k with
    | some c, some k => h.handBack dst (h.multiply dst (some (c + k)) a)
    | _, _ => (throw .wrongKind, h)
  else if dst.mayOverlap a then
    match c, k with
    | some c, some k => h.handBack dst (h.sumComputed dst c a k b)
    | _, _ => (throw .wrongKind, h)
  else
    match h.multiply dst k b with
    | .error fault => (.error fault, h)
    | .ok h => h.update dst c a

/-- The combination of two views in the destination.  If it fails, the first of two passes
may have been made. -/
def combineTwo (h : Heap α) (dst : View) (c : Option α) (a : View) (k : Option α) (b : View) :
    Except Fault View × Heap α :=
  match checkShapes dst [a, b] with
  | .error fault => (.error fault, h)
  | .ok () =>
    if dst.mayOverlap b then h.combineOverlapping dst c a k b
    else
      match h.multiply dst c a with
      | .error fault => (.error fault, h)
      | .ok h => h.update dst k b

/-- A multiple of one view, or the sum of multiples of two, in the
destination. -/
def combine (h : Heap α) (dst : View) (c : Option α) (a : View) (k : Option α)
    (b : Option View) : Except Fault View × Heap α :=
  match b with
  | some b => h.combineTwo dst c a k b
  | none =>
    match checkShapes dst [a] with
    | .error fault => (.error fault, h)
    | .ok () => h.handBack dst (h.multiply dst c a)

end Heap

end VariableMetric
