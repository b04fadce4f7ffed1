import VariableMetric.FeasibleSet.Arrays
import VariableMetric.Memory.Direction
import VariableMetric.Memory.Room

/-!
# A memory for arrays

The operations of the memory on arrays of any shapes.  A pair that does not fit
is refused; its step may have been written by then, but it does not count.
-/

namespace VariableMetric

structure ArrayMemory (α : Type) where
  capacity : Nat
  capacity_ne_zero : capacity ≠ 0
  shape : Shape
  precision : Precision
  memory : Memory α shape.size capacity

def checkCapacity (given : Value) : Except Fault { m : Nat // m ≠ 0 } := do
  let m ← given.toInt
  if h : m < 1 then throw (.badCapacity (toString m)) else pure ⟨m.toNat, by omega⟩

namespace ArrayMemory

variable {α : Type} [Scalar α]

def new (capacity : Value) (extents : List Int) (p : Precision) :
    Except Fault (ArrayMemory α) := do
  let ⟨m, hm⟩ ← checkCapacity capacity
  match Shape.ofExtents? extents with
  | none => throw .badExtents
  | some shape =>
    Memory.checkRoom m shape p
    pure ⟨m, hm, shape, p, Memory.empty shape.size m⟩

instance (mem : ArrayMemory α) : Capacity mem.capacity := ⟨mem.capacity_ne_zero⟩

def reset (mem : ArrayMemory α) : ArrayMemory α := { mem with memory := mem.memory.reset }

def slot (mem : ArrayMemory α) (j : Int) : Nat := (mem.memory.slot j).val

def pushHalves (mem : ArrayMemory α) (step change : Except Fault (Vec α mem.shape.size)) :
    Except Fault Unit × ArrayMemory α :=
  match step with
  | .error fault => (.error fault, mem)
  | .ok s =>
    let half := mem.memory.writeStep s
    match change with
    | .error fault => (.error fault, { mem with memory := half })
    | .ok y => (.ok (), { mem with memory := (half.writeChange y).commit })

def rowLayout (mem : ArrayMemory α) : Layout := ⟨mem.shape, .floating mem.precision⟩

/-- An array for one row of the memory, which has to have axes. -/
def spreadRow (mem : ArrayMemory α) (t : Tensor α) : Except Fault (Vec α mem.shape.size) :=
  if mem.shape = [] then throw .wrongKind
  else do
    let v ← t.contentsFor mem.rowLayout
    pure (v.map (Scalar.round mem.precision))

def push (mem : ArrayMemory α) (s y : Tensor α) : Except Fault Unit × ArrayMemory α :=
  mem.pushHalves (mem.spreadRow s) (mem.spreadRow y)

/-- The difference of two arrays, for one row of the memory.  Rows without
entries cannot be summed with an array stored as they are. -/
def differenceRow (mem : ArrayMemory α) (a b : Tensor α) : Except Fault (Vec α mem.shape.size) :=
  if a.shape ≠ mem.shape then throw (.shapesDiffer mem.shape a.shape)
  else if b.shape ≠ mem.shape then throw (.shapesDiffer mem.shape b.shape)
  else if mem.shape = [] then throw .wrongKind
  else if mem.shape.size = 0 ∧ b.layout = mem.rowLayout then throw .nothingToAdd
  else pure (Vec.difference mem.precision (a.spread mem.shape) (b.spread mem.shape))

def pushDifference (mem : ArrayMemory α) (x x0 g g0 : Tensor α) :
    Except Fault Unit × ArrayMemory α :=
  mem.pushHalves (mem.differenceRow x x0) (mem.differenceRow g g0)

def zeros (mem : ArrayMemory α) : Tensor α :=
  Tensor.ofList mem.shape (.floating mem.precision) []

/-- The opposite of a gradient as a row of the memory.  The truth values of a
gradient count as the whole numbers one and zero. -/
def oppositeRow (mem : ArrayMemory Float) (g : Tensor Float) : Vec Float mem.shape.size :=
  let v := g.spread mem.shape
  if g.storage.isFloating then v.scale mem.precision (-1)
  else v.map fun a => Scalar.round mem.precision (Storage.wholeOpposite a)

/-- The direction at a gradient, with its projection onto a domain if one is
given.  An empty memory answers before it looks at the arrays. -/
def direction (mem : ArrayMemory Float) (g w : Tensor Float) (domain : Option (Domain Float))
    (x : Option (Tensor Float)) :
    Except Fault (Direction Float mem.shape.size) × ArrayMemory Float × List (Notice Float) :=
  if 1 ≤ mem.memory.live ∧ g.shape ≠ mem.shape then
    (throw (.shapesDiffer mem.shape g.shape), mem, [])
  else if 1 ≤ mem.memory.live ∧ w.shape ≠ mem.shape then
    (throw (.shapesDiffer w.shape mem.shape), mem, [])
  else
    let project (d : Vec Float mem.shape.size) : Except Fault (Vec Float mem.shape.size) :=
      match domain with
      | none => pure d
      | some domain => domain.projectRow (x.getD mem.zeros) mem.shape mem.precision d
    let (answer, memory, notices) :=
      mem.memory.directionFrom mem.precision project (Vec.zeros mem.shape.size)
        (mem.oppositeRow g) (g.spread mem.shape) (w.spread mem.shape)
    (answer, { mem with memory }, notices)

end ArrayMemory

end VariableMetric
