import VariableMetric.FeasibleSet.Domain
import VariableMetric.Tensor.Element

/-!
# Feasible sets for arrays

The operations of the domains on arrays whose shapes and storage need not be the
same, with the result in a given destination.  Bounds are compared with the
variables as the storage of the variables holds them.

Marks select entries along the leading axes of an array: each mark stands for
all entries behind it.
-/

namespace VariableMetric

namespace Tensor

def isMarked (marks : Array Bool) (size position : Nat) : Bool :=
  marks.getD (position / (size / marks.size)) false

def selected (t : Tensor Float) (shape : Shape) (marks : Array Bool) :
    Except Fault (Tensor Float) :=
  if shape.selects t.shape then
    let entries := t.toList.zipIdx.filter fun (_, i) => isMarked marks t.shape.size i
    pure (ofList (marks.count true :: t.shape.drop shape.length) t.storage
      (entries.map Prod.fst))
  else throw .badIndex

def cleared (t : Tensor Float) (shape : Shape) (marks : Array Bool) :
    Except Fault (Tensor Float) :=
  if shape.selects t.shape then
    pure (ofList t.shape t.storage (t.toList.zipIdx.map fun (a, i) =>
      if isMarked marks t.shape.size i then 0 else a))
  else throw .badIndex

def difference (t u : Tensor Float) : Except Fault (Tensor Float) := do
  if t.storage = .boolean then throw .wrongKind
  let elements ← (t.toList.zip u.toList).mapM fun (a, b) => t.storage.difference a b
  pure (ofList t.shape t.storage elements)

def quotients (t u : Tensor Float) : Except Fault (List Float) :=
  match Shape.join? t.shape u.shape with
  | none => throw .notBroadcastable
  | some shape =>
    let p := t.storage.quotientPrecision u.storage
    pure (Vec.zipWith (fun a b => Scalar.round p (a / b)) (t.spread shape) (u.spread shape)).toList

end Tensor

namespace Box

def projectVariables (box : Box Float) (x : Tensor Float) (inPlace : Bool) :
    Except Fault (Tensor Float) := do
  let b ← box.bounds x.shape x.storage.hold (box.keepsEqual x.shape inPlace)
  pure { x with data := b.clamp x.data }

def comparedShape (box : Box Float) (x v : Tensor Float) : Except Fault Shape :=
  match do
    let s ← Shape.join? x.shape box.lower.shape
    let t ← Shape.join? x.shape box.upper.shape
    Shape.join? (← Shape.join? s v.shape) (← Shape.join? t v.shape) with
  | some shape => pure shape
  | none => throw .notBroadcastable

/-- A copy of an array in its destination, without the components that are
blocked for a move along the opposite of `v`. -/
def dropBlocked (box : Box Float) (x v copied : Tensor Float) (out : Layout) :
    Except Fault (Tensor Float) := do
  let shape ← box.comparedShape x v
  let b ← box.bounds shape x.storage.hold true
  let marks := b.blocked (x.spread shape) (v.spread shape)
  let t ← copied.copyInto out
  t.cleared shape marks.toList.toArray

def projectGradient (box : Box Float) (x g : Tensor Float) (out : Layout) :
    Except Fault (Tensor Float) :=
  box.dropBlocked x g g out

def projectDirection (box : Box Float) (x d : Tensor Float) (out : Layout) :
    Except Fault (Tensor Float) := do
  box.dropBlocked x (← d.opposite) d out

def boundFor (bound x : Tensor Float) : Except Fault (Tensor Float) := do
  let v ← bound.spread? x.shape
  pure ⟨x.shape, x.storage, v.map x.storage.hold⟩

/-- The steps at which the variables behind the moving components reach their
bound.  If any component moves there has to be such a step. -/
def breakpoints (bound x d : Tensor Float) (moves : Float → Bool) : Except Fault (List Float) := do
  let marks := (d.toList.map moves).toArray
  if marks.any id then
    let gaps ← (← bound.selected d.shape marks).difference (← x.selected d.shape marks)
    let steps ← gaps.quotients (← d.selected d.shape marks)
    if steps.isEmpty then throw .outsideDomain else pure steps
  else pure []

def shortcutStep (box : Box Float) (x d : Tensor Float) : Except Fault Float := do
  let lower ← boundFor box.lower x
  let upper ← boundFor box.upper x
  let rising ← breakpoints upper x d fun a => decide (0 < a)
  let falling ← breakpoints lower x d fun a => decide (a < 0)
  pure (Bounds.withLargest (Bounds.withLargest 0 rising) falling)

end Box

namespace Domain

def projectVariables (d : Domain Float) (x : Tensor Float) (inPlace : Bool) :
    Except Fault (Tensor Float) :=
  match d with
  | box b => b.projectVariables x inPlace
  | undefined => throw .notImplemented
  | _ => pure x

def projectGradient (d : Domain Float) (x g : Tensor Float) (out : Layout) :
    Except Fault (Tensor Float) :=
  match d with
  | box b => b.projectGradient x g out
  | undefined => throw .notImplemented
  | _ => g.copyInto out

/-- The opposite of an array, written into a destination of at least its
shape. -/
def turned (v : Tensor Float) (out : Layout) : Except Fault (Tensor Float) := do
  let t ← v.opposite
  if t.storage.goesInto out.storage then pure () else throw .castRefused
  let elements ← t.spread? out.shape
  pure (Tensor.stored out elements)

def projectDirection (d : Domain Float) (x v : Tensor Float) (out : Layout) :
    Except Fault (Tensor Float) :=
  match d with
  | box b => b.projectDirection x v out
  | undefined => throw .notImplemented
  | flipping => turned v out
  | _ => v.copyInto out

def shortcutStep (d : Domain Float) (x v : Tensor Float) : Except Fault Float :=
  match d with
  | box b => b.shortcutStep x v
  | undefined => throw .notImplemented
  | resting => pure 0
  | _ => pure (FeasibleSet.freeStep v.data)

/-- The first step needs norms only, so the shapes need not agree. -/
def initialStep (x v : Tensor Float) (lengths : Float × Float) : Float :=
  FeasibleSet.firstStep x.data v.data lengths

/-- The projection of a direction that is stored in precision `p`, in place. -/
def projectRow (domain : Domain Float) (x : Tensor Float) (shape : Shape) (p : Precision)
    (d : Vec Float shape.size) : Except Fault (Vec Float shape.size) := do
  let t : Tensor Float := ⟨shape, .floating p, d⟩
  let projected ← domain.projectDirection x t t.layout
  pure (projected.spread shape)

end Domain

end VariableMetric
