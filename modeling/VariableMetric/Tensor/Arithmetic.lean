import VariableMetric.Tensor.Element

/-!
# Arithmetic between arrays

Products and sums of arrays that store different things.  The result is stored
as something that both sides go into: whole numbers wrap around at 64 bits, and
truth values are joined by "and" and by "or".
-/

namespace VariableMetric

namespace Storage

def joined : Storage → Storage → Storage
  | floating p, floating q => floating (p.wider q)
  | floating p, boolean => floating p
  | boolean, floating p => floating p
  | floating _, integer => floating .double
  | integer, floating _ => floating .double
  | boolean, boolean => boolean
  | _, _ => integer

end Storage

inductive Elements where
  | reals (p : Precision) (xs : List Float)
  | wholes (ns : List Int)
  | truths (bs : List Bool)

structure Operation where
  onReals : Float → Float → Float
  onWholes : Int → Int → Int
  onTruths : Bool → Bool → Bool

namespace Operation

def product : Operation := ⟨(· * ·), (· * ·), (· && ·)⟩

def sum : Operation := ⟨(· + ·), (· + ·), (· || ·)⟩

end Operation

namespace Elements

def storage : Elements → Storage
  | reals p _ => .floating p
  | wholes _ => .integer
  | truths _ => .boolean

def toReals : Elements → List Float
  | reals _ xs => xs
  | wholes ns => ns.map Number.nearest
  | truths bs => bs.map fun b => if b then 1.0 else 0.0

def toWholes : Elements → List Int
  | reals _ xs => xs.map Storage.wholePart
  | wholes ns => ns
  | truths bs => bs.map fun b => if b then 1 else 0

def toTruths : Elements → List Bool
  | reals _ xs => xs.map (· != 0.0)
  | wholes ns => ns.map (· != 0)
  | truths bs => bs

def pick (e : Elements) (positions : List Nat) : Elements :=
  match e with
  | reals p xs => .reals p (chosen xs 0.0)
  | wholes ns => .wholes (chosen ns 0)
  | truths bs => .truths (chosen bs false)
where
  chosen {β : Type} (xs : List β) (missing : β) : List β :=
    let cells := xs.toArray
    positions.map fun i => cells.getD i missing

def operate (op : Operation) (a b : Elements) : Elements :=
  match a.storage.joined b.storage with
  | .floating p =>
    .reals p (List.zipWith (fun x y => Scalar.round p (op.onReals x y)) a.toReals b.toReals)
  | .integer =>
    .wholes (List.zipWith (fun m n => Storage.wrapped (op.onWholes m n)) a.toWholes b.toWholes)
  | .boolean => .truths (List.zipWith op.onTruths a.toTruths b.toTruths)

end Elements

structure Operand where
  shape : Shape
  elements : Elements

namespace Operand

def storage (a : Operand) : Storage := a.elements.storage

def number (partner : Storage) (x : Float) : Operand :=
  ⟨[], .reals partner.precision [Scalar.round partner.precision x]⟩

def spread (a : Operand) (shape : Shape) : Elements :=
  a.elements.pick (a.shape.broadcastIndices shape)

def operate (op : Operation) (a b : Operand) : Except Fault Operand :=
  match Shape.join? a.shape b.shape with
  | some shape => pure ⟨shape, Elements.operate op (a.spread shape) (b.spread shape)⟩
  | none => throw .notBroadcastable

end Operand

end VariableMetric
