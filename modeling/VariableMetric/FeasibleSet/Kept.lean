import VariableMetric.FeasibleSet.Domain

/-!
# Kept bounds

A box rounds its bounds to the precision of the variables when a run asks for them
for the first time, and keeps them for later runs in that precision.
-/

namespace VariableMetric

/-- The bounds that have been rounded so far, for each precision. -/
abbrev KeptBounds (α : Type) := Precision → Option (Box α)

def KeptBounds.none {α : Type} : KeptBounds α := fun _ => Option.none

def KeptBounds.insert {α : Type} (kept : KeptBounds α) (p : Precision) (box : Box α) :
    KeptBounds α :=
  fun q => if q = p then some box else kept q

variable {α : Type} [Scalar α]

def Tensor.rounded (t : Tensor α) (p : Precision) : Tensor α :=
  .stored ⟨t.shape, .floating p⟩ t.data

namespace Box

def rounded (box : Box α) (p : Precision) : Box α := ⟨box.lower.rounded p, box.upper.rounded p⟩

/-- The bounds in a precision, and what is kept after they have been asked for. -/
def boundsIn (box : Box α) (kept : KeptBounds α) (p : Precision) : Box α × KeptBounds α :=
  match kept p with
  | some rounded => (rounded, kept)
  | none => (box.rounded p, kept.insert p (box.rounded p))

/-- A box whose bounds are stored as the variables are. -/
def storedSet (box : Box α) (shape : Shape) (p : Precision) : FeasibleSet α shape.size :=
  .ofBounds p (box.bounds shape id (box.keepsEqual shape true))

end Box

/-- The set for variables of a shape and a precision, and what is kept for later
runs. -/
def Domain.recallSet (d : Domain α) (kept : KeptBounds α) (shape : Shape) (p : Precision) :
    FeasibleSet α shape.size × KeptBounds α :=
  match d with
  | box b =>
    let (rounded, kept) := b.boundsIn kept p
    (rounded.storedSet shape p, kept)
  | d => (d.toSet shape p, kept)

end VariableMetric
