import VariableMetric.FeasibleSet.Kept
import VariableMetric.Proofs.FeasibleSet.Box

/-!
# Kept bounds are the bounds of the box

Bounds that have been rounded before they are spread over the variables are the same as
bounds that are rounded afterwards.  So a set whose bounds were kept from earlier runs is
the set that a run makes for itself, as long as nothing but rounded bounds of the box has
been kept.
-/

namespace VariableMetric

variable {α : Type} [Scalar α] {shape : Shape} {p : Precision}

namespace Tensor

variable {t : Tensor α}

theorem shape_rounded (t : Tensor α) (p : Precision) : (t.rounded p).shape = t.shape := rfl

theorem spread_rounded (h : t.shape.broadcastsTo shape = true) :
    (t.rounded p).spread shape = (t.spread shape).map (Scalar.round p) := by
  have hfits := Shape.fits_of_broadcastsTo h
  ext i
  have hi : i.val < (t.shape.broadcastIndices shape).length := by
    rw [Shape.length_broadcastIndices hfits]
    exact i.isLt
  have hlt := Shape.lt_of_mem_broadcastIndices hfits (List.getElem_mem hi)
  rw [Vec.get_map, (t.rounded p).get_spread hfits i hi, t.get_spread hfits i hi]
  have hlist : (t.rounded p).toList = t.toList.map (Scalar.round p) := rfl
  have hlength : t.toList.length = t.shape.size := t.data.length_toList
  rw [hlist]
  simp [hlength, shape_rounded, hlt]

theorem spread?_rounded :
    (t.rounded p).spread? shape =
      (t.spread? shape).map fun v => v.map (Scalar.round p) := by
  unfold spread?
  rw [shape_rounded]
  split
  next h => rw [spread_rounded h]; rfl
  next => rfl

end Tensor

namespace Box

theorem bounds_rounded (box : Box α) (keepsEqual : Bool) :
    (box.rounded p).bounds shape id keepsEqual =
      box.bounds shape (Scalar.round p) keepsEqual := by
  unfold bounds rounded
  rw [Tensor.spread?_rounded, Tensor.spread?_rounded]
  cases box.lower.spread? shape with
  | error fault => rfl
  | ok lower => cases box.upper.spread? shape with
    | error fault => rfl
    | ok upper =>
      refine congrArg Except.ok ?_
      ext i
      simp only [Vec.get_zipWith, Vec.get_map, id]

theorem storedSet_rounded (box : Box α) (shape : Shape) (p : Precision) :
    (box.rounded p).storedSet shape p = box.toSet shape p :=
  congrArg (FeasibleSet.ofBounds p) (box.bounds_rounded _)

end Box

namespace Domain

/-- Nothing but rounded bounds of the domain has been kept. -/
def Kept (d : Domain α) (kept : KeptBounds α) : Prop :=
  ∀ box p rounded, d = .box box → kept p = some rounded → rounded = box.rounded p

variable {d : Domain α} {kept : KeptBounds α}

theorem kept_none : d.Kept KeptBounds.none := by
  intro box p rounded _ hkept
  cases hkept

theorem Kept.recallSet_fst (h : d.Kept kept) (shape : Shape) (p : Precision) :
    (d.recallSet kept shape p).1 = d.toSet shape p := by
  cases d with
  | box box =>
    show ((box.boundsIn kept p).1).storedSet shape p = box.toSet shape p
    have hrecalled : (box.boundsIn kept p).1 = box.rounded p := by
      unfold Box.boundsIn
      split
      next rounded hrounded => exact h box p rounded rfl hrounded
      next => rfl
    rw [hrecalled, box.storedSet_rounded]
  | _ => rfl

theorem Kept.recallSet_snd (h : d.Kept kept) (shape : Shape) (p : Precision) :
    d.Kept (d.recallSet kept shape p).2 := by
  cases d with
  | box box =>
    show Kept (.box box) (box.boundsIn kept p).2
    unfold Box.boundsIn
    split
    next => exact h
    next =>
      rintro _ q rounded ⟨⟩ hrounded
      change (if q = p then some (box.rounded p) else kept q) = some rounded at hrounded
      split at hrounded
      next hq => exact hq ▸ (Option.some.inj hrounded).symm
      next => exact h box q rounded rfl hrounded
  | _ => exact h

end Domain

end VariableMetric
