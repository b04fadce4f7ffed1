import VariableMetric.FeasibleSet.Box
import VariableMetric.Proofs.Broadcasting
import VariableMetric.Proofs.Double.Rounding

/-!
# What a box lets through

The bounds of a box are numbers, and nowhere is the upper one below the lower one,
neither where they meet in the shape that they share nor after they are spread over
the variables and rounded to their precision.  A component that is brought between
them is not a number or lies between them.
-/

namespace VariableMetric

variable {α : Type} [Scalar α]

namespace Range

/-- Whether a component is in the range, or is not a number. -/
def Admits (r : Range α) (a : α) : Prop :=
  Scalar.isNaN a = true ∨ r.lower ≤ a ∧ a ≤ r.upper

structure Ordered (r : Range α) : Prop where
  lower_number : Scalar.isNaN r.lower = false
  upper_number : Scalar.isNaN r.upper = false
  not_crossed : ¬ r.upper < r.lower

variable [OrderedScalar α] {r : Range α}

theorem Ordered.lower_le_upper (h : r.Ordered) : r.lower ≤ r.upper :=
  OrderedScalar.le_of_not_lt h.upper_number h.lower_number h.not_crossed

theorem Ordered.admits_lower (h : r.Ordered) : r.Admits r.lower :=
  .inr ⟨OrderedScalar.le_of_not_lt h.lower_number h.lower_number
    (OrderedScalar.lt_irrefl _), h.lower_le_upper⟩

theorem Ordered.admits_upper (h : r.Ordered) : r.Admits r.upper :=
  .inr ⟨h.lower_le_upper, OrderedScalar.le_of_not_lt h.upper_number h.upper_number
    (OrderedScalar.lt_irrefl _)⟩

theorem Ordered.admits_of_not_lt (h : r.Ordered) {a : α} (hlower : ¬ a < r.lower)
    (hupper : ¬ r.upper < a) : r.Admits a := by
  by_cases hnan : Scalar.isNaN a = true
  · exact .inl hnan
  · rw [Bool.not_eq_true] at hnan
    exact .inr ⟨OrderedScalar.le_of_not_lt hnan h.lower_number hlower,
      OrderedScalar.le_of_not_lt h.upper_number hnan hupper⟩

theorem Ordered.admits_confine (h : r.Ordered) (a : α) :
    r.Admits (Scalar.confine r.lower r.upper a) := by
  simp only [Scalar.confine]
  by_cases hlower : a < r.lower
  · rw [if_pos hlower, if_neg h.not_crossed]
    exact h.admits_lower
  · rw [if_neg hlower]
    split
    next => exact h.admits_upper
    next hupper => exact h.admits_of_not_lt hlower hupper

end Range

section Clamp

variable [StoredScalar α] {r : Range α}

open Range

theorem Range.Ordered.admits_inside (h : r.Ordered) (a : α) :
    r.Admits (Scalar.clamp r.lower r.upper a) := by
  simp only [Scalar.clamp]
  by_cases hnan : Scalar.isNaN a = true
  · rw [if_pos hnan]
    exact .inl hnan
  · rw [if_neg hnan]
    by_cases hlower : r.lower < a
    · rw [if_pos hlower]
      split
      next hupper =>
        exact h.admits_of_not_lt (StoredScalar.lt_asymm hlower) (StoredScalar.lt_asymm hupper)
      next => exact h.admits_upper
    · rw [if_neg hlower]
      split
      next => exact h.admits_lower
      next => exact h.admits_upper

theorem Range.Ordered.admits_clamp (h : r.Ordered) (a : α) : r.Admits (r.clamp a) := by
  unfold Range.clamp
  split
  · exact h.admits_confine a
  · exact h.admits_inside a

end Clamp

/-! ## Bounds of a box -/

theorem Tensor.get_spread (t : Tensor α) {shape : Shape}
    (h : Shape.Fits t.shape.reverse shape.reverse) (i : Fin shape.size)
    (hi : i.val < (t.shape.broadcastIndices shape).length) :
    (t.spread shape).get i = t.toList.toArray.getD (t.shape.broadcastIndices shape)[i.val] 0 := by
  have hlength := Shape.length_broadcastIndices h
  have hlist := Vec.toList_ofList (0 : α)
    (l := (t.shape.broadcastIndices shape).map fun i => t.toList.toArray.getD i 0)
    ((List.length_map _).trans hlength)
  simp only [Tensor.spread, Vec.get, List.get_eq_getElem, hlist, List.getElem_map]

theorem Tensor.get_spread_mem (t : Tensor α) {shape : Shape}
    (h : Shape.Fits t.shape.reverse shape.reverse) (i : Fin shape.size) :
    (t.spread shape).get i ∈ t.toList := by
  have hi : i.val < (t.shape.broadcastIndices shape).length := by
    rw [Shape.length_broadcastIndices h]
    exact i.isLt
  have hlt := Shape.lt_of_mem_broadcastIndices h (List.getElem_mem hi)
  rw [← t.data.length_toList] at hlt
  rw [t.get_spread h i hi, Array.getD, dif_pos (by simpa [Tensor.toList] using hlt)]
  simp [Tensor.toList]

/-- Elements that meet in a shape have met in the joined one. -/
theorem Tensor.exists_common_get {t u : Tensor α} {joined shape : Shape}
    (hjoin : Shape.join? t.shape u.shape = some joined)
    (ht : t.shape.broadcastsTo shape = true) (hu : u.shape.broadcastsTo shape = true)
    (i : Fin shape.size) :
    ∃ j, (t.spread shape).get i = (t.spread joined).get j ∧
      (u.spread shape).get i = (u.spread joined).get j := by
  obtain ⟨htj, huj, hleast⟩ := Shape.fits_of_join? hjoin
  have hts := Shape.fits_of_broadcastsTo ht
  have hus := Shape.fits_of_broadcastsTo hu
  have hjs := hleast _ hts hus
  have hi : i.val < (joined.broadcastIndices shape).length := by
    rw [Shape.length_broadcastIndices hjs]
    exact i.isLt
  have hj := Shape.lt_of_mem_broadcastIndices hjs (List.getElem_mem hi)
  have hget : ∀ v : Tensor α, Shape.Fits v.shape.reverse joined.reverse →
      Shape.Fits v.shape.reverse shape.reverse →
      (v.spread shape).get i =
        (v.spread joined).get ⟨(joined.broadcastIndices shape)[i.val], hj⟩ := by
    intro v hvj hvs
    have hlength := Shape.length_broadcastIndices hvj
    have hi' : i.val < (v.shape.broadcastIndices shape).length := by
      rw [Shape.length_broadcastIndices hvs]
      exact i.isLt
    rw [v.get_spread hvs i hi', v.get_spread hvj _ (by rw [hlength]; exact hj)]
    congr 1
    simp [Shape.broadcastIndices_trans hvj hjs, hlength, hj]
  exact ⟨_, hget t htj hts, hget u huj hus⟩

namespace Box

theorem of_new_eq_ok {lower upper : Tensor α} {box : Box α}
    (h : Box.new lower upper = .ok box) :
    box = ⟨lower, upper⟩ ∧ (∀ a ∈ lower.toList, Scalar.isNaN a = false) ∧
      (∀ a ∈ upper.toList, Scalar.isNaN a = false) ∧
      ∃ joined, Shape.join? lower.shape upper.shape = some joined ∧
        ∀ j, ¬ (upper.spread joined).get j < (lower.spread joined).get j := by
  unfold Box.new at h
  split at h
  next => cases h
  next hnumbers =>
    simp only [Bool.or_eq_true, List.any_eq_true, not_or, not_exists, not_and,
      Bool.not_eq_true] at hnumbers
    split at h
    next => cases h
    next joined hjoin =>
      split at h
      next => cases h
      next hcrossed =>
        cases h
        refine ⟨rfl, hnumbers.1, hnumbers.2, joined, hjoin, ?_⟩
        intro j hlt
        refine hcrossed (List.any_eq_true.mpr ⟨true, ?_, rfl⟩)
        have hget : (Vec.zipWith (fun a b => decide (b < a)) (lower.spread joined)
            (upper.spread joined)).get j = true := by
          rw [Vec.get_zipWith]
          exact decide_eq_true hlt
        rw [← hget]
        exact Vec.get_mem _ _

variable {box : Box α} {shape : Shape} {p : Precision}

/-- The ranges of the variables, one for each component. -/
def ranges (box : Box α) (shape : Shape) (p : Precision) : Bounds α shape.size :=
  Vec.zipWith (fun a b => ⟨Scalar.round p a, Scalar.round p b, box.keepsEqual shape true⟩)
    (box.lower.spread shape) (box.upper.spread shape)

/-- Whether every component lies between its bounds, as the precision holds them, or
is not a number. -/
def Admits (box : Box α) (shape : Shape) (p : Precision) (x : Vec α shape.size) : Prop :=
  ∀ i, Scalar.isNaN (x.get i) = true ∨
    Scalar.round p ((box.lower.spread shape).get i) ≤ x.get i ∧
      x.get i ≤ Scalar.round p ((box.upper.spread shape).get i)

/-- A set of bounds that can be spread over the variables keeps them between the
ranges. -/
theorem toSet_eq (hlower : box.lower.shape.broadcastsTo shape = true)
    (hupper : box.upper.shape.broadcastsTo shape = true) :
    box.toSet shape p = .within p (box.ranges shape p) := by
  have hbounds : box.bounds shape (Scalar.round p) (box.keepsEqual shape true) =
      .ok (box.ranges shape p) := by
    simp only [bounds, Tensor.spread?, if_pos hlower, if_pos hupper]
    rfl
  rw [toSet, hbounds]
  rfl

theorem get_ranges (i : Fin shape.size) :
    (box.ranges shape p).get i =
      ⟨Scalar.round p ((box.lower.spread shape).get i),
        Scalar.round p ((box.upper.spread shape).get i), box.keepsEqual shape true⟩ :=
  Vec.get_zipWith _ _ _ i

/-- Bounds that were accepted for a box are in order wherever they are used. -/
theorem ordered_ranges [StoredScalar α] {lower upper : Tensor α}
    (hnew : Box.new lower upper = .ok box)
    (hlower : lower.shape.broadcastsTo shape = true)
    (hupper : upper.shape.broadcastsTo shape = true) (i : Fin shape.size) :
    ((box.ranges shape p).get i).Ordered := by
  obtain ⟨rfl, hlowers, huppers, joined, hjoin, hcrossed⟩ := of_new_eq_ok hnew
  obtain ⟨j, hlowerj, hupperj⟩ := Tensor.exists_common_get hjoin hlower hupper i
  have hlowernumber := hlowers _ (lower.get_spread_mem (Shape.fits_of_broadcastsTo hlower) i)
  have huppernumber := huppers _ (upper.get_spread_mem (Shape.fits_of_broadcastsTo hupper) i)
  have hnot : ¬ (upper.spread shape).get i < (lower.spread shape).get i := by
    rw [hlowerj, hupperj]
    exact hcrossed j
  rw [get_ranges]
  exact
    { lower_number := StoredScalar.isNaN_round p hlowernumber
      upper_number := StoredScalar.isNaN_round p huppernumber
      not_crossed := StoredScalar.not_round_lt p huppernumber hlowernumber hnot }

/-- Variables that are brought into the box are admitted by it, and bringing them
there never fails. -/
theorem exists_projectVariables [StoredScalar α] {lower upper : Tensor α}
    (hnew : Box.new lower upper = .ok box)
    (hlower : lower.shape.broadcastsTo shape = true)
    (hupper : upper.shape.broadcastsTo shape = true) (x : Vec α shape.size) :
    ∃ y, (box.toSet shape p).projectVariables x = .ok y ∧ box.Admits shape p y := by
  obtain ⟨hbox, -⟩ := of_new_eq_ok hnew
  have hset : box.toSet shape p = .within p (box.ranges shape p) := by
    apply toSet_eq
    · rw [hbox]
      exact hlower
    · rw [hbox]
      exact hupper
  refine ⟨(box.ranges shape p).clamp x, by rw [hset]; rfl, ?_⟩
  intro i
  have hadmits := (ordered_ranges (p := p) hnew hlower hupper i).admits_clamp (x.get i)
  rw [Bounds.clamp, Vec.get_zipWith]
  rw [get_ranges] at hadmits ⊢
  exact hadmits

end Box

end VariableMetric
