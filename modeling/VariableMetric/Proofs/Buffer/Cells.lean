import Mathlib.Data.List.Nodup
import Mathlib.Tactic.Linarith
import Mathlib.Tactic.Ring
import VariableMetric.Buffer

/-!
# Cells of views

The cells of a view lie between the first and the last one that its strides reach, so views
whose extents do not meet have no cell in common.  Writing into a view without repeated cells
leaves there what was written, and leaves all other cells as they were.
-/

namespace VariableMetric

/-! ## Where the cells are -/

namespace View

variable {v w : View}

theorem length_displacements (shape : Shape) (strides : List ℤ) :
    (displacements shape strides).length = shape.size := by
  induction shape generalizing strides with
  | nil => rfl
  | cons extent shape ih => simp [displacements, ih, Shape.size]

theorem length_positions (v : View) : v.positions.length = v.shape.size := by
  rw [positions, List.length_map, length_displacements]

theorem positions_eq_nil (hempty : v.shape.size = 0) : v.positions = [] :=
  List.eq_nil_of_length_eq_zero (v.length_positions.trans hempty)

/-- Along one axis nothing is reached beyond its last entry. -/
theorem mul_mem_reach {extent : ℕ} {i : ℤ} (stride : ℤ) (hi : 0 ≤ i) (hlast : i < extent) :
    (if stride < 0 then ((extent : ℤ) - 1) * stride else 0) ≤ i * stride ∧
      i * stride ≤ if 0 < stride then ((extent : ℤ) - 1) * stride else 0 := by
  have hle : i ≤ (extent : ℤ) - 1 := by omega
  rcases lt_trichotomy stride 0 with hneg | rfl | hpos
  · rw [if_pos hneg, if_neg hneg.not_gt]
    exact ⟨mul_le_mul_of_nonpos_right hle hneg.le, mul_nonpos_of_nonneg_of_nonpos hi hneg.le⟩
  · simp
  · rw [if_neg hpos.not_gt, if_pos hpos]
    exact ⟨mul_nonneg hi hpos.le, mul_le_mul_of_nonneg_right hle hpos.le⟩

theorem mem_reach_of_mem_displacements {shape : Shape} {strides : List ℤ}
    (hlength : strides.length = shape.length) {k : ℤ} (hk : k ∈ displacements shape strides) :
    reach (· < 0) (shape.zip strides) ≤ k ∧ k ≤ reach (0 < ·) (shape.zip strides) := by
  induction shape generalizing strides k with
  | nil =>
    obtain rfl : k = 0 := List.mem_singleton.mp hk
    exact ⟨le_rfl, le_rfl⟩
  | cons extent shape ih =>
    cases strides with
    | nil => cases hlength
    | cons stride strides =>
      obtain ⟨i, hi, hinner⟩ := List.mem_flatMap.mp hk
      obtain ⟨k', hk', rfl⟩ := List.mem_map.mp hinner
      obtain ⟨hlow, hhigh⟩ := ih (Nat.succ.inj hlength) hk'
      have haxis := mul_mem_reach stride (Int.natCast_nonneg i)
        (Int.ofNat_lt.mpr (List.mem_range.mp hi))
      simp only [List.zip_cons_cons, reach, List.headD_cons, decide_eq_true_eq]
      exact ⟨add_le_add haxis.1 hlow, add_le_add haxis.2 hhigh⟩

end View

namespace Heap

/-- The number of cells in a buffer. -/
def extent {α : Type} (h : Heap α) (buffer : ℕ) : ℕ :=
  match h[buffer]? with
  | some b => b.cells.size
  | none => 0

end Heap

namespace View

variable {α : Type} {h : Heap α} {v w : View}

/-- A view all of whose cells lie in its buffer. -/
structure Inside (v : View) (h : Heap α) : Prop where
  strides : v.strides.length = v.shape.length
  cells : ∀ k ∈ displacements v.shape v.strides,
    0 ≤ (v.offset : ℤ) + k ∧ (v.offset : ℤ) + k < h.extent v.buffer

theorem Inside.lt_extent (hv : v.Inside h) {i : ℕ} (hi : i ∈ v.positions) :
    i < h.extent v.buffer := by
  obtain ⟨k, hk, rfl⟩ := List.mem_map.mp hi
  have hcell := hv.cells k hk
  omega

theorem Inside.between (hv : v.Inside h) {i : ℕ} (hi : i ∈ v.positions) :
    v.lowest ≤ i ∧ i ≤ v.highest := by
  obtain ⟨k, hk, rfl⟩ := List.mem_map.mp hi
  have hreach := mem_reach_of_mem_displacements hv.strides hk
  rw [Int.toNat_of_nonneg (hv.cells k hk).1]
  exact ⟨add_le_add_right hreach.1 _, add_le_add_right hreach.2 _⟩

/-- Views without a common cell. -/
def Apart (v w : View) : Prop := v.buffer = w.buffer → v.positions.Disjoint w.positions

theorem size_ne_zero_of_mem {i : ℕ} (hi : i ∈ v.positions) : v.shape.size ≠ 0 := by
  intro hempty
  rw [positions_eq_nil hempty] at hi
  exact List.not_mem_nil hi

/-- Views whose extents do not meet have no cell in common. -/
theorem apart_of_not_mayOverlap (hv : v.Inside h) (hw : w.Inside h)
    (hnot : v.mayOverlap w = false) : v.Apart w := by
  intro hbuffer i hi hi'
  obtain ⟨hlow, hhigh⟩ := hv.between hi
  obtain ⟨hlow', hhigh'⟩ := hw.between hi'
  have hmeet : v.mayOverlap w = true := by
    simp [mayOverlap, hbuffer, size_ne_zero_of_mem hi, size_ne_zero_of_mem hi',
      hlow.trans hhigh', hlow'.trans hhigh]
  rw [hnot] at hmeet
  cases hmeet

end View

/-! ## What is written -/

namespace Heap

variable {α : Type}

theorem extent_setCell (h : Heap α) (buffer position : ℕ) (a : α) (other : ℕ) :
    (h.setCell buffer position a).extent other = h.extent other := by
  rw [extent, setCell, Array.getElem?_modify]
  by_cases hbuffer : buffer = other
  · subst hbuffer
    rw [if_pos rfl, extent]
    cases h[buffer]? <;> simp
  · rw [if_neg hbuffer, extent]

/-- Cell by cell, as in `write`. -/
def setCells (h : Heap α) (buffer : ℕ) (l : List (ℕ × α)) : Heap α :=
  l.foldl (fun h (i, a) => h.setCell buffer i a) h

theorem extent_setCells (h : Heap α) (buffer : ℕ) (l : List (ℕ × α)) (other : ℕ) :
    (h.setCells buffer l).extent other = h.extent other := by
  induction l generalizing h with
  | nil => rfl
  | cons entry l ih => exact (ih _).trans (extent_setCell h buffer entry.1 entry.2 other)

variable [Scalar α] {h h' h'' : Heap α} {v w : View}

theorem cell_setCell_self (h : Heap α) {buffer position : ℕ}
    (hinside : position < h.extent buffer) (a : α) :
    (h.setCell buffer position a).cell buffer position = a := by
  rw [cell, setCell, Array.getElem?_modify, if_pos rfl]
  rw [extent] at hinside
  cases hbuffer : h[buffer]? with
  | none => simp [hbuffer] at hinside
  | some b =>
    rw [hbuffer] at hinside
    simp [Array.getD, show position < b.cells.size from hinside]

theorem cell_setCell_of_ne (h : Heap α) {buffer position other place : ℕ}
    (hne : ¬ (other = buffer ∧ place = position)) (a : α) :
    (h.setCell buffer position a).cell other place = h.cell other place := by
  rw [cell, setCell, Array.getElem?_modify]
  by_cases hbuffer : buffer = other
  · subst hbuffer
    have hplace : position ≠ place := fun heq => hne ⟨rfl, heq.symm⟩
    rw [if_pos rfl, cell]
    cases h[buffer]? with
    | none => rfl
    | some b => simp [Array.getD_eq_getD_getElem?, hplace]
  · rw [if_neg hbuffer, cell]

theorem cell_setCells_of_not_mem (h : Heap α) {buffer other place : ℕ} {l : List (ℕ × α)}
    (hnot : ¬ (other = buffer ∧ place ∈ l.map Prod.fst)) :
    (h.setCells buffer l).cell other place = h.cell other place := by
  induction l generalizing h with
  | nil => rfl
  | cons entry l ih =>
    have hrest : ¬ (other = buffer ∧ place ∈ l.map Prod.fst) := fun hmem =>
      hnot ⟨hmem.1, List.mem_cons_of_mem _ hmem.2⟩
    have hhead : ¬ (other = buffer ∧ place = entry.1) := fun heq =>
      hnot ⟨heq.1, List.mem_cons.mpr (.inl heq.2)⟩
    exact (ih _ hrest).trans (h.cell_setCell_of_ne hhead entry.2)

/-- Cells that are written once hold what is written. -/
theorem map_cell_setCells (h : Heap α) {buffer : ℕ} {l : List (ℕ × α)}
    (hnodup : (l.map Prod.fst).Nodup) (hinside : ∀ i ∈ l.map Prod.fst, i < h.extent buffer) :
    (l.map Prod.fst).map ((h.setCells buffer l).cell buffer) = l.map Prod.snd := by
  induction l generalizing h with
  | nil => rfl
  | cons entry l ih =>
    obtain ⟨hnot, hnodup⟩ := List.nodup_cons.mp hnodup
    have hhead := h.cell_setCell_self (hinside _ List.mem_cons_self) entry.2
    have hkept : ((h.setCell buffer entry.1 entry.2).setCells buffer l).cell buffer entry.1 =
        (h.setCell buffer entry.1 entry.2).cell buffer entry.1 :=
      cell_setCells_of_not_mem _ fun hmem => hnot hmem.2
    have hrest := ih (h.setCell buffer entry.1 entry.2) hnodup fun i hi => by
      rw [extent_setCell]
      exact hinside i (List.mem_cons_of_mem _ hi)
    exact List.cons_eq_cons.mpr ⟨hkept.trans hhead, hrest⟩

/-- A view holds given elements, and all other cells are as before. -/
structure Writes (h h' : Heap α) (v : View) (elements : List α) : Prop where
  read : h'.read v = elements
  elsewhere : ∀ buffer i, ¬ (buffer = v.buffer ∧ i ∈ v.positions) →
    h'.cell buffer i = h.cell buffer i
  extent : ∀ buffer, h'.extent buffer = h.extent buffer

variable {elements elements' : List α}

theorem writes_write (hv : v.Inside h) (hnodup : v.positions.Nodup)
    (hlength : elements.length = v.shape.size) : h.Writes (h.write v elements) v elements := by
  rw [← v.length_positions] at hlength
  have hfirst : (v.positions.zip elements).map Prod.fst = v.positions :=
    List.map_fst_zip hlength.ge
  have hsecond : (v.positions.zip elements).map Prod.snd = elements :=
    List.map_snd_zip hlength.le
  refine ⟨?_, fun buffer i hnot => ?_, h.extent_setCells v.buffer _⟩
  · have hinside : ∀ i ∈ (v.positions.zip elements).map Prod.fst, i < h.extent v.buffer := by
      rw [hfirst]
      exact fun i => hv.lt_extent
    have hwritten := h.map_cell_setCells (hfirst.symm ▸ hnodup) hinside
    rwa [hfirst, hsecond] at hwritten
  · rw [← hfirst] at hnot
    exact h.cell_setCells_of_not_mem hnot

theorem writes_refl (h : Heap α) (v : View) : h.Writes h v (h.read v) :=
  ⟨rfl, fun _ _ _ => rfl, fun _ => rfl⟩

theorem Writes.trans (hfirst : h.Writes h' v elements) (hsecond : h'.Writes h'' v elements') :
    h.Writes h'' v elements' where
  read := hsecond.read
  elsewhere buffer i hnot :=
    (hsecond.elsewhere buffer i hnot).trans (hfirst.elsewhere buffer i hnot)
  extent buffer := (hsecond.extent buffer).trans (hfirst.extent buffer)

theorem Writes.inside (hwrites : h.Writes h' v elements) (hw : w.Inside h) : w.Inside h' where
  strides := hw.strides
  cells k hk := by
    rw [hwrites.extent]
    exact hw.cells k hk

theorem Writes.read_of_apart (hwrites : h.Writes h' v elements) (hapart : v.Apart w) :
    h'.read w = h.read w := by
  refine List.map_congr_left fun i hi => hwrites.elsewhere w.buffer i fun hmem => ?_
  exact hapart hmem.1.symm hmem.2 hi

end Heap

end VariableMetric
