import Mathlib.Data.List.Forall2
import Mathlib.Data.List.GetD
import Mathlib.Tactic.Linarith
import Mathlib.Tactic.SplitIfs
import VariableMetric.Shape

/-!
# Broadcasting in two steps

Two arrays that can be used together have a common shape.  If each of them can
stand for an array of a third shape, so can an array of the common shape, and
spreading either one over the third shape is the same as spreading it over the
common shape first.  Any two elements that meet in the third shape have therefore
met in the common one.
-/

namespace VariableMetric.Shape

/-- Along an axis, an extent can stand for itself, and one for any extent. -/
def Stretches (a b : ℕ) : Prop := a = b ∨ a = 1

/-! ## Positions, axis for axis -/

/-- The positions in an array of shape `s` of what stands for the elements of an
array of shape `t` with the same number of axes. -/
def positions (s t : Shape) : List ℕ := sourceIndices (s.zip (t.zip (strides s)))

theorem positions_cons (a b : ℕ) (s t : Shape) :
    positions (a :: s) (b :: t) = (List.range b).flatMap fun i =>
      (positions s t).map fun k => (if a = 1 then 0 else i * size s) + k := rfl

theorem size_cons (a : ℕ) (s : Shape) : size (a :: s) = a * size s := rfl

theorem length_positions {s t : Shape} (h : List.Forall₂ Stretches s t) :
    (positions s t).length = size t := by
  induction h with
  | nil => rfl
  | cons hstretch hrest ih =>
    rw [positions_cons, List.length_flatMap, size_cons]
    simp [ih]

theorem lt_of_mem_positions {s t : Shape} (h : List.Forall₂ Stretches s t) {k : ℕ}
    (hk : k ∈ positions s t) : k < size s := by
  induction h generalizing k with
  | nil =>
    obtain rfl : k = 0 := by simpa [positions, sourceIndices] using hk
    exact Nat.one_pos
  | @cons a b s t hstretch hrest ih =>
    rw [positions_cons] at hk
    simp only [List.mem_flatMap, List.mem_range, List.mem_map] at hk
    obtain ⟨i, hi, k', hk', rfl⟩ := hk
    have hlt := ih hk'
    rw [size_cons]
    split
    next hone => simpa [hone] using hlt
    next hone =>
      have hia : i < a := by
        rcases hstretch with rfl | rfl
        · exact hi
        · exact absurd rfl hone
      nlinarith

theorem getD_flatMap_range {F : ℕ → List ℕ} {width : ℕ} (hwidth : ∀ i, (F i).length = width)
    {n i k : ℕ} (hi : i < n) (hk : k < width) :
    ((List.range n).flatMap F).getD (i * width + k) 0 = (F i).getD k 0 := by
  induction n generalizing i F with
  | zero => exact absurd hi (Nat.not_lt_zero i)
  | succ n ih =>
    rw [List.range_succ_eq_map, List.flatMap_cons, List.flatMap_map]
    cases i with
    | zero =>
      rw [Nat.zero_mul, Nat.zero_add]
      exact List.getD_append _ _ _ _ (by rw [hwidth]; exact hk)
    | succ i =>
      have hskip : (i + 1) * width + k - (F 0).length = i * width + k := by
        rw [hwidth, Nat.succ_mul]
        omega
      rw [List.getD_append_right _ _ _ _ (by rw [hwidth, Nat.succ_mul]; omega), hskip]
      exact ih (fun i => hwidth (i + 1)) (by omega)

theorem positions_trans {s u t : Shape} (h : List.Forall₂ Stretches s u)
    (h' : List.Forall₂ Stretches u t) :
    positions s t = (positions u t).map fun j => (positions s u).getD j 0 := by
  induction h generalizing t with
  | nil =>
    cases h'
    rfl
  | @cons a c s u hstretch hrest ih =>
    cases h' with
    | @cons _ b _ t hstretch' hrest' =>
      rw [positions_cons a b, positions_cons c b, ih hrest', List.map_flatMap]
      refine List.flatMap_congr fun i hi => ?_
      rw [List.mem_range] at hi
      rw [List.map_map, List.map_map]
      refine List.map_congr_left fun k hk => ?_
      have hlt : k < size u := lt_of_mem_positions hrest' hk
      -- The element before comes from block `j` of the common shape.
      obtain ⟨j, hj, hoffset, hsource⟩ : ∃ j < c,
          (if c = 1 then 0 else i * size u) = j * size u ∧
          (if a = 1 then 0 else i * size s) = if a = 1 then 0 else j * size s := by
        by_cases hc : c = 1
        · refine ⟨0, by omega, by simp [hc], ?_⟩
          have ha : a = 1 := by
            rcases hstretch with rfl | rfl
            · exact hc
            · rfl
          simp [ha]
        · refine ⟨i, ?_, by simp [hc], rfl⟩
          rcases hstretch' with rfl | rfl
          · exact hi
          · exact absurd rfl hc
      have hwidth : ∀ j, ((positions s u).map fun k =>
          (if a = 1 then 0 else j * size s) + k).length = size u := by
        intro j
        rw [List.length_map, length_positions hrest]
      simp only [Function.comp_apply]
      rw [hoffset, positions_cons, getD_flatMap_range hwidth hj hlt, hsource]
      have hk' : k < (positions s u).length := by rw [length_positions hrest]; exact hlt
      simp [hk']

/-! ## Shapes with missing axes -/

/-- A shape with axes of extent one before its own, up to a number of axes. -/
def padded (s : Shape) (axes : ℕ) : Shape := List.replicate (axes - s.length) 1 ++ s

theorem sourceIndices_pad (s t : Shape) (missing : ℕ) :
    sourceIndices ((List.replicate missing 1 ++ s).zip
        (t.zip (List.replicate missing 0 ++ strides s))) =
      positions (List.replicate missing 1 ++ s) t := by
  induction missing generalizing t with
  | zero => rfl
  | succ missing ih =>
    cases t with
    | nil => rfl
    | cons b t =>
      rw [List.replicate_succ, List.cons_append, positions_cons, ← ih t]
      rfl

theorem broadcastIndices_eq (s t : Shape) :
    broadcastIndices s t = positions (s.padded t.length) t :=
  sourceIndices_pad s t _

theorem positions_replicate_append (s t : Shape) (axes : ℕ) :
    positions (List.replicate axes 1 ++ s) (List.replicate axes 1 ++ t) = positions s t := by
  induction axes with
  | zero => rfl
  | succ axes ih =>
    rw [List.replicate_succ, List.cons_append, List.cons_append, positions_cons, ih]
    simp

/-- Whether a shape can stand for another one, the axes being counted from the
last. -/
inductive Fits : Shape → Shape → Prop
  | nil (t : Shape) : Fits [] t
  | cons {a b : ℕ} {s t : Shape} : Stretches a b → Fits s t → Fits (a :: s) (b :: t)

theorem Fits.refl (s : Shape) : Fits s s := by
  induction s with
  | nil => exact .nil []
  | cons a s ih => exact .cons (.inl rfl) ih

theorem Fits.length_le {s t : Shape} (h : Fits s t) : s.length ≤ t.length := by
  induction h with
  | nil t => exact Nat.zero_le _
  | cons hstretch hrest ih => exact Nat.succ_le_succ ih

theorem forall₂_stretches_replicate (t : Shape) :
    List.Forall₂ Stretches (List.replicate t.length 1) t := by
  induction t with
  | nil => exact .nil
  | cons b t ih => exact .cons (.inr rfl) ih

theorem Fits.forall₂ {s t : Shape} (h : Fits s t) :
    List.Forall₂ Stretches (s ++ List.replicate (t.length - s.length) 1) t := by
  induction h with
  | nil t => exact forall₂_stretches_replicate t
  | @cons a b s t hstretch hrest ih =>
    rw [List.length_cons, List.length_cons, Nat.succ_sub_succ]
    exact .cons hstretch ih

theorem forall₂_padded {s t : Shape} (h : Fits s.reverse t.reverse) :
    List.Forall₂ Stretches (s.padded t.length) t := by
  have hrev := h.forall₂
  rw [← List.forall₂_reverse_iff] at hrev
  simpa [padded] using hrev

/-- A joined shape is the least one that both shapes can stand for. -/
theorem fits_of_joinReversed? {s t u : Shape} (h : joinReversed? s t = some u) :
    Fits s u ∧ Fits t u ∧ ∀ v, Fits s v → Fits t v → Fits u v := by
  induction s generalizing t u with
  | nil =>
    obtain rfl : t = u := by simpa [joinReversed?] using h
    exact ⟨.nil t, .refl t, fun v _ hv => hv⟩
  | cons a s ih =>
    cases t with
    | nil =>
      obtain rfl : a :: s = u := by simpa [joinReversed?] using h
      exact ⟨.refl _, .nil _, fun v hv _ => hv⟩
    | cons b t =>
      simp only [joinReversed?, Option.bind_eq_bind, Option.bind_eq_some_iff] at h
      obtain ⟨c, hc, rest, hrest, hu⟩ := h
      obtain rfl : c :: rest = u := by simpa using hu
      obtain ⟨hs, ht, hleast⟩ := ih hrest
      have hextent : Stretches a c ∧ Stretches b c ∧ (c = a ∨ c = b) := by
        unfold joinExtent? at hc
        unfold Stretches
        split_ifs at hc <;> simp at hc <;> omega
      obtain ⟨ha, hb, hor⟩ := hextent
      refine ⟨.cons ha hs, .cons hb ht, ?_⟩
      intro v hsv htv
      cases hsv with
      | cons hav hsv =>
        cases htv with
        | cons hbv htv =>
          refine .cons ?_ (hleast _ hsv htv)
          rcases hor with rfl | rfl
          · exact hav
          · exact hbv

theorem fits_of_join? {s t u : Shape} (h : join? s t = some u) :
    Fits s.reverse u.reverse ∧ Fits t.reverse u.reverse ∧
      ∀ v, Fits s.reverse v → Fits t.reverse v → Fits u.reverse v := by
  obtain ⟨r, hr, rfl⟩ := Option.map_eq_some_iff.mp h
  rw [List.reverse_reverse]
  exact fits_of_joinReversed? hr

theorem fits_of_broadcastsTo {s t : Shape} (h : s.broadcastsTo t = true) :
    Fits s.reverse t.reverse :=
  (fits_of_join? (beq_iff_eq.mp h)).1

theorem length_broadcastIndices {s t : Shape} (h : Fits s.reverse t.reverse) :
    (broadcastIndices s t).length = size t := by
  rw [broadcastIndices_eq]
  exact length_positions (forall₂_padded h)

theorem lt_of_mem_broadcastIndices {s t : Shape} (h : Fits s.reverse t.reverse) {k : ℕ}
    (hk : k ∈ broadcastIndices s t) : k < size s := by
  rw [broadcastIndices_eq] at hk
  have hlt := lt_of_mem_positions (forall₂_padded h) hk
  have hsize : ∀ missing, size (List.replicate missing 1 ++ s) = size s := by
    intro missing
    induction missing with
    | zero => rfl
    | succ missing ih =>
      rw [List.replicate_succ, List.cons_append, size_cons, ih, Nat.one_mul]
  exact (hsize _).symm ▸ hlt

/-- Spreading an array over a shape is spreading it over one that lies between
first. -/
theorem broadcastIndices_trans {s u t : Shape} (h : Fits s.reverse u.reverse)
    (h' : Fits u.reverse t.reverse) :
    broadcastIndices s t =
      (broadcastIndices u t).map fun j => (broadcastIndices s u).getD j 0 := by
  have hlength := h.length_le
  have hlength' := h'.length_le
  rw [List.length_reverse, List.length_reverse] at hlength hlength'
  have hpad : s.padded t.length =
      List.replicate (t.length - u.length) 1 ++ s.padded u.length := by
    unfold padded
    rw [← List.append_assoc, ← List.replicate_add]
    congr 2
    omega
  have hbetween : List.Forall₂ Stretches (s.padded t.length) (u.padded t.length) := by
    rw [hpad, padded]
    refine List.rel_append ?_ (forall₂_padded h)
    simpa using forall₂_stretches_replicate (List.replicate (t.length - u.length) 1)
  have hpositions : positions (s.padded t.length) (u.padded t.length) =
      broadcastIndices s u := by
    rw [hpad, broadcastIndices_eq]
    exact positions_replicate_append _ u _
  rw [broadcastIndices_eq s t, broadcastIndices_eq u t,
    positions_trans hbetween (forall₂_padded h'), hpositions]

/-! ## Shapes that need no spreading -/

theorem flatMap_range_add (a n : ℕ) :
    ((List.range a).flatMap fun i => (List.range n).map (i * n + ·)) = List.range (a * n) := by
  induction a with
  | zero => simp
  | succ a ih =>
    rw [List.range_succ, List.flatMap_append, ih, List.flatMap_singleton, Nat.succ_mul,
      List.range_add]

theorem positions_self (s : Shape) : positions s s = List.range (size s) := by
  induction s with
  | nil => rfl
  | cons a s ih =>
    rw [positions_cons, ih, size_cons, ← flatMap_range_add]
    apply List.flatMap_congr
    intro i hi
    rw [List.mem_range] at hi
    split
    next hone =>
      obtain rfl : i = 0 := by omega
      rw [Nat.zero_mul]
    next => rfl

/-- An array of the shape wanted stands for itself, element for element. -/
theorem broadcastIndices_self (s : Shape) : broadcastIndices s s = List.range (size s) := by
  rw [broadcastIndices_eq, padded, Nat.sub_self]
  exact positions_self s

theorem size_trimmed (s : Shape) (rank : ℕ) : size (s.trimmed rank) = size s := by
  induction s with
  | nil => rfl
  | cons a s ih =>
    unfold trimmed
    split
    next h =>
      rw [Bool.and_eq_true, decide_eq_true_eq, decide_eq_true_eq] at h
      rw [ih, size_cons, h.2, Nat.one_mul]
    next => rfl

end VariableMetric.Shape
