import Mathlib.Data.Int.ModEq
import Mathlib.Data.List.Nodup
import Mathlib.Tactic
import VariableMetric.Memory.Direction

/-!
# The ring of slots

Pairs that were pushed less than a whole turn of the ring apart lie in different
slots, so a memory that remembers no more pairs than it has slots keeps them all
apart.  Neither a push nor a direction makes it remember more.

So a push puts its pair before the remembered ones, the oldest of which falls out
of a full ring, and a direction leaves them as they are or forgets them all.
-/

namespace VariableMetric

theorem eq_of_ringSlot_eq {updates i j : ℤ} {m : ℕ} (hij : |i - j| < m)
    (h : ringSlot updates m i = ringSlot updates m j) : i = j := by
  unfold ringSlot at h
  rw [Int.fmod_eq_emod_of_nonneg _ (Int.natCast_nonneg m),
    Int.fmod_eq_emod_of_nonneg _ (Int.natCast_nonneg m)] at h
  have hdvd : (m : ℤ) ∣ i - j := by
    have hmodEq := Int.ModEq.dvd (n := (m : ℤ)) h
    rwa [sub_sub_sub_cancel_left] at hmodEq
  have hzero := Int.eq_zero_of_abs_lt_dvd hdvd hij
  omega

namespace Memory

variable {α : Type} {n m : ℕ} [Capacity m]

theorem eq_of_slot_eq {mem : Memory α n m} {i j : ℤ} (hij : |i - j| < m)
    (h : mem.slot i = mem.slot j) : i = j := by
  have hval : (ringSlot mem.updates m i).toNat = (ringSlot mem.updates m j).toNat :=
    congrArg Fin.val h
  have hi := ringSlot_nonneg mem.updates i (Capacity.ne_zero : m ≠ 0)
  have hj := ringSlot_nonneg mem.updates j (Capacity.ne_zero : m ≠ 0)
  have hring : ringSlot mem.updates m i = ringSlot mem.updates m j := by omega
  exact eq_of_ringSlot_eq hij hring

theorem liveSlots_nodup {mem : Memory α n m} (hlive : mem.live ≤ m) :
    mem.liveSlots.Nodup := by
  apply List.Nodup.map_on _ List.nodup_range
  intro i hi j hj h
  rw [List.mem_range] at hi hj
  have hij : |((i : ℤ) + 1) - ((j : ℤ) + 1)| < m := by
    rw [abs_lt]
    omega
  have heq := eq_of_slot_eq hij h
  omega

theorem live_push_le [Scalar α] (mem : Memory α n m) (s y : Vec α n) :
    (mem.push s y).live ≤ m :=
  Nat.min_le_right _ _

theorem length_pairs (mem : Memory α n m) : mem.pairs.length = mem.live := by
  simp [pairs, liveSlots]

theorem pairs_eq_nil {mem : Memory α n m} (h : mem.live = 0) : mem.pairs = [] := by
  simp [pairs, liveSlots, h]

/-- A push moves every pair one place away from the next one. -/
theorem slot_push [Scalar α] (mem : Memory α n m) (s y : Vec α n) (j : ℕ) :
    (mem.push s y).slot ((j : ℤ) + 1) = mem.slot j := by
  have hring : ringSlot ((mem.updates + 1 : ℕ) : ℤ) m ((j : ℤ) + 1) =
      ringSlot mem.updates m j := by
    unfold ringSlot
    congr 1
    push_cast
    ring
  exact Fin.ext (congrArg Int.toNat hring)

theorem slot_ne_slot_zero {mem : Memory α n m} {j : ℕ} (hj : j + 1 < m) :
    mem.slot ((j : ℤ) + 1) ≠ mem.slot 0 := by
  intro h
  have hij : |((j : ℤ) + 1) - 0| < m := by
    rw [abs_lt]
    omega
  have heq := eq_of_slot_eq hij h
  omega

/-- The oldest pair of a full ring lies where the next pair goes. -/
theorem slot_capacity (mem : Memory α n m) : mem.slot m = mem.slot 0 := by
  have hring : ringSlot mem.updates m m = ringSlot mem.updates m 0 := by
    unfold ringSlot
    rw [sub_zero, Int.fmod_eq_emod_of_nonneg _ (Int.natCast_nonneg m),
      Int.fmod_eq_emod_of_nonneg _ (Int.natCast_nonneg m), Int.sub_emod_right]
  exact Fin.ext (congrArg Int.toNat hring)

theorem pairs_push [Scalar α] (mem : Memory α n m) (s y : Vec α n) :
    (mem.push s y).pairs = ((s, y) :: mem.pairs).take m := by
  have hm : m ≠ 0 := Capacity.ne_zero
  apply List.ext_getElem
  · rw [length_pairs, List.length_take, List.length_cons, length_pairs, Nat.min_comm]
    rfl
  · intro i hi _
    have hlive : i < (mem.push s y).live := by rwa [length_pairs] at hi
    have hroom : i < m := lt_of_lt_of_le hlive (Nat.min_le_right _ _)
    have hpush : (mem.push s y).pairs[i] =
        ((mem.steps.set (mem.slot 0) s).get (mem.slot i),
          (mem.changes.set (mem.slot 0) y).get (mem.slot i)) := by
      simp only [pairs, liveSlots, List.getElem_map, List.getElem_range, slot_push]
      rfl
    rw [hpush]
    cases i with
    | zero => simp
    | succ j =>
        have hne : mem.slot ((j + 1 : ℕ) : ℤ) ≠ mem.slot 0 := by
          exact_mod_cast slot_ne_slot_zero hroom
        rw [Slots.get_set_of_ne _ _ hne, Slots.get_set_of_ne _ _ hne]
        simp [pairs, liveSlots]

omit [Capacity m] in
theorem foldl_sweepBack_notices [Scalar α] {p : Precision} {mem : Memory α n m} {w : Vec α n}
    {ks : List (Fin m)} {sweep : Sweep α n m} {slope : α}
    (h : .directionRefused slope ∉ sweep.notices) :
    .directionRefused slope ∉ (ks.foldl (mem.sweepBack p w) sweep).notices := by
  induction ks generalizing sweep with
  | nil => exact h
  | cons k ks ih =>
      rw [List.foldl_cons]
      apply ih
      unfold sweepBack
      dsimp only
      split
      · exact h
      · simpa using h

/-- Taking a direction keeps the remembered pairs, unless it says that it refuses
the direction; then it forgets them all. -/
theorem directionFrom_memory [Scalar α] (mem : Memory α n m) (p : Precision)
    (project : Vec α n → Except Fault (Vec α n)) (before opposite g w : Vec α n) :
    let result := mem.directionFrom p project before opposite g w
    ((∀ slope, .directionRefused slope ∉ result.2.2) ∧ result.2.1.pairs = mem.pairs) ∨
      ((∃ slope, .directionRefused slope ∈ result.2.2) ∧ result.2.1.pairs = []) := by
  have hskips : ∀ slope, .directionRefused slope ∉ (mem.backward p w opposite).notices :=
    fun slope => foldl_sweepBack_notices (by simp)
  unfold directionFrom
  dsimp only
  split
  · exact .inl ⟨by simp, rfl⟩
  · split
    · exact .inl ⟨by simpa using hskips, rfl⟩
    · split
      · exact .inl ⟨hskips, rfl⟩
      · split
        · exact .inr ⟨⟨_, List.mem_append_right _ (List.mem_singleton_self _)⟩,
            pairs_eq_nil rfl⟩
        · exact .inl ⟨hskips, rfl⟩

/-- A memory says that it refuses a direction exactly if it answers with one that does not
descend, and forgets the pairs that it has taken it from. -/
theorem directionFrom_refused_iff [Scalar α] (mem : Memory α n m) (p : Precision)
    (project : Vec α n → Except Fault (Vec α n)) (before opposite g w : Vec α n) :
    let result := mem.directionFrom p project before opposite g w
    (∃ slope, .directionRefused slope ∈ result.2.2) ↔
      ∃ slope d, result.1 = .ok ⟨false, slope, d⟩ ∧ 0 ≤ slope ∧ 1 ≤ mem.live ∧
        result.2.1.live = 0 := by
  have hskips : ∀ slope, .directionRefused slope ∉ (mem.backward p w opposite).notices :=
    fun slope => foldl_sweepBack_notices (by simp)
  unfold directionFrom
  dsimp only
  split
  next hempty =>
    refine iff_of_false (by simp) ?_
    rintro ⟨_, _, -, -, hsome, -⟩
    omega
  next hsome =>
    split
    next =>
      refine iff_of_false (by simpa using hskips) ?_
      rintro ⟨_, _, -, -, hlive, hgone⟩
      exact absurd hlive (by rw [hgone]; exact Nat.not_succ_le_zero 0)
    next =>
      split
      next =>
        refine iff_of_false (not_exists.mpr hskips) ?_
        rintro ⟨_, _, hok, -⟩
        cases hok
      next d _ =>
        split
        next hslope =>
          exact iff_of_true ⟨_, List.mem_append_right _ (List.mem_singleton_self _)⟩
            ⟨_, d, rfl, hslope, Nat.not_lt.mp hsome, rfl⟩
        next =>
          refine iff_of_false (not_exists.mpr hskips) ?_
          rintro ⟨_, _, hok, -⟩
          cases hok

/-- Taking a direction writes no pair, wherever it stops. -/
theorem directionFrom_stored [Scalar α] (mem : Memory α n m) (p : Precision)
    (project : Vec α n → Except Fault (Vec α n)) (before opposite g w : Vec α n) :
    let after := (mem.directionFrom p project before opposite g w).2.1
    after.steps = mem.steps ∧ after.changes = mem.changes ∧ after.updates = mem.updates := by
  unfold directionFrom
  dsimp only
  split
  · exact ⟨rfl, rfl, rfl⟩
  · split
    · exact ⟨rfl, rfl, rfl⟩
    · split
      · exact ⟨rfl, rfl, rfl⟩
      · split <;> exact ⟨rfl, rfl, rfl⟩

end Memory

end VariableMetric
