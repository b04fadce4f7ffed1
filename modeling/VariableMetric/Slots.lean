/-!
# Slots

A row of `m` slots, all of them blank at first, is read through `get`.  Only the
slots up to the last one that was written are held, so a row takes no more room
than what has been written to it, whatever its capacity.
-/

namespace VariableMetric

structure Slots (β : Type) (m : Nat) where
  /-- What a slot holds before it is written. -/
  blank : β
  written : List β
  length_le : written.length ≤ m

namespace Slots

variable {β : Type} {m : Nat}

def empty (m : Nat) (blank : β) : Slots β m := ⟨blank, [], Nat.zero_le m⟩

def get (s : Slots β m) (i : Fin m) : β := s.written.getD i.val s.blank

/-- The slots held, with blank ones behind them up to `count`. -/
def padded (s : Slots β m) (count : Nat) : List β :=
  s.written ++ List.replicate (count - s.written.length) s.blank

def set (s : Slots β m) (i : Fin m) (b : β) : Slots β m :=
  ⟨s.blank, (s.padded (i.val + 1)).set i.val b, by
    have h := s.length_le
    have h' := i.isLt
    rw [List.length_set, padded, List.length_append, List.length_replicate]
    omega⟩

/-- All slots, in order. -/
def toList (s : Slots β m) : List β := s.padded m

theorem getD_padded (s : Slots β m) (count i : Nat) :
    (s.padded count).getD i s.blank = s.written.getD i s.blank := by
  simp only [padded, List.getD_eq_getElem?_getD, List.getElem?_append]
  split
  · rfl
  · next h =>
    rw [List.getElem?_eq_none (by omega : s.written.length ≤ i)]
    simp only [List.getElem?_replicate]
    split <;> rfl

theorem lt_length_padded (s : Slots β m) {count i : Nat} (h : i < count) :
    i < (s.padded count).length := by
  rw [padded, List.length_append, List.length_replicate]
  omega

@[simp] theorem get_empty (blank : β) (i : Fin m) : (empty m blank).get i = blank := by
  simp [get, empty]

@[simp] theorem get_set_self (s : Slots β m) (i : Fin m) (b : β) : (s.set i b).get i = b := by
  have h := s.lt_length_padded (Nat.lt_succ_self i.val)
  simp [get, set, List.getD_eq_getElem?_getD, h]

theorem get_set_of_ne (s : Slots β m) {i j : Fin m} (b : β) (h : j ≠ i) :
    (s.set i b).get j = s.get j := by
  have hne : i.val ≠ j.val := fun e => h (Fin.ext e.symm)
  have hp := s.getD_padded (i.val + 1) j.val
  simp only [List.getD_eq_getElem?_getD] at hp
  simp [get, set, List.getD_eq_getElem?_getD, hne, hp]

end Slots

end VariableMetric
