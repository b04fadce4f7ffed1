/-!
# Vectors

A vector of length `n` is a list that is known to have `n` entries.  It is read
through `get`, and every operation is described by what it does to the entries.
-/

namespace VariableMetric

structure Vec (α : Type) (n : Nat) where
  toList : List α
  length_toList : toList.length = n
  deriving DecidableEq

namespace Vec

variable {α β γ : Type} {n : Nat}

def get (v : Vec α n) (i : Fin n) : α :=
  v.toList.get ⟨i.val, by rw [v.length_toList]; exact i.isLt⟩

def replicate (n : Nat) (a : α) : Vec α n := ⟨List.replicate n a, List.length_replicate⟩

def map (f : α → β) (v : Vec α n) : Vec β n :=
  ⟨v.toList.map f, by rw [List.length_map, v.length_toList]⟩

def zipWith (f : α → β → γ) (v : Vec α n) (w : Vec β n) : Vec γ n :=
  ⟨List.zipWith f v.toList w.toList, by
    rw [List.length_zipWith, v.length_toList, w.length_toList, Nat.min_self]⟩

def set (v : Vec α n) (i : Fin n) (a : α) : Vec α n :=
  ⟨v.toList.set i.val a, by rw [List.length_set, v.length_toList]⟩

/-- The list, cut off or filled up to length `n`. -/
def ofList (n : Nat) (filler : α) (l : List α) : Vec α n :=
  ⟨(l ++ List.replicate (n - l.length) filler).take n, by
    rw [List.length_take, List.length_append, List.length_replicate]
    omega⟩

@[ext] theorem ext {v w : Vec α n} (h : ∀ i, v.get i = w.get i) : v = w := by
  cases v with
  | mk l hl =>
    cases w with
    | mk l' hl' =>
      congr
      apply List.ext_getElem (by rw [hl, hl'])
      intro i hi _
      exact h ⟨i, by rw [← hl]; exact hi⟩

theorem get_mem (v : Vec α n) (i : Fin n) : v.get i ∈ v.toList := List.get_mem _ _

theorem exists_get_of_mem {v : Vec α n} {a : α} (h : a ∈ v.toList) : ∃ i, v.get i = a := by
  obtain ⟨i, hi, heq⟩ := List.getElem_of_mem h
  exact ⟨⟨i, by rw [← v.length_toList]; exact hi⟩, heq⟩

@[simp] theorem get_replicate (a : α) (i : Fin n) : (replicate n a).get i = a := by
  simp [get, replicate]

@[simp] theorem get_map (f : α → β) (v : Vec α n) (i : Fin n) :
    (v.map f).get i = f (v.get i) := by
  simp [get, map]

@[simp] theorem get_zipWith (f : α → β → γ) (v : Vec α n) (w : Vec β n) (i : Fin n) :
    (zipWith f v w).get i = f (v.get i) (w.get i) := by
  simp [get, zipWith]

@[simp] theorem get_set_self (v : Vec α n) (i : Fin n) (a : α) : (v.set i a).get i = a := by
  simp [get, set]

theorem toList_ofList (filler : α) {l : List α} (h : l.length = n) :
    (ofList n filler l).toList = l := by
  subst h
  simp [ofList]

end Vec

end VariableMetric
