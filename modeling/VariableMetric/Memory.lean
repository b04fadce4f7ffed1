import VariableMetric.Slots
import VariableMetric.Vec.Algebra

/-!
# The memory of correction pairs

A memory of capacity `m` keeps the last `m` pairs of a step and the change of
the gradient along it.  The pairs lie in a ring of `m` slots: the pair that was
pushed `j` pushes ago lies `j` slots before the one that is written next.  A
reset forgets all pairs at once; the slots are overwritten later.
-/

namespace VariableMetric

/-- The slot of the pair `j` pushes before the next one, for a ring of `m`
slots. -/
def ringSlot (updates m j : Int) : Int := (updates - j).fmod m

theorem ringSlot_nonneg (updates j : Int) {m : Nat} (hm : m ≠ 0) :
    0 ≤ ringSlot updates m j := by
  unfold ringSlot
  exact Int.fmod_nonneg_of_pos _ (by omega)

theorem ringSlot_lt (updates j : Int) {m : Nat} (hm : m ≠ 0) : ringSlot updates m j < m := by
  unfold ringSlot
  exact Int.fmod_lt_of_pos _ (by omega)

class Capacity (m : Nat) : Prop where
  ne_zero : m ≠ 0

instance (m : Nat) : Capacity (m + 1) := ⟨Nat.succ_ne_zero m⟩

instance : Capacity 1 := ⟨Nat.one_ne_zero⟩

/-- A memory of capacity `m` for variables with `n` components. -/
structure Memory (α : Type) (n m : Nat) where
  /-- The steps, slot by slot. -/
  steps : Slots (Vec α n) m
  /-- The changes of the gradient, slot by slot. -/
  changes : Slots (Vec α n) m
  /-- The inverse curvatures found last. -/
  rho : Slots α m
  /-- The coefficients found last. -/
  beta : Slots α m
  /-- The scale found last. -/
  gamma : α
  /-- How many pairs have ever been pushed. -/
  updates : Nat
  /-- How many of the last pairs are remembered. -/
  live : Nat

namespace Memory

variable {α : Type} [Scalar α] {n m : Nat}

def empty (n m : Nat) : Memory α n m where
  steps := Slots.empty m (Vec.zeros n)
  changes := Slots.empty m (Vec.zeros n)
  rho := Slots.empty m 0
  beta := Slots.empty m 0
  gamma := 0
  updates := 0
  live := 0

def reset (mem : Memory α n m) : Memory α n m := { mem with live := 0 }

/-- The slot of the pair pushed `j` pushes before the next one. -/
def slot [Capacity m] (mem : Memory α n m) (j : Int) : Fin m :=
  ⟨(ringSlot mem.updates m j).toNat, by
    have h := ringSlot_nonneg mem.updates j (Capacity.ne_zero : m ≠ 0)
    have h' := ringSlot_lt mem.updates j (Capacity.ne_zero : m ≠ 0)
    omega⟩

/-- The slots of the remembered pairs, newest first. -/
def liveSlots [Capacity m] (mem : Memory α n m) : List (Fin m) :=
  (List.range mem.live).map fun (j : Nat) => mem.slot ((j : Int) + 1)

/-- The remembered pairs, newest first. -/
def pairs [Capacity m] (mem : Memory α n m) : List (Vec α n × Vec α n) :=
  mem.liveSlots.map fun k => (mem.steps.get k, mem.changes.get k)

def writeStep [Capacity m] (mem : Memory α n m) (s : Vec α n) : Memory α n m :=
  { mem with steps := mem.steps.set (mem.slot 0) s }

def writeChange [Capacity m] (mem : Memory α n m) (y : Vec α n) : Memory α n m :=
  { mem with changes := mem.changes.set (mem.slot 0) y }

def commit (mem : Memory α n m) : Memory α n m :=
  { mem with updates := mem.updates + 1, live := min (mem.live + 1) m }

def push [Capacity m] (mem : Memory α n m) (s y : Vec α n) : Memory α n m :=
  ((mem.writeStep s).writeChange y).commit

end Memory

/-- The difference of two vectors, stored in precision `p`. -/
def Vec.difference {α : Type} [Scalar α] {n : Nat} (p : Precision) (a b : Vec α n) : Vec α n :=
  Vec.zipWith (fun x y => Scalar.round p (x + -1 * y)) (a.scale p 1) b

end VariableMetric
