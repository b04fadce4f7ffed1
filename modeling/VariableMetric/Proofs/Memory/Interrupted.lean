import VariableMetric.Proofs.Memory.History

/-!
# Pushes that are broken off

The two rows of a pair are written one after the other into the slot that is next in turn, and
the pair counts only when both are there.  A push that fails therefore changes neither the
count of the pairs nor any row of changes.  It may have written its row of steps.  That slot is
outside the remembered ones as long as the ring has room; in a full ring it is the slot of the
oldest pair, which then goes on with the step of another pair beside its own change.
-/

namespace VariableMetric

/-- The two rows that a call would push, as far as the memory can store them. -/
def MemoryCall.halves? (mem : ArrayMemory Float) : MemoryCall →
    Option (Except Fault (Vec Float mem.shape.size) × Except Fault (Vec Float mem.shape.size))
  | push s y => some (mem.spreadRow s, mem.spreadRow y)
  | pushDifference x x₀ g g₀ => some (mem.differenceRow x x₀, mem.differenceRow g g₀)
  | reset => none
  | direction _ _ _ _ => none

namespace ArrayMemory

variable {mem : ArrayMemory Float} {call : MemoryCall}
  {step change : Except Fault (Vec Float mem.shape.size)}

/-! ## How full the ring is -/

theorem perform_push (hcall : call.halves? mem = some (step, change)) :
    (mem.perform call).1.fault? = faultOf? (mem.pushHalves step change).1 ∧
      (mem.perform call).2 = (mem.pushHalves step change).2 := by
  cases call with
  | push s y =>
    cases hcall
    exact ⟨rfl, rfl⟩
  | pushDifference x x₀ g g₀ =>
    cases hcall
    exact ⟨rfl, rfl⟩
  | reset => cases hcall
  | direction g w domain x => cases hcall

/-- No memory remembers more pairs than it has slots. -/
def Roomy (mem : ArrayMemory Float) : Prop := mem.memory.live ≤ mem.capacity

theorem Roomy.pushHalves (h : mem.Roomy) (step change : Except Fault (Vec Float mem.shape.size)) :
    (mem.pushHalves step change).2.Roomy := by
  rcases mem.pushHalves_cases step change with ⟨s, y, -, -, heq⟩ | ⟨s, fault, -, -, heq⟩ |
    ⟨fault, -, heq⟩
  · rw [heq]
    exact Memory.live_push_le mem.memory s y
  · rw [heq]
    exact h
  · rw [heq]
    exact h

theorem Roomy.perform (h : mem.Roomy) (call : MemoryCall) : (mem.perform call).2.Roomy := by
  cases call with
  | push s y => exact h.pushHalves _ _
  | pushDifference x x₀ g g₀ => exact h.pushHalves _ _
  | reset => exact Nat.zero_le _
  | direction g w domain x =>
    change (mem.direction g w domain x).2.1.Roomy
    rcases mem.direction_cases g w domain x with ⟨fault, heq⟩ | heq
    · rw [heq]
      exact h
    · dsimp only at heq
      have hmemory := mem.memory.directionFrom_memory mem.precision (mem.projected domain x)
        (Vec.zeros mem.shape.size) (mem.oppositeRow g) (g.spread mem.shape)
        (w.spread mem.shape)
      dsimp only at hmemory
      rw [heq]
      unfold Roomy at h ⊢
      rw [← Memory.length_pairs]
      rcases hmemory with ⟨-, hpairs⟩ | ⟨-, hpairs⟩
      · rw [hpairs, Memory.length_pairs]
        exact h
      · rw [hpairs]
        exact Nat.zero_le _

theorem roomy_serve {given : Value} {extents : List ℤ} {p : Precision}
    (hnew : ArrayMemory.new given extents p = .ok mem) (calls : List MemoryCall) :
    (mem.serve calls).memory.Roomy := by
  have hfoldl (t : MemorySession) (h : t.memory.Roomy) :
      (calls.foldl MemorySession.serve t).memory.Roomy := by
    induction calls generalizing t with
    | nil => exact h
    | cons call calls ih => exact ih _ (h.perform call)
  obtain ⟨-, hlive, -⟩ := new_memory hnew
  exact hfoldl _ (hlive.le.trans (Nat.zero_le _))

/-! ## A push that fails -/

/-- A row of steps in a slot where no pair goes next. -/
theorem stepRow_writeStep (s : Vec Float mem.shape.size) {j : ℕ} (hj : 1 ≤ j)
    (hj' : j < mem.capacity) :
    ({ mem with memory := mem.memory.writeStep s } : ArrayMemory Float).stepRow j =
      mem.stepRow j := by
  have hne : mem.memory.slot j ≠ mem.memory.slot 0 := by
    have hslot : mem.memory.slot ((j - 1 : ℕ) + 1) ≠ mem.memory.slot 0 :=
      Memory.slot_ne_slot_zero (by omega)
    rwa [Nat.cast_pred hj, sub_add_cancel] at hslot
  exact congrArg Vec.toList (Slots.get_set_of_ne mem.memory.steps s hne)

/-- The row of steps where the next pair goes, which is that of the oldest pair of a full
ring. -/
theorem stepRow_writeStep_capacity (s : Vec Float mem.shape.size) :
    ({ mem with memory := mem.memory.writeStep s } : ArrayMemory Float).stepRow mem.capacity =
      s.toList := by
  have hslot : (mem.memory.writeStep s).slot mem.capacity = mem.memory.slot 0 :=
    Memory.slot_capacity _
  unfold stepRow
  rw [hslot]
  exact congrArg Vec.toList (Slots.get_set_self mem.memory.steps (mem.memory.slot 0) s)

/-- A push that fails leaves the memory as it was, but for the row of steps where the next
pair goes.  So it keeps all remembered rows exactly if the ring is not full, or the oldest
row of steps is what the push would have put in its place. -/
theorem perform_of_fault {given : Value} {extents : List ℤ} {p : Precision}
    {mem : ArrayMemory Float} {calls : List MemoryCall} {t : MemorySession}
    (hnew : ArrayMemory.new given extents p = .ok mem) (hserved : mem.serve calls = t)
    {call : MemoryCall} {step change : Except Fault (Vec Float t.memory.shape.size)}
    (hcall : call.halves? t.memory = some (step, change)) {fault : Fault}
    (hfault : (t.memory.perform call).1.fault? = some fault) :
    let after := (t.memory.perform call).2
    after.memory.live = t.memory.memory.live ∧ after.memory.updates = t.memory.memory.updates ∧
      (∀ j : ℤ, after.slot j = t.memory.slot j) ∧
      (∀ j : ℤ, after.changeRow j = t.memory.changeRow j) ∧
      (∀ j : ℕ, 1 ≤ j → j < t.memory.capacity → after.stepRow j = t.memory.stepRow j) ∧
      ((∀ j : ℕ, 1 ≤ j → j ≤ t.memory.memory.live → after.stepRow j = t.memory.stepRow j) ↔
        (t.memory.memory.live = t.memory.capacity → ∀ s, step = .ok s →
          s.toList = t.memory.stepRow t.memory.capacity)) := by
  subst hserved
  have hroomy := roomy_serve hnew calls
  obtain ⟨hanswer, hafter⟩ := perform_push hcall
  rw [hanswer] at hfault
  rw [hafter]
  generalize (mem.serve calls).memory = mem at *
  rcases mem.pushHalves_cases step change with ⟨s, y, -, -, heq⟩ | ⟨s, fault, hs, -, heq⟩ |
    ⟨fault, hs, heq⟩
  · rw [heq] at hfault
    cases hfault
  · rw [heq]
    refine ⟨rfl, rfl, fun _ => rfl, fun _ => rfl, fun j hj hj' => stepRow_writeStep s hj hj', ?_⟩
    have hpositive := mem.capacity_ne_zero
    unfold Roomy at hroomy
    constructor
    · intro hkept hfull u hu
      obtain rfl : s = u := Except.ok.inj (hs.symm.trans hu)
      have holdest := hkept mem.capacity (by omega) hfull.ge
      rwa [stepRow_writeStep_capacity] at holdest
    · intro hsame j hj hj'
      by_cases hinside : j < mem.capacity
      · exact stepRow_writeStep s hj hinside
      · obtain rfl : j = mem.capacity := by omega
        rw [stepRow_writeStep_capacity, hsame (by omega) s hs]
  · rw [heq]
    refine ⟨rfl, rfl, fun _ => rfl, fun _ => rfl, fun _ _ _ => rfl, ?_⟩
    exact iff_of_true (fun _ _ _ => rfl) fun _ u hu => by
      rw [hs] at hu
      cases hu

end ArrayMemory

namespace Sample

def misfit : Tensor Float := Tensor.ofList [3] (.floating .double) [1.0, 2.0, 3.0]

def fillingCall : MemoryCall := .push (couple 1.0 0.0) (couple 1.0 1.0)

/-- A pair whose step fits the memory, and whose change does not. -/
def failingCall : MemoryCall := .push (couple 5.0 6.0) misfit

theorem failingCall_fault :
    ∃ mem t fault, ∃ step change, ArrayMemory.new (.int 1) [2] .double = .ok mem ∧
      mem.serve [fillingCall] = t ∧ failingCall.halves? t.memory = some (step, change) ∧
      (t.memory.perform failingCall).1.fault? = some fault ∧
      let after := (t.memory.perform failingCall).2
      after.memory.live = t.memory.memory.live ∧
        after.memory.updates = t.memory.memory.updates ∧
        (∀ j : ℤ, after.slot j = t.memory.slot j) ∧
        (∀ j : ℤ, after.changeRow j = t.memory.changeRow j) ∧
        (∀ j : ℕ, 1 ≤ j → j < t.memory.capacity → after.stepRow j = t.memory.stepRow j) ∧
        ((∀ j : ℕ, 1 ≤ j → j ≤ t.memory.memory.live → after.stepRow j = t.memory.stepRow j) ↔
          (t.memory.memory.live = t.memory.capacity → ∀ s, step = .ok s →
            s.toList = t.memory.stepRow t.memory.capacity)) := by
  exact ⟨_, _, _, _, _, rfl, rfl, rfl, rfl, ArrayMemory.perform_of_fault
    (show ArrayMemory.new (.int 1) [2] .double = .ok _ from rfl) rfl rfl rfl⟩

/-- In a full ring the push that fails takes the place of the step of the oldest pair. -/
theorem failingCall_overwrites :
    ∃ mem t fault, ArrayMemory.new (.int 1) [2] .double = .ok mem ∧
      mem.serve [fillingCall] = t ∧
      (t.memory.perform failingCall).1.fault? = some fault ∧
      1 ≤ t.memory.memory.live ∧
      (t.memory.perform failingCall).2.stepRow 1 ≠ t.memory.stepRow 1 := by
  exact ⟨_, _, _, rfl, rfl, rfl, by decide +kernel, by decide +kernel⟩

end Sample

end VariableMetric
