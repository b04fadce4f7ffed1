import VariableMetric.Proofs.Run.Inactive
import VariableMetric.Proofs.Run.Rescaling

/-!
# What makes no difference to a run

In exact arithmetic it makes no difference to the points that a run goes through whether
its objective is multiplied by a positive factor and shifted, as long as nothing that it
is compared with is absolute: neither the tolerance nor the least step.

Neither does it make a difference what the gradients hold in components that a box pins by
equal bounds.  They do enter the pairs and the directions on the way, but never a product
that is looked at.
-/

namespace VariableMetric

open Matrix

noncomputable section

variable {σ σ' : Type} {n m : ℕ}

/-! ## Rescaled objectives -/

/-- The second objective answers with rescaled values and gradients, whenever its buffer
holds the multiple of what the first one finds there. -/
def Objective.IsRescaled (o : Objective σ Exact n) (r : Rescaling) (o' : Objective σ Exact n) :
    Prop :=
  ∀ state x buffer, o'.evaluate state x (r.factor • buffer) =
    ((o.evaluate state x buffer).1.map fun a => (r.value a.1, r.factor • a.2),
      (o.evaluate state x buffer).2)

/-- The disguise of an objective that is rescaled everywhere. -/
def Rescaling.disguise (r : Rescaling) (σ : Type) (n : ℕ) : Disguise σ σ n :=
  { r with hidden := ∅, pinned := 0, states := Eq }

theorem Objective.IsRescaled.hidesAt {o o' : Objective σ Exact n} {r : Rescaling}
    (h : o.IsRescaled r o') (x : Vec Exact n) : (r.disguise σ n).HidesAt o o' x := by
  rintro state _ buffer buffer' rfl hbuffer
  obtain rfl : buffer' = r.factor • buffer := hbuffer.eq_smul
  rw [h state x buffer]
  refine ⟨?_, rfl⟩
  cases (o.evaluate state x buffer).1 with
  | error fault => exact rfl
  | ok a =>
    exact ⟨rfl, rfl, Vec.scaledOff_smul ∅ r.factor a.2,
      fun i hi => absurd hi (Finset.notMem_empty i)⟩

/-- A run on a rescaled objective goes through the same points, and returns the same with
the value and the norm rescaled, if its tolerance is relative and its steps have no least
length. -/
theorem Problem.solve_rescaled [Capacity m] {shape : Shape} {domain : Domain Exact}
    {p : Problem Exact σ (Strategy Exact) shape.size} {o' : Objective σ Exact shape.size}
    {r : Rescaling} {uses : Bool} {turns : ℕ} {x : Vec Exact shape.size} {objective : σ}
    {search : Strategy Exact} (hset : p.feasible = domain.toSet shape p.precision)
    (hsearch : p.search = .ofStrategy uses) (hstpmin : search.rule.stpmin = 0)
    (htolerance : p.settings.tolerance.1 = 0) (hobjective : p.objective.IsRescaled r o') :
    let run := p.solve m turns x objective search
    let run' := (p.withObjective o').solve m turns x objective search
    run'.1 = run.1.rescaled r ∧
      run'.2.transcript.evaluations =
        run.2.transcript.evaluations.map fun call => (call.1, call.2.map r.value) := by
  have hmasks : p.Masks (r.disguise σ shape.size) :=
    { search := ⟨uses, hsearch⟩
      tolerance := by rw [htolerance, Exact.smul_zero]
      feasible := hset ▸ domain.rescales_empty shape p.precision 0 }
  refine hmasks.solve o' (fun _ => True) (fun s _ => ?_)
    (fun _ _ x _ => ⟨x.pinnedAt_empty 0, hobjective.hidesAt x⟩) turns x objective objective rfl ?_
    trivial
  · unfold State.Ensures
    split <;> trivial
  · rw [hstpmin, Exact.smul_zero]

/-! ### A sample run

The parabola of before, twice as high and three above. -/

namespace Sample

theorem doubled_pos : (0 : ℝ) < 1 + 1 := add_pos one_pos one_pos

def doubled : Rescaling := ⟨1 + 1, 1 + 1 + 1, doubled_pos⟩

def doubledBowl : Objective Unit Exact (Shape.size [1]) where
  evaluate _ x _ := (.ok (doubled.value (Scalar.half * x.inner x), doubled.factor • x), ())

def doubledBowlRun :
    Outcome Exact (Shape.size [1]) × State Exact Unit (Strategy Exact) (Shape.size [1]) 1 :=
  (bowlProblem.withObjective doubledBowl).solve 1 61 (line 1) () halvingBacktracking

theorem doubledBowlRun_rescaled :
    halvingBacktracking.rule.stpmin = 0 ∧ bowlProblem.settings.tolerance.1 = 0 ∧
      bowlProblem.objective.IsRescaled doubled doubledBowl ∧
      doubledBowlRun.1 = (bowlRun 1 .unconstrained).1.rescaled doubled ∧
      doubledBowlRun.2.transcript.evaluations =
        [(line 1, some (.real 4)), (line 0, some (.real 3))] := by
  have hset : bowlProblem.feasible = Domain.unconstrained.toSet [1] .double := rfl
  have hstpmin : halvingBacktracking.rule.stpmin = 0 := rfl
  have hrescaled : bowlProblem.objective.IsRescaled doubled doubledBowl := fun _ _ _ => rfl
  obtain ⟨houtcome, hcalls⟩ :
      doubledBowlRun.1 = (bowlRun 1 .unconstrained).1.rescaled doubled ∧ _ :=
    Problem.solve_rescaled hset rfl hstpmin rfl hrescaled
  refine ⟨hstpmin, rfl, hrescaled, houtcome, hcalls.trans ?_⟩
  refine (congrArg (List.map _) bowlRun_evaluations).trans ?_
  show [(line 1, some (Exact.real ((1 + 1) * (1 / 2) + (1 + 1 + 1)))),
    (line 0, some (Exact.real ((1 + 1) * 0 + (1 + 1 + 1))))] = _
  norm_num

end Sample

/-! ## Runs on real numbers -/

section Real

variable [Capacity m] {p : Problem Exact σ (Strategy Exact) n} {C : Fin n → Set ℝ}
  {rule : Rule Exact} {objective : σ} {s : State Exact σ (Strategy Exact) n m}

/-- Between two turns of a run whose objective has answered with real numbers. -/
structure State.ProceedsReal (p : Problem Exact σ (Strategy Exact) n) (C : Fin n → Set ℝ)
    (rule : Rule Exact) (objective : σ) (s : State Exact σ (Strategy Exact) n m) : Prop where
  proceeds : s.Proceeds p C rule objective
  calls : s.Extends Event.IsRealAnswer []

theorem State.initial_proceedsReal (hp : p.Proper C rule) (x : Fin n → ℝ) (objective : σ)
    {search : Strategy Exact} (hrule : search.rule = rule) :
    (State.initial p (.ofReals x) objective search :
      State Exact σ (Strategy Exact) n m).ProceedsReal p C rule objective where
  proceeds := initial_proceeds hp x objective hrule
  calls := ⟨[.searchReset], rfl, by simp [Transcript.isCall]⟩

/-- Such a run evaluates at real points of the set only. -/
theorem State.ProceedsReal.exists_point (hp : p.Proper C rule)
    (h : s.ProceedsReal p C rule objective) {y : Vec Exact n}
    (hy : p.feasible.projectVariables s.current.point = .ok y) :
    ∃ z, y = .ofReals z ∧ ∀ i, z i ∈ C i := by
  obtain ⟨-, w, hw⟩ := h.proceeds.steady h.calls.realAnswers.finite
  obtain ⟨z, hz, hmem, -⟩ := hp.feasible.point w
  rw [hw, hz] at hy
  cases hy
  exact ⟨z, rfl, hmem⟩

theorem State.ProceedsReal.ensures_turn (hp : p.Proper C rule)
    (h : s.ProceedsReal p C rule objective) {f : (Fin n → ℝ) → ℝ}
    {g : (Fin n → ℝ) → Fin n → ℝ} (hcomputes : p.objective.Computes f g) :
    Ensures (s.turn p) (fun s => s.ProceedsReal p C rule objective) fun _ _ => True := by
  have hcalls := h.calls.ensures_turn (p := p)
    (fun state y buffer value gradient next hy hanswer => by
      obtain ⟨z, rfl, -⟩ := h.exists_point hp hy
      exact hcomputes.isRealAnswer hanswer)
    fun state y buffer fault next hy hrefusal => by
      obtain ⟨z, rfl, -⟩ := h.exists_point hp hy
      exact absurd hrefusal hcomputes.not_refused
  exact ((h.proceeds.ensures_turn hp).and hcalls).mono (fun _ h => ⟨h.1, h.2⟩)
    fun _ _ _ => trivial

end Real

/-! ## Pinned components -/

section Pinned

variable [Capacity m] {shape : Shape} {box : Box Exact}
  {p : Problem Exact σ (Strategy Exact) shape.size} {o' : Objective σ' Exact shape.size}
  {f : (Fin shape.size → ℝ) → ℝ} {g g' : (Fin shape.size → ℝ) → Fin shape.size → ℝ}

/-- The disguise of an objective that has other gradients in pinned components. -/
def Box.disguise (box : Box Exact) (shape : Shape) (b : Fin shape.size → ℝ) (σ σ' : Type) :
    Disguise σ σ' shape.size :=
  { Rescaling.none with hidden := box.pinned shape, pinned := b, states := fun _ _ => True }

omit [Capacity m] in
theorem Objective.Computes.hidesAt {o : Objective σ Exact shape.size} (h : o.Computes f g)
    (h' : o'.Computes f g') (hsame : ∀ x, ∀ i ∉ box.pinned shape, g' x i = g x i)
    (b x : Fin shape.size → ℝ) : (box.disguise shape b σ σ').HidesAt o o' (.ofReals x) := by
  intro state state' buffer buffer' _ _
  rw [h state x buffer, h' state' x buffer']
  refine ⟨⟨rfl, (Rescaling.value_none _).symm, ⟨fun i hi => ?_, fun i _ => ?_⟩, fun i _ => ?_⟩,
    trivial⟩
  · rw [Vec.get_ofReals, Vec.get_ofReals, hsame x i hi]
    exact (one_smul ℝ _).symm
  · rw [Vec.get_ofReals, Vec.get_ofReals, Exact.isFinite_real, Exact.isFinite_real]
  · rw [Vec.get_ofReals, Exact.isFinite_real]

omit [Capacity m] in
theorem Outcome.rescaled_none (outcome : Outcome Exact n) : outcome.rescaled .none = outcome := by
  cases outcome with
  | returned s =>
    show Outcome.returned (s.rescaled .none) = .returned s
    unfold Solution.rescaled
    rw [Rescaling.value_none, show Rescaling.none.factor = 1 from rfl, one_smul]
  | _ => rfl

omit [Capacity m] in
theorem Rescaling.call_none : (Rescaling.none.call : Vec Exact n × Option Exact → _) = id := by
  funext ⟨x, value⟩
  cases value with
  | none => rfl
  | some value => exact congrArg (fun v => (x, some v)) (Rescaling.value_none value)

/-- Two runs in a box, on objectives whose values are the same and whose gradients are the
same in all components but the pinned ones, go through the same points and return the
same. -/
theorem Problem.solve_pinned {uses : Bool} {turns : ℕ} {x : Fin shape.size → ℝ} {objective : σ}
    {objective' : σ'} {search : Strategy Exact} (hbox : (Domain.box box).Proper shape)
    (hset : p.feasible = (Domain.box box).toSet shape p.precision)
    (hsearch : p.search = .ofStrategy uses) (hsettings : p.settings.Valid)
    (hrule : search.rule.Works) (hcomputes : p.objective.Computes f g)
    (hcomputes' : o'.Computes f g') (hsame : ∀ x, ∀ i ∉ box.pinned shape, g' x i = g x i) :
    let run := p.solve m turns (.ofReals x) objective search
    let run' := (p.withObjective o').solve m turns (.ofReals x) objective' search
    run'.1 = run.1 ∧ run'.2.transcript.evaluations = run.2.transcript.evaluations := by
  obtain ⟨b, hrescales, hpinned⟩ := hbox.exists_rescales p.precision
  have hproper : p.Proper ((Domain.box box).intervals shape p.precision) search.rule :=
    { feasible := hset ▸ hbox.confines p.precision
      search := ⟨uses, hsearch⟩
      settings := hsettings
      rule := hrule }
  have hmasks : p.Masks (box.disguise shape b σ σ') :=
    { search := ⟨uses, hsearch⟩
      tolerance := one_smul ℝ _
      feasible := hset ▸ hrescales }
  have hstpmin :
      (box.disguise shape b σ σ').factor⁻¹ • search.rule.stpmin = search.rule.stpmin := by
    rw [show (box.disguise shape b σ σ').factor⁻¹ = 1 from inv_one, one_smul]
  -- The first run stays real, so it always stands at a real point of the box.
  obtain ⟨houtcome, hcalls⟩ := hmasks.solve o' _
    (fun s hs => State.ProceedsReal.ensures_turn hproper hs hcomputes)
    (fun s hs y hy => by
      obtain ⟨z, rfl, hmem⟩ := State.ProceedsReal.exists_point hproper hs hy
      exact ⟨hpinned z hmem, hcomputes.hidesAt hcomputes' hsame b z⟩)
    turns (.ofReals x) objective objective' trivial hstpmin
    (State.initial_proceedsReal (m := m) hproper x objective rfl)
  refine ⟨houtcome.trans (Outcome.rescaled_none _), hcalls.trans ?_⟩
  rw [show (box.disguise shape b σ σ').call = id from Rescaling.call_none, List.map_id]

end Pinned

/-! ### A sample run

A parabola in the plane, in a box that holds the second variable at one.  The gradients
hold there whatever they like. -/

namespace Sample

def plane (a b : ℝ) : Tensor Exact :=
  ⟨[2], .floating .double, ⟨[.real a, .real b], rfl⟩⟩

def strip : Box Exact := ⟨plane 0 1, plane (1 + 1) 1⟩

def tilt (height : ℝ) : Fin (Shape.size [2]) → ℝ := fun i => if i.val = 1 then height else 0

/-- A bowl whose gradient is off in the second component. -/
def tiltedBowl (height : ℝ) : Objective Unit Exact (Shape.size [2]) where
  evaluate _ x _ :=
    (.ok (Scalar.half * x.inner x, Vec.zipWith (· + ·) x (.ofReals (tilt height))), ())

def tiltedProblem (height : ℝ) : Problem Exact Unit (Strategy Exact) (Shape.size [2]) where
  precision := .double
  keepsPairs := true
  objective := tiltedBowl height
  feasible := (Domain.box strip).toSet [2] .double
  search := .ofStrategy false
  settings := ⟨-1, -1, (0, 0), (1, 0), 0⟩

theorem strip_new : Box.new (plane 0 1) (plane (1 + 1) 1) = .ok strip := by
  have hnumbers : ((plane 0 1).toList.any Scalar.isNaN ||
      (plane (1 + 1) 1).toList.any Scalar.isNaN) = false := by
    simp [plane, Tensor.toList]
  have hcrossed : Box.isCrossed [2] (plane 0 1) (plane (1 + 1) 1) = false := by
    show [decide (Exact.real (1 + 1) < .real 0), decide (Exact.real 1 < .real 1)].any id = false
    simp
  have hjoin : Shape.join? (plane 0 1).shape (plane (1 + 1) 1).shape = some [2] := rfl
  rw [Box.new, hnumbers, hjoin]
  simp only [hcrossed]
  rfl

theorem strip_proper : (Domain.box strip).Proper [2] := by
  have hfinite : ∀ a b, (∀ c ∈ (plane a b).toList, Scalar.isFinite c = true) := by
    intro a b c hc
    rcases List.mem_cons.mp hc with rfl | hc
    · rfl
    · rw [List.mem_singleton.mp hc]
      rfl
  refine .box strip_new rfl rfl (fun hmem => ?_) fun hmem => ?_
  · cases hfinite _ _ _ hmem
  · cases hfinite _ _ _ hmem

theorem one_mem_pinned {i : Fin (Shape.size [2])} (hi : i.val = 1) : i ∈ strip.pinned [2] := by
  rw [Box.mem_pinned]
  obtain rfl : i = ⟨1, by decide⟩ := Fin.ext hi
  rfl

theorem tiltedBowl_computes (height : ℝ) :
    (tiltedBowl height).Computes (fun x => 1 / 2 * (x ⬝ᵥ x)) (· + tilt height) := by
  intro state x buffer
  have hgradient : Vec.zipWith (· + ·) (Vec.ofReals x) (Vec.ofReals (tilt height)) =
      Vec.ofReals (x + tilt height) := by
    ext i
    simp
  show Except.ok (Scalar.half * (Vec.ofReals x).inner (Vec.ofReals x), Vec.zipWith _ _ _) = _
  rw [Vec.inner_ofReals, hgradient]
  rfl

def tiltedRun (height : ℝ) :
    Outcome Exact (Shape.size [2]) × State Exact Unit (Strategy Exact) (Shape.size [2]) 1 :=
  (tiltedProblem height).solve 1 61 (.ofReals fun _ => 1) () halvingBacktracking

theorem tiltedRun_pinned :
    (Domain.box strip).Proper [2] ∧ (tiltedProblem 0).settings.Valid ∧
      halvingBacktracking.rule.Works ∧
      (tiltedBowl 0).Computes (fun x => 1 / 2 * (x ⬝ᵥ x)) (· + tilt 0) ∧
      (tiltedBowl 7).Computes (fun x => 1 / 2 * (x ⬝ᵥ x)) (· + tilt 7) ∧
      (∀ (x : Fin (Shape.size [2]) → ℝ), ∀ i ∉ strip.pinned [2],
        (x + tilt 7) i = (x + tilt 0) i) ∧
      (tiltedRun 7).1 = (tiltedRun 0).1 ∧
      (tiltedRun 7).2.transcript.evaluations = (tiltedRun 0).2.transcript.evaluations := by
  have hsettings : (tiltedProblem 0).settings.Valid :=
    ⟨bowlProblem_settings.tolerance, bowlProblem_settings.firstStep⟩
  have hrule : halvingBacktracking.rule.Works := halving_valid.works
  have hsame : ∀ (x : Fin (Shape.size [2]) → ℝ), ∀ i ∉ strip.pinned [2],
      (x + tilt 7) i = (x + tilt 0) i := by
    intro x i hi
    have hne : i.val ≠ 1 := fun hone => hi (one_mem_pinned hone)
    simp [tilt, hne]
  exact ⟨strip_proper, hsettings, hrule, tiltedBowl_computes 0, tiltedBowl_computes 7, hsame,
    Problem.solve_pinned (p := tiltedProblem 0) strip_proper rfl rfl hsettings hrule
      (tiltedBowl_computes 0) (tiltedBowl_computes 7) hsame⟩

end Sample

end

end VariableMetric
