import VariableMetric.Objective.Samples
import VariableMetric.Proofs.Run.Coherence
import VariableMetric.Proofs.ScalarOrder

/-!
# What a run returns

A run that returns was ended in a coherent state and then settled: it stands
where it was ended, or at the origin of its last search if the value there is
smaller.  Either way the point, the value and the norm that are returned belong
to one answer of the objective.

Settling does not look at the status again, so a run that converged at a trial
above its origin is returned above the threshold.  It compares values, so a trial
whose value is not a number is never given up for its origin.
-/

namespace VariableMetric

variable {α σ τ : Type} {n m : Nat}

def Outcome.solution? : Outcome α n → Option (Solution α n)
  | .returned s => some s
  | _ => none

theorem Outcome.eq_returned {β : Type} {result : Outcome α n × β} {solution : Solution α n}
    (h : result.1.solution? = some solution) : result = (.returned solution, result.2) := by
  obtain ⟨outcome, b⟩ := result
  cases outcome with
  | returned s => simpa [solution?] using h
  | failed f => simp [solution?] at h
  | unfinished => simp [solution?] at h

def Outcome.isUnfinished : Outcome α n → Bool
  | .unfinished => true
  | _ => false

theorem Outcome.eq_unfinished {β : Type} {result : Outcome α n × β}
    (h : result.1.isUnfinished = true) : result = (.unfinished, result.2) := by
  obtain ⟨outcome, b⟩ := result
  cases outcome with
  | unfinished => rfl
  | _ => cases h

deriving instance DecidableEq for Solution

/-- The solution is an iterate, with the norm of the projected gradient
there. -/
structure Solution.IsAt [Scalar α] (p : Problem α σ τ n) (solution : Solution α n)
    (i : Iterate α n) : Prop where
  point : solution.point = i.point
  value : solution.value = i.value
  norm : p.projectedNorm? i = some solution.norm

namespace State

variable [Scalar α]

/-- The solution that comes of a state in which the run ended.  It is the current
iterate, unless the last search began at a smaller value. -/
inductive LeadsTo (p : Problem α σ τ n) (s : State α σ τ n m) (solution : Solution α n) : Prop
  | current (hat : solution.IsAt p s.current) (hnorm : solution.norm = s.norm)
      (hnotless : ∀ o, (Transcript.origins s.transcript).getLast? = some o →
        ¬ o.value < s.current.value)
  | origin (ho : (Transcript.origins s.transcript).getLast? = some s.origin)
      (hmem : s.origin ∈ Transcript.answers s.transcript)
      (hless : s.origin.value < s.current.value) (hat : solution.IsAt p s.origin)
      (habove : ¬ solution.norm ≤ s.threshold)

theorem Coherent.leadsTo [OrderedScalar α] {p : Problem α σ τ n} {objective : σ}
    {s final : State α σ τ n m} (h : s.Coherent p objective)
    (hsettled : s.settled p = .ok final) (status : Status) :
    s.LeadsTo p (final.solution status) := by
  have hrecorded := h.recorded
  rcases settled_cases hsettled with ⟨hnotless, rfl⟩ | ⟨hless, projected, hprojected, rfl⟩
  · refine .current ⟨rfl, rfl, h.norm⟩ rfl fun o ho => ?_
    rw [← (hrecorded.started o ho).1]
    exact hnotless
  · have hne : Transcript.origins s.transcript ≠ [] := by
      intro hnil
      rw [hrecorded.unstarted hnil] at hless
      exact OrderedScalar.not_infinity_lt _ hless
    obtain ⟨horigin, hmem, hnorm, habove⟩ := hrecorded.origin_spec hne hprojected
    exact .origin horigin hmem hless ⟨rfl, rfl, hnorm⟩ habove

theorem settled_record {p : Problem α σ τ n} {s final : State α σ τ n m}
    (h : s.settled p = .ok final) :
    final.transcript = s.transcript ∧ final.objective = s.objective ∧
      final.evaluations = s.evaluations ∧ final.iterations = s.iterations ∧
      final.restarts = s.restarts := by
  rcases settled_cases h with ⟨-, rfl⟩ | ⟨-, projected, -, rfl⟩
  · exact ⟨rfl, rfl, rfl, rfl, rfl⟩
  · exact ⟨rfl, rfl, rfl, rfl, rfl⟩

/-- How a run came to a solution: the state in which it ended, and what is on
record then and at the end. -/
structure Accounts (p : Problem α σ τ n) (objective : σ) (s last : State α σ τ n m)
    (solution : Solution α n) : Prop where
  ended : s.Ended p objective solution.status
  leadsTo : s.LeadsTo p solution
  evaluations : solution.evaluations = s.evaluations
  objective : last.objective = s.objective
  answers : Transcript.answers last.transcript = Transcript.answers s.transcript
  origins : Transcript.origins last.transcript = Transcript.origins s.transcript
  standing : Transcript.standing last.transcript = Transcript.standing s.transcript

end State

namespace Problem

variable [Scalar α] [OrderedScalar α] [Capacity m]

theorem exists_accounts {p : Problem α σ τ n} {turns : Nat} {x : Vec α n}
    {objective : σ} {search : τ} {solution : Solution α n} {last : State α σ τ n m}
    (h : p.solve m turns x objective search = (.returned solution, last)) :
    ∃ s, State.Accounts p objective s last solution := by
  have hinitial : (State.initial p x objective search : State α σ τ n m).Recorded p objective ∧
      (State.initial p x objective search : State α σ τ n m).HasThreshold p :=
    ⟨State.initial_recorded p x objective search, State.initial_hasThreshold p x objective search⟩
  unfold solve at h
  rcases State.run_cases (fun s hs => State.Recorded.ensures_turn hs) turns _ hinitial with
    ⟨unfinished, -, hrun⟩ | ⟨ending, s, hends, hrun⟩
  · rw [hrun] at h
    cases h
  · rw [hrun] at h
    obtain ⟨final, hending, hsettled, hsolution, rfl⟩ := State.finish_returned h
    have hended := hends solution.status hending
    obtain ⟨htranscript, hobjective, hevaluations, -⟩ := State.settled_record hsettled
    have hlike := State.standsLike_printLast p final
    refine ⟨s, ?_⟩
    exact
      { ended := hended
        leadsTo := hsolution ▸ hended.coherent.leadsTo hsettled solution.status
        evaluations := by rw [hsolution]; exact hevaluations
        objective := hlike.objective.trans hobjective
        answers := by rw [hlike.answers, htranscript]
        origins := by rw [hlike.origins, htranscript]
        standing := by rw [hlike.standing, htranscript] }

end Problem

/-!
## Sample runs

Short runs from zero on two samples with one variable, searched along with a step
that stays the first one for ever.  The cubic descends from zero and is level at
one, where it lies above its start.  The parabola has its least value at three, and
a wall before it.
-/

def LineSearch.steady : LineSearch Float Unit where
  usesDerivative := false
  reset := id
  start search _ _ step _ := (⟨.searching, step, []⟩, search)
  iterate search step _ _ := (.ok ⟨.searching, step, []⟩, search)

def Sample.problem (s : Sample) (wall : Option Wall) (maxEvaluations : Int) :
    Problem Float Nat Unit 1 where
  precision := .double
  keepsPairs := true
  objective := s.objective wall .double [1]
  feasible := .unconstrained
  search := .steady
  settings := ⟨-1, maxEvaluations, (0.0, 1e-6), (1.0, 0.0), 0⟩

def Sample.run (s : Sample) (wall : Option Wall) (maxEvaluations : Int) :
    Outcome Float 1 × State Float Nat Unit 1 1 :=
  (s.problem wall maxEvaluations).solve 1 5 ⟨[0.0], rfl⟩ 0 ()

namespace Sample

def cubic : Sample := .polynomials [[0.0, -0.75, 1.875, -1.0]]

def parabola : Sample := .quadratic [1.0] [3.0] 0.0

def cubicRun : Outcome Float 1 × State Float Nat Unit 1 1 := cubic.run none (-1)

def wallRun (value : Float) : Outcome Float 1 × State Float Nat Unit 1 1 :=
  parabola.run (some ⟨0.5, value⟩) 2

def cubicSolution : Solution Float 1 := ⟨⟨[0.0], rfl⟩, 0.0, .convergence, 1, 2, 0, 0.75⟩

def parabolaSolution : Solution Float 1 :=
  ⟨⟨[0.0], rfl⟩, 4.5, .tooManyEvaluations, 0, 2, 0, 3.0⟩

theorem cubicRun_returned : cubicRun = (.returned cubicSolution, cubicRun.2) :=
  Outcome.eq_returned (by decide +kernel)

theorem infiniteWallRun_returned :
    wallRun Scalar.infinity = (.returned parabolaSolution, (wallRun Scalar.infinity).2) :=
  Outcome.eq_returned (by decide +kernel)

end Sample

section Returned

variable [Capacity m] {p : Problem Float σ τ n} {turns : Nat} {x : Vec Float n}
  {objective : σ} {search : τ} {solution : Solution Float n} {last : State Float σ τ n m}

/-! ## The solution belongs to one answer -/

/-- The point, the value and the norm that a run returns all come from one of its
evaluations, whatever ended the run. -/
theorem Problem.returned_isAt_answer
    (h : p.solve m turns x objective search = (.returned solution, last)) :
    p.objective.Calls objective (Transcript.answers last.transcript) last.objective ∧
      (Transcript.answers last.transcript).length = solution.evaluations ∧
      ∃ (k : Nat) (i : Iterate Float n),
        (Transcript.answers last.transcript)[k]? = some i ∧ solution.IsAt p i := by
  obtain ⟨s, haccounts⟩ := exists_accounts h
  have hcoherent := haccounts.ended.coherent
  rw [haccounts.answers, haccounts.objective, haccounts.evaluations]
  refine ⟨hcoherent.recorded.calls, hcoherent.recorded.evaluations.symm, ?_⟩
  cases haccounts.leadsTo with
  | current hat hnorm hnotless =>
      obtain ⟨k, hk⟩ := List.mem_iff_getElem?.mp hcoherent.mem
      exact ⟨k, s.current, hk, hat⟩
  | origin ho hmem hless hat habove =>
      obtain ⟨k, hk⟩ := List.mem_iff_getElem?.mp hmem
      exact ⟨k, s.origin, hk, hat⟩

theorem Sample.cubicRun_isAt_answer :
    cubicRun = (.returned cubicSolution, cubicRun.2) ∧
      (cubic.problem none (-1)).objective.Calls 0 (Transcript.answers cubicRun.2.transcript)
        cubicRun.2.objective ∧
      (Transcript.answers cubicRun.2.transcript).length = cubicSolution.evaluations ∧
      ∃ (k : Nat) (i : Iterate Float 1),
        (Transcript.answers cubicRun.2.transcript)[k]? = some i ∧
        cubicSolution.IsAt (cubic.problem none (-1)) i :=
  ⟨cubicRun_returned, Problem.returned_isAt_answer cubicRun_returned⟩

/-! ## Convergence -/

/-- A run that converged is returned at or below its threshold exactly if its last
search did not begin below the value at which it converged. -/
theorem Problem.converged_le_threshold_iff
    (h : p.solve m turns x objective search = (.returned solution, last))
    (hstatus : solution.status = .convergence) :
    ∃ (i₁ i : Iterate Float n) (norm : Float),
      (Transcript.answers last.transcript).head? = some i₁ ∧
      (Transcript.answers last.transcript).getLast? = some i ∧
      p.projectedNorm? i₁ = some norm ∧
      (solution.norm ≤ p.settings.tolerance.1 + p.settings.tolerance.2 * norm ↔
        ∀ o, (Transcript.origins last.transcript).getLast? = some o →
          ¬ o.value < i.value) := by
  obtain ⟨s, haccounts⟩ := exists_accounts h
  have hlast := haccounts.ended.last hstatus
  have hne := List.ne_nil_of_mem (List.mem_of_getLast? hlast)
  obtain ⟨i₁, hfirst⟩ := Option.isSome_iff_exists.mp (List.isSome_head?.mpr hne)
  obtain ⟨norm, hnorm, hthreshold⟩ := haccounts.ended.coherent.threshold i₁ hfirst
  rw [haccounts.answers, haccounts.origins]
  refine ⟨i₁, s.current, norm, hfirst, hlast, hnorm, ?_⟩
  rw [← hthreshold]
  cases haccounts.leadsTo with
  | current hat hsame hnotless =>
      rw [hsame]
      exact iff_of_true (haccounts.ended.below.mp hstatus) hnotless
  | origin ho hmem hless hat habove =>
      exact iff_of_false habove fun hall => hall s.origin ho hless

theorem Sample.cubicRun_le_threshold_iff :
    cubicRun = (.returned cubicSolution, cubicRun.2) ∧
      cubicSolution.status = .convergence ∧
      ∃ (i₁ i : Iterate Float 1) (norm : Float),
        (Transcript.answers cubicRun.2.transcript).head? = some i₁ ∧
        (Transcript.answers cubicRun.2.transcript).getLast? = some i ∧
        (cubic.problem none (-1)).projectedNorm? i₁ = some norm ∧
        (cubicSolution.norm ≤ (cubic.problem none (-1)).settings.tolerance.1 +
            (cubic.problem none (-1)).settings.tolerance.2 * norm ↔
          ∀ o, (Transcript.origins cubicRun.2.transcript).getLast? = some o →
            ¬ o.value < i.value) :=
  ⟨cubicRun_returned, rfl, Problem.converged_le_threshold_iff cubicRun_returned rfl⟩

/-- The cubic is left at its start, where it descends, as if the run had converged
there. -/
theorem Sample.cubicRun_converged_above_threshold :
    ∃ (i₁ : Iterate Float 1) (norm : Float),
      cubicRun = (.returned cubicSolution, cubicRun.2) ∧
      cubicSolution.status = .convergence ∧
      (∀ i ∈ Transcript.answers cubicRun.2.transcript,
        Scalar.isFinite i.value = true ∧ ∀ a ∈ i.gradient.toList, Scalar.isFinite a = true) ∧
      (Transcript.answers cubicRun.2.transcript).head? = some i₁ ∧
      (cubic.problem none (-1)).projectedNorm? i₁ = some norm ∧
      ¬ cubicSolution.norm ≤ (cubic.problem none (-1)).settings.tolerance.1 +
        (cubic.problem none (-1)).settings.tolerance.2 * norm := by
  refine ⟨⟨⟨[0.0], rfl⟩, 0.0, ⟨[-0.75], rfl⟩⟩, 0.75, cubicRun_returned, rfl, ?_, ?_, ?_, ?_⟩
  all_goals decide +kernel

/-! ## The origin of the last search -/

/-- A run whose last search began at a number returns at most that number exactly
if the value where it stands at its end is a number. -/
theorem Problem.returned_le_origin_iff
    (h : p.solve m turns x objective search = (.returned solution, last))
    {o : Iterate Float n} (ho : (Transcript.origins last.transcript).getLast? = some o)
    (hnumber : Scalar.isNaN o.value = false) :
    (∃ i, Transcript.standing last.transcript = some i ∧
      (solution.value ≤ o.value ↔ Scalar.isNaN i.value = false)) ∧
      ∃ i ∈ Transcript.answers last.transcript,
        solution.point = i.point ∧ solution.value = i.value := by
  obtain ⟨s, haccounts⟩ := exists_accounts h
  have hcoherent := haccounts.ended.coherent
  rw [haccounts.origins] at ho
  rw [haccounts.answers, haccounts.standing, hcoherent.standing]
  cases haccounts.leadsTo with
  | current hat hsame hnotless =>
      refine ⟨⟨s.current, rfl, ?_⟩, s.current, hcoherent.mem, hat.point, hat.value⟩
      rw [hat.value]
      constructor
      · intro hle
        rw [← Bool.not_eq_true]
        exact fun hnan => OrderedScalar.not_le_of_isNaN _ hnan hle
      · intro hcurrent
        exact OrderedScalar.le_of_not_lt hnumber hcurrent (hnotless o ho)
  | origin horigin hmem hless hat habove =>
      obtain rfl : s.origin = o := Option.some.inj (horigin.symm.trans ho)
      refine ⟨⟨s.current, rfl, iff_of_true ?_ ?_⟩, s.origin, hmem, hat.point, hat.value⟩
      · rw [hat.value]
        exact OrderedScalar.le_of_not_lt hnumber hnumber (OrderedScalar.lt_irrefl _)
      · rw [← Bool.not_eq_true]
        exact fun hnan => OrderedScalar.not_lt_of_isNaN _ hnan hless

theorem Sample.infiniteWallRun_le_origin_iff :
    ∃ o, (Transcript.origins (wallRun Scalar.infinity).2.transcript).getLast? = some o ∧
      Scalar.isNaN o.value = false ∧
      (∃ i, Transcript.standing (wallRun Scalar.infinity).2.transcript = some i ∧
        (parabolaSolution.value ≤ o.value ↔ Scalar.isNaN i.value = false)) ∧
      ∃ i ∈ Transcript.answers (wallRun Scalar.infinity).2.transcript,
        parabolaSolution.point = i.point ∧ parabolaSolution.value = i.value := by
  have horigin : (Transcript.origins (wallRun Scalar.infinity).2.transcript).getLast? =
      some ⟨⟨[0.0], rfl⟩, 4.5, ⟨[-3.0], rfl⟩⟩ := by decide +kernel
  have hnumber : Scalar.isNaN (4.5 : Float) = false := by decide +kernel
  exact ⟨_, horigin, hnumber,
    Problem.returned_le_origin_iff infiniteWallRun_returned horigin hnumber⟩

/-- The value behind the wall is not a number, and is returned. -/
theorem Sample.wallRun_not_le_origin :
    ∃ (solution : Solution Float 1) (o : Iterate Float 1),
      wallRun (0.0 / 0.0) = (.returned solution, (wallRun (0.0 / 0.0)).2) ∧
      (Transcript.origins (wallRun (0.0 / 0.0)).2.transcript).getLast? = some o ∧
      Scalar.isNaN o.value = false ∧ ¬ solution.value ≤ o.value := by
  refine ⟨⟨⟨[1.0], rfl⟩, 0.0 / 0.0, .tooManyEvaluations, 0, 2, 0, 2.0⟩,
    ⟨⟨[0.0], rfl⟩, 4.5, ⟨[-3.0], rfl⟩⟩, Outcome.eq_returned ?_, ?_, ?_, ?_⟩
  all_goals decide +kernel

end Returned

end VariableMetric
