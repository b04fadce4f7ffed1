import VariableMetric.Proofs.FeasibleSet.Rescaling
import VariableMetric.Proofs.LineSearch.Rescaling
import VariableMetric.Proofs.Run.Capped

/-!
# Runs on a disguised objective

Two objectives are compared whose values and gradients differ by a positive factor, the
values also by a shift, and the gradients arbitrarily in some hidden components.  If the
set pins the hidden components, then no part of a turn tells the objectives apart: both
runs go through the same points, with rescaled values and norms.

A search along the steepest descent goes along a direction that is multiplied by the
factor, with steps that are divided by it, and one along a direction of the memory goes
along the same direction with the same steps.  So each search has a pace of its own, by
which directions and steps of the second run differ from those of the first.
-/

namespace VariableMetric

noncomputable section

open Transcript

variable {σ σ' : Type} {n m : ℕ}

/-- How the answers of a second objective differ from those of a first one: by a factor and
a shift, and in hidden components, which have the same values all the time; and how the
states of the objectives are related. -/
structure Disguise (σ σ' : Type) (n : ℕ) extends Rescaling where
  hidden : Finset (Fin n)
  pinned : Fin n → ℝ
  states : σ → σ' → Prop

variable {d : Disguise σ σ' n}

/-- An answer, and how the second objective answers. -/
structure Iterate.Disguised (d : Disguise σ σ' n) (i i' : Iterate Exact n) : Prop where
  point : i'.point = i.point
  value : i'.value = d.value i.value
  gradient : i.gradient.ScaledOff d.hidden d.factor i'.gradient
  finite : i.gradient.FiniteOn d.hidden

/-- Both objectives answer at a point, the second one in disguise, or refuse for the same
fault. -/
def Disguise.HidesAt (d : Disguise σ σ' n) (o : Objective σ Exact n) (o' : Objective σ' Exact n)
    (x : Vec Exact n) : Prop :=
  ∀ state state' buffer buffer', d.states state state' →
    buffer.ScaledOff d.hidden d.factor buffer' →
    Agree (fun a a' => Iterate.Disguised d ⟨x, a.1, a.2⟩ ⟨x, a'.1, a'.2⟩)
        (o.evaluate state x buffer).1 (o'.evaluate state' x buffer').1 ∧
      d.states (o.evaluate state x buffer).2 (o'.evaluate state' x buffer').2

/-- The call of the second objective at the same point. -/
def Rescaling.call (r : Rescaling) (call : Vec Exact n × Option Exact) :
    Vec Exact n × Option Exact :=
  (call.1, call.2.map r.value)

def Problem.withObjective {α τ : Type} (p : Problem α σ τ n) (o : Objective σ' α n) :
    Problem α σ' τ n :=
  { p with objective := o }

/-- A problem whose set pins what is hidden, and whose threshold is a multiple of the first
norm unless the disguise keeps the values of gradients. -/
structure Problem.Masks (p : Problem Exact σ (Strategy Exact) n) (d : Disguise σ σ' n) : Prop where
  search : ∃ uses, p.search = .ofStrategy uses
  tolerance : d.factor • p.settings.tolerance.1 = p.settings.tolerance.1
  feasible : p.feasible.Rescales d.hidden d.pinned

/-- The same solution, with the value there and the norm rescaled. -/
def Solution.rescaled (s : Solution Exact n) (r : Rescaling) : Solution Exact n :=
  { s with value := r.value s.value, norm := r.factor • s.norm }

def Outcome.rescaled (r : Rescaling) : Outcome Exact n → Outcome Exact n
  | .returned solution => .returned (solution.rescaled r)
  | .failed fault => .failed fault
  | .unfinished => .unfinished

theorem mirrors_attempt_agree {β β' γ γ' : Type} {s : State Exact σ (Strategy Exact) n m}
    {s' : State Exact σ' (Strategy Exact) n m} {related : γ → γ' → Prop} {result : Except Fault γ}
    {result' : Except Fault γ'} {next : γ → Progress Exact σ (Strategy Exact) n m β}
    {next' : γ' → Progress Exact σ' (Strategy Exact) n m β'} {onward : β → β' → Prop}
    {ended : State Exact σ (Strategy Exact) n m → State Exact σ' (Strategy Exact) n m → Prop}
    (hresult : Agree related result result')
    (hok : ∀ b b', related b b' → State.Mirrors (next b) (next' b') onward ended)
    (hfault : ended s s') :
    State.Mirrors (s.attempt result >>= next) (s'.attempt result' >>= next') onward ended := by
  cases result with
  | ok b => cases result' with
    | ok b' => exact hok b b' hresult
    | error fault' => exact hresult.elim
  | error fault => cases result' with
    | ok b' => exact hresult.elim
    | error fault' =>
      obtain rfl : fault' = fault := hresult
      exact ⟨rfl, hfault⟩

namespace State

/-! ## States -/

/-- The state of a run, and that of the run on the second objective.  Only the line search
and what belongs to the search under way is left out. -/
structure Disguised (d : Disguise σ σ' n) (s : State Exact σ (Strategy Exact) n m)
    (s' : State Exact σ' (Strategy Exact) n m) : Prop where
  states : d.states s.objective s'.objective
  current : s.current.Disguised d s'.current
  origin : s.origin.Disguised d s'.origin
  anchored : s.origin.value = Scalar.infinity ∨ s.origin.point.PinnedAt d.hidden d.pinned
  projected : s.projected.ProjectedAlike d.hidden d.factor s'.projected
  norm : s'.norm = d.factor • s.norm
  threshold : s'.threshold = d.factor • s.threshold
  memory : s.memory.ScaledOff d.hidden d.factor s'.memory
  iterations : s'.iterations = s.iterations
  evaluations : s'.evaluations = s.evaluations
  restarts : s'.restarts = s.restarts
  searching : s'.searching = s.searching
  restored : s'.restored = s.restored
  steepest : s'.steepest = s.steepest
  calls : s'.transcript.evaluations = s.transcript.evaluations.map d.call

/-- Directions that are `u` times as long, for a least step that is not changed by that. -/
structure AtPace (u : ℝ) (s : State Exact σ (Strategy Exact) n m)
    (s' : State Exact σ' (Strategy Exact) n m) : Prop where
  pos : 0 < u
  stpmin : u⁻¹ • s.search.rule.stpmin = s.search.rule.stpmin
  direction : s'.direction = u • s.direction

/-- The same trial of the same search, which goes at a pace. -/
structure Abreast (d : Disguise σ σ' n) (u : ℝ) (s : State Exact σ (Strategy Exact) n m)
    (s' : State Exact σ' (Strategy Exact) n m) : Prop where
  paced : s.AtPace u s'
  step : s'.step = u⁻¹ • s.step
  search : s'.search = s.search.rescaled d.toRescaling u
  origin : s.origin.point.PinnedAt d.hidden d.pinned

/-- Between two turns of both runs. -/
structure Shadows (d : Disguise σ σ' n) (s : State Exact σ (Strategy Exact) n m)
    (s' : State Exact σ' (Strategy Exact) n m) : Prop where
  disguised : s.Disguised d s'
  stpmin : d.factor⁻¹ • s.search.rule.stpmin = s.search.rule.stpmin
  idle : s.searching = false → s.search.StartsLike d.toRescaling s'.search
  busy : s.searching = true → ∃ u, s.Abreast d u s'

/-- In a turn, at a point where the hidden components are pinned. -/
structure Level (d : Disguise σ σ' n) (s : State Exact σ (Strategy Exact) n m)
    (s' : State Exact σ' (Strategy Exact) n m) : Prop extends s.Shadows d s' where
  pinned : s.current.point.PinnedAt d.hidden d.pinned

variable {s : State Exact σ (Strategy Exact) n m} {s' : State Exact σ' (Strategy Exact) n m}
  {p : Problem Exact σ (Strategy Exact) n} {o' : Objective σ' Exact n} {u : ℝ}

theorem Disguised.rerecord (h : s.Disguised d s') {t t' : Transcript Exact n}
    (ht : t.evaluations = s.transcript.evaluations)
    (ht' : t'.evaluations = s'.transcript.evaluations) :
    State.Disguised d { s with transcript := t } { s' with transcript := t' } :=
  { h with calls := ht'.trans (h.calls.trans (congrArg (List.map d.call) ht.symm)) }

theorem evaluations_notices (notices : List (Notice Exact)) (t : Transcript Exact n) :
    Transcript.evaluations ((notices.map Event.noticed).reverse ++ t) = t.evaluations :=
  view_append evaluations_bookkeeping (bookkeeping_notices notices)

/-- Another record of the same calls. -/
def CallsLike (s last : State Exact σ (Strategy Exact) n m) : Prop :=
  ∃ t : Transcript Exact n, last = { s with transcript := t } ∧
    t.evaluations = s.transcript.evaluations

theorem CallsLike.record {s last : State Exact σ (Strategy Exact) n m} (h : s.CallsLike last)
    {e : Event Exact n} (he : isCall e = false) : s.CallsLike (last.record e) := by
  obtain ⟨t, rfl, hcalls⟩ := h
  exact ⟨e :: t, rfl, (evaluations_of_not_isCall he t).trans hcalls⟩

/-- The table is not looked at. -/
theorem callsLike_printDue (p : Problem Exact σ (Strategy Exact) n)
    (s : State Exact σ (Strategy Exact) n m) : s.CallsLike (s.printDue p) :=
  printDue_of s.CallsLike (fun _ h => h.record rfl) (fun _ _ h => h.record rfl) ⟨_, rfl, rfl⟩

theorem callsLike_printLast (p : Problem Exact σ (Strategy Exact) n)
    (s : State Exact σ (Strategy Exact) n m) : s.CallsLike (s.printLast p) :=
  printLast_of s.CallsLike (fun _ h => h.record rfl) (fun _ _ h => h.record rfl) ⟨_, rfl, rfl⟩

/-- The search under way is not touched. -/
structure KeepsSearch {σ : Type} (s t : State Exact σ (Strategy Exact) n m) : Prop where
  search : t.search = s.search := by rfl
  searching : t.searching = s.searching := by rfl
  step : t.step = s.step := by rfl
  direction : t.direction = s.direction := by rfl
  origin : t.origin = s.origin := by rfl

theorem KeepsSearch.of_eq {σ : Type} {s t : State Exact σ (Strategy Exact) n m}
    (h : (t.search, t.searching, t.step, t.direction, t.origin) =
      (s.search, s.searching, s.step, s.direction, s.origin)) : s.KeepsSearch t := by
  simp only [Prod.mk.injEq] at h
  obtain ⟨hsearch, hsearching, hstep, hdirection, horigin⟩ := h
  exact ⟨hsearch, hsearching, hstep, hdirection, horigin⟩

theorem Shadows.kept (h : s.Shadows d s') {t : State Exact σ (Strategy Exact) n m}
    {t' : State Exact σ' (Strategy Exact) n m} (hdisguised : t.Disguised d t')
    (ht : s.KeepsSearch t) (ht' : s'.KeepsSearch t') : t.Shadows d t' where
  disguised := hdisguised
  stpmin := by
    rw [ht.search]
    exact h.stpmin
  idle hidle := by
    rw [ht.search, ht'.search]
    exact h.idle (ht.searching ▸ hidle)
  busy hsearching := by
    obtain ⟨u, hu⟩ := h.busy (ht.searching ▸ hsearching)
    exact ⟨u,
      { paced :=
          { pos := hu.paced.pos
            stpmin := by rw [ht.search]; exact hu.paced.stpmin
            direction := by rw [ht'.direction, ht.direction]; exact hu.paced.direction }
        step := by rw [ht'.step, ht.step]; exact hu.step
        search := by rw [ht'.search, ht.search]; exact hu.search
        origin := by rw [ht.origin]; exact hu.origin }⟩

/-! ## The first half of a turn -/

theorem Shadows.mirrors_project (h : s.Shadows d s') :
    Mirrors (s.project p) (s'.project (p.withObjective o'))
      (fun b b' => p.feasible.projectVariables s.current.point = .ok b.current.point ∧
        b.Shadows d b') (Disguised d) := by
  refine mirrors_attempt (congrArg _ h.disguised.current.point) (fun x hx => ?_) h.disguised
  refine ⟨hx, h.kept ?_ (.of_eq rfl) (.of_eq rfl)⟩
  exact { h.disguised with current := { h.disguised.current with point := rfl } }

theorem Shadows.mirrors_evaluate (h : s.Shadows d s')
    (hhides : d.HidesAt p.objective o' s.current.point) :
    Mirrors (s.evaluate p) (s'.evaluate (p.withObjective o'))
      (fun b b' => b.current.point = s.current.point ∧ b.Shadows d b') (Disguised d) := by
  obtain ⟨hanswers, hstates⟩ := hhides _ _ _ _ h.disguised.states h.disguised.current.gradient
  unfold evaluate
  rw [h.disguised.current.point]
  dsimp only [Problem.withObjective]
  rcases hresult : p.objective.evaluate s.objective s.current.point s.current.gradient with
    ⟨result, next⟩
  rcases hresult' : o'.evaluate s'.objective s.current.point s'.current.gradient with
    ⟨result', next'⟩
  rw [hresult, hresult'] at hanswers hstates
  cases result with
  | error fault => cases result' with
    | ok pair' => exact hanswers.elim
    | error fault' =>
      obtain rfl : fault' = fault := hanswers
      refine ⟨rfl, { h.disguised with states := hstates, calls := ?_ }⟩
      show Transcript.evaluations (.refused s.current.point :: s'.transcript) =
        (Transcript.evaluations (.refused s.current.point :: s.transcript)).map d.call
      rw [evaluations_refused, evaluations_refused, h.disguised.calls, List.map_append]
      rfl
  | ok pair => cases result' with
    | error fault' => exact hanswers.elim
    | ok pair' =>
      have hcurrent : Iterate.Disguised d ⟨s.current.point, pair.1, pair.2⟩
        ⟨s.current.point, pair'.1, pair'.2⟩ := hanswers
      refine ⟨rfl, h.kept ?_ (.of_eq rfl) (.of_eq rfl)⟩
      refine { h.disguised with
        states := hstates
        current := hcurrent
        evaluations := congrArg (· + 1) h.disguised.evaluations
        calls := ?_ }
      show Transcript.evaluations
          (.evaluated ⟨s.current.point, pair'.1, pair'.2⟩ :: s'.transcript) =
        (Transcript.evaluations
          (.evaluated ⟨s.current.point, pair.1, pair.2⟩ :: s.transcript)).map d.call
      rw [evaluations_evaluated, evaluations_evaluated, h.disguised.calls, List.map_append]
      have hvalue : pair'.1 = d.value pair.1 := hcurrent.value
      simp [Rescaling.call, hvalue]

/-- The projected gradient and its norm are measured anew. -/
theorem Disguised.measured (h : s.Disguised d s') {v v' : Vec Exact n}
    (hv : v.ProjectedAlike d.hidden d.factor v') :
    State.Disguised d { s with projected := v, norm := v.norm }
      { s' with projected := v', norm := v'.norm } :=
  { h with
    projected := hv
    norm := by
      rw [hv.scaled]
      exact Vec.norm_smul d.factor_pos v }

theorem Disguised.agree_measured (hp : p.Masks d) (h : s.Disguised d s')
    (hpinned : s.current.point.PinnedAt d.hidden d.pinned) (o' : Objective σ' Exact n) :
    Agree (fun b b' => ∃ v v', v.ProjectedAlike d.hidden d.factor v' ∧
        b = { s with projected := v, norm := v.norm } ∧
        b' = { s' with projected := v', norm := v'.norm })
      (s.measured p) (s'.measured (p.withObjective o')) := by
  have hgradient := hp.feasible.gradient hpinned d.factor_pos h.current.gradient h.current.finite
  unfold State.measured
  dsimp only [Problem.withObjective]
  rw [h.current.point]
  cases hresult : p.feasible.projectGradient s.current.point s.current.gradient with
  | error fault =>
    cases hresult' : p.feasible.projectGradient s.current.point s'.current.gradient with
    | ok v' => rw [hresult, hresult'] at hgradient; exact hgradient.elim
    | error fault' => rw [hresult, hresult'] at hgradient; exact hgradient
  | ok v =>
    cases hresult' : p.feasible.projectGradient s.current.point s'.current.gradient with
    | ok v' => rw [hresult, hresult'] at hgradient; exact ⟨v, v', hgradient, rfl, rfl⟩
    | error fault' => rw [hresult, hresult'] at hgradient; exact hgradient.elim

theorem Level.mirrors_measure (hp : p.Masks d) (h : s.Level d s') :
    Mirrors (s.measure p) (s'.measure (p.withObjective o')) (Level d) (Disguised d) := by
  have hmeasured := h.disguised.agree_measured hp h.pinned o'
  unfold measure
  cases hresult : s.measured p with
  | error fault =>
    cases hresult' : s'.measured (p.withObjective o') with
    | ok b' => rw [hresult, hresult'] at hmeasured; exact hmeasured.elim
    | error fault' =>
      rw [hresult, hresult'] at hmeasured
      obtain rfl : fault' = fault := hmeasured
      exact ⟨rfl, h.disguised⟩
  | ok b =>
    cases hresult' : s'.measured (p.withObjective o') with
    | error fault' => rw [hresult, hresult'] at hmeasured; exact hmeasured.elim
    | ok b' =>
      rw [hresult, hresult'] at hmeasured
      obtain ⟨v, v', hv, rfl, rfl⟩ := hmeasured
      exact ⟨h.kept (h.disguised.measured hv) (.of_eq rfl) (.of_eq rfl), h.pinned⟩

theorem Level.setThreshold (hp : p.Masks d) (h : s.Level d s') :
    (s.setThreshold p).Level d (s'.setThreshold (p.withObjective o')) := by
  unfold State.setThreshold
  by_cases hfirst : s.evaluations = 1
  · rw [if_pos hfirst, if_pos (h.disguised.evaluations.trans hfirst)]
    refine ⟨h.kept { h.disguised with threshold := ?_ } (.of_eq rfl) (.of_eq rfl), h.pinned⟩
    show p.settings.tolerance.1 + p.settings.tolerance.2 * s'.norm =
      d.factor • (p.settings.tolerance.1 + p.settings.tolerance.2 * s.norm)
    rw [h.disguised.norm, Exact.mul_smul_comm d.factor_pos, Exact.smul_add d.factor_pos,
      hp.tolerance]
  · rw [if_neg hfirst, if_neg (h.disguised.evaluations ▸ hfirst)]
    exact h

theorem Level.mirrors_settle (h : s.Level d s') :
    Mirrors s.settle s'.settle (Level d) (Disguised d) := by
  have hbelow : s'.norm ≤ s'.threshold ↔ s.norm ≤ s.threshold := by
    rw [h.disguised.norm, h.disguised.threshold, Exact.smul_le_smul_iff d.factor_pos]
  unfold settle
  simp only [hbelow]
  split
  · refine ⟨rfl, { h.disguised with iterations := ?_ }⟩
    show (if s'.searching = true then s'.iterations + 1 else s'.iterations) =
      if s.searching = true then s.iterations + 1 else s.iterations
    rw [h.disguised.searching, h.disguised.iterations]
  · exact h

/-- The first half of a turn, if the objective answers in disguise and the set pins what is
hidden where the run stands. -/
theorem Shadows.mirrors_gauge (hp : p.Masks d) (h : s.Shadows d s')
    (hplace : ∀ x, p.feasible.projectVariables s.current.point = .ok x →
      x.PinnedAt d.hidden d.pinned ∧ d.HidesAt p.objective o' x) :
    Mirrors (s.gauge p) (s'.gauge (p.withObjective o')) (Level d) (Disguised d) := by
  unfold gauge
  refine h.mirrors_project.bind fun s₁ s₁' _ ⟨hx, h₁⟩ => ?_
  obtain ⟨hpinned, hhides⟩ := hplace _ hx
  refine (h₁.mirrors_evaluate hhides).bind fun s₂ s₂' _ ⟨hsame, h₂⟩ => ?_
  have h₂ : s₂.Level d s₂' := ⟨h₂, hsame ▸ hpinned⟩
  refine (h₂.mirrors_measure hp).bind fun s₃ s₃' _ h₃ => ?_
  exact (h₃.setThreshold hp).mirrors_settle

/-! ## The search under way -/

/-- The slope is multiplied by the factor of the objective and by the pace. -/
theorem Level.trialSlope (h : s.Level d s') (hu : s.Abreast d u s')
    (p : Problem Exact σ (Strategy Exact) n) (o' : Objective σ' Exact n) :
    s'.trialSlope (p.withObjective o') = (s.trialSlope p).map ((d.factor * u) • ·) := by
  have hmoved := (h.pinned.difference hu.origin p.precision)
  have hinner := h.disguised.current.gradient.inner_left d.factor_pos hmoved
  have hrate : d.factor / u⁻¹ = d.factor * u := div_inv_eq_mul _ _
  have htrial : s'.trialSlope (p.withObjective o') =
      if p.search.usesDerivative then
        if Scalar.equal s'.step 0 then .error .divisionByZero
        else .ok (Vec.inner s'.current.gradient
          (Vec.difference p.precision s'.current.point s'.origin.point) / s'.step)
      else .ok 0 := rfl
  rw [htrial, h.disguised.current.point, h.disguised.origin.point, hu.step,
    Exact.equal_smul_zero (inv_pos.mpr hu.paced.pos), hinner,
    Exact.smul_div_smul d.factor_pos (inv_pos.mpr hu.paced.pos), hrate]
  unfold State.trialSlope
  split
  · split <;> rfl
  · exact congrArg Except.ok (Exact.smul_zero _).symm

/-- The line search is told of the trial, and answers. -/
theorem Disguised.told (h : s.Disguised d s') (slope slope' : Exact) (reply reply' : Reply Exact)
    (search search' : Strategy Exact) :
    (s.told slope reply search).Disguised d (s'.told slope' reply' search') :=
  { h with
    calls := by
      rw [Likeness.evaluations_told, Likeness.evaluations_told]
      exact h.calls }

theorem Disguised.mirrors_accept (h : s.Disguised d s')
    (hpinned : s.current.point.PinnedAt d.hidden d.pinned)
    (hstpmin : d.factor⁻¹ • s.search.rule.stpmin = s.search.rule.stpmin)
    (hidle : s.search.StartsLike d.toRescaling s'.search) :
    Mirrors (s.accept p) (s'.accept (p.withObjective o')) (Level d) (Disguised d) := by
  have haccepted : s.accepted.Disguised d s'.accepted :=
    { h with
      iterations := congrArg (· + 1) h.iterations
      searching := rfl }
  have hspent : (0 ≤ p.settings.maxIterations ∧ p.settings.maxIterations ≤ s'.accepted.iterations) ↔
      0 ≤ p.settings.maxIterations ∧ p.settings.maxIterations ≤ s.accepted.iterations := by
    rw [haccepted.iterations]
  show Mirrors
    (if 0 ≤ p.settings.maxIterations ∧ p.settings.maxIterations ≤ s.accepted.iterations then
      s.accepted.stop .tooManyIterations else .ok s.accepted)
    (if 0 ≤ p.settings.maxIterations ∧ p.settings.maxIterations ≤ s'.accepted.iterations then
      s'.accepted.stop .tooManyIterations else .ok s'.accepted) _ _
  simp only [hspent]
  split
  · exact ⟨rfl, haccepted⟩
  · exact ⟨⟨haccepted, hstpmin, fun _ => hidle, nofun⟩, hpinned⟩

theorem Disguised.mirrors_abandon (hp : p.Masks d) (h : s.Disguised d s')
    (horigin : s.origin.point.PinnedAt d.hidden d.pinned)
    (hstpmin : d.factor⁻¹ • s.search.rule.stpmin = s.search.rule.stpmin)
    (hidle : s.search.StartsLike d.toRescaling s'.search) :
    Mirrors (s.abandon p) (s'.abandon (p.withObjective o')) (Level d) (Disguised d) := by
  have hback : (((s.notify [.searchAbandoned s.iterations]).record .restored).atOrigin).Disguised d
      (((s'.notify [.searchAbandoned s'.iterations]).record .restored).atOrigin) := by
    refine { h with current := h.origin, calls := ?_ }
    have hcalls : ∀ {σ : Type} (s : State Exact σ (Strategy Exact) n m),
        (((s.notify [.searchAbandoned s.iterations]).record
          .restored).atOrigin).transcript.evaluations = s.transcript.evaluations := fun s =>
      (evaluations_of_not_isCall rfl _).trans (evaluations_notices [_] s.transcript)
    rw [hcalls, hcalls]
    exact h.calls
  unfold abandon
  rw [h.steepest]
  split
  · exact ⟨rfl, h⟩
  · refine mirrors_attempt_agree (hback.agree_measured hp horigin o') ?_ hback
    rintro _ _ ⟨v, v', hv, rfl, rfl⟩
    refine ⟨⟨?_, hstpmin, fun _ => hidle, nofun⟩, horigin⟩
    exact { hback.measured hv with
      memory := h.memory.reset
      restarts := congrArg (· + 1) h.restarts
      searching := rfl
      restored := rfl }

theorem Level.mirrors_consult (hp : p.Masks d) (h : s.Level d s') :
    Mirrors (s.consult p) (s'.consult (p.withObjective o')) (Level d) (Disguised d) := by
  obtain ⟨uses, huses⟩ := hp.search
  by_cases hsearching : s.searching = true
  · have hsearching' := h.disguised.searching.trans hsearching
    obtain ⟨u, hu⟩ := h.busy hsearching
    have htrial := h.trialSlope hu p o'
    cases hslope : s.trialSlope p with
    | error fault =>
      rw [hslope] at htrial
      rw [consult_of_fault hsearching hslope, consult_of_fault hsearching' htrial]
      exact ⟨rfl, h.disguised⟩
    | ok slope =>
      rw [hslope] at htrial
      obtain ⟨hreply, hsearch⟩ := Strategy.iterate_rescaled d.toRescaling hu.paced.pos s.step
        s.current.value slope hu.paced.stpmin
      rw [← hu.search, ← hu.step, ← h.disguised.current.value] at hreply hsearch
      rw [consult_of_strategy huses hsearching hslope,
        consult_of_strategy (p := p.withObjective o') huses hsearching' htrial, hreply.status]
      have hrule : (s.search.iterate s.step s.current.value slope).2.rule = s.search.rule :=
        Strategy.rule_iterate _ _ _ _
      set answer := s.search.iterate s.step s.current.value slope
      set answer' := s'.search.iterate s'.step s'.current.value ((d.factor * u) • slope)
      have htold := h.disguised.told slope ((d.factor * u) • slope) answer.1 answer'.1 answer.2
        answer'.2
      have hstpmin : d.factor⁻¹ • answer.2.rule.stpmin = answer.2.rule.stpmin := hrule ▸ h.stpmin
      have hidle : answer.2.StartsLike d.toRescaling answer'.2 :=
        hsearch ▸ Strategy.startsLike_rescaled _ _ _
      cases answer.1.status with
      | searching =>
        refine ⟨⟨htold, hstpmin, fun hnot => ?_, fun _ => ⟨u, ?_⟩⟩, h.pinned⟩
        · exact absurd hsearching (by simp [show s.searching = false from hnot])
        · exact
            { paced :=
                { pos := hu.paced.pos
                  stpmin := hrule ▸ hu.paced.stpmin
                  direction := hu.paced.direction }
              step := hreply.step
              search := hsearch
              origin := hu.origin }
      | converged => exact htold.mirrors_accept h.pinned hstpmin hidle
      | failed => exact htold.mirrors_abandon hp hu.origin hstpmin hidle
  · have hidle : s.searching = false := by simpa using hsearching
    rw [consult_of_idle hidle, consult_of_idle (h.disguised.searching.trans hidle)]
    exact h

/-! ## The next search -/

/-- In a turn without a search under way. -/
structure Vacant (d : Disguise σ σ' n) (s : State Exact σ (Strategy Exact) n m)
    (s' : State Exact σ' (Strategy Exact) n m) : Prop extends s.Level d s' where
  rests : s.searching = false

/-- A way to a search: the slope and the first step go at the pace of the direction. -/
structure Aims (d : Disguise σ σ' n) (u : ℝ)
    (a : Exact × Exact × State Exact σ (Strategy Exact) n m)
    (a' : Exact × Exact × State Exact σ' (Strategy Exact) n m) : Prop where
  vacant : a.2.2.Vacant d a'.2.2
  paced : a.2.2.AtPace u a'.2.2
  slope : a'.1 = (d.factor * u) • a.1
  first : a'.2.1 = u⁻¹ • a.2.1

theorem Vacant.of_disguised (h : s.Vacant d s') {t : State Exact σ (Strategy Exact) n m}
    {t' : State Exact σ' (Strategy Exact) n m} (hdisguised : t.Disguised d t')
    (hsearch : t.search = s.search := by rfl) (hsearch' : t'.search = s'.search := by rfl)
    (hsearching : t.searching = s.searching := by rfl)
    (hpoint : t.current.point = s.current.point := by rfl) : t.Vacant d t' where
  disguised := hdisguised
  stpmin := by
    rw [hsearch]
    exact h.stpmin
  idle _ := by
    rw [hsearch, hsearch']
    exact h.idle h.rests
  busy hbusy := absurd hbusy (by simp [hsearching, h.rests])
  pinned := hpoint ▸ h.pinned
  rests := hsearching.trans h.rests

theorem Vacant.printDue (h : s.Vacant d s') :
    (s.printDue p).Vacant d (s'.printDue (p.withObjective o')) := by
  obtain ⟨t, ht, hcalls⟩ := s.callsLike_printDue p
  obtain ⟨t', ht', hcalls'⟩ := s'.callsLike_printDue (p.withObjective o')
  rw [ht, ht']
  exact h.of_disguised (h.disguised.rerecord hcalls hcalls')

section Capacity

variable [Capacity m]

theorem Vacant.mirrors_remember (h : s.Vacant d s') :
    Mirrors (s.remember p) (s'.remember (p.withObjective o')) (Vacant d) (Disguised d) := by
  have hdue : (1 ≤ s'.iterations ∧ (!s'.restored) = true) ↔
      1 ≤ s.iterations ∧ (!s.restored) = true := by
    rw [h.disguised.iterations, h.disguised.restored]
  have hpoints : Vec.difference p.precision s'.current.point s'.origin.point =
      Vec.difference p.precision s.current.point s.origin.point := by
    rw [h.disguised.current.point, h.disguised.origin.point]
  have hchange := h.disguised.current.gradient.difference (p := p.precision) d.factor_pos
    h.disguised.origin.gradient
  unfold remember
  dsimp only [Problem.withObjective]
  simp only [hdue, hpoints]
  split
  · split
    · refine h.of_disguised
        { h.disguised with
          memory := h.disguised.memory.push _ hchange
          calls := ?_ }
      exact (evaluations_of_not_isCall rfl _).trans
        (h.disguised.calls.trans (congrArg _ (evaluations_of_not_isCall rfl _).symm))
    · exact ⟨rfl, h.disguised⟩
  · exact h

omit [Capacity m] in
/-- The steepest descent goes at the pace of the objective. -/
theorem Vacant.mirrors_steer (hp : p.Masks d) (h : s.Vacant d s') :
    Mirrors (s.steer p) (s'.steer (p.withObjective o')) (fun a a' => ∃ u, Aims d u a a')
      (Disguised d) := by
  have hsteered : (s.steered p).Vacant d (s'.steered (p.withObjective o')) :=
    h.of_disguised { h.disguised with steepest := rfl }
  have hdirection : (s'.steered (p.withObjective o')).direction =
      d.factor • (s.steered p).direction := by
    show s'.projected.scale p.precision (-1) = d.factor • s.projected.scale p.precision (-1)
    rw [h.disguised.projected.scaled, Vec.scale_smul d.factor_pos]
  have hfirst : p.feasible.initialStep s'.current.point
      (s'.steered (p.withObjective o')).direction p.settings.firstStep =
        (p.feasible.initialStep s.current.point (s.steered p).direction
          p.settings.firstStep).map (d.factor⁻¹ • ·) := by
    rw [h.disguised.current.point, hdirection]
    exact hp.feasible.initial _ _ _ d.factor_pos
  have hagree : Agree (fun first first' => first' = d.factor⁻¹ • first)
      (p.feasible.initialStep s.current.point (s.steered p).direction p.settings.firstStep)
      (p.feasible.initialStep s'.current.point (s'.steered (p.withObjective o')).direction
        p.settings.firstStep) := by
    rw [hfirst]
    cases p.feasible.initialStep s.current.point (s.steered p).direction p.settings.firstStep with
    | ok first => exact rfl
    | error fault => exact rfl
  refine mirrors_attempt_agree hagree (fun first first' hpaced => ⟨d.factor, ?_⟩)
    hsteered.disguised
  exact
    { vacant := hsteered
      paced := ⟨d.factor_pos, h.stpmin, hdirection⟩
      slope := by
        show -(Scalar.square s'.norm) = (d.factor * d.factor) • -(Scalar.square s.norm)
        rw [h.disguised.norm, Exact.square_smul d.factor_pos,
          Exact.smul_neg (mul_pos d.factor_pos d.factor_pos)]
      first := hpaced }

/-- A direction of the memory is the same, with a slope that is multiplied. -/
def ProposesAlike (d : Disguise σ σ' n) (a : Option Exact × State Exact σ (Strategy Exact) n m)
    (a' : Option Exact × State Exact σ' (Strategy Exact) n m) : Prop :=
  a.2.Vacant d a'.2 ∧ a'.1 = a.1.map (d.factor • ·) ∧
    (a.1.isSome = true → a'.2.direction = a.2.direction)

theorem Vacant.asked (h : s.Vacant d s') {memory memory' : Memory Exact n m}
    (hmemory : memory.ScaledOff d.hidden d.factor memory')
    (notices notices' : List (Notice Exact)) :
    (s.asked memory notices).Vacant d (s'.asked memory' notices') := by
  refine h.of_disguised { h.disguised with memory := hmemory, calls := ?_ }
  have hcalls : ∀ {σ : Type} (s : State Exact σ (Strategy Exact) n m) memory notices,
      (s.asked memory notices).transcript.evaluations = s.transcript.evaluations :=
    fun s memory notices => (s.leadsUpTo_asked memory notices).view evaluations_bookkeeping
  rw [hcalls, hcalls]
  exact h.disguised.calls

theorem Vacant.mirrors_propose (hp : p.Masks d) (h : s.Vacant d s')
    (hlive : ¬ s.memory.live < 1) :
    Mirrors (s.propose p) (s'.propose (p.withObjective o')) (ProposesAlike d) (Disguised d) := by
  have hsupport : s'.projected.support = s.projected.support := by
    rw [h.disguised.projected.scaled, Vec.support_smul d.factor_pos]
  obtain ⟨hanswer, hmemory⟩ := h.disguised.memory.direction (p := p.precision) d.factor_pos hlive
    h.disguised.projected.nullOn_support (fun _ _ hd => hp.feasible.direction h.pinned hd)
    h.disguised.current.gradient s.direction s'.direction
  rw [← hsupport] at hanswer hmemory
  unfold propose
  dsimp only [Problem.withObjective, State.record]
  rw [h.disguised.current.point, hsupport]
  rw [hsupport] at hanswer hmemory
  set result := s.memory.direction p.precision (p.feasible.projectDirection s.current.point)
    s.direction s.current.gradient s.projected.support
  set result' := s'.memory.direction p.precision (p.feasible.projectDirection s.current.point)
    s'.direction s'.current.gradient s.projected.support
  have hasked := h.asked hmemory result.2.2 result'.2.2
  refine mirrors_attempt_agree hanswer (fun q q' hq => ?_) hasked.disguised
  rw [hq.descends]
  cases hdescends : q.descends with
  | true =>
    obtain ⟨hvector, -⟩ := hq.vector hdescends
    refine ⟨hasked.of_disguised { hasked.disguised with steepest := rfl }, ?_, fun _ => hvector⟩
    exact congrArg some hq.slope
  | false =>
    refine ⟨hasked.of_disguised { hasked.disguised with restarts := ?_ }, rfl, nofun⟩
    exact congrArg (· + 1) h.disguised.restarts

theorem Vacant.mirrors_aim (hp : p.Masks d) (h : s.Vacant d s') :
    Mirrors (s.aim p) (s'.aim (p.withObjective o')) (fun a a' => ∃ u, Aims d u a a')
      (Disguised d) := by
  unfold aim
  by_cases hlive : s.memory.live < 1
  · rw [if_pos hlive, if_pos (h.disguised.memory.live ▸ hlive)]
    exact h.mirrors_steer hp
  · rw [if_neg hlive, if_neg (h.disguised.memory.live ▸ hlive)]
    refine (h.mirrors_propose hp hlive).bind ?_
    rintro ⟨slope, ready⟩ ⟨slope', ready'⟩ - ⟨hready, hslope, hdirection⟩
    obtain rfl : slope' = slope.map (d.factor • ·) := hslope
    cases slope with
    | some slope =>
      refine ⟨1, hready, ⟨one_pos, ?_, ?_⟩, ?_, ?_⟩
      · rw [inv_one, one_smul]
      · rw [one_smul]
        exact hdirection rfl
      · rw [mul_one]
      · rw [inv_one, one_smul]
    | none => exact hready.mirrors_steer hp

theorem Vacant.mirrors_approach (hp : p.Masks d) (h : s.Vacant d s') :
    Mirrors (s.approach p) (s'.approach (p.withObjective o')) (fun a a' => ∃ u, Aims d u a a')
      (Disguised d) := by
  refine h.printDue.mirrors_remember.bind fun ready ready' _ hready => ?_
  exact Vacant.mirrors_aim hp
    (hready.of_disguised { hready.disguised with restored := rfl } :
      State.Vacant d { ready with restored := false } { ready' with restored := false })

omit [Capacity m] in
theorem Disguised.chosen (h : s.Disguised d s') (slope slope' step step' cap cap' : Exact) :
    (s.chosen slope step cap).Disguised d (s'.chosen slope' step' cap') :=
  { h with
    calls := (evaluations_of_not_isCall rfl _).trans
      (h.calls.trans (congrArg _ (evaluations_of_not_isCall rfl _).symm)) }

omit [Capacity m] in
/-- The search begins where the run stands, in the set and after a call. -/
theorem Vacant.begun (h : s.Vacant d s') (slope slope' step step' cap cap' : Exact)
    (reply reply' : Reply Exact) (search search' : Strategy Exact) :
    ((s.chosen slope step cap).begun (s.pass slope step cap) reply search).Disguised d
      ((s'.chosen slope' step' cap').begun (s'.pass slope' step' cap') reply' search') :=
  { h.disguised with
    origin := h.disguised.current
    anchored := .inr h.pinned
    calls := by
      rw [Likeness.evaluations_chosen_begun, Likeness.evaluations_chosen_begun]
      exact h.disguised.calls }

omit [Capacity m] in
theorem Aims.mirrors_begin (hp : p.Masks d) {slope slope' first first' : Exact}
    (h : Aims d u (slope, first, s) (slope', first', s')) :
    Mirrors (s.begin p slope first) (s'.begin (p.withObjective o') slope' first')
      (fun b b' => b.searching = true ∧ b.Level d b') (Disguised d) := by
  obtain ⟨uses, huses⟩ := hp.search
  obtain ⟨hvacant, hpaced, hslope, hfirst⟩ := h
  dsimp only at hvacant hpaced hslope hfirst
  have hrests : p.feasible.shortcutStep s'.current.point s'.direction =
      (p.feasible.shortcutStep s.current.point s.direction).map (u⁻¹ • ·) := by
    rw [hvacant.disguised.current.point, hpaced.direction]
    exact hp.feasible.shortcut _ _ hpaced.pos
  cases hcap : p.feasible.shortcutStep s.current.point s.direction with
  | error fault =>
    rw [hcap] at hrests
    rw [begin_of_error hcap, begin_of_error (p := p.withObjective o') hrests]
    exact ⟨rfl, hvacant.disguised⟩
  | ok cap =>
    rw [hcap] at hrests
    rw [begin_of_ok hcap, begin_of_ok (p := p.withObjective o') hrests, hfirst,
      Exact.least_smul (inv_pos.mpr hpaced.pos)]
    set step := Scalar.least first cap
    obtain ⟨hreply, hsearch⟩ := Strategy.start_rescaled d.toRescaling hpaced.pos step
      s.current.value slope cap (hvacant.idle hvacant.rests)
    rw [← hslope, ← hvacant.disguised.current.value] at hreply hsearch
    have hstart : ∀ (value slope step cap : Exact) (search : Strategy Exact),
        p.search.start search value slope step cap = search.start value slope step cap := by
      rw [huses]
      exact fun _ _ _ _ _ => rfl
    dsimp only [Problem.withObjective]
    rw [hstart, hstart]
    set answer := s.search.start s.current.value slope step cap with hanswer
    set answer' := s'.search.start s'.current.value slope' (u⁻¹ • step) (u⁻¹ • cap)
    have hblocked : u⁻¹ • step ≤ 0 ↔ step ≤ 0 := Exact.smul_nonpos_iff (inv_pos.mpr hpaced.pos) _
    have hchosen := hvacant.disguised.chosen slope slope' step (u⁻¹ • step) cap (u⁻¹ • cap)
    have hbegun := hvacant.begun slope slope' step (u⁻¹ • step) cap (u⁻¹ • cap) answer.1 answer'.1
      answer.2 answer'.2
    have hrule : answer.2.rule = s.search.rule := Strategy.rule_start _ _ _ _ _
    simp only [hblocked, hreply.status]
    split
    · exact ⟨rfl, hchosen⟩
    · split
      · refine ⟨rfl, ⟨{ hbegun with searching := rfl }, ?_, nofun, fun _ => ⟨u, ?_⟩⟩,
          hvacant.pinned⟩
        · exact hrule ▸ hvacant.stpmin
        · exact
            { paced :=
                { pos := hpaced.pos
                  stpmin := hrule ▸ hpaced.stpmin
                  direction := hpaced.direction }
              step := hreply.step
              search := hsearch
              origin := hvacant.pinned }
      · exact ⟨rfl, hbegun⟩

theorem Level.mirrors_seek (hp : p.Masks d) (h : s.Level d s') :
    Mirrors (s.seek p) (s'.seek (p.withObjective o'))
      (fun b b' => b.searching = true ∧ b.Level d b') (Disguised d) := by
  by_cases hidle : s.searching = false
  · rw [seek_eq p hidle, seek_eq (p.withObjective o') (h.disguised.searching.trans hidle)]
    have hvacant : s.Vacant d s' := ⟨h, hidle⟩
    refine (hvacant.mirrors_approach hp).bind ?_
    rintro ⟨slope, first, ready⟩ ⟨slope', first', ready'⟩ - ⟨u, haims⟩
    exact haims.mirrors_begin hp
  · have hsearching : s.searching = true := by simpa using hidle
    rw [seek_of_searching hsearching,
      seek_of_searching (h.disguised.searching.trans hsearching)]
    exact ⟨hsearching, h⟩

/-! ## Turns and runs -/

omit [Capacity m] in
theorem Level.mirrors_meter (h : s.Level d s') :
    Mirrors (s.meter p) (s'.meter (p.withObjective o')) (Level d) (Disguised d) := by
  unfold meter
  dsimp only [Problem.withObjective]
  simp only [h.disguised.evaluations]
  split
  · exact ⟨rfl, h.disguised⟩
  · exact h

omit [Capacity m] in
/-- Both runs go on to the same point. -/
theorem Level.advance (h : s.Level d s') (hsearching : s.searching = true) :
    (s.advance p).Shadows d (s'.advance (p.withObjective o')) := by
  obtain ⟨u, hu⟩ := h.busy hsearching
  refine ⟨{ h.disguised with current := ?_ }, h.stpmin, h.idle, fun _ =>
    ⟨u, ⟨hu.paced.pos, hu.paced.stpmin, hu.paced.direction⟩, hu.step, hu.search, hu.origin⟩⟩
  refine { h.disguised.current with point := ?_ }
  show Vec.combine p.precision 1 s'.origin.point s'.step s'.direction =
    Vec.combine p.precision 1 s.origin.point s.step s.direction
  rw [h.disguised.origin.point, hu.step, hu.paced.direction, Vec.combine_smul hu.paced.pos]

theorem Shadows.mirrors_turn (hp : p.Masks d) (h : s.Shadows d s')
    (hplace : ∀ x, p.feasible.projectVariables s.current.point = .ok x →
      x.PinnedAt d.hidden d.pinned ∧ d.HidesAt p.objective o' x) :
    Mirrors (s.turn p) (s'.turn (p.withObjective o')) (Shadows d) (Disguised d) := by
  rw [turn_eq, turn_eq]
  refine (h.mirrors_gauge hp hplace).bind fun s₁ s₁' _ h₁ => ?_
  refine (h₁.mirrors_consult hp).bind fun s₂ s₂' _ h₂ => ?_
  refine (h₂.mirrors_seek hp).bind fun s₃ s₃' _ ⟨hsearching, h₃⟩ => ?_
  have hmeter : Mirrors (s₃.meter p) (s₃'.meter (p.withObjective o')) (Level d) (Disguised d) :=
    h₃.mirrors_meter
  have hsame : Ensures (s₃.meter p) (fun b => b.searching = true) fun _ _ => True :=
    ensures_meter (fun _ _ => trivial) fun _ => hsearching
  refine ((hmeter.ensuring hsame).mono (fun _ _ h => h) fun _ _ h => h.2).bind ?_
  rintro s₄ s₄' - ⟨hsearching, h₄⟩
  exact h₄.advance hsearching

/-! ## Endings -/

omit [Capacity m] in
theorem Disguised.agree_settled (hp : p.Masks d) (h : s.Disguised d s')
    (o' : Objective σ' Exact n) :
    Agree (Disguised d) (s.settled p) (s'.settled (p.withObjective o')) := by
  have hworse : s'.origin.value < s'.current.value ↔ s.origin.value < s.current.value := by
    rw [h.origin.value, h.current.value, d.value_lt_value_iff]
  unfold settled
  simp only [hworse]
  split
  next hlt =>
    have hpinned := h.anchored.resolve_left fun hnone =>
      OrderedScalar.not_infinity_lt _ (hnone ▸ hlt)
    have hback : s.atOrigin.Disguised d s'.atOrigin := { h with current := h.origin }
    have hmeasured := hback.agree_measured hp hpinned o'
    cases hresult : s.atOrigin.measured p with
    | error fault =>
      cases hresult' : s'.atOrigin.measured (p.withObjective o') with
      | ok b' => rw [hresult, hresult'] at hmeasured; exact hmeasured.elim
      | error fault' => rw [hresult, hresult'] at hmeasured; exact hmeasured
    | ok b =>
      cases hresult' : s'.atOrigin.measured (p.withObjective o') with
      | error fault' => rw [hresult, hresult'] at hmeasured; exact hmeasured.elim
      | ok b' =>
        rw [hresult, hresult'] at hmeasured
        obtain ⟨v, v', hv, rfl, rfl⟩ := hmeasured
        exact hback.measured hv
  next => exact h

/-- What comes of two runs, the second one on the objective in disguise. -/
def ComesTo (d : Disguise σ σ' n)
    (result : Outcome Exact n × State Exact σ (Strategy Exact) n m)
    (result' : Outcome Exact n × State Exact σ' (Strategy Exact) n m) : Prop :=
  result'.1 = result.1.rescaled d.toRescaling ∧
    result'.2.transcript.evaluations = result.2.transcript.evaluations.map d.call

omit [Capacity m] in
theorem Disguised.finish (hp : p.Masks d) (h : s.Disguised d s') (ending : Ending) :
    ComesTo d (s.finish p ending) (s'.finish (p.withObjective o') ending) := by
  cases ending with
  | fault fault => exact ⟨rfl, h.calls⟩
  | status status =>
    have hsettled := h.agree_settled hp o'
    unfold State.finish
    cases hresult : s.settled p with
    | error fault =>
      cases hresult' : s'.settled (p.withObjective o') with
      | ok b' => rw [hresult, hresult'] at hsettled; exact hsettled.elim
      | error fault' =>
        rw [hresult, hresult'] at hsettled
        obtain rfl : fault' = fault := hsettled
        exact ⟨rfl, h.calls⟩
    | ok b =>
      cases hresult' : s'.settled (p.withObjective o') with
      | error fault' => rw [hresult, hresult'] at hsettled; exact hsettled.elim
      | ok b' =>
        rw [hresult, hresult'] at hsettled
        have hlast : b.Disguised d b' := hsettled
        obtain ⟨t, ht, hcalls⟩ := b.callsLike_printLast p
        obtain ⟨t', ht', hcalls'⟩ := b'.callsLike_printLast (p.withObjective o')
        refine ⟨?_, ?_⟩
        · show Outcome.returned (b'.solution status) =
            .returned ((b.solution status).rescaled d.toRescaling)
          congr 1
          unfold solution Solution.rescaled
          rw [hlast.current.point, hlast.current.value, hlast.iterations, hlast.evaluations,
            hlast.restarts, hlast.norm]
        · show (b'.printLast (p.withObjective o')).transcript.evaluations =
            (b.printLast p).transcript.evaluations.map d.call
          rw [ht, ht']
          exact hcalls'.trans (hlast.calls.trans (congrArg _ hcalls.symm))

/-- The same for runs from states in the middle.  The first run may keep an invariant, from
which it is known that the set pins what is hidden and that the objective is disguised. -/
theorem Shadows.run (hp : p.Masks d) (o' : Objective σ' Exact n)
    (good : State Exact σ (Strategy Exact) n m → Prop)
    (hgood : ∀ s, good s → Ensures (s.turn p) good fun _ _ => True)
    (hplace : ∀ s, good s → ∀ x, p.feasible.projectVariables s.current.point = .ok x →
      x.PinnedAt d.hidden d.pinned ∧ d.HidesAt p.objective o' x)
    (turns : ℕ) (h : s.Shadows d s') (hs : good s) :
    ComesTo d (s.run p turns) (s'.run (p.withObjective o') turns) := by
  have hturn : ∀ (turns : ℕ) (s : State Exact σ (Strategy Exact) n m)
      (s' : State Exact σ' (Strategy Exact) n m), True → good s ∧ s.Shadows d s' →
      Mirrors (s.turn p) (s'.turn (p.withObjective o')) (fun b b' => good b ∧ b.Shadows d b')
        (Disguised d) := by
    intro turns s s' _ ⟨hs, h⟩
    exact ((h.mirrors_turn hp (hplace s hs)).ensuring (hgood s hs)).mono (fun _ _ h => h)
      fun _ _ h => h.2
  rcases runs_alike (fun _ => True) hturn turns s s' trivial ⟨hs, h⟩ with
    ⟨last, last', ⟨-, hlast⟩, hrun, hrun'⟩ | ⟨ending, last, last', hlast, hrun, hrun'⟩
  · rw [hrun, hrun']
    exact ⟨rfl, hlast.disguised.calls⟩
  · rw [hrun, hrun']
    exact hlast.finish hp ending

/-- What a run holds as the value before its first call is not looked at. -/
theorem run_revalued {α σ τ : Type} [Scalar α] (p : Problem α σ τ n) (s : State α σ τ n m)
    (value : α) (turns : ℕ) :
    let s' := { s with current := { s.current with value } }
    (s'.run p turns).1 = (s.run p turns).1 ∧
      (s'.run p turns).2.transcript = (s.run p turns).2.transcript := by
  intro s'
  cases turns with
  | zero => exact ⟨rfl, rfl⟩
  | succ turns =>
    unfold State.run turn project
    cases p.feasible.projectVariables s.current.point with
    | error fault => exact ⟨rfl, rfl⟩
    | ok x =>
      simp only [State.attempt, bind, Except.bind, pure, Except.pure, evaluate]
      rcases p.objective.evaluate s.objective x s.current.gradient with ⟨result, next⟩
      cases result with
      | error fault => exact ⟨rfl, rfl⟩
      | ok pair => exact ⟨rfl, rfl⟩

theorem initial_disguised (x : Vec Exact n) {objective : σ} {objective' : σ'}
    (hstates : d.states objective objective') (search : Strategy Exact) :
    let s' : State Exact σ' (Strategy Exact) n m :=
      State.initial (p.withObjective o') x objective' search
    (State.initial p x objective search : State Exact σ (Strategy Exact) n m).Disguised d
      { s' with current := { s'.current with value := d.value 0 } } := by
  have hzeros : Vec.ScaledOff d.hidden d.factor (Vec.zeros n) (Vec.zeros n) :=
    (Memory.scaledOff_empty (m := m) d.hidden d.factor).changes
      ⟨0, Nat.pos_of_ne_zero Capacity.ne_zero⟩
  have hfinite : Vec.FiniteOn d.hidden (Vec.zeros n) := fun i _ => by
    simp [Vec.zeros, Exact.zero_eq]
  exact
    { states := hstates
      current := ⟨rfl, rfl, hzeros, hfinite⟩
      origin := ⟨rfl, (d.value_infinite false).symm, hzeros, hfinite⟩
      anchored := .inl rfl
      projected := by
        refine ⟨?_, fun i _ => by simp [State.initial, Vec.zeros]⟩
        ext i
        simp [State.initial, Vec.zeros]
      norm := (Exact.smul_zero _).symm
      threshold := (Exact.smul_zero _).symm
      memory := Memory.scaledOff_empty _ _
      iterations := rfl
      evaluations := rfl
      restarts := rfl
      searching := rfl
      restored := rfl
      steepest := rfl
      calls := rfl }

/-- Where both runs begin, but for the value that the second one holds before its first
call. -/
theorem initial_shadows (hp : p.Masks d) (x : Vec Exact n) {objective : σ} {objective' : σ'}
    (hstates : d.states objective objective') {search : Strategy Exact}
    (hstpmin : d.factor⁻¹ • search.rule.stpmin = search.rule.stpmin) :
    let s' : State Exact σ' (Strategy Exact) n m :=
      State.initial (p.withObjective o') x objective' search
    (State.initial p x objective search : State Exact σ (Strategy Exact) n m).Shadows d
      { s' with current := { s'.current with value := d.value 0 } } := by
  obtain ⟨uses, huses⟩ := hp.search
  have hreset : p.search.reset search = search.reset := by
    rw [huses]
    rfl
  refine ⟨initial_disguised x hstates search, ?_, fun _ => ?_, nofun⟩
  · show d.factor⁻¹ • (p.search.reset search).rule.stpmin = (p.search.reset search).rule.stpmin
    rw [hreset, Strategy.rule_reset]
    exact hstpmin
  · show (p.search.reset search).StartsLike d.toRescaling (p.search.reset search)
    rw [hreset]
    exact Strategy.startsLike_reset _ _

end Capacity

end State

/-- The run on the second objective comes to the same, in disguise. -/
theorem Problem.Masks.solve [Capacity m] {p : Problem Exact σ (Strategy Exact) n}
    (hp : p.Masks d) (o' : Objective σ' Exact n)
    (good : State Exact σ (Strategy Exact) n m → Prop)
    (hgood : ∀ s, good s → State.Ensures (s.turn p) good fun _ _ => True)
    (hplace : ∀ s, good s → ∀ x, p.feasible.projectVariables s.current.point = .ok x →
      x.PinnedAt d.hidden d.pinned ∧ d.HidesAt p.objective o' x)
    (turns : ℕ) (x : Vec Exact n) (objective : σ) (objective' : σ')
    (hstates : d.states objective objective') {search : Strategy Exact}
    (hstpmin : d.factor⁻¹ • search.rule.stpmin = search.rule.stpmin)
    (hinitial : good (State.initial p x objective search)) :
    State.ComesTo d (p.solve m turns x objective search)
      ((p.withObjective o').solve m turns x objective' search) := by
  obtain ⟨houtcome, hcalls⟩ := (State.initial_shadows hp x hstates hstpmin).run hp o' good hgood
    hplace turns hinitial
  obtain ⟨hsame, hrecord⟩ := State.run_revalued (p.withObjective o')
    (State.initial (p.withObjective o') x objective' search : State Exact σ' _ n m) (d.value 0)
    turns
  exact ⟨hsame.symm.trans houtcome, (congrArg evaluations hrecord).symm.trans hcalls⟩

end

end VariableMetric
