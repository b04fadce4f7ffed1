import VariableMetric.Minimizer
import VariableMetric.Proofs.LineSearch.Steps
import VariableMetric.Proofs.Run.Counters
import VariableMetric.Proofs.Run.Growth
import VariableMetric.Proofs.Run.Reuse

/-!
# What a run can fail for

A run in the whole space or in a box calls an objective that always answers.  If there is no
room for its memory, or its bounds do not fit the variables, it fails before the first call.
Once the objective has been called, two things can still go wrong.  Variables without axes
make no pair that could be kept; so no run over them outlives its first iteration.  And a
search for the weak Wolfe conditions divides by the step, which may be zero if the least step
of its rule is not positive.

Any other run returns a solution, if one of its budgets bounds it.
-/

namespace VariableMetric

variable {α σ τ : Type} {n m : ℕ}

/-! ## What always answers -/

/-- An objective that never refuses to answer. -/
def Objective.IsTotal (o : Objective σ α n) : Prop :=
  ∀ objective x gradient, ∃ answer next, o.evaluate objective x gradient = (.ok answer, next)

structure FeasibleSet.IsTotal (S : FeasibleSet α n) : Prop where
  projectVariables : ∀ x, ∃ y, S.projectVariables x = .ok y
  projectGradient : ∀ x g, ∃ y, S.projectGradient x g = .ok y
  projectDirection : ∀ x d, ∃ y, S.projectDirection x d = .ok y
  shortcutStep : ∀ x d, ∃ step, S.shortcutStep x d = .ok step
  initialStep : ∀ x d lengths, ∃ step, S.initialStep x d lengths = .ok step

/-- The domains that minimizers are made for: the whole space, and boxes. -/
def Domain.IsOrdinary : Domain α → Prop
  | unconstrained => True
  | box _ => True
  | _ => False

section Sets

variable [Scalar α]

theorem FeasibleSet.unconstrained_isTotal :
    (FeasibleSet.unconstrained : FeasibleSet α n).IsTotal where
  projectVariables x := ⟨x, rfl⟩
  projectGradient _ g := ⟨g, rfl⟩
  projectDirection _ d := ⟨d, rfl⟩
  shortcutStep _ _ := ⟨_, rfl⟩
  initialStep _ _ _ := ⟨_, rfl⟩

theorem FeasibleSet.within_isTotal (p : Precision) (b : Bounds α n) :
    (FeasibleSet.within p b).IsTotal where
  projectVariables _ := ⟨_, rfl⟩
  projectGradient _ _ := ⟨_, rfl⟩
  projectDirection _ _ := ⟨_, rfl⟩
  shortcutStep _ _ := ⟨_, rfl⟩
  initialStep _ _ _ := ⟨_, rfl⟩

/-- Bounds that cannot be had are found out by the first operation of a run. -/
theorem FeasibleSet.ofBounds_cases (p : Precision) (bounds : Except Fault (Bounds α n)) :
    (FeasibleSet.ofBounds p bounds).IsTotal ∨
      ∃ fault, ∀ x, (FeasibleSet.ofBounds p bounds).projectVariables x = .error fault := by
  cases bounds with
  | ok b => exact .inl (within_isTotal p b)
  | error fault => exact .inr ⟨fault, fun _ => rfl⟩

theorem Domain.IsOrdinary.recallSet_cases {d : Domain α} (h : d.IsOrdinary)
    (kept : KeptBounds α) (shape : Shape) (p : Precision) :
    (d.recallSet kept shape p).1.IsTotal ∨
      ∃ fault, ∀ x, (d.recallSet kept shape p).1.projectVariables x = .error fault := by
  cases d with
  | unconstrained => exact .inl FeasibleSet.unconstrained_isTotal
  | box b => exact FeasibleSet.ofBounds_cases p _
  | _ => exact absurd h id

theorem Memory.direction_ne_error [Capacity m] (mem : Memory α n m) (p : Precision)
    {project : Vec α n → Except Fault (Vec α n)} (h : ∀ d, ∃ y, project d = .ok y)
    (before g w : Vec α n) {fault : Fault} {memory : Memory α n m}
    {notices : List (Notice α)} :
    mem.direction p project before g w ≠ (.error fault, memory, notices) := by
  intro heq
  unfold direction directionFrom at heq
  split at heq
  next => cases heq
  next =>
    dsimp only at heq
    split at heq
    next => cases heq
    next =>
      split at heq
      next hrefused =>
        obtain ⟨y, hy⟩ := h _
        cases hy.symm.trans hrefused
      next => split at heq <;> cases heq

end Sets

open Transcript

namespace State

variable [Scalar α] {p : Problem α σ (Strategy α) n} {rule : Rule α} {uses : Bool}
  {s ready : State α σ (Strategy α) n m}

/-! ## What a turn can fail for -/

/-- What has gone wrong in a turn: a pair was due that cannot be kept, or the slope was due
at the end of a step of no length that the strategy had asked for. -/
inductive Blames (p : Problem α σ (Strategy α) n) (rule : Rule α)
    (s : State α σ (Strategy α) n m) : Fault → Prop
  | unkept (hkeeps : p.keepsPairs = false) (hdue : 1 ≤ s.iterations) : Blames p rule s .wrongKind
  | unmoved (huses : p.search.usesDerivative = true) (hzero : Scalar.equal s.step 0 = true)
      (hallows : rule.Allows s.step) : Blames p rule s .divisionByZero

/-- How a turn can end.  Where no pairs are kept, a search that is accepted ends the run, by
a fault or for the budget of iterations. -/
structure EndsFor (p : Problem α σ (Strategy α) n) (rule : Rule α) (ending : Ending)
    (s : State α σ (Strategy α) n m) : Prop where
  blames : ∀ fault, ending = .fault fault → s.Blames p rule fault
  unkept : p.keepsPairs = false → s.transcript.acceptedSearches = 0 ∨
    ending = .fault .wrongKind ∨ ending = .status .tooManyIterations

/-- A run whose strategy asks for steps that its rule allows.  Where no pairs are kept, it
has not accepted a search yet. -/
structure Sure (p : Problem α σ (Strategy α) n) (rule : Rule α)
    (s : State α σ (Strategy α) n m) : Prop where
  strategy : s.search.rule = rule
  allows : s.searching = true → rule.Allows s.step
  restored : s.restored = false
  unkept : p.keepsPairs = false → s.transcript.acceptedSearches = 0

/-- The strategy has had its say.  If it has accepted a search, a pair is due. -/
structure Replying (p : Problem α σ (Strategy α) n) (rule : Rule α)
    (s : State α σ (Strategy α) n m) : Prop where
  strategy : s.search.rule = rule
  allows : s.searching = true → rule.Allows s.step
  restored : s.searching = true → s.restored = false
  unkept : p.keepsPairs = false → s.transcript.acceptedSearches = 0 ∨
    s.searching = false ∧ s.restored = false ∧ 1 ≤ s.iterations

theorem endsFor_status {status : Status}
    (h : p.keepsPairs = false → s.transcript.acceptedSearches = 0) :
    s.EndsFor p rule (.status status) where
  blames := nofun
  unkept hkeeps := .inl (h hkeeps)

theorem initial_sure (hstrategy : p.search = .ofStrategy uses) (x : Vec α n) (objective : σ)
    (search : Strategy α) :
    (State.initial p x objective search : State α σ (Strategy α) n m).Sure p search.rule where
  strategy := by
    show (p.search.reset search).rule = search.rule
    rw [hstrategy]
    exact search.rule_reset
  allows := nofun
  restored := rfl
  unkept _ := rfl

theorem ne_error_of_ok {β : Type} {result : Except Fault β} {fault : Fault}
    (h : ∃ b, result = .ok b) : result ≠ .error fault := by
  obtain ⟨b, rfl⟩ := h
  exact nofun

/-! ## The call -/

theorem Sure.ensures_project (h : s.Sure p rule) (hset : p.feasible.IsTotal) :
    Ensures (s.project p) (fun s => s.Sure p rule) (fun e s => s.EndsFor p rule e) := by
  apply State.ensures_project
  · intro x _
    exact { h with }
  · exact fun _ hfault => absurd hfault (ne_error_of_ok (hset.projectVariables _))

theorem Sure.ensures_evaluate (h : s.Sure p rule) (hobjective : p.objective.IsTotal) :
    Ensures (s.evaluate p) (fun s => s.Sure p rule) (fun e s => s.EndsFor p rule e) := by
  apply State.ensures_evaluate
  · intro value gradient objective _
    exact { h with }
  · intro fault objective hrefused
    obtain ⟨answer, next, hanswer⟩ := hobjective s.objective s.current.point s.current.gradient
    cases hanswer.symm.trans hrefused

theorem Sure.ensures_measure (h : s.Sure p rule) (hset : p.feasible.IsTotal) :
    Ensures (s.measure p) (fun s => s.Sure p rule) (fun e s => s.EndsFor p rule e) := by
  apply State.ensures_measure
  · intro projected _
    exact { h with }
  · exact fun _ hfault => absurd hfault (ne_error_of_ok (hset.projectGradient _ _))

theorem Sure.ensures_settle (h : s.Sure p rule) :
    Ensures (s.setThreshold p).settle (fun s => s.Sure p rule)
      (fun e s => s.EndsFor p rule e) := by
  have hset : (s.setThreshold p).Sure p rule :=
    setThreshold_of (·.Sure p rule) fun _ => { h with }
  exact State.ensures_settle (fun _ => endsFor_status hset.unkept) fun _ => hset

/-! ## The answer of the strategy -/

section Told

variable {slope : α} {reply : Reply α} {search : Strategy α}

omit [Scalar α] in
theorem acceptedSearches_told (hstatus : reply.status ≠ .converged) :
    (s.told slope reply search).transcript.acceptedSearches =
      s.transcript.acceptedSearches := by
  rw [(s.leadsUpTo_told slope reply search).view acceptedSearches_bookkeeping]
  exact acceptedSearches_of_not_isEntry (isEntry_iterated hstatus _ _ _ _) _

theorem acceptedSearches_sentBack (projected : Vec α n) :
    (s.sentBack projected).transcript.acceptedSearches = s.transcript.acceptedSearches := by
  have hnotified := s.leadsUpTo_notify [.searchAbandoned s.iterations]
  rw [← hnotified.view acceptedSearches_bookkeeping]
  exact acceptedSearches_of_not_isEntry rfl _

/-- A search that is accepted leaves a pair to be pushed, unless the run ends with it. -/
theorem Sure.ensures_accept (h : s.Sure p rule) (hsearch : search.rule = rule) :
    Ensures ((s.told slope reply search).accept p) (fun s => s.Replying p rule)
      (fun e s => s.EndsFor p rule e) := by
  apply State.ensures_accept
  · intro _ _
    exact { blames := nofun, unkept := fun _ => .inr (.inr rfl) }
  · intro _
    exact
      { strategy := hsearch
        allows := nofun
        restored := nofun
        unkept := fun _ => .inr ⟨rfl, h.restored, Nat.le_add_left 1 s.iterations⟩ }

theorem Sure.ensures_abandon (h : s.Sure p rule) (hset : p.feasible.IsTotal)
    (hsearch : search.rule = rule) (hstatus : reply.status ≠ .converged) :
    Ensures ((s.told slope reply search).abandon p) (fun s => s.Replying p rule)
      (fun e s => s.EndsFor p rule e) := by
  have hunkept : p.keepsPairs = false →
      (s.told slope reply search).transcript.acceptedSearches = 0 :=
    fun hkeeps => (acceptedSearches_told hstatus).trans (h.unkept hkeeps)
  apply State.ensures_abandon
  · exact fun _ => endsFor_status hunkept
  · intro _ projected _
    exact
      { strategy := hsearch
        allows := nofun
        restored := nofun
        unkept := fun hkeeps => .inl ((acceptedSearches_sentBack _).trans (hunkept hkeeps)) }
  · exact fun _ hfault => absurd hfault (ne_error_of_ok (hset.projectGradient _ _))

theorem Sure.ensures_follow (h : s.Sure p rule) (hset : p.feasible.IsTotal)
    (hsearch : search.rule = rule)
    (hallows : reply.status = .searching → rule.Allows reply.step) :
    Ensures ((s.told slope reply search).follow p reply.status)
      (fun s => s.Replying p rule) (fun e s => s.EndsFor p rule e) := by
  cases hstatus : reply.status with
  | searching =>
    exact
      { strategy := hsearch
        allows := fun _ => hallows hstatus
        restored := fun _ => h.restored
        unkept := fun hkeeps =>
          .inl ((acceptedSearches_told (by simp [hstatus])).trans (h.unkept hkeeps)) }
  | converged => exact h.ensures_accept hsearch
  | failed => exact h.ensures_abandon hset hsearch (by simp [hstatus])

theorem trialSlope_eq_error {fault : Fault} (h : s.trialSlope p = .error fault) :
    fault = .divisionByZero ∧ p.search.usesDerivative = true ∧ Scalar.equal s.step 0 = true := by
  unfold trialSlope at h
  split at h
  next huses =>
    dsimp only at h
    split at h
    next hzero =>
      cases h
      exact ⟨rfl, huses, hzero⟩
    next => cases h
  next => cases h

theorem Sure.ensures_consult (h : s.Sure p rule) (hset : p.feasible.IsTotal)
    (hstrategy : p.search = .ofStrategy uses) :
    Ensures (s.consult p) (fun s => s.Replying p rule) (fun e s => s.EndsFor p rule e) := by
  have hquiet : s.Replying p rule :=
    { h with
      restored := fun _ => h.restored
      unkept := fun hkeeps => .inl (h.unkept hkeeps) }
  refine State.ensures_consult (fun _ => hquiet) fun hsearching => ?_
  apply ensures_report
  · intro slope reply search _ hcall
    rw [hstrategy, LineSearch.ofStrategy_iterate] at hcall
    cases hcall
    apply h.ensures_follow hset
    · rw [Strategy.rule_iterate, h.strategy]
    · rw [← h.strategy]
      exact Strategy.allows_iterate
  · intro fault hslope
    obtain ⟨rfl, huses, hzero⟩ := trialSlope_eq_error hslope
    constructor
    · rintro _ ⟨⟩
      exact .unmoved huses hzero (h.allows hsearching)
    · exact fun hkeeps => .inl (h.unkept hkeeps)
  · intro slope fault search hcall
    rw [hstrategy, LineSearch.ofStrategy_iterate] at hcall
    cases hcall

end Told

/-! ## The next search -/

variable [Capacity m]

theorem ensures_aim_total (hset : p.feasible.IsTotal)
    {ended : Ending → State α σ (Strategy α) n m → Prop} :
    Ensures (s.aim p) (fun _ => True) ended := by
  have hsteer : ∀ s : State α σ (Strategy α) n m,
      Ensures (s.steer p) (fun _ => True) ended := by
    intro s
    apply ensures_attempt
    · exact fun _ _ => trivial
    · exact fun _ hfault => absurd hfault (ne_error_of_ok (hset.initialStep _ _ _))
  have hpropose : Ensures (s.propose p) (fun _ => True) ended := by
    apply ensures_propose
    · exact fun _ _ _ _ => ⟨fun _ => trivial, fun _ => trivial⟩
    · exact fun _ _ _ hfault =>
        absurd hfault (s.memory.direction_ne_error _ (hset.projectDirection _) _ _ _)
  exact ensures_aim (fun _ => hsteer s) (fun _ => hpropose) (fun _ _ _ => trivial)
    fun s' _ => hsteer s'

/-- On the way to a search only a pair that cannot be kept makes a fault. -/
theorem ensures_approach_blames (rule : Rule α) (hset : p.feasible.IsTotal) :
    Ensures (s.approach p) (fun _ => True)
      (fun e last => ∀ fault, e = .fault fault → last.Blames p rule fault) := by
  have hremember : Ensures ((s.printDue p).remember p) (fun _ => True)
      (fun e last => ∀ fault, e = .fault fault → last.Blames p rule fault) := by
    apply ensures_remember
    · exact fun _ _ => trivial
    · exact fun _ => trivial
    · rintro hkeeps hdue _ ⟨⟩
      exact .unkept hkeeps hdue
  exact hremember.bind fun _ _ => ensures_aim_total hset

theorem ensures_approach_steers (hset : p.feasible.IsTotal)
    (hunkept : p.keepsPairs = false → s.transcript.acceptedSearches = 0) :
    Ensures (s.approach p) (fun a => s.Steers p s.HasPairs a.2.2)
      (fun e s => s.EndsFor p rule e) := by
  have hboth := ensures_approach.and (ensures_approach_blames (s := s) rule hset)
  refine hboth.mono (fun _ ha => ha.1) fun ending last hlast => ?_
  constructor
  · exact hlast.2
  · intro hkeeps
    left
    rw [hlast.1.2.view acceptedSearches_bookkeeping]
    exact hunkept hkeeps

omit [Capacity m] in
theorem ensures_begin_sure (hset : p.feasible.IsTotal) (hstrategy : p.search = .ofStrategy uses)
    (hrule : s.search.rule = rule) (hrestored : s.restored = false)
    (hunkept : p.keepsPairs = false → s.transcript.acceptedSearches = 0) (slope first : α) :
    Ensures (s.begin p slope first) (fun s => s.Sure p rule) (fun e s => s.EndsFor p rule e) := by
  have hchosen : ∀ step cap, (s.chosen slope step cap).transcript.acceptedSearches =
      s.transcript.acceptedSearches := fun step cap =>
    (s.leadsUpTo_chosen slope step cap).view acceptedSearches_bookkeeping
  apply State.ensures_begin
  · exact fun cap _ _ => endsFor_status fun hkeeps => (hchosen _ cap).trans (hunkept hkeeps)
  · intro cap reply search _ _ hcall
    rw [hstrategy, LineSearch.ofStrategy_start] at hcall
    have hsearch := s.search.rule_start s.current.value slope (Scalar.least first cap) cap
    have hallows : (s.search.start s.current.value slope (Scalar.least first cap) cap).1.status =
        .searching → s.search.rule.Allows
          (s.search.start s.current.value slope (Scalar.least first cap) cap).1.step :=
      Strategy.allows_start
    rw [hcall, hrule] at hsearch hallows
    have hbegun : p.keepsPairs = false → Transcript.acceptedSearches
        ((s.chosen slope (Scalar.least first cap) cap).begun
          (s.pass slope (Scalar.least first cap) cap) reply search).transcript = 0 := by
      intro hkeeps
      rw [(State.leadsUpTo_begun _ _ _ _).view acceptedSearches_bookkeeping]
      exact (acceptedSearches_of_not_isEntry rfl _).trans ((hchosen _ cap).trans (hunkept hkeeps))
    constructor
    · intro hstatus
      exact
        { strategy := hsearch
          allows := fun _ => hallows hstatus
          restored := hrestored
          unkept := hbegun }
    · exact fun _ => endsFor_status hbegun
  · exact fun _ hfault => absurd hfault (ne_error_of_ok (hset.shortcutStep _ _))

/-- A pair that is due and cannot be kept ends the turn. -/
theorem seek_of_unkept (hidle : s.searching = false) (hkeeps : p.keepsPairs = false)
    (hrestored : s.restored = false) (hdue : 1 ≤ s.iterations) :
    s.seek p = .error (.fault .wrongKind, s.printDue p) := by
  have hready := leadsUpTo_printDue p s
  rw [seek_of_idle hidle]
  unfold remember
  rw [if_pos, if_neg (by simp [hkeeps])]
  · rfl
  · rw [hready.iterations, (printDue_kept p s).1]
    exact ⟨hdue, by simp [hrestored]⟩

theorem Replying.ensures_seek (h : s.Replying p rule) (hset : p.feasible.IsTotal)
    (hstrategy : p.search = .ofStrategy uses) :
    Ensures (s.seek p) (fun s => s.Sure p rule) (fun e s => s.EndsFor p rule e) := by
  cases hsearching : s.searching with
  | true =>
    rw [seek_of_searching hsearching]
    exact
      { h with
        restored := h.restored hsearching
        unkept := fun hkeeps => (h.unkept hkeeps).resolve_right (by simp [hsearching]) }
  | false =>
    by_cases hdue : p.keepsPairs = false ∧ s.restored = false ∧ 1 ≤ s.iterations
    · obtain ⟨hkeeps, hrestored, hiterations⟩ := hdue
      rw [seek_of_unkept hsearching hkeeps hrestored hiterations]
      constructor
      · rintro _ ⟨⟩
        exact .unkept hkeeps ((leadsUpTo_printDue p s).iterations.symm ▸ hiterations)
      · exact fun _ => .inr (.inl rfl)
    · have hunkept : p.keepsPairs = false → s.transcript.acceptedSearches = 0 := fun hkeeps =>
        (h.unkept hkeeps).resolve_right fun hright => hdue ⟨hkeeps, hright.2⟩
      rw [seek_eq p hsearching]
      refine (ensures_approach_steers hset hunkept).bind fun (slope, first, ready) hready => ?_
      apply ensures_begin_sure hset hstrategy
      · rw [hready.search, h.strategy]
      · exact hready.restored
      · intro hkeeps
        rw [hready.view acceptedSearches_bookkeeping]
        exact hunkept hkeeps

/-! ## Turns and runs -/

omit [Capacity m] in
theorem Sure.ensures_meter (h : s.Sure p rule) :
    Ensures (s.meter p) (fun s => (s.advance p).Sure p rule) (fun e s => s.EndsFor p rule e) := by
  apply State.ensures_meter
  · exact fun _ _ => endsFor_status h.unkept
  · intro _
    exact { h with }

theorem Sure.ensures_turn (h : s.Sure p rule) (hset : p.feasible.IsTotal)
    (hobjective : p.objective.IsTotal) (hstrategy : p.search = .ofStrategy uses) :
    Ensures (s.turn p) (fun s => s.Sure p rule) (fun e s => s.EndsFor p rule e) :=
  State.ensures_turn (h.ensures_project hset) (fun _ hs => hs.ensures_evaluate hobjective)
    (fun _ hs => hs.ensures_measure hset) (fun _ hs => hs.ensures_settle)
    (fun _ hs => hs.ensures_consult hset hstrategy)
    (fun _ hs => hs.ensures_seek hset hstrategy) (fun _ hs => hs.ensures_meter)

omit [Capacity m] in
theorem exists_settled (hset : p.feasible.IsTotal) (s : State α σ (Strategy α) n m) :
    ∃ final, s.settled p = .ok final := by
  unfold settled
  split
  · obtain ⟨projected, hprojected⟩ := hset.projectGradient s.origin.point s.origin.gradient
    unfold measured atOrigin
    dsimp only
    rw [hprojected]
    exact ⟨_, rfl⟩
  · exact ⟨s, rfl⟩

omit [Capacity m] in
/-- What a run fails for, it fails for in its last turn. -/
theorem EndsFor.finish {ending : Ending} (h : s.EndsFor p rule ending)
    (hset : p.feasible.IsTotal) {outcome : Outcome α n} {last : State α σ (Strategy α) n m}
    (hrun : s.finish p ending = (outcome, last)) :
    (∀ fault, outcome = .failed fault → last.Blames p rule fault) ∧
      (p.keepsPairs = false → last.transcript.acceptedSearches = 0 ∨
        outcome = .failed .wrongKind ∨
        ∃ solution, outcome = .returned solution ∧ solution.status = .tooManyIterations) := by
  cases ending with
  | fault fault =>
    cases hrun
    constructor
    · rintro _ ⟨⟩
      exact h.blames fault rfl
    · intro hkeeps
      rcases h.unkept hkeeps with hnone | hwrong | hspent
      · exact .inl hnone
      · cases hwrong
        exact .inr (.inl rfl)
      · cases hspent
  | status status =>
    obtain ⟨final, hsettled⟩ := exists_settled hset s
    have hreturned : s.finish p (.status status) =
        (.returned (final.solution status), final.printLast p) := by
      unfold State.finish
      rw [hsettled]
    obtain ⟨-, hcloses⟩ := closes_finish hreturned
    cases hreturned.symm.trans hrun
    constructor
    · exact nofun
    · intro hkeeps
      rcases h.unkept hkeeps with hnone | hwrong | hspent
      · left
        rw [hcloses.view fun e t he =>
          acceptedSearches_bookkeeping e t (isBookkeeping_of_isTable he)]
        exact hnone
      · cases hwrong
      · cases hspent
        exact .inr (.inr ⟨_, rfl, rfl⟩)

end State

namespace Problem

variable [Scalar α] [Capacity m] {p : Problem α σ (Strategy α) n} {uses : Bool}
  {x : Vec α n} {objective : σ} {search : Strategy α}

theorem solve_sure (hset : p.feasible.IsTotal) (hobjective : p.objective.IsTotal)
    (hstrategy : p.search = .ofStrategy uses) {turns : ℕ} {outcome : Outcome α n}
    {last : State α σ (Strategy α) n m}
    (hrun : p.solve m turns x objective search = (outcome, last)) :
    (∀ fault, outcome = .failed fault → last.Blames p search.rule fault) ∧
      (p.keepsPairs = false → last.transcript.acceptedSearches = 0 ∨
        outcome = .failed .wrongKind ∨
        ∃ solution, outcome = .returned solution ∧ solution.status = .tooManyIterations) := by
  have hturn := fun (s : State α σ (Strategy α) n m) (hs : s.Sure p search.rule) =>
    hs.ensures_turn hset hobjective hstrategy
  unfold solve at hrun
  rcases State.run_cases hturn turns _ (State.initial_sure hstrategy x objective search) with
    ⟨unfinished, hsure, heq⟩ | ⟨ending, s, hends, heq⟩
  · cases heq.symm.trans hrun
    exact ⟨nofun, fun hkeeps => .inl (hsure.unkept hkeeps)⟩
  · exact hends.finish hset (heq.symm.trans hrun)

/-- Every turn makes a call, so a budget of calls bounds the turns as well. -/
theorem finished_of_evaluations {turns : ℕ} {outcome : Outcome α n}
    {last : State α σ (Strategy α) n m}
    (hrun : p.solve m turns x objective search = (outcome, last))
    (hlimited : 0 ≤ p.settings.maxEvaluations)
    (hturns : max 1 p.settings.maxEvaluations ≤ turns) : outcome ≠ .unfinished := by
  intro hunfinished
  have hleft := ((State.solve_paced hrun).1 hunfinished).metered.callsLeft hlimited
  exact absurd hturns (not_le_of_gt hleft)

/-- A run whose variables cannot be brought into the set does not get beyond its start. -/
theorem solve_of_unfit {fault : Fault} (hunfit : ∀ x, p.feasible.projectVariables x = .error fault)
    (turns : ℕ) :
    (p.solve m turns x objective search).2 = State.initial p x objective search := by
  cases turns with
  | zero => rfl
  | succ turns =>
    unfold solve State.run State.turn State.project
    rw [hunfit]
    rfl

end Problem

/-! ## Minimizers -/

namespace Minimizer

variable {min : Minimizer σ (Strategy Float)} {kind : StrategyKind} {fresh : Strategy Float}
  {x : Variables} {session : Session σ (Strategy Float)} {turns : ℕ}
  {outcome : Outcome Float x.shape.size} {final : min.Final x} {kept : KeptBounds Float}

/-- A run either makes no call of the objective and leaves the variables as they are, or is
the run of a problem whose set always answers. -/
theorem solve_cases (hdomain : min.domain.IsOrdinary)
    (hrun : min.solve turns x session = (outcome, final, kept)) :
    (final.transcript.evaluations = [] ∧ final.transcript.acceptedSearches = 0 ∧
        final.current.point = x.data) ∨
      ∃ feasible : FeasibleSet Float x.shape.size, feasible.IsTotal ∧
        (min.problem x feasible).solve min.plan.capacity turns x.data session.objective
          session.search = (outcome, final) := by
  have hinitial : ∀ p : Problem Float σ (Strategy Float) x.shape.size,
      final = State.initial p x.data session.objective session.search →
      final.transcript.evaluations = [] ∧ final.transcript.acceptedSearches = 0 ∧
        final.current.point = x.data := by
    rintro p rfl
    exact ⟨rfl, rfl, rfl⟩
  unfold solve at hrun
  dsimp only at hrun
  cases hroom : Memory.checkRoom min.plan.capacity x.shape x.precision with
  | error fault =>
    rw [hroom] at hrun
    cases hrun
    exact .inl (hinitial _ rfl)
  | ok room =>
    rw [hroom] at hrun
    obtain ⟨houtcome, hrun⟩ := Prod.mk.inj hrun
    obtain ⟨hfinal, -⟩ := Prod.mk.inj hrun
    rcases hdomain.recallSet_cases session.kept x.shape x.precision with hset | ⟨fault, hunfit⟩
    · exact .inr ⟨_, hset, Prod.ext houtcome hfinal⟩
    · left
      apply hinitial (min.problem x (min.domain.recallSet session.kept x.shape x.precision).1)
      rw [← hfinal]
      exact Problem.solve_of_unfit hunfit turns

end Minimizer

/-- Only variables without axes make pairs that cannot be kept, and a step has no length only
if the least one is not positive. -/
theorem State.Blames.cases_of_minimizer {min : Minimizer σ (Strategy Float)}
    {fresh : Strategy Float} {rule : Rule Float} {x : Variables}
    {feasible : FeasibleSet Float x.shape.size}
    {s : State Float σ (Strategy Float) x.shape.size m} {fault : Fault}
    (hsearch : min.search = .ofStrategy fresh.usesDerivative) (hrule : rule = fresh.rule)
    (h : s.Blames (min.problem x feasible) rule fault) :
    fault = .wrongKind ∧ x.shape = [] ∧ 1 ≤ s.iterations ∨
      fault = .divisionByZero ∧ fresh.usesDerivative = true ∧ ¬ 0 < fresh.rule.stpmin ∧
        Scalar.equal s.step 0 = true := by
  subst hrule
  cases h with
  | unkept hkeeps hdue => exact .inl ⟨rfl, by simpa [Minimizer.problem] using hkeeps, hdue⟩
  | unmoved huses hzero hallows =>
    have huses : min.search.usesDerivative = true := huses
    rw [hsearch] at huses
    exact .inr ⟨rfl, huses, hallows.not_stpmin_pos hzero, hzero⟩

theorem Outcome.exists_returned {outcome : Outcome α n}
    (hfailed : ∀ fault, outcome ≠ .failed fault) (hfinished : outcome ≠ .unfinished) :
    ∃ solution, outcome = .returned solution := by
  cases outcome with
  | returned solution => exact ⟨solution, rfl⟩
  | failed fault => exact absurd rfl (hfailed fault)
  | unfinished => exact absurd rfl hfinished

/-!
## Sample runs

A minimizer of a parabola is started three steps beside the lowest point, with variables that
have one axis and with variables that have none.  The slope of its first direction is the
square of the norm there, which is taken as a power, and what a power gives is known to the
platform only.  So the runs are computed with nine for the square of three; they are those of
the minimizer wherever that power is nine.
-/

def Outcome.isWrongKind : Outcome α n → Bool
  | .failed .wrongKind => true
  | _ => false

theorem Outcome.eq_wrongKind {β : Type} {result : Outcome α n × β}
    (h : result.1.isWrongKind = true) : result = (.failed .wrongKind, result.2) := by
  obtain ⟨outcome, b⟩ := result
  cases outcome with
  | failed fault => cases fault with
    | wrongKind => rfl
    | _ => cases h
  | _ => cases h

/-- Doubles, with a given square of one of them. -/
abbrev Scalar.squaring (a b : Float) : Scalar Float :=
  { (inferInstance : Scalar Float) with square := fun x => if x = a then b else Scalar.square x }

theorem Scalar.squaring_eq {a b : Float} (h : Scalar.square a = b) :
    Scalar.squaring a b = (inferInstance : Scalar Float) := by
  have hsquare : (fun x => if x = a then b else Scalar.square x) =
      (Scalar.square : Float → Float) := by
    funext x
    split
    next hx => rw [hx, h]
    next => rfl
  unfold Scalar.squaring
  rw [hsquare]

namespace Sample

def plainMinimizer : Minimizer ℕ (Strategy Float) where
  objective := parabola.objective none
  domain := .unconstrained
  plan := ⟨3, by decide, ⟨-1, 2, (0.0, 1e-6), (1.0, 0.0), 0⟩, Config.default.search⟩
  search := .ofStrategy false

/-- The run of the minimizer with other scalar operations. -/
def plainRun (scalars : Scalar Float) (x : Variables) :
    Outcome Float x.shape.size × plainMinimizer.Final x :=
  @Problem.solve Float ℕ (Strategy Float) scalars _ (plainMinimizer.problem x .unconstrained)
    plainMinimizer.plan.capacity _ 9 x.data 0 backtrackingSearch

theorem plainMinimizer_solve {x : Variables}
    (hroom : Memory.checkRoom plainMinimizer.plan.capacity x.shape x.precision = .ok ()) :
    plainMinimizer.solve 9 x (.new 0 backtrackingSearch) =
      ((plainRun inferInstance x).1, (plainRun inferInstance x).2, .none) := by
  unfold Minimizer.solve
  rw [hroom]
  rfl

theorem plainMinimizer_solve_of_square {x : Variables}
    (hroom : Memory.checkRoom plainMinimizer.plan.capacity x.shape x.precision = .ok ())
    (h : Scalar.square (3.0 : Float) = 9.0) :
    plainMinimizer.solve 9 x (.new 0 backtrackingSearch) =
      ((plainRun (.squaring 3.0 9.0) x).1, (plainRun (.squaring 3.0 9.0) x).2, .none) := by
  rw [Scalar.squaring_eq h]
  exact plainMinimizer_solve hroom

theorem plainMinimizer_calls {x : Variables}
    (hroom : Memory.checkRoom plainMinimizer.plan.capacity x.shape x.precision = .ok ()) :
    (plainMinimizer.solve 9 x (.new 0 backtrackingSearch)).2.1.transcript.evaluations ≠ [] := by
  obtain ⟨answer, hmem⟩ : ∃ answer, (x.data, answer) ∈
      (plainRun inferInstance x).2.transcript.evaluations := State.exists_call rfl
  rw [plainMinimizer_solve hroom]
  exact List.ne_nil_of_mem hmem

/-- One number along one axis. -/
def axis : Variables := ⟨[1], .double, .replicate _ 0.0⟩

def axisRun : Outcome Float axis.shape.size × plainMinimizer.Final axis × KeptBounds Float :=
  plainMinimizer.solve 9 axis (.new 0 backtrackingSearch)

/-- The same number without an axis. -/
def point : Variables := ⟨[], .double, .replicate _ 0.0⟩

def pointRun : Outcome Float point.shape.size × plainMinimizer.Final point :=
  plainRun (.squaring 3.0 9.0) point

theorem build_default :
    Strategy.build .backtracking (.ofOptions Config.default.search) = .ok backtrackingSearch :=
  rfl

theorem parabola_isTotal : (parabola.objective none .double [1]).IsTotal := by
  rintro calls ⟨l, hl⟩ gradient
  obtain ⟨a, rfl⟩ := List.length_eq_one_iff.mp hl
  exact ⟨_, _, rfl⟩

end Sample

section Called

variable {min : Minimizer σ (Strategy Float)} {kind : StrategyKind} {fresh : Strategy Float}
  {x : Variables} {session : Session σ (Strategy Float)} {turns : ℕ}
  {outcome : Outcome Float x.shape.size} {final : min.Final x} {kept : KeptBounds Float}

/-- A run that has called its objective can fail in two ways: over variables without axes,
when its first pair is due, and where slopes are taken at a step that need not be positive.
No other run fails once it has called its objective, and it returns a solution within the
turns that either of its budgets allows. -/
theorem Minimizer.returned_of_called (hdomain : min.domain.IsOrdinary)
    (hobjective : (min.objective x.precision x.shape).IsTotal)
    (hbuild : Strategy.build kind (.ofOptions min.plan.search) = .ok fresh)
    (hsearch : min.search = .ofStrategy fresh.usesDerivative)
    (hrule : session.search.rule = fresh.rule)
    (hrun : min.solve turns x session = (outcome, final, kept)) :
    (∀ fault, outcome = .failed fault →
        final.transcript.evaluations = [] ∧ final.current.point = x.data ∨
          fault = .wrongKind ∧ x.shape = [] ∧ 1 ≤ final.iterations ∨
          fault = .divisionByZero ∧ fresh.usesDerivative = true ∧ ¬ 0 < fresh.rule.stpmin ∧
            Scalar.equal final.step 0 = true) ∧
      (x.shape = [] → final.transcript.acceptedSearches = 0 ∨ outcome = .failed .wrongKind ∨
        ∃ solution, outcome = .returned solution ∧ solution.status = .tooManyIterations) ∧
      (final.transcript.evaluations ≠ [] → x.shape ≠ [] →
        (fresh.usesDerivative = true → 0 < fresh.rule.stpmin) →
        (∀ fault, outcome ≠ .failed fault) ∧
          (0 ≤ min.plan.settings.maxEvaluations →
            max 1 min.plan.settings.maxEvaluations ≤ turns →
            ∃ solution, outcome = .returned solution) ∧
          (0 ≤ min.plan.settings.maxIterations →
            1 + 2 * fresh.limit * (max 1 min.plan.settings.maxIterations).toNat ≤ turns →
            ∃ solution, outcome = .returned solution)) := by
  rcases Minimizer.solve_cases hdomain hrun with
    ⟨hnone, haccepted, hpoint⟩ | ⟨feasible, hset, hsolve⟩
  · exact ⟨fun _ _ => .inl ⟨hnone, hpoint⟩, fun _ => .inl haccepted, fun hcalled =>
      absurd hnone hcalled⟩
  · obtain ⟨hblames, hunkept⟩ := Problem.solve_sure hset hobjective hsearch hsolve
    have hfailed := fun fault hfault =>
      State.Blames.cases_of_minimizer hsearch hrule (hblames fault hfault)
    refine ⟨fun fault hfault => .inr (hfailed fault hfault), ?_, ?_⟩
    · intro hshape
      exact hunkept (by simp [Minimizer.problem, hshape])
    · intro _ hshape hpositive
      have hnever : ∀ fault, outcome ≠ .failed fault := by
        intro fault hfault
        rcases hfailed fault hfault with ⟨-, hnil, -⟩ | ⟨-, huses, hnot, -⟩
        · exact hshape hnil
        · exact hnot (hpositive huses)
      have hlimit : session.search.limit = fresh.limit := by
        rw [← Strategy.limit_rule, hrule, Strategy.limit_rule]
      have hone : 1 ≤ session.search.limit := hlimit ▸ Strategy.one_le_limit_of_build hbuild
      refine ⟨hnever, fun hlimited hturns => ?_, fun hlimited hturns => ?_⟩
      · exact Outcome.exists_returned hnever
          (Problem.finished_of_evaluations hsolve hlimited hturns)
      · obtain ⟨-, -, hbounded⟩ := Problem.work_bounded hsearch hone hsolve
        exact Outcome.exists_returned hnever ((hbounded hlimited).2 (hlimit ▸ hturns))

/-- Where three squared is nine, the run accepts a step, pushes its pair and takes a direction
from it before it returns. -/
theorem Sample.axisRun_returned :
    plainMinimizer.domain.IsOrdinary ∧
      (plainMinimizer.objective axis.precision axis.shape).IsTotal ∧
      Strategy.build .backtracking (.ofOptions plainMinimizer.plan.search) =
        .ok backtrackingSearch ∧
      plainMinimizer.search = .ofStrategy backtrackingSearch.usesDerivative ∧
      axisRun.2.1.transcript.evaluations ≠ [] ∧ axis.shape ≠ [] ∧
      (backtrackingSearch.usesDerivative = true → 0 < backtrackingSearch.rule.stpmin) ∧
      0 ≤ plainMinimizer.plan.settings.maxEvaluations ∧
      max 1 plainMinimizer.plan.settings.maxEvaluations ≤ (9 : ℕ) ∧
      (∃ solution, axisRun.1 = .returned solution) ∧
      (Scalar.square (3.0 : Float) = 9.0 →
        axisRun.2.1.transcript.evaluations =
            [(⟨[0.0], rfl⟩, some 4.5), (⟨[1.0], rfl⟩, some 2.0)] ∧
          axisRun.2.1.memory.updates = 1 ∧ axisRun.2.1.iterations = 1 ∧
          axisRun.2.1.steepest = false) := by
  have hrun : axisRun = (axisRun.1, axisRun.2.1, axisRun.2.2) := by simp only [Prod.mk.eta]
  have hordinary : plainMinimizer.domain.IsOrdinary := trivial
  have hobjective : (plainMinimizer.objective axis.precision axis.shape).IsTotal :=
    parabola_isTotal
  have hcalled : axisRun.2.1.transcript.evaluations ≠ [] := by
    unfold axisRun
    exact plainMinimizer_calls rfl
  have hshape : axis.shape ≠ [] := by decide
  obtain ⟨-, -, hreturned⟩ :=
    Minimizer.returned_of_called hordinary hobjective build_default rfl rfl hrun
  obtain ⟨-, hlimited, -⟩ := hreturned hcalled hshape nofun
  refine ⟨hordinary, hobjective, build_default, rfl, hcalled, hshape, nofun, by decide,
    by decide, hlimited (by decide) (by decide), fun hsquare => ?_⟩
  rw [show axisRun = _ from plainMinimizer_solve_of_square rfl hsquare]
  decide +kernel

/-- The variables have been moved by then, and the objective has been called twice. -/
theorem Sample.pointRun_fails_after_calls :
    (Scalar.square (3.0 : Float) = 9.0 →
      plainMinimizer.solve 9 point (.new 0 backtrackingSearch) = (pointRun.1, pointRun.2, .none)) ∧
      pointRun = (.failed .wrongKind, pointRun.2) ∧
      pointRun.2.transcript.evaluations =
        [(⟨[0.0], rfl⟩, some 4.5), (⟨[1.0], rfl⟩, some 2.0)] ∧
      pointRun.2.current.point = ⟨[1.0], rfl⟩ ∧ pointRun.2.current.point ≠ point.data := by
  refine ⟨plainMinimizer_solve_of_square rfl, Outcome.eq_wrongKind ?_, ?_, ?_, ?_⟩
  all_goals decide +kernel

end Called

end VariableMetric
