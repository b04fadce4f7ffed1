import VariableMetric.Objective.Samples
import VariableMetric.Proofs.FeasibleSet.Kept
import VariableMetric.Proofs.LineSearch.Trials
import VariableMetric.Proofs.Run.Comparison
import VariableMetric.Report

/-!
# Runs after other runs

A run resets its line search, but a reset leaves some of the old search in place.  All
that is left is overwritten when the next search is begun, so two strategies of one rule
begin every search alike after a reset, whatever they were used for before.  From there
on they are the same.

So a minimizer that is used again, with a line search that has served other runs and a
box that has rounded its bounds for them, makes the run that a new one would make.
-/

namespace VariableMetric

variable {α σ τ : Type} {n m : ℕ}

/-! ## Strategies after a reset -/

namespace Strategy

variable [Scalar α]

/-- Nothing of an old search is left once a search is begun. -/
theorem start_reset_congr {t t' : Strategy α} (hrule : t'.rule = t.rule) :
    t'.reset.start = t.reset.start := by
  funext value slope step cap
  cases t with
  | backtracking b => cases t' with
    | backtracking b' =>
      have hsafeguard : b'.rule = b.rule := Rule.backtracking.inj hrule
      simp only [reset, start, Backtracking.reset, Backtracking.start, hsafeguard]
    | _ => cases hrule
  | nonmonotone b => cases t' with
    | nonmonotone b' =>
      obtain ⟨hsafeguard, hwindow⟩ := Rule.nonmonotone.inj hrule
      simp only [reset, start, Nonmonotone.reset, Nonmonotone.start, Nonmonotone.remember,
        hsafeguard, hwindow]
    | _ => cases hrule
  | wolfe b => cases t' with
    | wolfe b' =>
      have hsame : b'.rule = b.rule := Rule.wolfe.inj hrule
      simp only [reset, start, Wolfe.reset, Wolfe.start, hsame]
    | _ => cases hrule

end Strategy

/-! ## What a run does to its line search -/

section Kept

variable [Scalar α] {p : Problem α σ τ n} {P : τ → Prop} {s : State α σ τ n m}

namespace State

theorem ensures_follow_search {status : SearchStatus} (h : P s.search) :
    Ensures (s.follow p status) (fun s => P s.search) fun _ s => P s.search := by
  cases status with
  | searching => exact h
  | converged => exact ensures_accept (fun _ _ => h) fun _ => h
  | failed => exact ensures_abandon (fun _ => h) (fun _ _ _ => h) fun _ _ => h

theorem ensures_consult_search
    (hiterate : ∀ t step value slope, P t → P (p.search.iterate t step value slope).2)
    (h : P s.search) : Ensures (s.consult p) (fun s => P s.search) fun _ s => P s.search := by
  refine ensures_consult (fun _ => h) fun _ => ?_
  refine ensures_report (fun slope reply search _ hreply => ?_) (fun _ _ => h)
    fun slope fault search hreply => ?_
  · have hsearch := hiterate s.search s.step s.current.value slope h
    rw [hreply] at hsearch
    exact ensures_follow_search (s := s.told slope reply search) hsearch
  · have hsearch := hiterate s.search s.step s.current.value slope h
    rw [hreply] at hsearch
    exact hsearch

theorem ensures_begin_search
    (hstart : ∀ t value slope step cap, P t → P (p.search.start t value slope step cap).2)
    (h : P s.search) (slope first : α) :
    Ensures (s.begin p slope first) (fun s => P s.search) fun _ s => P s.search := by
  refine ensures_begin (fun _ _ _ => h) (fun cap reply search _ _ hreply => ?_) fun _ _ => h
  have hsearch := hstart s.search s.current.value slope (Scalar.least first cap) cap h
  rw [hreply] at hsearch
  exact ⟨fun _ => hsearch, fun _ => hsearch⟩

theorem ensures_gauge_search (h : P s.search) :
    Ensures (s.gauge p) (fun s => P s.search) fun _ s => P s.search := by
  have hproject : Ensures (s.project p) (fun s => P s.search) fun _ s => P s.search :=
    ensures_project (fun _ _ => h) fun _ _ => h
  have hevaluate : ∀ s : State α σ τ n m, P s.search →
      Ensures (s.evaluate p) (fun s => P s.search) fun _ s => P s.search := fun _ h =>
    ensures_evaluate (fun _ _ _ _ => h) fun _ _ _ => h
  have hmeasure : ∀ s : State α σ τ n m, P s.search →
      Ensures (s.measure p) (fun s => P s.search) fun _ s => P s.search := fun _ h =>
    ensures_measure (fun _ _ => h) fun _ _ => h
  refine State.ensures_gauge hproject hevaluate hmeasure fun s h => ?_
  have hset : P (s.setThreshold p).search := setThreshold_of (P ·.search) fun _ => h
  exact ensures_settle (fun _ => hset) fun _ => hset

theorem ensures_seek_search [Capacity m]
    (hstart : ∀ t value slope step cap, P t → P (p.search.start t value slope step cap).2)
    (h : P s.search) : Ensures (s.seek p) (fun s => P s.search) fun _ s => P s.search := by
  refine ensures_seek_steers (fun _ => h) (fun _ ready slope first hready => ?_)
    fun _ fault ready hready => ?_
  · exact ensures_begin_search hstart (hready.search ▸ h) slope first
  · exact hready.search ▸ h

theorem ensures_turn_search [Capacity m]
    (hstart : ∀ t value slope step cap, P t → P (p.search.start t value slope step cap).2)
    (hiterate : ∀ t step value slope, P t → P (p.search.iterate t step value slope).2)
    (h : P s.search) : Ensures (s.turn p) (fun s => P s.search) fun _ s => P s.search := by
  have hmeter : ∀ s : State α σ τ n m, P s.search →
      Ensures (s.meter p) (fun s => P s.search) fun _ s => P s.search := fun _ h =>
    ensures_meter (fun _ _ => h) fun _ => h
  rw [turn_eq]
  refine (ensures_gauge_search h).bind fun s h => ?_
  refine (ensures_consult_search hiterate h).bind fun s h => ?_
  refine (ensures_seek_search hstart h).bind fun s h => ?_
  exact (hmeter s h).bind fun _ h => h

theorem search_finish (p : Problem α σ τ n) (ending : Ending) (s : State α σ τ n m) :
    (s.finish p ending).2.search = s.search := by
  have hprint (s : State α σ τ n m) : (s.printLast p).search = s.search :=
    printLast_of (·.search = s.search) (fun _ h => h) (fun _ _ h => h) rfl
  unfold finish
  cases ending with
  | fault fault => rfl
  | status status =>
    dsimp only
    split
    next final hsettled =>
      rw [hprint]
      rcases settled_cases hsettled with ⟨-, rfl⟩ | ⟨-, projected, -, rfl⟩ <;> rfl
    next => rfl

end State

/-- What every start and every report of a trial leaves true of a line search is true of
it after a run. -/
theorem Problem.solve_search [Capacity m]
    (hstart : ∀ t value slope step cap, P t → P (p.search.start t value slope step cap).2)
    (hiterate : ∀ t step value slope, P t → P (p.search.iterate t step value slope).2)
    (turns : ℕ) (x : Vec α n) (objective : σ) {t : τ} (ht : P (p.search.reset t)) :
    P (p.solve m turns x objective t).2.search := by
  have hturn := fun (s : State α σ τ n m) (h : P s.search) =>
    State.ensures_turn_search hstart hiterate h
  unfold Problem.solve
  rcases State.run_cases hturn turns (State.initial p x objective t) ht with
    ⟨last, hlast, hrun⟩ | ⟨ending, last, hlast, hrun⟩
  · rw [hrun]
    exact hlast
  · rw [hrun, State.search_finish]
    exact hlast

end Kept

/-! ## Runs whose line searches start alike -/

/-- Runs that look alike from outside: the line searches begin every search alike, and
are the same while a search is on. -/
def Likeness.outside (search : LineSearch α τ) : Likeness α τ n where
  steps := Eq
  records := Eq
  idle t t' := search.start t' = search.start t
  busy _ t _ t' := t' = t
  cons e _ _ h := congrArg (e :: ·) h
  printed row _ _ _ _ hstep hrecord := by rw [hstep, hrecord]

namespace Likeness

open State

theorem Resembles.looks_alike {search : LineSearch α τ} {s s' : State α σ τ n m}
    (h : (outside search).Resembles s s') :
    s'.current = s.current ∧ s'.transcript = s.transcript := by
  obtain ⟨objective, search, -, hrecord⟩ := h
  exact ⟨rfl, hrecord.symm⟩

variable [Scalar α] {p : Problem α σ τ n} {s s' : State α σ τ n m}

/-- Line searches that are the same while a search is on answer alike. -/
theorem Matches.mirrors_consult (h : (outside p.search).Matches s s') :
    Mirrors (s.consult p) (s'.consult p) (outside p.search).Matches
      (outside p.search).Resembles := by
  have hmatches := h
  obtain ⟨⟨objective, search, hstep, hrecord⟩, hidle, hbusy⟩ := h
  unfold consult
  dsimp only
  split
  next hsearching =>
    obtain rfl : search = s.search := hbusy hsearching
    obtain rfl := hstep
    obtain rfl := hrecord
    refine mirrors_attempt rfl (fun slope _ => ?_) (.intro s objective s.search rfl rfl)
    dsimp only
    rcases p.search.iterate s.search s.step s.current.value slope with ⟨result, search⟩
    cases result with
    | error fault =>
      exact ⟨rfl, (Resembles.intro { s with search } objective search rfl rfl).record _⟩
    | ok reply =>
      have htold : (outside p.search).Resembles (s.told slope reply search)
          { s.told slope reply search with objective } :=
        .intro (s.told slope reply search) objective search rfl rfl
      exact htold.mirrors_follow rfl (.refl p.feasible s.origin.point) fun _ =>
        ⟨htold, fun _ => rfl, fun _ => rfl⟩
  next => exact hmatches

theorem Matches.mirrors_begin (h : (outside p.search).Matches s s')
    (hidle : s.searching = false) (slope first : α) :
    Mirrors (s.begin p slope first) (s'.begin p slope first) (outside p.search).Matches
      (outside p.search).Resembles := by
  have hstart := h.idle hidle
  obtain ⟨⟨objective, search, hstep, hrecord⟩, -, -⟩ := h
  obtain rfl := hstep
  obtain rfl := hrecord
  let s' : State α σ τ n m := { s with objective, search }
  show Mirrors (s.begin p slope first) (s'.begin p slope first) _ _
  have hsame : p.feasible.shortcutStep s'.current.point s'.direction =
    p.feasible.shortcutStep s.current.point s.direction := rfl
  cases hcap : p.feasible.shortcutStep s.current.point s.direction with
  | error fault =>
    rw [begin_of_error hcap, begin_of_error (hsame.trans hcap)]
    exact ⟨rfl, .intro s objective search rfl rfl⟩
  | ok cap =>
    have hanswer : p.search.start s'.search s'.current.value slope (Scalar.least first cap) cap =
        p.search.start s.search s.current.value slope (Scalar.least first cap) cap :=
      congrFun (congrFun (congrFun (congrFun hstart _) _) _) _
    rw [begin_of_ok hcap, begin_of_ok (hsame.trans hcap)]
    dsimp only
    rw [hanswer]
    split
    · exact ⟨rfl, .intro (s.chosen slope (Scalar.least first cap) cap) objective search rfl rfl⟩
    · generalize p.search.start s.search s.current.value slope (Scalar.least first cap) cap =
        answer
      have hbegun : (outside p.search).Resembles
          ((s.chosen slope (Scalar.least first cap) cap).begun
            (s.pass slope (Scalar.least first cap) cap) answer.1 answer.2)
          ((s'.chosen slope (Scalar.least first cap) cap).begun
            (s'.pass slope (Scalar.least first cap) cap) answer.1 answer.2) :=
        .intro _ objective _ rfl rfl
      split
      · exact ⟨.intro _ objective _ rfl rfl, nofun, fun _ => rfl⟩
      · exact ⟨rfl, hbegun⟩

variable [Capacity m]

theorem Matches.mirrors_seek (h : (outside p.search).Matches s s') :
    Mirrors (s.seek p) (s'.seek p) (outside p.search).Matches (outside p.search).Resembles := by
  by_cases hidle : s.searching = false
  · have hidle' : s'.searching = false := by
      obtain ⟨⟨objective, search, hstep, hrecord⟩, -, -⟩ := h
      exact hidle
    rw [seek_eq p hidle, seek_eq p hidle']
    have happroach := (h.mirrors_approach (.refl p.feasible s.current.point)).ensuring
      ensures_approach
    refine (happroach.mono (fun _ _ h => h) fun _ _ h => h.2).bind ?_
    rintro ⟨slope, first, ready⟩ ⟨slope', first', ready'⟩ - ⟨hready, hslope, hfirst, hmatches⟩
    obtain rfl : slope' = slope := hslope
    obtain rfl : first' = first := hfirst
    exact hmatches.mirrors_begin (hready.searching.trans hidle) slope' first'
  · have hbusy : s.searching = true := by simpa using hidle
    have hbusy' : s'.searching = true := by
      obtain ⟨⟨objective, search, hstep, hrecord⟩, -, -⟩ := h
      exact hbusy
    rw [seek_of_searching hbusy, seek_of_searching hbusy']
    exact h

theorem Matches.mirrors_turn (hfunction : p.objective.IsFunction)
    (h : (outside p.search).Matches s s') :
    Mirrors (s.turn p) (s'.turn p) (outside p.search).Matches (outside p.search).Resembles := by
  rw [turn_eq, turn_eq]
  refine (h.mirrors_gauge (.refl p.feasible _)
    fun x _ => ⟨hfunction.isFunctionAt x, .refl p.feasible x⟩).bind fun _ _ _ h => ?_
  refine h.mirrors_consult.bind fun _ _ _ h => ?_
  refine h.mirrors_seek.bind fun _ _ _ h => ?_
  refine h.mirrors_meter.bind ?_
  rintro s _ - ⟨⟨objective, search, hstep, hrecord⟩, hidle, hbusy⟩
  obtain rfl := hstep
  exact ⟨.intro (s.advance p) objective search rfl hrecord, hidle, hbusy⟩

end Likeness

/-- Two runs of one problem are alike if their line searches begin every search alike
after a reset, whatever the states of the objective. -/
theorem Problem.solve_alike [Scalar α] [Capacity m] {p : Problem α σ τ n}
    (hfunction : p.objective.IsFunction) {t t' : τ}
    (hstart : p.search.start (p.search.reset t') = p.search.start (p.search.reset t))
    (turns : ℕ) (x : Vec α n) (objective objective' : σ) :
    (p.solve m turns x objective' t').1 = (p.solve m turns x objective t).1 ∧
      (Likeness.outside p.search).Resembles (p.solve m turns x objective t).2
        (p.solve m turns x objective' t').2 := by
  have hinitial : (Likeness.outside p.search).Matches
      (State.initial p x objective t : State α σ τ n m) (State.initial p x objective' t') :=
    ⟨.intro (State.initial p x objective t) objective' _ rfl rfl, fun _ => hstart, nofun⟩
  unfold Problem.solve
  rcases State.runs_alike (fun _ => True)
      (fun _ _ _ _ h => Likeness.Matches.mirrors_turn hfunction h) turns _ _ trivial hinitial with
    ⟨last, last', hlast, hrun, hrun'⟩ | ⟨ending, last, last', hlast, hrun, hrun'⟩
  · rw [hrun, hrun']
    exact ⟨rfl, hlast.resembles⟩
  · rw [hrun, hrun']
    exact hlast.finish ending fun _ => .refl p.feasible _

/-! ## Minimizers that are used again -/

/-- What runs leave of a line search and of the bounds of a domain: whatever the runs
are for, wherever they start and however they end, on the way included. -/
inductive LeftOver (domain : Domain Float) (fresh : Strategy Float) :
    Strategy Float → KeptBounds Float → Prop
  /-- There have been no runs. -/
  | unused : LeftOver domain fresh fresh .none
  /-- A minimizer for the domain has made a run. -/
  | used {search : Strategy Float} {kept : KeptBounds Float} {σ : Type}
      (min : Minimizer σ (Strategy Float)) {uses : Bool} (hdomain : min.domain = domain)
      (hsearch : min.search = .ofStrategy uses) (turns : ℕ) (x : Variables) (objective : σ)
      (h : LeftOver domain fresh search kept) :
      LeftOver domain fresh (min.resume turns x ⟨objective, search, kept⟩).2.search
        (min.resume turns x ⟨objective, search, kept⟩).2.kept
  /-- A minimizer for another domain has made a run with the line search. -/
  | lent {search : Strategy Float} {kept : KeptBounds Float} {σ : Type}
      (min : Minimizer σ (Strategy Float)) {uses : Bool}
      (hsearch : min.search = .ofStrategy uses) (turns : ℕ) (x : Variables) (objective : σ)
      (other : KeptBounds Float) (h : LeftOver domain fresh search kept) :
      LeftOver domain fresh (min.resume turns x ⟨objective, search, other⟩).2.search kept

namespace Minimizer

variable {min : Minimizer σ τ}

theorem rule_resume {min : Minimizer σ (Strategy Float)} {uses : Bool}
    (hsearch : min.search = .ofStrategy uses) (turns : ℕ) (x : Variables)
    (session : Session σ (Strategy Float)) :
    (min.resume turns x session).2.search.rule = session.search.rule := by
  unfold resume solve
  dsimp only
  cases Memory.checkRoom min.plan.capacity x.shape x.precision with
  | error fault =>
    show (min.search.reset session.search).rule = session.search.rule
    rw [hsearch]
    exact session.search.rule_reset
  | ok room =>
    refine Problem.solve_search (P := fun t : Strategy Float => t.rule = session.search.rule)
      ?_ ?_ _ _ _ ?_
    · intro t value slope step cap ht
      show ((min.search.start t value slope step cap).2).rule = _
      rw [hsearch, ← ht]
      exact t.rule_start value slope step cap
    · intro t step value slope ht
      show ((min.search.iterate t step value slope).2).rule = _
      rw [hsearch, ← ht]
      exact t.rule_iterate step value slope
    · show (min.search.reset session.search).rule = session.search.rule
      rw [hsearch]
      exact session.search.rule_reset

theorem kept_resume {session : Session σ τ} (h : min.domain.Kept session.kept) (turns : ℕ)
    (x : Variables) : min.domain.Kept (min.resume turns x session).2.kept := by
  unfold resume solve
  dsimp only
  cases Memory.checkRoom min.plan.capacity x.shape x.precision with
  | error fault => exact h
  | ok room => exact h.recallSet_snd x.shape x.precision

end Minimizer

theorem LeftOver.same_rule {domain : Domain Float} {fresh search : Strategy Float}
    {kept : KeptBounds Float} (h : LeftOver domain fresh search kept) :
    search.rule = fresh.rule := by
  induction h with
  | unused => rfl
  | used min hdomain hsearch turns x objective _ ih =>
    exact (Minimizer.rule_resume hsearch turns x _).trans ih
  | lent min hsearch turns x objective other _ ih =>
    exact (Minimizer.rule_resume hsearch turns x _).trans ih

theorem LeftOver.domain_kept {domain : Domain Float} {fresh search : Strategy Float}
    {kept : KeptBounds Float} (h : LeftOver domain fresh search kept) : domain.Kept kept := by
  induction h with
  | unused => exact Domain.kept_none
  | used min hdomain hsearch turns x objective _ ih =>
    subst hdomain
    exact Minimizer.kept_resume ih turns x
  | lent min hsearch turns x objective other _ ih => exact ih

/-- A minimizer that is used again reports what a new one reports, whatever runs its line
search and its box have served before. -/
theorem Minimizer.resume_like_new {min : Minimizer σ (Strategy Float)} {uses : Bool}
    (hsearch : min.search = .ofStrategy uses)
    (hfunction : ∀ p s, (min.objective p s).IsFunction)
    {session : Session σ (Strategy Float)} {fresh : Strategy Float}
    (hleft : LeftOver min.domain fresh session.search session.kept) (turns : ℕ)
    (x : Variables) (objective : σ) :
    (min.resume turns x session).1 = (min.resume turns x (.new objective fresh)).1 := by
  have hstart : min.search.start (min.search.reset session.search) =
      min.search.start (min.search.reset fresh) := by
    rw [hsearch]
    exact Strategy.start_reset_congr hleft.same_rule
  unfold resume solve Session.new
  dsimp only
  rw [hleft.domain_kept.recallSet_fst, Domain.kept_none.recallSet_fst]
  cases Memory.checkRoom min.plan.capacity x.shape x.precision with
  | error fault => rfl
  | ok room =>
    obtain ⟨houtcome, hfinal⟩ := Problem.solve_alike (m := min.plan.capacity)
      (p := min.problem x (min.domain.toSet x.shape x.precision))
      (hfunction x.precision x.shape) hstart turns x.data objective session.objective
    obtain ⟨hcurrent, htranscript⟩ := hfinal.looks_alike
    show Report.mk _ _ _ _ _ = Report.mk _ _ _ _ _
    rw [houtcome, hcurrent, htranscript]

/-! ## A sample session

An objective refuses to answer at the second point, while a search is on, in a box whose
bounds are no numbers of single precision.  Then the line search and the box are used for
a parabola. -/

namespace Sample

theorem objective_isFunction {sample : Sample} (h : ∀ answers, sample ≠ .scripted answers)
    (wall : Option Wall) (p : Precision) (shape : Shape) :
    (sample.objective wall p shape).IsFunction := by
  refine ⟨fun x => ((sample.objective wall p shape).evaluate 0 x (Vec.zeros _)).1, ?_⟩
  intro calls x gradient
  cases sample with
  | scripted answers => exact absurd rfl (h answers)
  | _ => rfl

def reusedBox : Box Float :=
  ⟨⟨[], .floating .double, ⟨[0.1], rfl⟩⟩, ⟨[], .floating .double, ⟨[0.7], rfl⟩⟩⟩

def boxedMinimizer (sample : Sample) : Minimizer ℕ (Strategy Float) where
  objective := sample.objective none
  domain := .box reusedBox
  plan := ⟨1, by decide, ⟨-1, 3, (0.0, 1e-6), (1.0, 0.0), 0⟩, Config.default.search⟩
  search := .ofStrategy false

def fallingOut : Sample := .scripted [some (4.5, [-3.0]), none]

def backtrackingSearch : Strategy Float := .backtracking (Backtracking.new ⟨1e-4, 0.1, 1e-20, 30⟩)

def singleStart : Variables := ⟨[1], .single, .replicate _ 0.0⟩

def interrupted : Session ℕ (Strategy Float) :=
  ((boxedMinimizer fallingOut).resume 9 singleStart (.new 0 backtrackingSearch)).2

theorem interrupted_like_new :
    LeftOver (.box reusedBox) backtrackingSearch interrupted.search interrupted.kept ∧
      interrupted.kept .single = some (reusedBox.rounded .single) ∧
      ((boxedMinimizer (.quadratic [1.0] [3.0] 0.0)).resume 9 singleStart interrupted).1 =
        ((boxedMinimizer (.quadratic [1.0] [3.0] 0.0)).resume 9 singleStart
          (.new 0 backtrackingSearch)).1 := by
  have hsession : interrupted = ((boxedMinimizer fallingOut).resume 9 singleStart
      ⟨0, backtrackingSearch, .none⟩).2 := rfl
  have hunused : LeftOver (.box reusedBox) backtrackingSearch backtrackingSearch .none := .unused
  have hleft := hunused.used (boxedMinimizer fallingOut) rfl rfl 9 singleStart (0 : ℕ)
  rw [← hsession] at hleft
  have hkept : interrupted.kept .single = some (reusedBox.rounded .single) := by
    rw [hsession]
    unfold Minimizer.resume Minimizer.solve
    dsimp only
    rfl
  have hsearch : (boxedMinimizer (.quadratic [1.0] [3.0] 0.0)).search = .ofStrategy false := rfl
  have hfunction : ∀ p s,
      ((boxedMinimizer (.quadratic [1.0] [3.0] 0.0)).objective p s).IsFunction :=
    objective_isFunction (by rintro answers ⟨⟩) none
  have hlike := Minimizer.resume_like_new hsearch hfunction hleft 9 singleStart 0
  exact ⟨hleft, hkept, hlike⟩

end Sample

end VariableMetric
