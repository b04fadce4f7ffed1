import VariableMetric.Proofs.FeasibleSet.Interior
import VariableMetric.Proofs.LineSearch.Caps
import VariableMetric.Proofs.Run.Comparison
import VariableMetric.Proofs.Run.Usable

/-!
# Runs with and without a cap

In the whole space nothing caps a search along a direction that does not vanish.  A set
may do what the whole space does at the points of a region, and still cap the searches
from there.  If a path comes to rest only after it has left the region, then a search
does not notice the cap as long as its trials stay in the region.

So two runs, one in the whole space and one in such a set, consult their line searches
and begin new searches alike, if the first one goes on inside the region.
-/

namespace VariableMetric

noncomputable section

open Transcript

variable {σ : Type} {n m : ℕ}

/-- An objective that computes a value and a gradient at every real vector. -/
def Objective.Computes (o : Objective σ Exact n) (f : (Fin n → ℝ) → ℝ)
    (g : (Fin n → ℝ) → Fin n → ℝ) : Prop :=
  ∀ objective x gradient,
    (o.evaluate objective (.ofReals x) gradient).1 = .ok (.real (f x), .ofReals (g x))

/-! ## Sets that are out of the way -/

/-- Whether a cap lies above every step that leads from `x` along `d` into a region. -/
def Clears (p : Precision) (inside : Vec Exact n → Prop) (x d : Vec Exact n) (cap : Exact) :
    Prop :=
  ∀ step, inside (Vec.combine p 1 x step d) → step < cap

/-- A set that does what the whole space does at the points of a region, and in which no
path that starts there comes to rest before it has left the region for good. -/
structure FeasibleSet.FreeOn (S : FeasibleSet Exact n) (p : Precision)
    (inside : Vec Exact n → Prop) : Prop where
  answers : ∀ x, inside x → S.AnswersLike .unconstrained x
  shortcut : ∀ x d, inside (.ofReals x) → d ≠ 0 →
    ∃ cap, S.shortcutStep (.ofReals x) (.ofReals d) = .ok cap ∧
      Clears p inside (.ofReals x) (.ofReals d) cap

theorem Box.toSet_freeOn {box : Box Exact} {shape : Shape} (p : Precision)
    (hlower : box.lower.shape.broadcastsTo shape = true)
    (hupper : box.upper.shape.broadcastsTo shape = true) :
    (box.toSet shape p).FreeOn p (box.Surrounds shape) := by
  rw [Box.toSet_eq hlower hupper]
  refine ⟨fun x hx => ?_, fun x d hx hne => ⟨_, rfl, fun step hstep => ?_⟩⟩
  · have hin := hx.surround_ranges p
    exact
      { point := congrArg Except.ok hin.clamp
        gradient := funext fun g => congrArg Except.ok (hin.cleared g g)
        direction := funext fun d => congrArg Except.ok (hin.cleared _ d)
        initialStep := rfl }
  · exact (hx.surround_ranges p).lt_shortcutStep hne (hstep.surround_ranges p)

/-- A problem in the whole space, and a set that is out of its way in a region. -/
structure Problem.Unhindered (p : Problem Exact σ (Strategy Exact) n) (S : FeasibleSet Exact n)
    (inside : Vec Exact n → Prop) (rule : Rule Exact) : Prop where
  proper : p.Proper (fun _ => Set.univ) rule
  unconstrained : p.feasible = .unconstrained
  free : S.FreeOn p.precision inside
  unmetered : p.settings.maxEvaluations < 0
  computes : ∃ f g, p.objective.Computes f g

theorem Problem.Unhindered.answers {p : Problem Exact σ (Strategy Exact) n}
    {S : FeasibleSet Exact n} {inside : Vec Exact n → Prop} {rule : Rule Exact}
    (hp : p.Unhindered S inside rule) {x : Vec Exact n} (hx : inside x) :
    S.AnswersLike p.feasible x := by
  rw [hp.unconstrained]
  exact hp.free.answers x hx

/-! ## Searches of one run -/

namespace State

variable {p : Problem Exact σ (Strategy Exact) n} {S : FeasibleSet Exact n}
  {inside : Vec Exact n → Prop} {rule : Rule Exact} {s : State Exact σ (Strategy Exact) n m}
  {uses : Bool} {slope : Exact}

theorem consult_of_strategy (huses : p.search = .ofStrategy uses)
    (hsearching : s.searching = true) (hslope : s.trialSlope p = .ok slope) :
    s.consult p = (s.told slope (s.search.iterate s.step s.current.value slope).1
      (s.search.iterate s.step s.current.value slope).2).follow p
        (s.search.iterate s.step s.current.value slope).1.status := by
  apply consult_of_reply hsearching hslope
  rw [huses]
  rfl

theorem begin_of_strategy (huses : p.search = .ofStrategy uses) {first step cap : Exact}
    (hcap : p.feasible.shortcutStep s.current.point s.direction = .ok cap)
    (hleast : Scalar.least first cap = step) (hpositive : ¬ step ≤ 0) {reply : Reply Exact}
    {search : Strategy Exact}
    (hstart : s.search.start s.current.value slope step cap = (reply, search))
    (hstatus : reply.status = .searching) :
    s.begin p slope first =
      .ok { (s.chosen slope step cap).begun (s.pass slope step cap) reply search with
        searching := true } := by
  apply begin_of_searching hcap hleast hpositive ?_ hstatus
  rw [huses]
  exact hstart

/-- In the whole space a search begins with the step that it is given. -/
theorem Aimed.begin_uncapped (hp : p.Proper (fun _ => Set.univ) rule)
    (hset : p.feasible = .unconstrained) (h : s.Aimed p (fun _ => Set.univ) rule slope)
    {a : ℝ} (ha : 0 < a) :
    ∃ reply search,
      s.search.start s.current.value slope (.real a) Scalar.infinity = (reply, search) ∧
        reply.status = .searching ∧ reply.step = .real a ∧
        search.search.cap = Scalar.infinity ∧
        s.begin p slope (.real a) = .ok { (s.chosen slope (.real a) Scalar.infinity).begun
          (s.pass slope (.real a) Scalar.infinity) reply search with searching := true } := by
  obtain ⟨x, f, g, d, -, -, -, hdirection, -, hdescends⟩ := h.aim
  obtain ⟨uses, huses⟩ := hp.search
  have hcap : p.feasible.shortcutStep s.current.point s.direction = .ok Scalar.infinity := by
    rw [hset, hdirection]
    exact congrArg Except.ok (FeasibleSet.freeStep_of_ne_zero hdescends.ne_zero)
  have hleast : Scalar.least (.real a) Scalar.infinity = Exact.real a :=
    Exact.least_infinite_right a
  let answer := s.search.start s.current.value slope (.real a) Scalar.infinity
  have hstart : s.search.start s.current.value slope (.real a) Scalar.infinity =
    (answer.1, answer.2) := Prod.mk.eta.symm
  obtain ⟨hstatus, -⟩ := h.begun hp hcap ha rfl hstart
  exact ⟨answer.1, answer.2, hstart, hstatus, (Strategy.step_start _ _ _ _ _).trans hleast,
    Strategy.cap_start _ _ _ _ _,
    begin_of_strategy huses hcap hleast (not_le.mpr ha) hstart hstatus⟩

end State

/-! ## Runs with and without a cap -/

/-- Runs of which the first does not cap its searches.  A cap of the second lies above
the trial under way, and has a property besides. -/
def Likeness.capped (clear : Exact → Prop) : Likeness Exact (Strategy Exact) n where
  steps _ _ := True
  records t t' := t'.evaluations = t.evaluations
  idle t t' := ∃ cap, t' = t.withCap cap
  busy step t step' t' := step' = step ∧
    ∃ cap, t' = t.withCap cap ∧ t.search.cap = Scalar.infinity ∧ step < cap ∧ clear cap
  cons e t t' h := by
    unfold evaluations at h ⊢
    rw [collect_cons, collect_cons, h]
  printed row step step' t t' _ h := by
    rw [evaluations_of_not_isCall rfl, evaluations_of_not_isCall rfl]
    exact h

/-- A state of the second run, beside one of the first. -/
def State.beside (s : State Exact σ (Strategy Exact) n m) (step : Exact) (objective : σ)
    (cap : Exact) (transcript : Transcript Exact n) : State Exact σ (Strategy Exact) n m :=
  { s with step, objective, search := s.search.withCap cap, transcript }

namespace Likeness

open State

variable {clear clear' : Exact → Prop} {p : Problem Exact σ (Strategy Exact) n}
  {S : FeasibleSet Exact n} {inside : Vec Exact n → Prop} {rule : Rule Exact}
  {s s' : State Exact σ (Strategy Exact) n m}

theorem Resembles.recapped (h : (capped clear).Resembles s s') :
    (capped clear').Resembles s s' := by
  obtain ⟨objective, search, -, hrecord⟩ := h
  exact .intro s objective search trivial hrecord

theorem Resembles.evaluations (h : (capped clear).Resembles s s') :
    s'.transcript.evaluations = s.transcript.evaluations := by
  obtain ⟨objective, search, -, hrecord⟩ := h
  exact hrecord

theorem resembles_beside (step : Exact) (objective : σ) (cap : Exact)
    {t : Transcript Exact n} (h : t.evaluations = s.transcript.evaluations) :
    (capped clear).Resembles s (s.beside step objective cap t) :=
  .intro s objective _ trivial h

theorem Matches.of_idle (h : (capped clear).Matches s s') (hidle : s.searching = false) :
    ∃ step objective cap t, s' = s.beside step objective cap t ∧
      t.evaluations = s.transcript.evaluations := by
  obtain ⟨⟨objective, search, -, hrecord⟩, hcapped, -⟩ := h
  obtain ⟨cap, rfl⟩ := hcapped hidle
  exact ⟨_, objective, cap, _, rfl, hrecord⟩

theorem Matches.of_busy (h : (capped clear).Matches s s') (hbusy : s.searching = true) :
    ∃ objective cap t, s' = s.beside s.step objective cap t ∧
      t.evaluations = s.transcript.evaluations ∧ s.search.search.cap = Scalar.infinity ∧
      s.step < cap ∧ clear cap := by
  obtain ⟨⟨objective, search, -, hrecord⟩, -, hcapped⟩ := h
  obtain ⟨rfl, cap, rfl, hrest⟩ := hcapped hbusy
  exact ⟨objective, cap, _, rfl, hrecord, hrest⟩

theorem evaluations_told (s : State Exact σ (Strategy Exact) n m) (slope : Exact)
    (reply : Reply Exact) (search : Strategy Exact) :
    (s.told slope reply search).transcript.evaluations = s.transcript.evaluations :=
  ((leadsUpTo_told s slope reply search).view evaluations_bookkeeping).trans
    (evaluations_of_not_isCall rfl _)

theorem Matches.mirrors_capped_consult (hp : p.Unhindered S inside rule)
    (h : (capped clear).Matches s s') (horigin : s.searching = true → inside s.origin.point)
    (hnext : ∀ c, s.consult p = .ok c → c.searching = true → ∀ cap, clear cap → c.step < cap) :
    Mirrors (s.consult p) (s'.consult { p with feasible := S }) (capped clear).Matches
      (capped clear).Resembles := by
  obtain ⟨uses, huses⟩ := hp.proper.search
  by_cases hsearching : s.searching = true
  · obtain ⟨objective, cap, t, rfl, hrecord, hfree, hlt, hclear⟩ := h.of_busy hsearching
    have hsearching' : (s.beside s.step objective cap t).searching = true := hsearching
    have hsame : (s.beside s.step objective cap t).trialSlope { p with feasible := S } =
      s.trialSlope p := rfl
    cases hslope : s.trialSlope p with
    | error fault =>
      rw [consult_of_fault hsearching hslope, consult_of_fault hsearching' (hsame.trans hslope)]
      exact ⟨rfl, resembles_beside s.step objective cap hrecord⟩
    | ok slope =>
      let answer := s.search.iterate s.step s.current.value slope
      let answer' := (s.search.withCap cap).iterate s.step s.current.value slope
      have hconsult : s.consult p = (s.told slope answer.1 answer.2).follow p answer.1.status :=
        consult_of_strategy huses hsearching hslope
      have hconsult' : (s.beside s.step objective cap t).consult { p with feasible := S } =
          ((s.beside s.step objective cap t).told slope answer'.1 answer'.2).follow
            { p with feasible := S } answer'.1.status :=
        consult_of_strategy huses hsearching' (hsame.trans hslope)
      -- The next trial stays clear of the cap, or there is none.
      have hstep : answer.1.status = .searching → answer.1.step < cap := by
        intro hstatus
        rw [hstatus] at hconsult
        exact hnext _ hconsult hsearching cap hclear
      have halike : Strategy.AnswersAlike cap answer answer' :=
        Strategy.iterate_withCap hfree hlt hstep
      have hcalls : ((s.beside s.step objective cap t).told slope answer'.1
          answer'.2).transcript.evaluations =
          (s.told slope answer.1 answer.2).transcript.evaluations := by
        rw [evaluations_told, evaluations_told]
        exact hrecord
      have htold : (capped clear).Resembles (s.told slope answer.1 answer.2)
          ((s.beside s.step objective cap t).told slope answer'.1 answer'.2) :=
        .intro (s.told slope answer.1 answer.2) objective answer'.2 trivial hcalls
      rw [hconsult, hconsult', halike.status]
      have hplace := hp.answers (horigin hsearching)
      refine htold.mirrors_follow ⟨cap, halike.search⟩ hplace fun hstatus =>
        ⟨htold, fun _ => ⟨cap, halike.search⟩, fun _ => ?_⟩
      exact ⟨halike.step hstatus, cap, halike.search, (Strategy.cap_iterate _ _ _ _).trans hfree,
        hstep hstatus, hclear⟩
  · have hidle : s.searching = false := by simpa using hsearching
    obtain ⟨step, objective, cap, t, rfl, hrecord⟩ := h.of_idle hidle
    have hidle' : (s.beside step objective cap t).searching = false := hidle
    rw [consult_of_idle hidle, consult_of_idle hidle']
    exact h

theorem evaluations_chosen_begun (s : State Exact σ (Strategy Exact) n m) (slope step cap : Exact)
    (pass : Pass Exact n) (reply : Reply Exact) (search : Strategy Exact) :
    ((s.chosen slope step cap).begun pass reply search).transcript.evaluations =
      s.transcript.evaluations := by
  refine ((leadsUpTo_begun _ pass reply search).view evaluations_bookkeeping).trans ?_
  refine (evaluations_of_not_isCall rfl _).trans ?_
  exact evaluations_of_not_isCall rfl _

/-- Searches that are under way in both runs, from inside, and clear of the cap of the
second. -/
structure Cleared (p : Problem Exact σ (Strategy Exact) n) (inside : Vec Exact n → Prop)
    (s s' : State Exact σ (Strategy Exact) n m) : Prop where
  searching : s.searching = true
  origin : inside s.origin.point
  alike : (capped (Clears p.precision inside s.origin.point s.direction)).Matches s s'

theorem Matches.mirrors_capped_begin {slope : Exact} {a : ℝ}
    {ended : State Exact σ (Strategy Exact) n m → State Exact σ (Strategy Exact) n m → Prop}
    (hp : p.Unhindered S inside rule) (h : (capped clear).Matches s s')
    (hidle : s.searching = false) (haimed : s.Aimed p (fun _ => Set.univ) rule slope)
    (ha : 0 < a) (hinside : inside s.current.point)
    (hnext : ∀ b, s.begin p slope (.real a) = .ok b →
      inside (Vec.combine p.precision 1 b.origin.point b.step b.direction)) :
    Mirrors (s.begin p slope (.real a)) (s'.begin { p with feasible := S } slope (.real a))
      (Cleared p inside) ended := by
  obtain ⟨step, objective, older, t, rfl, hrecord⟩ := h.of_idle hidle
  obtain ⟨uses, huses⟩ := hp.proper.search
  obtain ⟨x, f, g, d, hcurrent, -, -, hdirection, -, hdescends⟩ := haimed.aim
  have hpoint : s.current.point = .ofReals x := congrArg Iterate.point hcurrent
  obtain ⟨cap, hcap, hclear⟩ := hp.free.shortcut x d (hpoint ▸ hinside) hdescends.ne_zero
  obtain ⟨reply, search, hstart, hstatus, hstep, hfree, hbegin⟩ :=
    haimed.begin_uncapped hp.proper hp.unconstrained ha
  -- The first trial is inside, so the cap lies beyond it.
  have hlt : Exact.real a < cap := by
    have htrial : inside (Vec.combine p.precision 1 s.current.point reply.step s.direction) :=
      hnext _ hbegin
    rw [hstep, hpoint, hdirection] at htrial
    exact hclear _ htrial
  have hleast : Scalar.least (.real a) cap = Exact.real a := if_neg (StoredScalar.lt_asymm hlt)
  have hstart' : (s.search.withCap older).start s.current.value slope (.real a) cap =
      (reply, search.withCap cap) := by
    have hfirst : Scalar.least (.real a) Scalar.infinity = Exact.real a :=
      Exact.least_infinite_right a
    rw [s.search.start_withCap older (hleast.trans hfirst.symm), hstart]
  have hcap' : S.shortcutStep s.current.point s.direction = .ok cap := by
    rw [hpoint, hdirection, hcap]
  have hbegin' : (s.beside step objective older t).begin { p with feasible := S } slope (.real a) =
      .ok { ((s.beside step objective older t).chosen slope (.real a) cap).begun
        ((s.beside step objective older t).pass slope (.real a) cap) reply
          (search.withCap cap) with searching := true } :=
    begin_of_strategy (p := { p with feasible := S }) (s := s.beside step objective older t)
      huses hcap' hleast (not_le.mpr ha) hstart' hstatus
  have hclear' : Clears p.precision inside s.current.point s.direction cap := by
    rw [hpoint, hdirection]
    exact hclear
  rw [hbegin, hbegin']
  refine ⟨rfl, hinside, .intro _ objective _ trivial ?_, nofun, fun _ => ⟨rfl, cap, rfl, ?_⟩⟩
  · exact (evaluations_chosen_begun _ _ _ _ _ _ _).trans
      (hrecord.trans (evaluations_chosen_begun s _ _ _ _ _ _).symm)
  · exact ⟨hfree, hstep ▸ hlt, hclear'⟩

theorem Matches.mirrors_capped_seek [Capacity m] (hp : p.Unhindered S inside rule)
    (h : (capped (Clears p.precision inside s.origin.point s.direction)).Matches s s')
    (hguided : s.Guided p (fun _ => Set.univ) rule) (hfollowed : s.Followed p)
    (hinside : inside s.current.point) (horigin : s.searching = true → inside s.origin.point)
    (hnext : ∀ b, s.seek p = .ok b →
      inside (Vec.combine p.precision 1 b.origin.point b.step b.direction)) :
    Mirrors (s.seek p) (s'.seek { p with feasible := S }) (Cleared p inside)
      (fun last last' => last.origin = s.origin ∧
        (capped fun _ => True).Resembles last last') := by
  by_cases hidle : s.searching = false
  · have hidle' : s'.searching = false := by
      obtain ⟨step, objective, cap, t, rfl, -⟩ := h.of_idle hidle
      exact hidle
    have happroach := (h.mirrors_approach (hp.answers hinside)).ensuring
      (ensures_approach.and (hguided.ensures_approach hp.proper hfollowed hidle))
    rw [seek_eq p hidle] at hnext ⊢
    rw [seek_eq { p with feasible := S } hidle']
    refine (happroach.mono (fun _ _ h => h) ?_).bind ?_
    · rintro last last' ⟨⟨ending, ⟨-, hlast⟩, -⟩, hlike⟩
      exact ⟨hlast.origin, hlike.recapped⟩
    · rintro ⟨slope, first, ready⟩ ⟨slope', first', ready'⟩ happroached
        ⟨⟨hready, haimed, a, ha, hfirst⟩, hslope, hsame, halike⟩
      obtain rfl : slope' = slope := hslope
      obtain rfl : first' = first := hsame
      obtain rfl : first' = .real a := hfirst
      rw [happroached] at hnext
      have hready : s.LeadsUpTo ready := hready.toLeadsUpTo
      exact halike.mirrors_capped_begin hp (hready.searching.trans hidle) haimed ha
        (hready.current ▸ hinside) hnext
  · have hsearching : s.searching = true := by simpa using hidle
    obtain ⟨objective, cap, t, rfl, -⟩ := h.of_busy hsearching
    have hsearching' : (s.beside s.step objective cap t).searching = true := hsearching
    rw [seek_of_searching hsearching, seek_of_searching hsearching']
    exact ⟨hsearching, horigin hsearching, h⟩

end Likeness

end

end VariableMetric
