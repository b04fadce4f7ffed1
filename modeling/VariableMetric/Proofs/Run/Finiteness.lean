import VariableMetric.Proofs.Double.Overflow
import VariableMetric.Proofs.LineSearch.Trials
import VariableMetric.Proofs.Run.Approach
import VariableMetric.Proofs.Run.Returned
import VariableMetric.Proofs.Run.Soundness

/-!
# What is finite when a run has converged

The line searches look whether a value is finite before they accept a trial, but the test of
convergence comes first and looks at the norm alone.  So a run converges at whatever value it
has come to.  The threshold is computed from the first norm.  If that norm has overflown,
then so has the threshold, and the run converges at once; if it has not, then a norm at or
below the threshold is finite, unless the threshold alone has overflown, and then the run
converges at once as well.

Both are read off the record: the objective is only called again if its first answer lies
above the threshold, and a search begins at the first answer or where a strategy has accepted
a value.
-/

namespace VariableMetric

open Transcript

variable {α σ : Type} {n m : ℕ}

section Record

variable [Scalar α]

/-! ## What is on record -/

/-- An answer that lies above the threshold that is computed from it. -/
def Problem.StartsAbove {τ : Type} (p : Problem α σ τ n) (first : Iterate α n) : Prop :=
  ∃ norm, p.projectedNorm? first = some norm ∧
    ¬ norm ≤ p.settings.tolerance.1 + p.settings.tolerance.2 * norm

variable {p : Problem α σ (Strategy α) n} {t older : Transcript α n} {i first : Iterate α n}

/-- Where a search may begin: at the first answer, which is no end, or at a finite value. -/
def Transcript.Grounds (p : Problem α σ (Strategy α) n) (t : Transcript α n)
    (i : Iterate α n) : Prop :=
  ∃ first, t.answers.head? = some first ∧ p.StartsAbove first ∧
    (Scalar.isFinite i.value = true ∨ i = first)

/-- What an event says about what was on record before it: a call that is not the first one
was made above the threshold, and a search was begun where one may begin. -/
def Event.Screened (p : Problem α σ (Strategy α) n) : Event α n → Transcript α n → Prop
  | .evaluated _, older => ∀ first, older.answers.head? = some first → p.StartsAbove first
  | .started origin _ _ _, older => older.Grounds p origin
  | _, _ => True

theorem Event.screened_of_isSilent {e : Event α n} (h : isSilent e = true)
    (t : Transcript α n) : e.Screened p t := by
  cases e with
  | evaluated i => cases h
  | started origin pass status next => cases h
  | _ => trivial

omit [Scalar α] in
theorem Transcript.isSilent_of_isBookkeeping {e : Event α n} (h : isBookkeeping e = true) :
    isSilent e = true := by
  cases e <;> first | rfl | cases h

theorem Transcript.Grounds.of_answers (h : older.Grounds p i) (heq : t.answers = older.answers) :
    t.Grounds p i := by
  unfold Grounds
  rw [heq]
  exact h

theorem Transcript.Grounds.evaluated (h : t.Grounds p i) (j : Iterate α n) :
    Transcript.Grounds p (.evaluated j :: t) i := by
  obtain ⟨first, hfirst, hrest⟩ := h
  refine ⟨first, ?_, hrest⟩
  rw [answers_evaluated, List.head?_append, hfirst]
  rfl

/-- If the objective has been called again, then its first answer lies above the
threshold. -/
theorem Transcript.startsAbove_of_always (h : t.Always (Event.Screened p))
    (hfirst : t.answers.head? = some first) (hmany : 1 < t.answers.length) :
    p.StartsAbove first := by
  induction t with
  | nil => cases hfirst
  | cons e t ih =>
    cases e with
    | evaluated i =>
      rw [answers_evaluated] at hfirst hmany
      cases hanswers : answers t with
      | nil => simp [hanswers] at hmany
      | cons j rest =>
        rw [hanswers] at hfirst
        obtain rfl : j = first := by simpa using hfirst
        exact h.head j (by rw [hanswers]; rfl)
    | started origin pass status next => exact ih h.tail hfirst hmany
    | _ =>
      rw [answers_silent rfl] at hfirst hmany
      exact ih h.tail hfirst hmany

theorem Transcript.grounds_of_origin (h : t.Always (Event.Screened p)) (hi : i ∈ t.origins) :
    t.Grounds p i := by
  induction t with
  | nil => cases hi
  | cons e t ih =>
    cases e with
    | evaluated j => exact (ih h.tail hi).evaluated j
    | started origin pass status next =>
      rw [origins_started] at hi
      rcases List.mem_append.mp hi with hold | hnew
      · exact (ih h.tail hold).of_answers rfl
      · rw [List.mem_singleton] at hnew
        exact hnew ▸ h.head.of_answers rfl
    | _ =>
      rw [origins_silent rfl] at hi
      exact (ih h.tail hi).of_answers (answers_silent rfl t)

end Record

namespace State

variable [Scalar α] {p : Problem α σ (Strategy α) n} {s s' : State α σ (Strategy α) n m}

/-! ## The invariants of a run -/

/-- A search that is still on, with an origin where a search may begin. -/
structure Probes (p : Problem α σ (Strategy α) n) (s : State α σ (Strategy α) n m) : Prop where
  status : s.search.search.status = .searching
  origin : s.transcript.Grounds p s.origin

/-- Between two turns. -/
structure Vetted (p : Problem α σ (Strategy α) n) (s : State α σ (Strategy α) n m) : Prop where
  always : s.transcript.Always (Event.Screened p)
  idle : s.searching = false → s.transcript.answers = [] ∧ s.evaluations = 0
  busy : s.searching = true → s.Probes p

/-- The objective has answered. -/
structure Sampled (p : Problem α σ (Strategy α) n) (s : State α σ (Strategy α) n m) : Prop where
  always : s.transcript.Always (Event.Screened p)
  idle : s.searching = false → s.transcript.answers = [s.current] ∧ s.evaluations = 1
  busy : s.searching = true → s.Probes p

/-- The run goes on: with the search under way, or with one that may begin where it
stands. -/
structure Weighed (p : Problem α σ (Strategy α) n) (s : State α σ (Strategy α) n m) : Prop where
  always : s.transcript.Always (Event.Screened p)
  idle : s.searching = false → s.transcript.Grounds p s.current
  busy : s.searching = true → s.Probes p

/-- Whatever ends a turn, its record is as it should be. -/
abbrev Screens (p : Problem α σ (Strategy α) n) (s : State α σ (Strategy α) n m) : Prop :=
  s.transcript.Always (Event.Screened p)

theorem Screens.record (h : s.Screens p) {e : Event α n} (he : isSilent e = true) :
    (s.record e).Screens p :=
  Always.cons h (Event.screened_of_isSilent he _)

theorem Screens.leadsUpTo (h : s.Screens p) (hready : s.LeadsUpTo s') : s'.Screens p := by
  obtain ⟨added, heq, hadded⟩ := hready.added
  unfold Screens
  rw [heq]
  exact h.append (fun e t he => Event.screened_of_isSilent (isSilent_of_isBookkeeping he) t)
    hadded

omit [Scalar α] in
theorem LeadsUpTo.answers (h : s.LeadsUpTo s') : s'.transcript.answers = s.transcript.answers :=
  h.view fun _ t he => answers_silent (isSilent_of_isBookkeeping he) t

theorem initial_vetted (x : Vec α n) (objective : σ) (search : Strategy α) :
    (State.initial p x objective search : State α σ (Strategy α) n m).Vetted p where
  always := always_nil.cons trivial
  idle _ := ⟨rfl, rfl⟩
  busy := nofun

/-! ## The first half of a turn -/

theorem Vetted.ensures_evaluate (h : s.Vetted p) :
    Ensures (s.evaluate p) (fun s => s.Sampled p) (fun _ s => s.Screens p) := by
  refine State.ensures_evaluate (fun value gradient objective _ => ?_)
    fun _ _ _ => h.always.cons trivial
  refine ⟨h.always.cons fun first hfirst => ?_, fun hidle => ?_, fun hbusy => ?_⟩
  · -- Without a search under way there was no answer yet.
    cases hsearching : s.searching with
    | true =>
      obtain ⟨first', hfirst', habove, -⟩ := (h.busy hsearching).origin
      obtain rfl := Option.some.inj (hfirst'.symm.trans hfirst)
      exact habove
    | false =>
      rw [(h.idle hsearching).1] at hfirst
      cases hfirst
  · obtain ⟨hanswers, hevaluations⟩ := h.idle hidle
    refine ⟨?_, congrArg (· + 1) hevaluations⟩
    show answers (.evaluated _ :: s.transcript) = _
    rw [answers_evaluated, hanswers]
    rfl
  · exact ⟨(h.busy hbusy).status, (h.busy hbusy).origin.evaluated _⟩

theorem Sampled.ensures_measure (h : s.Sampled p) :
    Ensures (s.measure p)
      (fun s => s.Sampled p ∧ p.projectedNorm? s.current = some s.norm)
      (fun _ s => s.Screens p) := by
  refine State.ensures_measure (fun projected hprojected => ?_) fun _ _ => h.always
  exact ⟨⟨h.always, h.idle, fun hbusy => ⟨(h.busy hbusy).status, (h.busy hbusy).origin⟩⟩,
    projectedNorm?_of_ok hprojected⟩

theorem Sampled.ensures_settle (h : s.Sampled p)
    (hnorm : p.projectedNorm? s.current = some s.norm) :
    Ensures (s.setThreshold p).settle (fun s => s.Weighed p) (fun _ s => s.Screens p) := by
  have hset : ∃ threshold, s.setThreshold p = { s with threshold } ∧ (s.evaluations = 1 →
      threshold = p.settings.tolerance.1 + p.settings.tolerance.2 * s.norm) := by
    unfold setThreshold
    split
    next => exact ⟨_, rfl, fun _ => rfl⟩
    next hlater => exact ⟨_, rfl, fun hone => absurd hone hlater⟩
  obtain ⟨threshold, heq, hthreshold⟩ := hset
  rw [heq]
  refine State.ensures_settle (fun _ => h.always) fun habove => ⟨h.always, fun hidle => ?_,
    fun hbusy => ⟨(h.busy hbusy).status, (h.busy hbusy).origin⟩⟩
  obtain ⟨hanswers, hone⟩ := h.idle hidle
  refine ⟨s.current, by rw [hanswers]; rfl, ⟨s.norm, hnorm, ?_⟩, .inr rfl⟩
  rw [← hthreshold hone]
  exact habove

theorem Vetted.ensures_gauge (h : s.Vetted p) :
    Ensures (s.gauge p) (fun s => s.Weighed p) (fun _ s => s.Screens p) := by
  have hproject : Ensures (s.project p) (fun s => s.Vetted p) (fun _ s => s.Screens p) :=
    State.ensures_project (fun _ _ => ⟨h.always, h.idle, fun hbusy =>
      ⟨(h.busy hbusy).status, (h.busy hbusy).origin⟩⟩) fun _ _ => h.always
  exact State.ensures_gauge hproject (fun _ hs => hs.ensures_evaluate)
    (fun _ hs => hs.ensures_measure) fun _ hs => hs.1.ensures_settle hs.2

/-! ## The second half -/

theorem Screens.told (h : s.Screens p) (slope : α) (reply : Reply α) (search : Strategy α) :
    (s.told slope reply search).Screens p := by
  have hiterated : Screens p
      { s.record (.iterated s.step s.current.value slope reply.status reply.step) with
        search
        step := reply.step } := h.record rfl
  exact hiterated.leadsUpTo (s.leadsUpTo_told slope reply search)

omit [Scalar α] in
theorem answers_told (s : State α σ (Strategy α) n m) (slope : α) (reply : Reply α)
    (search : Strategy α) :
    (s.told slope reply search).transcript.answers = s.transcript.answers :=
  (s.leadsUpTo_told slope reply search).answers.trans (answers_silent rfl s.transcript)

theorem Weighed.ensures_consult {uses : Bool} (hsearch : p.search = .ofStrategy uses)
    (h : s.Weighed p) :
    Ensures (s.consult p) (fun s => s.Weighed p) (fun _ s => s.Screens p) := by
  refine State.ensures_consult (fun _ => h) fun hsearching => ?_
  obtain ⟨hstatus, horigin⟩ := h.busy hsearching
  refine ensures_report (fun slope reply search _ hcall => ?_) (fun _ _ => h.always)
    fun _ _ _ _ => h.always.cons trivial
  rw [hsearch, LineSearch.ofStrategy_iterate] at hcall
  obtain ⟨hreply, rfl⟩ := Prod.mk.inj hcall
  obtain rfl := Except.ok.inj hreply
  have htold := Screens.told h.always slope
    (s.search.iterate s.step s.current.value slope).1
    (s.search.iterate s.step s.current.value slope).2
  have hanswers := s.answers_told slope (s.search.iterate s.step s.current.value slope).1
    (s.search.iterate s.step s.current.value slope).2
  cases hreply : (s.search.iterate s.step s.current.value slope).1.status with
  | searching =>
    exact ⟨htold, fun hidle => absurd (hsearching.symm.trans hidle) nofun, fun _ =>
      ⟨(s.search.status_iterate s.step s.current.value slope).trans hreply,
        horigin.of_answers hanswers⟩⟩
  | converged =>
    have hfinite := Strategy.isFinite_of_converged hstatus hreply
    obtain ⟨first, hfirst, habove, -⟩ := horigin
    exact ensures_accept (fun _ _ => htold) fun _ => ⟨htold, fun _ =>
      Grounds.of_answers ⟨first, hfirst, habove, .inl hfinite⟩ hanswers, nofun⟩
  | failed =>
    have hnotified := leadsUpTo_notify
      (s.told slope (s.search.iterate s.step s.current.value slope).1
        (s.search.iterate s.step s.current.value slope).2) [.searchAbandoned s.iterations]
    have hback := Screens.record (Screens.leadsUpTo htold hnotified) (e := .restored) rfl
    refine ensures_abandon (fun _ => htold) (fun _ projected _ => ?_) fun _ _ => hback
    refine ⟨hback, fun _ => horigin.of_answers ?_, nofun⟩
    exact (answers_silent rfl _).trans (hnotified.answers.trans hanswers)

variable [Capacity m]

theorem Weighed.ensures_seek {uses : Bool} (hsearch : p.search = .ofStrategy uses)
    (h : s.Weighed p) :
    Ensures (s.seek p) (fun s => s.Weighed p ∧ s.searching = true) (fun _ s => s.Screens p) := by
  refine ensures_seek_steers (fun hsearching => ⟨h, hsearching⟩)
    (fun hidle ready slope first hready => ?_)
    fun _ fault ready hready => Screens.leadsUpTo h.always hready
  have hground := (h.idle hidle).of_answers hready.toLeadsUpTo.answers
  rw [← hready.current] at hground
  have hchosen := fun step cap => hready.toLeadsUpTo.trans
    (ready.leadsUpTo_chosen slope step cap)
  refine State.ensures_begin (fun cap _ _ => Screens.leadsUpTo h.always (hchosen _ cap))
    (fun cap reply search _ _ hcall => ?_)
    fun _ _ => Screens.leadsUpTo h.always hready.toLeadsUpTo
  rw [hsearch, LineSearch.ofStrategy_start] at hcall
  have hstatus := ready.search.status_start ready.current.value slope
    (Scalar.least first cap) cap
  rw [hcall] at hstatus
  have hready' := hchosen (Scalar.least first cap) cap
  have hbegun := State.leadsUpTo_begun (ready.chosen slope (Scalar.least first cap) cap)
    (ready.pass slope (Scalar.least first cap) cap) reply search
  have hstarted := (Screens.leadsUpTo h.always hready').cons (e := .started ready.current
    (ready.pass slope (Scalar.least first cap) cap) reply.status reply.step)
    (hground.of_answers (leadsUpTo_chosen ready slope _ cap).answers)
  have hscreens := Screens.leadsUpTo (s := State.record
    { ready.chosen slope (Scalar.least first cap) cap with
      origin := ready.current, search, step := reply.step } (.started ready.current
        (ready.pass slope (Scalar.least first cap) cap) reply.status reply.step))
    hstarted hbegun
  refine ⟨fun hreply => ⟨⟨hscreens, nofun, fun _ => ⟨hstatus.trans hreply, ?_⟩⟩, rfl⟩,
    fun _ => hscreens⟩
  exact hground.of_answers
    (hbegun.answers.trans (leadsUpTo_chosen ready slope _ cap).answers)

theorem Vetted.ensures_turn {uses : Bool} (hsearch : p.search = .ofStrategy uses)
    (h : s.Vetted p) :
    Ensures (s.turn p) (fun s => s.Vetted p) (fun _ s => s.Screens p) := by
  rw [turn_eq]
  refine h.ensures_gauge.bind fun s hs => ?_
  refine (hs.ensures_consult hsearch).bind fun s hs => ?_
  refine (hs.ensures_seek hsearch).bind fun s ⟨hs, hsearching⟩ => ?_
  have hmeter : Ensures (s.meter p) (fun s => (s.advance p).Vetted p) fun _ s => s.Screens p :=
    ensures_meter (fun _ _ => hs.always) fun _ =>
      ⟨hs.always, fun hidle => absurd (hsearching.symm.trans hidle) nofun, fun hbusy =>
        ⟨(hs.busy hbusy).status, (hs.busy hbusy).origin⟩⟩
  exact hmeter.bind fun _ hs => hs

end State

theorem Problem.solve_screened [Scalar α] [Capacity m] {p : Problem α σ (Strategy α) n}
    {uses : Bool} (hsearch : p.search = .ofStrategy uses) (turns : ℕ) (x : Vec α n)
    (objective : σ) (search : Strategy α) :
    (p.solve m turns x objective search).2.transcript.Always (Event.Screened p) := by
  have hturn : ∀ s : State α σ (Strategy α) n m, s.Vetted p →
      State.Ensures (s.turn p) (fun s => s.Vetted p) fun _ s => s.Screens p :=
    fun s hs => hs.ensures_turn hsearch
  exact State.solve_transcript (P := fun t => t.Always (Event.Screened p))
    (fun _ h => h.cons trivial) (fun _ _ h => h.cons trivial) hturn (fun s hs => hs.always)
    turns x objective search (State.initial_vetted x objective search)

/-! ## Converged runs -/

/-- A norm is a root, so it does not lie at negative infinity. -/
theorem Problem.unpacked_projectedNorm_ne {τ : Type} {p : Problem Float σ τ n}
    {i : Iterate Float n} {norm : Float} (h : p.projectedNorm? i = some norm) :
    Double.unpacked norm ≠ .infinity .negative := by
  obtain ⟨projected, -, rfl⟩ := Option.map_eq_some_iff.mp h
  exact Double.unpacked_sqrt_ne _

/-- Only a run that converges where it began can have done so at an infinite norm. -/
theorem Problem.StartsAbove.isFinite {τ : Type} {p : Problem Float σ τ n}
    {first i : Iterate Float n} {norm₁ norm : Float} (h : p.StartsAbove first)
    (htolerance : AreTolerances p.settings.tolerance) (hfirst : p.projectedNorm? first = some norm₁)
    (hi : p.projectedNorm? i = some norm)
    (hbelow : norm ≤ p.settings.tolerance.1 + p.settings.tolerance.2 * norm₁) :
    Scalar.isFinite norm₁ = true ∧ Scalar.isFinite norm = true := by
  obtain ⟨norm', hnorm', habove⟩ := h
  obtain rfl := Option.some.inj (hfirst.symm.trans hnorm')
  exact Double.isFinite_of_le_bound htolerance.finite.1 htolerance.finite.2 htolerance.nonneg.2
    (unpacked_projectedNorm_ne hfirst) (unpacked_projectedNorm_ne hi) habove hbelow

/-- A run that has converged is returned with the value of its last answer and a norm that is
finite exactly if the first one is, which it is if the objective was called twice.  If it is
sent back, then the first norm is finite, and so is the value, unless it was sent back to its
start. -/
theorem Problem.converged_isFinite_iff [Capacity m] {p : Problem Float σ (Strategy Float) n}
    {uses : Bool} {turns : ℕ} {x : Vec Float n} {objective : σ} {search : Strategy Float}
    {solution : Solution Float n} {last : State Float σ (Strategy Float) n m}
    (hsearch : p.search = .ofStrategy uses) (hsettings : p.settings.Valid)
    (h : p.solve m turns x objective search = (.returned solution, last))
    (hstatus : solution.status = .convergence) :
    ∃ (i₁ i : Iterate Float n) (norm₁ : Float),
      last.transcript.answers.head? = some i₁ ∧
      last.transcript.answers.getLast? = some i ∧
      p.projectedNorm? i₁ = some norm₁ ∧
      (1 < solution.evaluations → Scalar.isFinite norm₁ = true) ∧
      ((∀ o, last.transcript.origins.getLast? = some o → ¬ o.value < i.value) →
        solution.IsAt p i ∧
          (Scalar.isFinite solution.norm = true ↔ Scalar.isFinite norm₁ = true)) ∧
      ∀ o, last.transcript.origins.getLast? = some o → o.value < i.value →
        solution.IsAt p o ∧ Scalar.isFinite norm₁ = true ∧
          (Scalar.isFinite o.value = true ∨ o = i₁) := by
  obtain ⟨s, haccounts⟩ := exists_accounts h
  have hcoherent := haccounts.ended.coherent
  have hlast := haccounts.ended.last hstatus
  have hne := List.ne_nil_of_mem (List.mem_of_getLast? hlast)
  obtain ⟨i₁, hfirst⟩ := Option.isSome_iff_exists.mp (List.isSome_head?.mpr hne)
  obtain ⟨norm₁, hnorm₁, hthreshold⟩ := hcoherent.threshold i₁ hfirst
  have hbelow := haccounts.ended.below.mp hstatus
  rw [hthreshold] at hbelow
  have hscreened := solve_screened (m := m) hsearch turns x objective search
  rw [h] at hscreened
  rw [haccounts.evaluations, hcoherent.recorded.evaluations]
  unfold State.AtLastAnswer at hlast
  rw [← haccounts.answers] at hfirst hlast hne ⊢
  have hfinite := fun habove : p.StartsAbove i₁ =>
    habove.isFinite hsettings.tolerance hnorm₁ hcoherent.norm hbelow
  have hsame : Scalar.isFinite s.norm = true ↔ Scalar.isFinite norm₁ = true := by
    by_cases hmany : 1 < last.transcript.answers.length
    · obtain ⟨h₁, hnorm⟩ := hfinite (startsAbove_of_always hscreened hfirst hmany)
      exact iff_of_true hnorm h₁
    · -- The run converged at its first answer.
      obtain ⟨j, hj⟩ := List.length_eq_one_iff.mp
        (Nat.le_antisymm (Nat.le_of_not_lt hmany) (List.length_pos_iff.mpr hne))
      have hone : i₁ = s.current := by
        rw [hj] at hfirst hlast
        exact (Option.some.inj hfirst).symm.trans (Option.some.inj hlast)
      obtain rfl : norm₁ = s.norm :=
        Option.some.inj (hnorm₁.symm.trans (hone ▸ hcoherent.norm))
      exact Iff.rfl
  refine ⟨i₁, s.current, norm₁, hfirst, hlast, hnorm₁, fun hmany =>
    (hfinite (startsAbove_of_always hscreened hfirst hmany)).1, ?_⟩
  rw [haccounts.origins]
  cases haccounts.leadsTo with
  | current hat hnorm hnotless =>
    exact ⟨fun _ => ⟨hat, hnorm ▸ hsame⟩, fun o ho hless => absurd hless (hnotless o ho)⟩
  | origin ho hmem hless hat habove =>
    refine ⟨fun hall => absurd hless (hall s.origin ho), fun o ho' hless' => ?_⟩
    obtain rfl := Option.some.inj (ho.symm.trans ho')
    rw [← haccounts.origins] at ho
    obtain ⟨first, hfirst', hstarts, hvalue⟩ :=
      grounds_of_origin hscreened (List.mem_of_getLast? ho)
    obtain rfl := Option.some.inj (hfirst.symm.trans hfirst')
    exact ⟨hat, (hfinite hstarts).1, hvalue⟩

/-! ## Sample runs

Runs that end at their first answer: at the least value of a parabola, where a wall stands
behind which it is no number, and on a parabola so steep that the square of its slope is
infinite. -/

namespace Sample

def singleCall : Settings Float := ⟨-1, 1, (0.0, 1e-6), (1.0, 0.0), 0⟩

theorem singleCall_valid : singleCall.Valid where
  tolerance := by constructor <;> decide +kernel
  firstStep := by constructor <;> decide +kernel

def backtrackingProblem (s : Sample) (wall : Option Wall) :
    Problem Float ℕ (Strategy Float) 1 where
  precision := .double
  keepsPairs := true
  objective := s.objective wall .double [1]
  feasible := .unconstrained
  search := .ofStrategy false
  settings := singleCall

def thirtyTrials : Strategy Float := .backtracking (Backtracking.new ⟨1e-4, 0.1, 1e-20, 30⟩)

def steepProblem : Problem Float ℕ (Strategy Float) 1 :=
  (quadratic [1e200] [0.0] 0.0).backtrackingProblem none

def steepRun : Outcome Float 1 × State Float ℕ (Strategy Float) 1 1 :=
  steepProblem.solve 1 2 (.replicate 1 1.0) 0 thirtyTrials

def steepSolution : Solution Float 1 :=
  ⟨.replicate 1 1.0, 5e199, .convergence, 0, 1, 0, Scalar.infinity⟩

def walledProblem : Problem Float ℕ (Strategy Float) 1 :=
  parabola.backtrackingProblem (some ⟨0.5, 0.0 / 0.0⟩)

def walledRun : Outcome Float 1 × State Float ℕ (Strategy Float) 1 1 :=
  walledProblem.solve 1 2 ⟨[3.0], rfl⟩ 0 thirtyTrials

def walledSolution : Solution Float 1 :=
  ⟨⟨[3.0], rfl⟩, 0.0 / 0.0, .convergence, 0, 1, 0, 0.0⟩

theorem steepRun_returned : steepRun = (.returned steepSolution, steepRun.2) :=
  Outcome.eq_returned (by decide +kernel)

theorem steepRun_isFinite_iff :
    steepProblem.search = .ofStrategy false ∧ steepProblem.settings.Valid ∧
      steepRun = (.returned steepSolution, steepRun.2) ∧
      steepSolution.status = .convergence ∧
      ∃ (i₁ i : Iterate Float 1) (norm₁ : Float),
        steepRun.2.transcript.answers.head? = some i₁ ∧
        steepRun.2.transcript.answers.getLast? = some i ∧
        steepProblem.projectedNorm? i₁ = some norm₁ ∧
        (1 < steepSolution.evaluations → Scalar.isFinite norm₁ = true) ∧
        ((∀ o, steepRun.2.transcript.origins.getLast? = some o → ¬ o.value < i.value) →
          steepSolution.IsAt steepProblem i ∧
            (Scalar.isFinite steepSolution.norm = true ↔ Scalar.isFinite norm₁ = true)) ∧
        ∀ o, steepRun.2.transcript.origins.getLast? = some o → o.value < i.value →
          steepSolution.IsAt steepProblem o ∧ Scalar.isFinite norm₁ = true ∧
            (Scalar.isFinite o.value = true ∨ o = i₁) :=
  ⟨rfl, singleCall_valid, steepRun_returned, rfl,
    Problem.converged_isFinite_iff rfl singleCall_valid steepRun_returned rfl⟩

/-- Neither number of a converged run need be finite: the norm is not where the parabola is
too steep, and the value is not behind the wall. -/
theorem converged_not_isFinite :
    singleCall.Valid ∧ thirtyTrials.rule.Valid ∧
      (steepProblem.settings = singleCall ∧ steepRun = (.returned steepSolution, steepRun.2) ∧
        steepSolution.status = .convergence ∧ Scalar.isFinite steepSolution.norm = false) ∧
      walledProblem.settings = singleCall ∧ walledRun = (.returned walledSolution, walledRun.2) ∧
        walledSolution.status = .convergence ∧ Scalar.isFinite walledSolution.value = false := by
  refine ⟨singleCall_valid, ?_, ⟨rfl, steepRun_returned, rfl, ?_⟩,
    rfl, Outcome.eq_returned ?_, rfl, ?_⟩
  · constructor <;> decide +kernel
  all_goals decide +kernel

end Sample

end VariableMetric
