import VariableMetric.Proofs.Run.Budget
import VariableMetric.Proofs.Run.Protocol
import VariableMetric.Proofs.Run.Remembered
import VariableMetric.Proofs.Run.Returned

/-!
# The counters of a run and their budgets

A turn calls the objective once, and the budget of evaluations is looked at in every
turn that goes on, so that no run exceeds it.  An iteration is a search that was
accepted, or one in which the run converged.

The budget of iterations is looked at only when a search is accepted.  It bounds the
iterations from one on, but a run with no iteration left does its first one all the
same.
-/

namespace VariableMetric

variable {α σ τ : Type} {n m : ℕ}

namespace Transcript

def isAcceptance : Event α n → Bool
  | .iterated _ _ _ .converged _ => true
  | _ => false

/-- How many searches the line search has accepted. -/
def acceptedSearches (t : Transcript α n) : ℕ := t.countP isAcceptance

/-- Events that are lines of the table. -/
def isTable : Event α n → Bool
  | .headed => true
  | .printed _ => true
  | _ => false

instance (t : Transcript α n) : Decidable (IsIdle t) :=
  decidable_of_iff (∀ reply ∈ lastReply t, reply.1 ≠ .searching) Iff.rfl

variable {e : Event α n} {t : Transcript α n}

theorem isBookkeeping_of_isTable (h : isTable e = true) : isBookkeeping e = true := by
  cases e <;> first | rfl | cases h

theorem isEntry_of_isAcceptance (h : isAcceptance e = true) : isEntry e = true := by
  cases e with
  | iterated step value slope status next =>
    cases status with
    | converged => rfl
    | _ => cases h
  | _ => cases h

theorem acceptedSearches_of_not_isEntry (h : isEntry e = false) (t : Transcript α n) :
    acceptedSearches (e :: t) = acceptedSearches t := by
  have hnone : ¬ isAcceptance e = true := fun haccepted =>
    absurd (isEntry_of_isAcceptance haccepted) (by simp [h])
  exact List.countP_cons_of_neg hnone

theorem acceptedSearches_bookkeeping (e : Event α n) (t : Transcript α n)
    (h : isBookkeeping e = true) : acceptedSearches (e :: t) = acceptedSearches t :=
  acceptedSearches_of_not_isEntry (isEntry_of_isBookkeeping h) t

theorem acceptedSearches_iterated (step value slope next : α) (t : Transcript α n) :
    acceptedSearches (.iterated step value slope .converged next :: t) =
      acceptedSearches t + 1 :=
  List.countP_cons_of_pos rfl

end Transcript

open Transcript

namespace State

variable {p : Problem α σ τ n} {first : τ} {k : ℕ} {s ready : State α σ τ n m}

/-! ## What a run returns -/

/-- The solution tells the counters of a state in which the run ended, and the run has
put nothing on record since but the last lines of its table. -/
structure Closes (s last : State α σ τ n m) (solution : Solution α n) : Prop where
  iterations : solution.iterations = s.iterations
  evaluations : solution.evaluations = s.evaluations
  restarts : solution.restarts = s.restarts
  table : ∃ rows, last.transcript = rows ++ s.transcript ∧ ∀ e ∈ rows, isTable e = true

theorem Closes.view {last : State α σ τ n m} {solution : Solution α n} {β : Type}
    {view : Transcript α n → β} (h : s.Closes last solution)
    (hview : ∀ e t, isTable e = true → view (e :: t) = view t) :
    view last.transcript = view s.transcript := by
  obtain ⟨rows, heq, hrows⟩ := h.table
  rw [heq]
  exact view_append hview hrows

theorem exists_table_printLast (p : Problem α σ τ n) (s : State α σ τ n m) :
    ∃ rows, (s.printLast p).transcript = rows ++ s.transcript ∧
      ∀ e ∈ rows, isTable e = true := by
  apply printLast_of fun t : State α σ τ n m => ∃ rows, t.transcript = rows ++ s.transcript ∧
    ∀ e ∈ rows, isTable e = true
  · rintro t ⟨rows, heq, hrows⟩
    exact ⟨.headed :: rows, congrArg _ heq, List.forall_mem_cons.mpr ⟨rfl, hrows⟩⟩
  · rintro t row ⟨rows, heq, hrows⟩
    exact ⟨.printed row :: rows, congrArg _ heq, List.forall_mem_cons.mpr ⟨rfl, hrows⟩⟩
  · exact ⟨[], rfl, nofun⟩

variable [Scalar α]

theorem closes_finish {ending : Ending} {last : State α σ τ n m} {solution : Solution α n}
    (h : s.finish p ending = (.returned solution, last)) :
    ending = .status solution.status ∧ s.Closes last solution := by
  obtain ⟨final, hending, hsettled, hsolution, rfl⟩ := finish_returned h
  obtain ⟨htranscript, -, hevaluations, hiterations, hrestarts⟩ := settled_record hsettled
  constructor
  · exact hending
  · rw [hsolution]
    exact ⟨hiterations, hevaluations, hrestarts, htranscript ▸ exists_table_printLast p final⟩

/-- What every turn keeps holds of a run that is left unfinished, and what every turn that
ends with a status leaves behind is behind a solution that is returned. -/
theorem solve_closes [Capacity m] {good : ℕ → State α σ τ n m → Prop}
    {closed : Status → State α σ τ n m → Prop}
    (hturn : ∀ k s, good k s →
      Ensures (s.turn p) (good (k + 1)) fun e s => ∀ status, e = .status status → closed status s)
    {turns : ℕ} {x : Vec α n} {objective : σ} {search : τ} {outcome : Outcome α n}
    {last : State α σ τ n m} (hinitial : good 0 (State.initial p x objective search))
    (h : p.solve m turns x objective search = (outcome, last)) :
    (outcome = .unfinished → good turns last) ∧
      ∀ solution, outcome = .returned solution →
        ∃ s, closed solution.status s ∧ s.Closes last solution := by
  unfold Problem.solve at h
  rcases run_counted hturn turns 0 _ hinitial with
    ⟨unfinished, hgood, hrun⟩ | ⟨ending, s, hended, hrun⟩
  · obtain ⟨rfl, rfl⟩ := Prod.mk.inj (hrun.symm.trans h)
    rw [Nat.zero_add] at hgood
    exact ⟨fun _ => hgood, nofun⟩
  · rw [hrun] at h
    constructor
    · rintro rfl
      exact absurd (congrArg Prod.fst h) (s.finish_ne_unfinished p ending)
    · rintro solution rfl
      obtain ⟨hending, hcloses⟩ := closes_finish h
      exact ⟨s, hended _ hending, hcloses⟩

end State

namespace State

variable {p : Problem α σ τ n} {first : τ} {k : ℕ} {s ready : State α σ τ n m}

/-! ## The counters inside a turn -/

/-- The counters agree with what is on record, after `k` calls of the objective. -/
structure Tallied (k : ℕ) (s : State α σ τ n m) : Prop where
  evaluations : s.evaluations = k
  calls : s.transcript.evaluations.length = k
  iterations : s.iterations = s.transcript.acceptedSearches

/-- The budgets are not used up before the next call. -/
structure Metered (p : Problem α σ τ n) (k : ℕ) (s : State α σ τ n m) : Prop
    extends s.Tallied k where
  fewer : s.iterations + (if s.searching then 1 else 0) ≤ k
  callsLeft : 0 ≤ p.settings.maxEvaluations → k < max 1 p.settings.maxEvaluations
  iterationsLeft : 0 ≤ p.settings.maxIterations → s.iterations < max 1 p.settings.maxIterations

/-- The call has been made, and what it is for is not known yet. -/
structure Ticked (p : Problem α σ τ n) (k : ℕ) (s : State α σ τ n m) : Prop
    extends s.Tallied k where
  fewer : s.iterations + (if s.searching then 1 else 0) < k
  within : 0 ≤ p.settings.maxEvaluations → k ≤ max 1 p.settings.maxEvaluations
  iterationsLeft : 0 ≤ p.settings.maxIterations → s.iterations < max 1 p.settings.maxIterations

/-- The line search has had its say. -/
structure Checked (p : Problem α σ τ n) (k : ℕ) (s : State α σ τ n m) : Prop
    extends s.Tallied k where
  fewer : s.iterations < k
  within : 0 ≤ p.settings.maxEvaluations → k ≤ max 1 p.settings.maxEvaluations
  iterationsLeft : 0 ≤ p.settings.maxIterations → s.iterations < max 1 p.settings.maxIterations

/-- The counters of a run that has ended with a status. -/
structure Balanced (p : Problem α σ τ n) (status : Status) (s : State α σ τ n m) : Prop where
  calls : s.transcript.evaluations.length = s.evaluations
  iterations : s.iterations = s.transcript.acceptedSearches +
    if status = .convergence ∧ ¬ IsIdle s.transcript then 1 else 0
  fewer : s.iterations < s.evaluations
  within : 0 ≤ p.settings.maxEvaluations → s.evaluations ≤ max 1 p.settings.maxEvaluations
  spent : status = .tooManyEvaluations →
    0 ≤ p.settings.maxEvaluations ∧ s.evaluations = max 1 p.settings.maxEvaluations
  bounded : 0 ≤ p.settings.maxIterations → s.iterations ≤ max 1 p.settings.maxIterations

/-- However a turn ends, unless it is for a fault. -/
abbrev Balances (p : Problem α σ τ n) (ending : Ending) (s : State α σ τ n m) : Prop :=
  ∀ status, ending = .status status → s.Balanced p status

theorem balances_fault (fault : Fault) (s : State α σ τ n m) :
    s.Balances p (.fault fault) :=
  nofun

theorem Balanced.balances {status : Status} (h : s.Balanced p status) :
    s.Balances p (.status status) := by
  intro status' heq
  cases heq
  exact h

theorem Tallied.record (h : s.Tallied k) {e : Event α n} (he : isEntry e = false) :
    (s.record e).Tallied k where
  evaluations := h.evaluations
  calls := by
    show (Transcript.evaluations (e :: s.transcript)).length = k
    rw [evaluations_of_not_isCall (isCall_of_not_isEntry he), h.calls]
  iterations := by
    show s.iterations = acceptedSearches (e :: s.transcript)
    rw [acceptedSearches_of_not_isEntry he, h.iterations]

theorem Tallied.congr (h : s.Tallied k) {s' : State α σ τ n m}
    (hevaluations : s'.evaluations = s.evaluations) (hiterations : s'.iterations = s.iterations)
    (htranscript : s'.transcript = s.transcript) : s'.Tallied k where
  evaluations := hevaluations.trans h.evaluations
  calls := htranscript ▸ h.calls
  iterations := by rw [hiterations, htranscript, h.iterations]

theorem Tallied.leadsUpTo (h : s.Tallied k) (hready : s.LeadsUpTo ready) : ready.Tallied k where
  evaluations := hready.evaluations.trans h.evaluations
  calls := by rw [hready.view evaluations_bookkeeping, h.calls]
  iterations := by rw [hready.view acceptedSearches_bookkeeping, hready.iterations, h.iterations]

theorem Checked.leadsUpTo (h : s.Checked p k) (hready : s.LeadsUpTo ready) :
    ready.Checked p k :=
  { h.toTallied.leadsUpTo hready with
    fewer := hready.iterations ▸ h.fewer
    within := h.within
    iterationsLeft := hready.iterations ▸ h.iterationsLeft }

/-- Only an end for the budget of evaluations asks for more than a run has to show anyway. -/
theorem Checked.balances (h : s.Checked p k) {status : Status} (hstatus : status ≠ .convergence)
    (hspent : status = .tooManyEvaluations →
      0 ≤ p.settings.maxEvaluations ∧ k = max 1 p.settings.maxEvaluations) :
    s.Balances p (.status status) := by
  apply Balanced.balances
  exact
    { calls := h.calls.trans h.evaluations.symm
      iterations := by simp [hstatus, h.iterations]
      fewer := h.evaluations ▸ h.fewer
      within := h.evaluations ▸ h.within
      spent := h.evaluations ▸ hspent
      bounded := fun hlimited => (h.iterationsLeft hlimited).le }

variable [Scalar α]

theorem initial_metered (p : Problem α σ τ n) (x : Vec α n) (objective : σ) (search : τ) :
    (State.initial p x objective search : State α σ τ n m).Metered p 0 where
  evaluations := rfl
  calls := rfl
  iterations := rfl
  fewer := le_refl 0
  callsLeft _ := by simp
  iterationsLeft _ := by
    show ((0 : ℕ) : ℤ) < _
    simp

/-! ## The call -/

omit [Scalar α] in
theorem Metered.ensures_project (h : s.Metered p k) :
    Ensures (s.project p) (fun s => s.Metered p k) (fun e s => s.Balances p e) := by
  apply State.ensures_project
  · intro x _
    exact { h with }
  · exact fun _ _ => balances_fault _ _

omit [Scalar α] in
theorem Metered.ensures_evaluate (h : s.Metered p k) :
    Ensures (s.evaluate p) (fun s => s.Ticked p (k + 1)) (fun e s => s.Balances p e) := by
  apply State.ensures_evaluate
  · intro value gradient objective _
    exact
      { evaluations := congrArg (· + 1) h.evaluations
        calls := by
          show (Transcript.evaluations (.evaluated _ :: s.transcript)).length = k + 1
          rw [length_evaluations_evaluated, h.calls]
        iterations := h.iterations
        fewer := Nat.lt_succ_of_le h.fewer
        within := fun hlimited => by
          have := h.callsLeft hlimited
          omega
        iterationsLeft := h.iterationsLeft }
  · exact fun _ _ _ => balances_fault _ _

theorem Ticked.ensures_measure (h : s.Ticked p k) :
    Ensures (s.measure p) (fun s => s.Ticked p k) (fun e s => s.Balances p e) := by
  apply State.ensures_measure
  · intro projected _
    exact { h with }
  · exact fun _ _ => balances_fault _ _

/-- A run that converges with a search under way counts it. -/
theorem Ticked.settled (h : s.Ticked p k) (htried : s.Tried p first) :
    State.Balanced p .convergence
      { s with iterations := if s.searching then s.iterations + 1 else s.iterations } where
  calls := h.calls.trans h.evaluations.symm
  iterations := by
    have hbusy : IsIdle s.transcript ↔ s.searching = false := by
      constructor
      · intro hidle
        by_contra hsearching
        have hasked := htried.asked (by simpa using hsearching)
        exact hidle _ hasked.reply rfl
      · exact htried.idle
    show (if s.searching then s.iterations + 1 else s.iterations) = _
    rw [h.iterations]
    cases hsearching : s.searching with
    | true => simp [hbusy, hsearching]
    | false => simp [hbusy, hsearching]
  fewer := by
    have hfewer := h.fewer
    show (if s.searching then s.iterations + 1 else s.iterations) < s.evaluations
    rw [h.evaluations]
    split at hfewer <;> simp_all
  within := h.evaluations ▸ h.within
  spent := nofun
  bounded hlimited := by
    have hleft := h.iterationsLeft hlimited
    show ((if s.searching then s.iterations + 1 else s.iterations : ℕ) : ℤ) ≤ _
    split <;> omega

theorem Ticked.ensures_settle (h : s.Ticked p k) (htried : s.Tried p first) :
    Ensures (s.setThreshold p).settle (fun s => s.Ticked p k) (fun e s => s.Balances p e) := by
  have hset : (s.setThreshold p).Ticked p k := setThreshold_of (·.Ticked p k) fun _ => { h with }
  have hstill : (s.setThreshold p).Tried p first :=
    setThreshold_of (·.Tried p first) fun _ => htried.congr rfl rfl rfl rfl rfl rfl rfl
  apply State.ensures_settle
  · intro _
    exact (hset.settled hstill).balances
  · exact fun _ => hset

/-! ## The answer of the line search -/

section Told

variable {reply : Reply α} {search : τ}

omit [Scalar α] in
theorem Ticked.checked (h : s.Ticked p k) : s.Checked p k :=
  { h with fewer := (Nat.le_add_right _ _).trans_lt h.fewer }

omit [Scalar α] in
theorem Checked.told (h : s.Checked p k) (slope : α) (hstatus : reply.status ≠ .converged) :
    (s.told slope reply search).Checked p k := by
  have hiterated : State.Checked p k
      { s.record (.iterated s.step s.current.value slope reply.status reply.step) with
        search, step := reply.step } :=
    { (h.record (isEntry_iterated hstatus s.step s.current.value slope reply.step)).congr
        rfl rfl rfl with
      fewer := h.fewer
      within := h.within
      iterationsLeft := h.iterationsLeft }
  exact hiterated.leadsUpTo (s.leadsUpTo_told slope reply search)

omit [Scalar α] in
theorem Tallied.accepted (h : s.Tallied k) (slope : α) (hstatus : reply.status = .converged) :
    (s.told slope reply search).accepted.Tallied k := by
  have hnotified := s.leadsUpTo_told slope reply search
  constructor
  · exact h.evaluations
  · show (Transcript.evaluations (s.told slope reply search).transcript).length = k
    rw [hnotified.view evaluations_bookkeeping, ← h.calls]
    exact congrArg List.length (evaluations_of_not_isCall rfl _)
  · show s.iterations + 1 = acceptedSearches (s.told slope reply search).transcript
    rw [hnotified.view acceptedSearches_bookkeeping, hstatus, h.iterations]
    exact (acceptedSearches_iterated _ _ _ _ _).symm

omit [Scalar α] in
theorem Ticked.ensures_accept (h : s.Ticked p k) (hsearching : s.searching = true) (slope : α)
    (hstatus : reply.status = .converged) :
    Ensures ((s.told slope reply search).accept p) (fun s => s.Checked p k)
      (fun e s => s.Balances p e) := by
  have htally : (s.told slope reply search).accepted.Tallied k :=
    h.toTallied.accepted slope hstatus
  have hfewer : s.iterations + 1 < k := by simpa [hsearching] using h.fewer
  apply State.ensures_accept
  · intro hlimited _
    apply Balanced.balances
    exact
      { calls := htally.calls.trans h.evaluations.symm
        iterations := by simpa using htally.iterations
        fewer := h.evaluations ▸ hfewer
        within := h.evaluations ▸ h.within
        spent := nofun
        bounded := fun hlimited => h.iterationsLeft hlimited }
  · intro hleft
    exact
      { htally with
        fewer := hfewer
        within := h.within
        iterationsLeft := fun hlimited => (hleft hlimited).trans_le (le_max_right _ _) }

theorem Checked.ensures_abandon (h : s.Checked p k) :
    Ensures (s.abandon p) (fun s => s.Checked p k) (fun e s => s.Balances p e) := by
  apply State.ensures_abandon
  · exact fun _ => h.balances nofun nofun
  · intro _ projected _
    have hnotified := h.leadsUpTo (s.leadsUpTo_notify [.searchAbandoned s.iterations])
    exact
      { (hnotified.record (e := .restored) rfl).congr rfl rfl rfl with
        fewer := h.fewer
        within := h.within
        iterationsLeft := h.iterationsLeft }
  · exact fun _ _ => balances_fault _ _

theorem Ticked.ensures_consult (h : s.Ticked p k) :
    Ensures (s.consult p) (fun s => s.Checked p k) (fun e s => s.Balances p e) := by
  refine State.ensures_consult (fun _ => h.checked) fun hsearching => ?_
  apply ensures_report
  · intro slope reply search _ _
    cases hstatus : reply.status with
    | searching => exact h.checked.told slope (by simp [hstatus])
    | converged => exact h.ensures_accept hsearching slope hstatus
    | failed => exact (h.checked.told slope (by simp [hstatus])).ensures_abandon
  · exact fun _ _ => balances_fault _ _
  · exact fun _ _ _ _ => balances_fault _ _

end Told

/-! ## The next search -/

omit [Scalar α] in
theorem Checked.begun (h : s.Checked p k) (pass : Pass α n) (reply : Reply α) (search : τ) :
    (s.begun pass reply search).Checked p k := by
  have hstarted : State.Checked p k
      ({ s with origin := s.current, search, step := reply.step }.record
        (.started s.current pass reply.status reply.step)) :=
    { (h.record (e := .started s.current pass reply.status reply.step) rfl).congr
        rfl rfl rfl with
      fewer := h.fewer
      within := h.within
      iterationsLeft := h.iterationsLeft }
  exact hstarted.leadsUpTo (s.leadsUpTo_begun pass reply search)

theorem Checked.ensures_begin (h : s.Checked p k) (slope cut : α) :
    Ensures (s.begin p slope cut) (fun s => s.Checked p k) (fun e s => s.Balances p e) := by
  have hchosen : ∀ step cap, (s.chosen slope step cap).Checked p k :=
    fun step cap => h.leadsUpTo (s.leadsUpTo_chosen slope step cap)
  apply State.ensures_begin
  · exact fun cap _ _ => (hchosen _ cap).balances nofun nofun
  · intro cap reply search _ _ _
    have hbegun := (hchosen (Scalar.least cut cap) cap).begun
      (s.pass slope (Scalar.least cut cap) cap) reply search
    constructor
    · intro _
      exact { hbegun with }
    · exact fun _ => hbegun.balances nofun nofun
  · exact fun _ _ => balances_fault _ _

theorem Checked.ensures_seek [Capacity m] (h : s.Checked p k) :
    Ensures (s.seek p) (fun s => s.Checked p k) (fun e s => s.Balances p e) := by
  apply ensures_seek_steers
  · exact fun _ => h
  · intro _ ready slope cut hready
    exact (h.leadsUpTo hready.toLeadsUpTo).ensures_begin slope cut
  · exact fun _ _ _ _ => balances_fault _ _

theorem Checked.ensures_meter (h : s.Checked p k) :
    Ensures (s.meter p) (fun s => (s.advance p).Metered p k) (fun e s => s.Balances p e) := by
  apply State.ensures_meter
  · intro hlimited hreached
    have hwithin := h.within hlimited
    have hfewer := h.fewer
    rw [h.evaluations] at hreached
    exact h.balances nofun fun _ => ⟨hlimited, by omega⟩
  · intro hleft
    exact
      { h.toTallied.congr rfl rfl rfl with
        fewer := by
          have hfewer := h.fewer
          show s.iterations + (if s.searching then 1 else 0) ≤ k
          split <;> omega
        callsLeft := fun hlimited => (h.evaluations ▸ hleft hlimited).trans_le (le_max_right _ _)
        iterationsLeft := h.iterationsLeft }

/-! ## Turns and runs -/

variable [Capacity m]

/-- A run between two turns, after `k` calls, that keeps the protocol with its line search. -/
structure Paced (p : Problem α σ τ n) (first : τ) (k : ℕ) (s : State α σ τ n m) : Prop where
  metered : s.Metered p k
  trying : s.Trying p first

theorem Paced.ensures_turn (h : s.Paced p first k) :
    Ensures (s.turn p) (fun s => s.Paced p first (k + 1)) (fun e s => s.Balances p e) := by
  have hturn : Ensures (s.turn p) (fun s => s.Metered p (k + 1) ∧ s.Trying p first)
      (fun e s => s.Balances p e ∧ s.Lawful p first) :=
    State.ensures_turn (h.metered.ensures_project.and h.trying.ensures_project)
      (fun _ hs => hs.1.ensures_evaluate.and hs.2.ensures_evaluate)
      (fun _ hs => hs.1.ensures_measure.and hs.2.ensures_measure)
      (fun _ hs => (hs.1.ensures_settle hs.2).and hs.2.ensures_settle)
      (fun _ hs => hs.1.ensures_consult.and hs.2.ensures_consult)
      (fun _ hs => hs.1.ensures_seek.and hs.2.ensures_seek)
      (fun _ hs => hs.1.ensures_meter.and hs.2.ensures_meter)
  exact hturn.mono (fun _ hs => ⟨hs.1, hs.2⟩) fun _ _ hs => hs.1

omit [Scalar α] [Capacity m] in
theorem Balanced.counted {last : State α σ τ n m} {solution : Solution α n}
    (h : s.Balanced p solution.status) (hcloses : s.Closes last solution) :
    solution.iterations = acceptedSearches last.transcript +
      if solution.status = .convergence ∧ ¬ IsIdle last.transcript then 1 else 0 := by
  have haccepted : acceptedSearches last.transcript = acceptedSearches s.transcript :=
    hcloses.view fun e t he => acceptedSearches_bookkeeping e t (isBookkeeping_of_isTable he)
  have hidle : IsIdle last.transcript ↔ IsIdle s.transcript := by
    unfold IsIdle
    rw [hcloses.view fun e t he => lastReply_bookkeeping e t (isBookkeeping_of_isTable he)]
  rw [hcloses.iterations, h.iterations, haccepted]
  simp only [hidle]

theorem solve_paced {turns : ℕ} {x : Vec α n} {objective : σ} {search : τ}
    {outcome : Outcome α n} {last : State α σ τ n m}
    (h : p.solve m turns x objective search = (outcome, last)) :
    (outcome = .unfinished → last.Paced p search turns) ∧
      ∀ solution, outcome = .returned solution →
        ∃ s : State α σ τ n m, s.Balanced p solution.status ∧ s.Closes last solution :=
  solve_closes (fun k s (hs : s.Paced p search k) => hs.ensures_turn)
    ⟨initial_metered p x objective search, initial_trying p x objective search⟩ h

end State

/-! ## Sample runs

The run that comes back from a failed search is ended by its budget of evaluations.  The
run down the parabola is ended by its budget of iterations. -/

namespace Sample

def restartedSolution : Solution Float 1 :=
  ⟨⟨[0.125], rfl⟩, -0.99993896484375, .tooManyEvaluations, 4, 6, 1, 7.998046875⟩

theorem restartedRun_returned :
    restartedRun 2 = (.returned restartedSolution, (restartedRun 2).2) :=
  Outcome.eq_returned (by decide +kernel)

def parabolaProblem (maxIterations : ℤ) : Problem Float ℕ ℕ 1 where
  precision := .double
  keepsPairs := true
  objective := parabola.objective none .double [1]
  feasible := .unconstrained
  search := .thirdFails
  settings := ⟨maxIterations, -1, (0.0, 1e-6), (1.0, 0.0), 0⟩

def parabolaRun (maxIterations : ℤ) : Outcome Float 1 × State Float ℕ ℕ 1 1 :=
  (parabolaProblem maxIterations).solve 1 5 (.replicate 1 0.0) 0 0

def iteratedSolution : Solution Float 1 :=
  ⟨⟨[1.0], rfl⟩, 2.0, .tooManyIterations, 1, 2, 0, 2.0⟩

theorem parabolaRun_one_returned :
    parabolaRun 1 = (.returned iteratedSolution, (parabolaRun 1).2) :=
  Outcome.eq_returned (by decide +kernel)

theorem parabolaRun_zero_returned :
    parabolaRun 0 = (.returned iteratedSolution, (parabolaRun 0).2) :=
  Outcome.eq_returned (by decide +kernel)

end Sample

section Returned

variable [Scalar α] [Capacity m] {p : Problem α σ τ n} {turns : ℕ} {x : Vec α n}
  {objective : σ} {search : τ} {solution : Solution α n} {last : State α σ τ n m}

/-- A run that returns tells how often it has called its objective, and keeps within its
budget for that.  It tells one iteration for every search that was accepted, and one more
if it converged with a search under way; these are fewer than its evaluations. -/
theorem Problem.returned_counters [OrderedScalar α]
    (h : p.solve m turns x objective search = (.returned solution, last)) :
    (p.objective.Calls objective (answers last.transcript) last.objective ∧
        (answers last.transcript).length = solution.evaluations ∧
        last.transcript.evaluations.length = solution.evaluations) ∧
      (0 ≤ p.settings.maxEvaluations →
        solution.evaluations ≤ max 1 p.settings.maxEvaluations) ∧
      (solution.status = .tooManyEvaluations →
        0 ≤ p.settings.maxEvaluations ∧
          solution.evaluations = max 1 p.settings.maxEvaluations) ∧
      solution.iterations = acceptedSearches last.transcript +
        (if solution.status = .convergence ∧ ¬ IsIdle last.transcript then 1 else 0) ∧
      solution.iterations ≤ solution.evaluations - 1 ∧ 1 ≤ solution.evaluations := by
  obtain ⟨ended, haccounts⟩ := Problem.exists_accounts h
  have hrecorded := haccounts.ended.coherent.recorded
  obtain ⟨s, hbalanced, hcloses⟩ := (State.solve_paced h).2 solution rfl
  have hevaluations : last.transcript.evaluations = s.transcript.evaluations :=
    hcloses.view fun e t he => evaluations_bookkeeping e t (isBookkeeping_of_isTable he)
  have hfewer := hbalanced.fewer
  refine ⟨⟨?_, ?_, ?_⟩, ?_, ?_, ?_, ?_⟩
  · rw [haccounts.answers, haccounts.objective]
    exact hrecorded.calls
  · rw [haccounts.answers, haccounts.evaluations, hrecorded.evaluations]
  · rw [hevaluations, hbalanced.calls, hcloses.evaluations]
  · rw [hcloses.evaluations]
    exact hbalanced.within
  · rw [hcloses.evaluations]
    exact hbalanced.spent
  · exact hbalanced.counted hcloses
  · rw [hcloses.iterations, hcloses.evaluations]
    omega

theorem Sample.restartedRun_counters :
    restartedRun 2 = (.returned restartedSolution, (restartedRun 2).2) ∧
      (quarticProblem.objective.Calls 0 (answers (restartedRun 2).2.transcript)
          (restartedRun 2).2.objective ∧
        (answers (restartedRun 2).2.transcript).length = restartedSolution.evaluations ∧
        (restartedRun 2).2.transcript.evaluations.length = restartedSolution.evaluations) ∧
      (0 ≤ quarticProblem.settings.maxEvaluations →
        restartedSolution.evaluations ≤ max 1 quarticProblem.settings.maxEvaluations) ∧
      (restartedSolution.status = .tooManyEvaluations →
        0 ≤ quarticProblem.settings.maxEvaluations ∧
          restartedSolution.evaluations = max 1 quarticProblem.settings.maxEvaluations) ∧
      restartedSolution.iterations = acceptedSearches (restartedRun 2).2.transcript +
        (if restartedSolution.status = .convergence ∧
          ¬ IsIdle (restartedRun 2).2.transcript then 1 else 0) ∧
      restartedSolution.iterations ≤ restartedSolution.evaluations - 1 ∧
      1 ≤ restartedSolution.evaluations :=
  ⟨restartedRun_returned, Problem.returned_counters restartedRun_returned⟩

/-- A run with an iteration left to do does no more iterations than it may.  A run with
none left does one too many exactly if a search is accepted, or if it converges with a
search under way. -/
theorem Problem.returned_iterations_le_iff
    (h : p.solve m turns x objective search = (.returned solution, last))
    (hlimited : 0 ≤ p.settings.maxIterations) :
    solution.iterations ≤ max 1 p.settings.maxIterations ∧
      (solution.iterations ≤ p.settings.maxIterations ↔
        1 ≤ p.settings.maxIterations ∨
          acceptedSearches last.transcript = 0 ∧
            ¬ (solution.status = .convergence ∧ ¬ IsIdle last.transcript)) := by
  obtain ⟨s, hbalanced, hcloses⟩ := (State.solve_paced h).2 solution rfl
  have hcounted := hbalanced.counted hcloses
  have hbounded := hbalanced.bounded hlimited
  rw [← hcloses.iterations] at hbounded
  constructor
  · exact hbounded
  · by_cases hconverged : solution.status = .convergence ∧ ¬ IsIdle last.transcript
    · rw [if_pos hconverged] at hcounted
      constructor
      · intro hle
        left
        omega
      · rintro (hone | ⟨-, hnot⟩)
        · omega
        · exact absurd hconverged hnot
    · rw [if_neg hconverged] at hcounted
      constructor
      · intro hle
        by_cases hone : 1 ≤ p.settings.maxIterations
        · exact .inl hone
        · exact .inr ⟨by omega, hconverged⟩
      · rintro (hone | ⟨hnone, -⟩) <;> omega

theorem Sample.parabolaRun_iterations_le_iff :
    parabolaRun 1 = (.returned iteratedSolution, (parabolaRun 1).2) ∧
      0 ≤ (parabolaProblem 1).settings.maxIterations ∧
      iteratedSolution.iterations ≤ max 1 (parabolaProblem 1).settings.maxIterations ∧
      (iteratedSolution.iterations ≤ (parabolaProblem 1).settings.maxIterations ↔
        1 ≤ (parabolaProblem 1).settings.maxIterations ∨
          acceptedSearches (parabolaRun 1).2.transcript = 0 ∧
            ¬ (iteratedSolution.status = .convergence ∧
              ¬ IsIdle (parabolaRun 1).2.transcript)) :=
  ⟨parabolaRun_one_returned, by decide,
    Problem.returned_iterations_le_iff parabolaRun_one_returned (by decide)⟩

/-- Its first search is accepted, although no iteration was left to do. -/
theorem Sample.parabolaRun_exceeds_iterations :
    parabolaRun 0 = (.returned iteratedSolution, (parabolaRun 0).2) ∧
      0 ≤ (parabolaProblem 0).settings.maxIterations ∧
      ¬ iteratedSolution.iterations ≤ (parabolaProblem 0).settings.maxIterations := by
  refine ⟨parabolaRun_zero_returned, ?_, ?_⟩
  all_goals decide

end Returned

end VariableMetric
