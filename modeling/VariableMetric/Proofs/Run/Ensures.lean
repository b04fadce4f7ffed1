import VariableMetric.Run
import Mathlib.Tactic

/-!
# What the parts of a turn ensure

A part of a turn goes on with a result or ends the run in some state.  A statement
about it is a pair of properties, one for each way.  The rules below take a turn
apart along its definition, so that a statement about a turn is put together from
statements about its parts, and one about a run from one about a turn.
-/

namespace VariableMetric.State

variable {α σ τ β γ : Type} {n m : Nat}

/-- Whatever the part goes on with has the first property, and whatever ends
the run in it has the second one. -/
def Ensures (part : Progress α σ τ n m β) (onward : β → Prop)
    (ended : Ending → State α σ τ n m → Prop) : Prop :=
  match part with
  | .ok b => onward b
  | .error (ending, s) => ended ending s

theorem Ensures.bind {part : Progress α σ τ n m β} {next : β → Progress α σ τ n m γ}
    {onward : β → Prop} {onward' : γ → Prop}
    {ended : Ending → State α σ τ n m → Prop}
    (hpart : Ensures part onward ended)
    (hnext : ∀ b, onward b → Ensures (next b) onward' ended) :
    Ensures (part >>= next) onward' ended := by
  cases part with
  | ok b => exact hnext b hpart
  | error result => exact hpart

theorem Ensures.and {part : Progress α σ τ n m β} {onward onward' : β → Prop}
    {ended ended' : Ending → State α σ τ n m → Prop} (h : Ensures part onward ended)
    (h' : Ensures part onward' ended') :
    Ensures part (fun b => onward b ∧ onward' b) (fun e s => ended e s ∧ ended' e s) := by
  cases part with
  | ok b => exact ⟨h, h'⟩
  | error result => exact ⟨h, h'⟩

theorem Ensures.mono {part : Progress α σ τ n m β} {onward onward' : β → Prop}
    {ended ended' : Ending → State α σ τ n m → Prop} (h : Ensures part onward ended)
    (honward : ∀ b, onward b → onward' b) (hended : ∀ e s, ended e s → ended' e s) :
    Ensures part onward' ended' := by
  cases part with
  | ok b => exact honward b h
  | error result => exact hended _ _ h

/-- A step that may be refused, and what is done with its result. -/
theorem ensures_attempt {s : State α σ τ n m} {result : Except Fault β}
    {next : β → Progress α σ τ n m γ} {onward : γ → Prop}
    {ended : Ending → State α σ τ n m → Prop}
    (hok : ∀ b, result = .ok b → Ensures (next b) onward ended)
    (hfault : ∀ fault, result = .error fault → ended (.fault fault) s) :
    Ensures (s.attempt result >>= next) onward ended := by
  cases result with
  | ok b => exact hok b rfl
  | error fault => exact hfault fault rfl

/-!
## The states inside a turn

They are named for what has happened last: the objective has answered, the line
search has been told of a trial, the trial has been accepted or the run sent back
to the origin, a pair has been pushed, the memory asked for a direction, a step
chosen along it and a search begun.
-/

variable [Scalar α]

def answered (s : State α σ τ n m) (i : Iterate α n) (objective : σ) : State α σ τ n m :=
  { s with current := i, objective, evaluations := s.evaluations + 1 }.record (.evaluated i)

def told (s : State α σ τ n m) (slope : α) (reply : Reply α) (search : τ) :
    State α σ τ n m :=
  { s.record (.iterated s.step s.current.value slope reply.status reply.step) with
    search
    step := reply.step }.notify reply.notices

def accepted (s : State α σ τ n m) : State α σ τ n m :=
  { s with iterations := s.iterations + 1, searching := false }

def sentBack (s : State α σ τ n m) (projected : Vec α n) : State α σ τ n m :=
  { ((s.notify [.searchAbandoned s.iterations]).record .restored).atOrigin with
    projected
    norm := projected.norm
    memory := s.memory.reset
    restarts := s.restarts + 1
    restored := true
    searching := false }

def enriched [Capacity m] (s : State α σ τ n m) (step change : Vec α n) : State α σ τ n m :=
  { s with memory := s.memory.push step change }.record (.pushed step change)

def asked [Capacity m] (s : State α σ τ n m) (memory : Memory α n m)
    (notices : List (Notice α)) : State α σ τ n m :=
  { s.record (.recalled s.memory.pairs) with memory }.notify notices

def steered (s : State α σ τ n m) (p : Problem α σ τ n) : State α σ τ n m :=
  { s with direction := s.projected.scale p.precision (-1), steepest := true }

def pass (s : State α σ τ n m) (slope step cap : α) : Pass α n :=
  ⟨s.iterations, s.evaluations, s.direction, slope, s.steepest, step, cap⟩

def chosen (s : State α σ τ n m) (slope step cap : α) : State α σ τ n m :=
  { s with step }.record (.chosen (s.pass slope step cap))

def begun (s : State α σ τ n m) (pass : Pass α n) (reply : Reply α) (search : τ) :
    State α σ τ n m :=
  ({ s with origin := s.current, search, step := reply.step }.record
    (.started s.current pass reply.status reply.step)).notify reply.notices

/-! ## The parts of a turn -/

section Parts

variable {p : Problem α σ τ n} {s : State α σ τ n m} {onward : State α σ τ n m → Prop}
  {ended : Ending → State α σ τ n m → Prop}

omit [Scalar α] in
theorem ensures_project
    (hpoint : ∀ x, p.feasible.projectVariables s.current.point = .ok x →
      onward { s with current := { s.current with point := x } })
    (hfault : ∀ fault, p.feasible.projectVariables s.current.point = .error fault →
      ended (.fault fault) s) :
    Ensures (s.project p) onward ended :=
  ensures_attempt hpoint hfault

omit [Scalar α] in
theorem ensures_evaluate
    (hanswer : ∀ value gradient objective,
      p.objective.evaluate s.objective s.current.point s.current.gradient =
        (.ok (value, gradient), objective) →
      onward (s.answered ⟨s.current.point, value, gradient⟩ objective))
    (hrefusal : ∀ fault objective,
      p.objective.evaluate s.objective s.current.point s.current.gradient =
        (.error fault, objective) →
      ended (.fault fault) ({ s with objective }.record (.refused s.current.point))) :
    Ensures (s.evaluate p) onward ended := by
  unfold evaluate
  split
  next fault objective heq => exact hrefusal fault objective heq
  next value gradient objective heq => exact hanswer value gradient objective heq

theorem ensures_measure
    (hnorm : ∀ projected,
      p.feasible.projectGradient s.current.point s.current.gradient = .ok projected →
      onward { s with projected, norm := projected.norm })
    (hfault : ∀ fault,
      p.feasible.projectGradient s.current.point s.current.gradient = .error fault →
      ended (.fault fault) s) :
    Ensures (s.measure p) onward ended := by
  unfold measure measured
  cases hproject : p.feasible.projectGradient s.current.point s.current.gradient with
  | ok projected => exact hnorm projected hproject
  | error fault => exact hfault fault hproject

/-- What does not look at the threshold is kept when the threshold is set. -/
theorem setThreshold_of (P : State α σ τ n m → Prop) (h : ∀ threshold, P { s with threshold }) :
    P (s.setThreshold p) := by
  unfold setThreshold
  split
  · exact h _
  · exact h s.threshold

omit [Scalar α] in
/-- What neither the head nor a row of the table touches is kept when they are printed. -/
theorem print_of (P : State α σ τ n m → Prop) (hheaded : ∀ s, P s → P (s.record .headed))
    (hprinted : ∀ s row, P s → P (s.record (.printed row))) (h : P s) : P s.print := by
  unfold print
  apply hprinted
  split
  · exact hheaded s h
  · exact h

omit [Scalar α] in
theorem printDue_of (P : State α σ τ n m → Prop) (hheaded : ∀ s, P s → P (s.record .headed))
    (hprinted : ∀ s row, P s → P (s.record (.printed row))) (h : P s) : P (s.printDue p) := by
  unfold printDue
  split
  · exact print_of P hheaded hprinted h
  · exact h

omit [Scalar α] in
theorem printLast_of (P : State α σ τ n m → Prop) (hheaded : ∀ s, P s → P (s.record .headed))
    (hprinted : ∀ s row, P s → P (s.record (.printed row))) (h : P s) : P (s.printLast p) := by
  unfold printLast
  split
  · exact print_of P hheaded hprinted h
  · exact h

theorem ensures_settle
    (hbelow : s.norm ≤ s.threshold → ended (.status .convergence)
      { s with iterations := if s.searching then s.iterations + 1 else s.iterations })
    (habove : ¬ s.norm ≤ s.threshold → onward s) :
    Ensures s.settle onward ended := by
  unfold settle
  split
  next h => exact hbelow h
  next h => exact habove h

omit [Scalar α] in
theorem ensures_accept
    (hspent : 0 ≤ p.settings.maxIterations →
      p.settings.maxIterations ≤ s.accepted.iterations →
      ended (.status .tooManyIterations) s.accepted)
    (hnext : (0 ≤ p.settings.maxIterations →
      s.accepted.iterations < p.settings.maxIterations) → onward s.accepted) :
    Ensures (s.accept p) onward ended := by
  unfold accept
  dsimp only
  split
  next h => exact hspent h.1 h.2
  next h => exact hnext fun hlimited => lt_of_not_ge fun hspent => h ⟨hlimited, hspent⟩

theorem ensures_abandon
    (hsteepest : s.steepest = true → ended (.status .lineSearchFailure) s)
    (hback : s.steepest = false → ∀ projected,
      p.feasible.projectGradient s.origin.point s.origin.gradient = .ok projected →
      onward (s.sentBack projected))
    (hfault : ∀ fault,
      p.feasible.projectGradient s.origin.point s.origin.gradient = .error fault →
      ended (.fault fault)
        ((s.notify [.searchAbandoned s.iterations]).record .restored).atOrigin) :
    Ensures (s.abandon p) onward ended := by
  unfold abandon
  split
  next h => exact hsteepest h
  next h =>
    have hmeasure : Ensures
        (((s.notify [.searchAbandoned s.iterations]).record .restored).atOrigin.measure p)
        (fun t => onward
          { t with
            memory := t.memory.reset
            restarts := t.restarts + 1
            restored := true
            searching := false }) ended :=
      ensures_measure (hback (by simpa using h)) hfault
    exact hmeasure.bind fun _ ht => ht

theorem ensures_report
    (hreply : ∀ slope reply search, s.trialSlope p = .ok slope →
      p.search.iterate s.search s.step s.current.value slope = (.ok reply, search) →
      Ensures ((s.told slope reply search).follow p reply.status) onward ended)
    (hslope : ∀ fault, s.trialSlope p = .error fault → ended (.fault fault) s)
    (hsilent : ∀ slope fault search,
      p.search.iterate s.search s.step s.current.value slope = (.error fault, search) →
      ended (.fault fault)
        ({ s with search }.record (.unanswered s.step s.current.value slope))) :
    Ensures (s.report p) onward ended := by
  unfold report
  refine ensures_attempt (fun slope htrial => ?_) hslope
  split
  next fault search heq => exact hsilent slope fault search heq
  next reply search heq => exact hreply slope reply search htrial heq

theorem consult_of_searching (h : s.searching = true) : s.consult p = s.report p :=
  if_pos h

theorem consult_of_idle (h : s.searching = false) : s.consult p = .ok s :=
  if_neg (by simp [h])

/-- The line search is only told of a trial while it is under way. -/
theorem ensures_consult (hidle : s.searching = false → onward s)
    (hreport : s.searching = true → Ensures (s.report p) onward ended) :
    Ensures (s.consult p) onward ended := by
  cases hsearching : s.searching with
  | true =>
    rw [consult_of_searching hsearching]
    exact hreport hsearching
  | false =>
    rw [consult_of_idle hsearching]
    exact hidle hsearching

theorem ensures_remember [Capacity m]
    (hpush : 1 ≤ s.iterations → s.restored = false → onward
      (s.enriched (Vec.difference p.precision s.current.point s.origin.point)
        (Vec.difference p.precision s.current.gradient s.origin.gradient)))
    (hskip : s.iterations < 1 ∨ s.restored = true → onward s)
    (hfault : p.keepsPairs = false → 1 ≤ s.iterations → ended (.fault .wrongKind) s) :
    Ensures (s.remember p) onward ended := by
  unfold remember
  split
  next h =>
    split
    next => exact hpush h.1 (by simpa using h.2)
    next hkeeps => exact hfault (by simpa using hkeeps) h.1
  next h =>
    apply hskip
    simp only [Bool.not_eq_true', not_and, Bool.not_eq_false] at h
    exact (Nat.lt_or_ge s.iterations 1).imp id h

/-- A direction of the memory is taken if it descends, and counted as a restart
otherwise. -/
theorem ensures_propose [Capacity m] {onward : Option α × State α σ τ n m → Prop}
    (hdirection : ∀ d memory notices,
      s.memory.direction p.precision (p.feasible.projectDirection s.current.point) s.direction
        s.current.gradient s.projected.support = (.ok d, memory, notices) →
      (d.descends = true → onward (some d.slope,
        { s.asked memory notices with direction := d.vector, steepest := false })) ∧
      (d.descends = false → onward (none,
        { s.asked memory notices with
          direction := d.vector
          restarts := (s.asked memory notices).restarts + 1 })))
    (hfault : ∀ fault memory notices,
      s.memory.direction p.precision (p.feasible.projectDirection s.current.point) s.direction
        s.current.gradient s.projected.support = (.error fault, memory, notices) →
      ended (.fault fault) (s.asked memory notices)) :
    Ensures (s.propose p) onward ended := by
  unfold propose
  dsimp only [record]
  cases hanswer : s.memory.direction p.precision
    (p.feasible.projectDirection s.current.point) s.direction s.current.gradient
    s.projected.support with
  | mk answer rest =>
      obtain ⟨memory, notices⟩ := rest
      cases answer with
      | error fault => exact hfault fault memory notices hanswer
      | ok d =>
          obtain ⟨hdescends, hrefused⟩ := hdirection d memory notices hanswer
          show Ensures (if d.descends = true then _ else _) onward ended
          split
          next h => exact hdescends h
          next h => exact hrefused (by simpa using h)

/-- A search is begun along the direction that has been taken, unless there is
no step to make. -/
theorem ensures_begin {slope first : α}
    (hblocked : ∀ cap, p.feasible.shortcutStep s.current.point s.direction = .ok cap →
      Scalar.least first cap ≤ 0 →
      ended (.status .wouldBlock) (s.chosen slope (Scalar.least first cap) cap))
    (hbegun : ∀ cap reply search,
      p.feasible.shortcutStep s.current.point s.direction = .ok cap →
      ¬ Scalar.least first cap ≤ 0 →
      p.search.start s.search s.current.value slope (Scalar.least first cap) cap =
        (reply, search) →
      let next := (s.chosen slope (Scalar.least first cap) cap).begun
        (s.pass slope (Scalar.least first cap) cap) reply search
      (reply.status = .searching → onward { next with searching := true }) ∧
        (reply.status ≠ .searching → ended (.status .lineSearchFailure) next))
    (hfault : ∀ fault, p.feasible.shortcutStep s.current.point s.direction = .error fault →
      ended (.fault fault) s) :
    Ensures (s.begin p slope first) onward ended := by
  unfold begin
  refine ensures_attempt (fun cap hcap => ?_) hfault
  dsimp only [record]
  split
  next h => exact hblocked cap hcap h
  next h =>
    obtain ⟨hsearching, hrefused⟩ := hbegun cap _ _ hcap h rfl
    split
    next hstatus => exact hsearching hstatus
    next hstatus => exact hrefused hstatus

theorem ensures_descend
    (hfirst : ∀ first,
      p.feasible.initialStep s.current.point (s.steered p).direction p.settings.firstStep =
        .ok first →
      Ensures ((s.steered p).begin p (-(Scalar.square s.norm)) first) onward ended)
    (hfault : ∀ fault,
      p.feasible.initialStep s.current.point (s.steered p).direction p.settings.firstStep =
        .error fault →
      ended (.fault fault) (s.steered p)) :
    Ensures (s.descend p) onward ended :=
  ensures_attempt hfirst hfault

/-- A search is begun along the direction of the memory, if that offers one, and down the
steepest descent otherwise. -/
theorem ensures_choose [Capacity m] {proposed : Option α × State α σ τ n m → Prop}
    (hempty : s.memory.live < 1 → Ensures (s.descend p) onward ended)
    (hpropose : ¬ s.memory.live < 1 → Ensures (s.propose p) proposed ended)
    (htaken : ∀ slope s, proposed (some slope, s) → Ensures (s.begin p slope 1) onward ended)
    (hrefused : ∀ s, proposed (none, s) → Ensures (s.descend p) onward ended) :
    Ensures (s.choose p) onward ended := by
  unfold choose
  split
  next h => exact hempty h
  next h =>
    refine (hpropose h).bind ?_
    rintro ⟨slope, s'⟩ hs'
    cases slope with
    | some slope => exact htaken slope s' hs'
    | none => exact hrefused s' hs'

theorem seek_of_searching [Capacity m] (h : s.searching = true) : s.seek p = .ok s :=
  if_pos h

theorem seek_of_idle [Capacity m] (h : s.searching = false) :
    s.seek p = (s.printDue p).remember p >>= fun s => choose p { s with restored := false } :=
  if_neg (by simp [h])

/-- What is due is printed and remembered, and a search begun, unless one is under way. -/
theorem ensures_seek [Capacity m] {remembered : State α σ τ n m → Prop}
    (hbusy : s.searching = true → onward s)
    (hremember : s.searching = false →
      Ensures ((s.printDue p).remember p) remembered ended)
    (hchoose : ∀ s, remembered s → Ensures (choose p { s with restored := false }) onward ended) :
    Ensures (s.seek p) onward ended := by
  cases hsearching : s.searching with
  | true =>
    rw [seek_of_searching hsearching]
    exact hbusy hsearching
  | false =>
    rw [seek_of_idle hsearching]
    exact (hremember hsearching).bind hchoose

omit [Scalar α] in
theorem ensures_meter
    (hspent : 0 ≤ p.settings.maxEvaluations → p.settings.maxEvaluations ≤ s.evaluations →
      ended (.status .tooManyEvaluations) s)
    (hnext : (0 ≤ p.settings.maxEvaluations → s.evaluations < p.settings.maxEvaluations) →
      onward s) :
    Ensures (s.meter p) onward ended := by
  unfold meter
  split
  next h => exact hspent h.1 h.2
  next h => exact hnext fun hlimited => lt_of_not_ge fun hspent => h ⟨hlimited, hspent⟩

end Parts

/-! ## Turns and runs -/

/-- The first half of a turn: the objective answers, and the run ends if it has
converged. -/
def gauge (p : Problem α σ τ n) (s : State α σ τ n m) :
    Progress α σ τ n m (State α σ τ n m) := do
  let s ← s.project p
  let s ← s.evaluate p
  let s ← s.measure p
  (s.setThreshold p).settle

theorem turn_eq [Capacity m] (p : Problem α σ τ n) (s : State α σ τ n m) :
    s.turn p = s.gauge p >>= fun s => s.consult p >>= fun s => s.seek p >>= fun s =>
      s.meter p >>= fun s => pure (s.advance p) := by
  unfold turn gauge
  simp only [bind_assoc]

theorem ensures_gauge {p : Problem α σ τ n} {s : State α σ τ n m}
    {projected evaluated measured onward : State α σ τ n m → Prop}
    {ended : Ending → State α σ τ n m → Prop}
    (hproject : Ensures (s.project p) projected ended)
    (hevaluate : ∀ s, projected s → Ensures (s.evaluate p) evaluated ended)
    (hmeasure : ∀ s, evaluated s → Ensures (s.measure p) measured ended)
    (hsettle : ∀ s, measured s → Ensures (s.setThreshold p).settle onward ended) :
    Ensures (s.gauge p) onward ended := by
  unfold gauge
  refine hproject.bind fun s hs => ?_
  refine (hevaluate s hs).bind fun s hs => ?_
  exact (hmeasure s hs).bind hsettle

theorem ensures_turn [Capacity m] {p : Problem α σ τ n} {s : State α σ τ n m}
    {projected evaluated measured unsettled consulted sought onward :
      State α σ τ n m → Prop}
    {ended : Ending → State α σ τ n m → Prop}
    (hproject : Ensures (s.project p) projected ended)
    (hevaluate : ∀ s, projected s → Ensures (s.evaluate p) evaluated ended)
    (hmeasure : ∀ s, evaluated s → Ensures (s.measure p) measured ended)
    (hsettle : ∀ s, measured s → Ensures (s.setThreshold p).settle unsettled ended)
    (hconsult : ∀ s, unsettled s → Ensures (s.consult p) consulted ended)
    (hseek : ∀ s, consulted s → Ensures (s.seek p) sought ended)
    (hmeter : ∀ s, sought s → Ensures (s.meter p) (fun s => onward (s.advance p)) ended) :
    Ensures (s.turn p) onward ended := by
  rw [turn_eq]
  refine (ensures_gauge hproject hevaluate hmeasure hsettle).bind fun s hs => ?_
  refine (hconsult s hs).bind fun s hs => ?_
  refine (hseek s hs).bind fun s hs => ?_
  exact (hmeter s hs).bind fun s hs => hs

/-- A run that is left unfinished has taken all its turns; any other run comes to what is
made of a state in which a turn ended it. -/
theorem run_counted [Capacity m] {p : Problem α σ τ n} {good : Nat → State α σ τ n m → Prop}
    {ended : Ending → State α σ τ n m → Prop}
    (hturn : ∀ k s, good k s → Ensures (s.turn p) (good (k + 1)) ended)
    (turns k : Nat) (s : State α σ τ n m) (hs : good k s) :
    (∃ last, good (k + turns) last ∧ s.run p turns = (.unfinished, last)) ∨
      ∃ ending last, ended ending last ∧ s.run p turns = last.finish p ending := by
  induction turns generalizing k s with
  | zero => exact .inl ⟨s, hs, rfl⟩
  | succ turns ih =>
      have hstep := hturn k s hs
      unfold run
      cases hresult : s.turn p with
      | ok next =>
          rw [hresult] at hstep
          rw [Nat.add_comm turns, ← Nat.add_assoc]
          exact ih (k + 1) next hstep
      | error result =>
          rw [hresult] at hstep
          exact .inr ⟨result.1, result.2, hstep, rfl⟩

/-- A property that every turn keeps holds of a run that is left unfinished;
any other run comes to what is made of a state in which a turn ended it. -/
theorem run_cases [Capacity m] {p : Problem α σ τ n} {good : State α σ τ n m → Prop}
    {ended : Ending → State α σ τ n m → Prop}
    (hturn : ∀ s, good s → Ensures (s.turn p) good ended)
    (turns : Nat) (s : State α σ τ n m) (hs : good s) :
    (∃ last, good last ∧ s.run p turns = (.unfinished, last)) ∨
      ∃ ending last, ended ending last ∧ s.run p turns = last.finish p ending :=
  have hcounted : ∀ k s, (fun _ => good) k s →
      Ensures (s.turn p) ((fun _ => good) (k + 1)) ended := fun _ => hturn
  run_counted hcounted turns 0 s hs

/-- A settled state is the state itself, or stands at the origin of the last
search if the value there is smaller. -/
theorem settled_cases {p : Problem α σ τ n} {s final : State α σ τ n m}
    (h : s.settled p = .ok final) :
    (¬ s.origin.value < s.current.value ∧ final = s) ∨
      (s.origin.value < s.current.value ∧ ∃ projected,
        p.feasible.projectGradient s.origin.point s.origin.gradient = .ok projected ∧
        final = { s with current := s.origin, projected, norm := projected.norm }) := by
  unfold settled at h
  split at h
  next hlt =>
    right
    refine ⟨hlt, ?_⟩
    obtain ⟨projected, hproject, h⟩ := exists_of_bind_eq_ok h
    exact ⟨projected, hproject, (Except.ok.inj h).symm⟩
  next hlt =>
    left
    exact ⟨hlt, by simpa [pure, Except.pure] using h.symm⟩

/-- Settling and printing the last row put nothing on record but the table. -/
theorem finish_transcript {P : Transcript α n → Prop} (hheaded : ∀ t, P t → P (.headed :: t))
    (hprinted : ∀ row t, P t → P (.printed row :: t)) {p : Problem α σ τ n} (ending : Ending)
    {s : State α σ τ n m} (h : P s.transcript) : P (s.finish p ending).2.transcript := by
  have hprint : ∀ s : State α σ τ n m, P s.transcript → P (s.printLast p).transcript := fun s =>
    printLast_of (P ·.transcript) (fun s => hheaded s.transcript)
      fun s row => hprinted row s.transcript
  unfold finish
  cases ending with
  | fault fault => exact h
  | status status =>
      cases hsettled : s.settled p with
      | error fault => exact h
      | ok final =>
          apply hprint
          rcases settled_cases hsettled with ⟨-, rfl⟩ | ⟨-, projected, -, rfl⟩ <;> exact h

/-- What holds of the record of every state that a turn goes on with or ends in holds
of the record of the whole run. -/
theorem solve_transcript [Capacity m] {p : Problem α σ τ n} {good : State α σ τ n m → Prop}
    {P : Transcript α n → Prop} (hheaded : ∀ t, P t → P (.headed :: t))
    (hprinted : ∀ row t, P t → P (.printed row :: t))
    (hturn : ∀ s, good s → Ensures (s.turn p) good fun _ s => P s.transcript)
    (hgood : ∀ s, good s → P s.transcript) (turns : Nat) (x : Vec α n) (objective : σ)
    (search : τ) (hinitial : good (State.initial p x objective search)) :
    P (p.solve m turns x objective search).2.transcript := by
  unfold Problem.solve
  rcases run_cases hturn turns _ hinitial with ⟨last, hlast, hrun⟩ | ⟨ending, last, hlast, hrun⟩
  · rw [hrun]
    exact hgood last hlast
  · rw [hrun]
    exact finish_transcript hheaded hprinted ending hlast

theorem finish_ne_unfinished (p : Problem α σ τ n) (ending : Ending) (s : State α σ τ n m) :
    (s.finish p ending).1 ≠ .unfinished := by
  unfold finish
  cases ending with
  | fault fault => exact nofun
  | status status =>
      dsimp only
      split <;> exact nofun

/-- A run returns from a state in which it ended with a status, once that state
has been settled. -/
theorem finish_returned {p : Problem α σ τ n} {ending : Ending}
    {s last : State α σ τ n m} {solution : Solution α n}
    (h : s.finish p ending = (.returned solution, last)) :
    ∃ final, ending = .status solution.status ∧ s.settled p = .ok final ∧
      solution = final.solution solution.status ∧ last = final.printLast p := by
  unfold finish at h
  cases ending with
  | fault f => simp at h
  | status status =>
      cases hsettled : s.settled p with
      | error f => simp [hsettled] at h
      | ok final =>
          simp only [hsettled, Prod.mk.injEq, Outcome.returned.injEq] at h
          obtain ⟨rfl, rfl⟩ := h
          exact ⟨final, rfl, rfl, rfl, rfl⟩

/-- A run fails in a state in which it ended with a fault, or which cannot be settled. -/
theorem finish_failed {p : Problem α σ τ n} {ending : Ending} {s last : State α σ τ n m}
    {fault : Fault} (h : s.finish p ending = (.failed fault, last)) :
    ending = .fault fault ∨ ∃ status, ending = .status status ∧ s.settled p = .error fault := by
  unfold finish at h
  cases ending with
  | fault f => exact .inl (congrArg Ending.fault (Outcome.failed.inj (Prod.mk.inj h).1))
  | status status =>
      cases hsettled : s.settled p with
      | error f =>
          rw [hsettled] at h
          obtain rfl := Outcome.failed.inj (Prod.mk.inj h).1
          exact .inr ⟨status, rfl, rfl⟩
      | ok final => simp [hsettled] at h

end VariableMetric.State
