import VariableMetric.Run.State

/-!
# One turn of a run

A turn evaluates the objective once.  It brings the variables into the set,
evaluates, tests for convergence, tells the line search of the trial if a search
is under way, takes a direction and starts a search if none is, and moves to the
next trial.  Every part either goes on or ends the run.
-/

namespace VariableMetric

/-- A part of a turn: what it goes on with, or why the run ends and the state
at the end. -/
abbrev Progress (α σ τ : Type) (n m : Nat) (β : Type) :=
  Except (Ending × State α σ τ n m) β

namespace State

variable {α σ τ : Type} [Scalar α] {n m : Nat}

def stop {β : Type} (s : State α σ τ n m) (status : Status) : Progress α σ τ n m β :=
  .error (.status status, s)

def attempt {β : Type} (s : State α σ τ n m) (result : Except Fault β) : Progress α σ τ n m β :=
  match result with
  | .ok b => .ok b
  | .error fault => .error (.fault fault, s)

def project (p : Problem α σ τ n) (s : State α σ τ n m) :
    Progress α σ τ n m (State α σ τ n m) := do
  let x ← s.attempt (p.feasible.projectVariables s.current.point)
  pure { s with current := { s.current with point := x } }

def evaluate (p : Problem α σ τ n) (s : State α σ τ n m) :
    Progress α σ τ n m (State α σ τ n m) :=
  match p.objective.evaluate s.objective s.current.point s.current.gradient with
  | (.error fault, objective) =>
    .error (.fault fault, { s with objective }.record (.refused s.current.point))
  | (.ok (value, gradient), objective) =>
    let current : Iterate α n := ⟨s.current.point, value, gradient⟩
    .ok ({ s with current, objective, evaluations := s.evaluations + 1 }.record
      (.evaluated current))

def measured (p : Problem α σ τ n) (s : State α σ τ n m) : Except Fault (State α σ τ n m) := do
  let projected ← p.feasible.projectGradient s.current.point s.current.gradient
  pure { s with projected, norm := projected.norm }

def measure (p : Problem α σ τ n) (s : State α σ τ n m) :
    Progress α σ τ n m (State α σ τ n m) :=
  s.attempt (s.measured p)

def setThreshold (p : Problem α σ τ n) (s : State α σ τ n m) : State α σ τ n m :=
  if s.evaluations = 1 then
    { s with threshold := p.settings.tolerance.1 + p.settings.tolerance.2 * s.norm }
  else s

/-- Ends the run at a point where it has converged; a search under way counts
as an iteration. -/
def settle (s : State α σ τ n m) : Progress α σ τ n m (State α σ τ n m) :=
  if s.norm ≤ s.threshold then
    { s with iterations := if s.searching then s.iterations + 1 else s.iterations }.stop
      .convergence
  else .ok s

/-- The slope along the step that was really made from the origin, which the
set may have shortened. -/
def trialSlope (p : Problem α σ τ n) (s : State α σ τ n m) : Except Fault α :=
  if p.search.usesDerivative then
    let moved := Vec.difference p.precision s.current.point s.origin.point
    if Scalar.equal s.step 0 then throw .divisionByZero
    else pure (Vec.inner s.current.gradient moved / s.step)
  else pure 0

def accept (p : Problem α σ τ n) (s : State α σ τ n m) :
    Progress α σ τ n m (State α σ τ n m) :=
  let s := { s with iterations := s.iterations + 1, searching := false }
  if 0 ≤ p.settings.maxIterations ∧ p.settings.maxIterations ≤ s.iterations then
    s.stop .tooManyIterations
  else .ok s

def atOrigin (s : State α σ τ n m) : State α σ τ n m := { s with current := s.origin }

/-- Goes back to the origin of a failed search and forgets the memory, so that
the steepest descent is taken next.  A search along the steepest descent that
fails ends the run. -/
def abandon (p : Problem α σ τ n) (s : State α σ τ n m) :
    Progress α σ τ n m (State α σ τ n m) :=
  if s.steepest then s.stop .lineSearchFailure
  else do
    let s := (s.notify [.searchAbandoned s.iterations]).record .restored
    let s ← s.atOrigin.measure p
    pure
      { s with
        memory := s.memory.reset
        restarts := s.restarts + 1
        restored := true
        searching := false }

def follow (p : Problem α σ τ n) (status : SearchStatus) (s : State α σ τ n m) :
    Progress α σ τ n m (State α σ τ n m) :=
  match status with
  | .searching => .ok s
  | .converged => s.accept p
  | .failed => s.abandon p

def report (p : Problem α σ τ n) (s : State α σ τ n m) :
    Progress α σ τ n m (State α σ τ n m) := do
  let slope ← s.attempt (s.trialSlope p)
  match p.search.iterate s.search s.step s.current.value slope with
  | (.error fault, search) =>
    .error (.fault fault, { s with search }.record (.unanswered s.step s.current.value slope))
  | (.ok reply, search) =>
    let s := s.record (.iterated s.step s.current.value slope reply.status reply.step)
    ({ s with search, step := reply.step }.notify reply.notices).follow p reply.status

def consult (p : Problem α σ τ n) (s : State α σ τ n m) :
    Progress α σ τ n m (State α σ τ n m) :=
  if s.searching then s.report p else .ok s

def printDue (p : Problem α σ τ n) (s : State α σ τ n m) : State α σ τ n m :=
  if 0 < p.settings.verbosity ∧ s.iterations % p.settings.verbosity = 0 ∧ !s.restored then s.print
  else s

/-- Pushes the step from the last origin, unless a failed search has led back
there. -/
def remember [Capacity m] (p : Problem α σ τ n) (s : State α σ τ n m) :
    Progress α σ τ n m (State α σ τ n m) :=
  if 1 ≤ s.iterations ∧ !s.restored then
    if p.keepsPairs then
      let step := Vec.difference p.precision s.current.point s.origin.point
      let change := Vec.difference p.precision s.current.gradient s.origin.gradient
      .ok ({ s with memory := s.memory.push step change }.record (.pushed step change))
    else .error (.fault .wrongKind, s)
  else .ok s

/-- Asks the memory for a direction, and answers its slope if it descends. -/
def propose [Capacity m] (p : Problem α σ τ n) (s : State α σ τ n m) :
    Progress α σ τ n m (Option α × State α σ τ n m) := do
  let s := s.record (.recalled s.memory.pairs)
  let (answer, memory, notices) :=
    s.memory.direction p.precision (p.feasible.projectDirection s.current.point) s.direction
      s.current.gradient s.projected.support
  let s := { s with memory }.notify notices
  let d ← s.attempt answer
  let s := { s with direction := d.vector }
  if d.descends then pure (some d.slope, { s with steepest := false })
  else pure (none, { s with restarts := s.restarts + 1 })

def begin (p : Problem α σ τ n) (slope first : α) (s : State α σ τ n m) :
    Progress α σ τ n m (State α σ τ n m) := do
  let cap ← s.attempt (p.feasible.shortcutStep s.current.point s.direction)
  let step := Scalar.least first cap
  let pass : Pass α n :=
    ⟨s.iterations, s.evaluations, s.direction, slope, s.steepest, step, cap⟩
  let s := { s with step }.record (.chosen pass)
  if step ≤ 0 then s.stop .wouldBlock
  else
    let (reply, search) := p.search.start s.search s.current.value slope step cap
    let s := { s with origin := s.current, search, step := reply.step }.record
      (.started s.current pass reply.status reply.step)
    let s := s.notify reply.notices
    if reply.status = .searching then .ok { s with searching := true }
    else s.stop .lineSearchFailure

def descend (p : Problem α σ τ n) (s : State α σ τ n m) :
    Progress α σ τ n m (State α σ τ n m) := do
  let s := { s with direction := s.projected.scale p.precision (-1), steepest := true }
  let first ← s.attempt
    (p.feasible.initialStep s.current.point s.direction p.settings.firstStep)
  s.begin p (-(Scalar.square s.norm)) first

/-- Takes a direction from the memory if it offers one, and the steepest
descent otherwise, and starts a search along it. -/
def choose [Capacity m] (p : Problem α σ τ n) (s : State α σ τ n m) :
    Progress α σ τ n m (State α σ τ n m) :=
  if s.memory.live < 1 then s.descend p
  else do
    let (slope, s) ← s.propose p
    match slope with
    | some slope => s.begin p slope 1
    | none => s.descend p

/-- Takes a direction and starts a search along it, unless one is under way. -/
def seek [Capacity m] (p : Problem α σ τ n) (s : State α σ τ n m) :
    Progress α σ τ n m (State α σ τ n m) :=
  if s.searching then .ok s
  else do
    let s ← (s.printDue p).remember p
    { s with restored := false }.choose p

def meter (p : Problem α σ τ n) (s : State α σ τ n m) :
    Progress α σ τ n m (State α σ τ n m) :=
  if 0 ≤ p.settings.maxEvaluations ∧ p.settings.maxEvaluations ≤ s.evaluations then
    s.stop .tooManyEvaluations
  else .ok s

def advance (p : Problem α σ τ n) (s : State α σ τ n m) : State α σ τ n m :=
  { s with
    current :=
      { s.current with
        point := Vec.combine p.precision 1 s.origin.point s.step s.direction } }

def turn [Capacity m] (p : Problem α σ τ n) (s : State α σ τ n m) :
    Progress α σ τ n m (State α σ τ n m) := do
  let s ← s.project p
  let s ← s.evaluate p
  let s ← s.measure p
  let s ← (s.setThreshold p).settle
  let s ← s.consult p
  let s ← s.seek p
  let s ← s.meter p
  pure (s.advance p)

end State

end VariableMetric
