import VariableMetric.Run.Turn

/-!
# Runs

A run takes turns until it ends.  It never returns a point that is worse than
the origin of its last search: if the last trial is, the run goes back.

How many turns a run needs is not known beforehand, so it is carried out within
a number of turns, and is left unfinished if they do not suffice.
-/

namespace VariableMetric

structure Solution (α : Type) (n : Nat) where
  point : Vec α n
  value : α
  status : Status
  iterations : Nat
  evaluations : Nat
  restarts : Nat
  norm : α

inductive Outcome (α : Type) (n : Nat) where
  | returned (s : Solution α n)
  | failed (f : Fault)
  | unfinished

namespace State

variable {α σ τ : Type} [Scalar α] {n m : Nat}

def solution (s : State α σ τ n m) (status : Status) : Solution α n :=
  ⟨s.current.point, s.current.value, status, s.iterations, s.evaluations, s.restarts, s.norm⟩

/-- The state that is returned: at the origin of the last search if the current
value is larger. -/
def settled (p : Problem α σ τ n) (s : State α σ τ n m) : Except Fault (State α σ τ n m) :=
  if s.origin.value < s.current.value then s.atOrigin.measured p else pure s

def printLast (p : Problem α σ τ n) (s : State α σ τ n m) : State α σ τ n m :=
  if 0 < p.settings.verbosity then s.print else s

def finish (p : Problem α σ τ n) (ending : Ending) (s : State α σ τ n m) :
    Outcome α n × State α σ τ n m :=
  match ending with
  | .fault fault => (.failed fault, s)
  | .status status =>
    match s.settled p with
    | .ok s => (.returned (s.solution status), s.printLast p)
    | .error fault => (.failed fault, s.atOrigin)

/-- Takes turns until the run ends, but no more than a given number. -/
def run [Capacity m] (p : Problem α σ τ n) : Nat → State α σ τ n m → Outcome α n × State α σ τ n m
  | 0, s => (.unfinished, s)
  | turns + 1, s =>
    match s.turn p with
    | .ok s => run p turns s
    | .error (ending, s) => s.finish p ending

end State

namespace Problem

variable {α σ τ : Type} [Scalar α] {n : Nat}

/-- Minimizes from a start, within a number of turns and with a memory of
capacity `m`. -/
def solve (p : Problem α σ τ n) (m : Nat) [Capacity m] (turns : Nat) (x : Vec α n) (objective : σ)
    (search : τ) : Outcome α n × State α σ τ n m :=
  (State.initial p x objective search).run p turns

end Problem

end VariableMetric
