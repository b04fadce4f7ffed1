import VariableMetric.Config
import VariableMetric.FeasibleSet
import VariableMetric.Memory.Direction
import VariableMetric.Objective
import VariableMetric.Run.Transcript
import VariableMetric.Status

/-!
# The state of a run

What is given to a run stays fixed while it lasts.  Its state holds the current
point, the origin of the search under way, the memory, the counters, and the
states of the objective and of the line search.
-/

namespace VariableMetric

structure Problem (α σ τ : Type) (n : Nat) where
  /-- The precision in which the variables are stored. -/
  precision : Precision
  /-- Whether the memory can keep pairs of the variables.  Its rows have the
  shape of the variables, and a row without axes cannot be written. -/
  keepsPairs : Bool
  objective : Objective σ α n
  feasible : FeasibleSet α n
  search : LineSearch α τ
  settings : Settings α

/-- The state of a run with a memory of capacity `m`. -/
structure State (α σ τ : Type) (n m : Nat) where
  current : Iterate α n
  /-- The gradient without the components that the set blocks, and its norm. -/
  projected : Vec α n
  norm : α
  /-- The norm at which the run has converged. -/
  threshold : α
  /-- Where the last search began.  Before the first search its value is
  infinite, so that nothing is worse. -/
  origin : Iterate α n
  direction : Vec α n
  step : α
  memory : Memory α n m
  iterations : Nat
  evaluations : Nat
  restarts : Nat
  /-- Whether a search is under way; otherwise a direction is to be taken. -/
  searching : Bool
  /-- Whether a failed search has just been undone. -/
  restored : Bool
  /-- Whether the last direction was the steepest descent. -/
  steepest : Bool
  objective : σ
  search : τ
  transcript : Transcript α n

inductive Ending where
  | status (s : Status)
  | fault (f : Fault)

namespace State

variable {α σ τ : Type} [Scalar α] {n m : Nat}

def record (s : State α σ τ n m) (e : Event α n) : State α σ τ n m :=
  { s with transcript := e :: s.transcript }

def notify (s : State α σ τ n m) (notices : List (Notice α)) : State α σ τ n m :=
  { s with transcript := (notices.map Event.noticed).reverse ++ s.transcript }

def row (s : State α σ τ n m) : Row α :=
  ⟨s.iterations, s.evaluations, s.restarts, s.current.value, s.norm, s.step⟩

/-- Prints a row of the table, after the head if there has been one evaluation
only. -/
def print (s : State α σ τ n m) : State α σ τ n m :=
  let s := if s.evaluations = 1 then s.record .headed else s
  s.record (.printed s.row)

def unset : Iterate α n := ⟨Vec.zeros n, 0, Vec.zeros n⟩

def initial (p : Problem α σ τ n) (x : Vec α n) (objective : σ) (search : τ) :
    State α σ τ n m where
  current := { unset with point := x }
  projected := Vec.zeros n
  norm := 0
  threshold := 0
  origin := { unset with value := Scalar.infinity }
  direction := Vec.zeros n
  step := 0
  memory := Memory.empty n m
  iterations := 0
  evaluations := 0
  restarts := 0
  searching := false
  restored := false
  steepest := false
  objective
  search := p.search.reset search
  transcript := [.searchReset]

end State

end VariableMetric
