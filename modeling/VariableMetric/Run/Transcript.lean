import VariableMetric.LineSearch
import VariableMetric.Vec

/-!
# What happens in a run

A run writes down what it does, in order: the evaluations of the objective, the
calls of the line search and their answers, the directions that it takes, the
rows of its table and the notices.  All that a run shows is read off this
transcript.
-/

namespace VariableMetric

structure Iterate (α : Type) (n : Nat) where
  point : Vec α n
  value : α
  gradient : Vec α n
  deriving DecidableEq

structure Row (α : Type) where
  iterations : Nat
  evaluations : Nat
  restarts : Nat
  value : α
  norm : α
  step : α
  deriving DecidableEq

structure Pass (α : Type) (n : Nat) where
  iterations : Nat
  evaluations : Nat
  direction : Vec α n
  slope : α
  /-- Whether it is the opposite of the projected gradient. -/
  steepest : Bool
  /-- The first step, cut down to the largest one allowed. -/
  step : α
  /-- The largest step allowed. -/
  cap : α
  deriving DecidableEq

inductive Event (α : Type) (n : Nat) where
  /-- The line search was told that a run begins. -/
  | searchReset
  /-- The objective answered. -/
  | evaluated (iterate : Iterate α n)
  /-- The objective refused. -/
  | refused (point : Vec α n)
  /-- The line search was told of a trial, and answered. -/
  | iterated (step value slope : α) (status : SearchStatus) (next : α)
  /-- The line search was told of a trial, and had no answer. -/
  | unanswered (step value slope : α)
  /-- A failed search sent the run back to its origin. -/
  | restored
  /-- A pair was pushed into the memory. -/
  | pushed (step change : Vec α n)
  /-- The memory was asked for a direction; it remembered these pairs, newest
  first. -/
  | recalled (pairs : List (Vec α n × Vec α n))
  | chosen (pass : Pass α n)
  /-- The line search was started at an origin, and answered. -/
  | started (origin : Iterate α n) (pass : Pass α n) (status : SearchStatus) (next : α)
  /-- The head of the table was printed. -/
  | headed
  | printed (row : Row α)
  | noticed (notice : Notice α)
  deriving DecidableEq

/-- The events of a run, newest first. -/
abbrev Transcript (α : Type) (n : Nat) := List (Event α n)

namespace Transcript

variable {α : Type} {n : Nat}

/-- What a test finds in a transcript, oldest first. -/
def collect {β : Type} (select : Event α n → Option β) (t : Transcript α n) : List β :=
  (t.filterMap select).reverse

def evaluations (t : Transcript α n) : List (Vec α n × Option α) :=
  t.collect fun e =>
    match e with
    | .evaluated i => some (i.point, some i.value)
    | .refused x => some (x, none)
    | _ => none

def trials (t : Transcript α n) : List (α × α × α) :=
  t.collect fun e =>
    match e with
    | .iterated step value slope _ _ => some (step, value, slope)
    | .unanswered step value slope => some (step, value, slope)
    | _ => none

def notices (t : Transcript α n) : List (Notice α) :=
  t.collect fun e =>
    match e with
    | .noticed notice => some notice
    | _ => none

end Transcript

end VariableMetric
