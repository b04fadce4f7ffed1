import VariableMetric.Buffer
import VariableMetric.Config.Strategy
import VariableMetric.FeasibleSet.Kept
import VariableMetric.Memory.Arrays
import VariableMetric.Run
import VariableMetric.Run.Table

/-!
# Minimizers

A minimizer is made from an objective, a feasible set and options that have been
checked, and can then be used for any number of runs.  A run starts from
variables that can be updated in place: an array of floating point numbers that
is not empty, lies in order without gaps, and may be written.  The numbers are in
single or double precision; an array of half or extended precision is no start here,
accepted or refused.

Some things outlast a run: the states of the objective and of the line search, and
the bounds that have been rounded for a box.  They are passed on to the next run,
which need not be one of the same minimizer.
-/

namespace VariableMetric

inductive Start where
  | notAnArray
  | array (heap : Heap Float) (view : View) (writable : Bool)

structure Variables where
  shape : Shape
  precision : Precision
  data : Vec Float shape.size

def Start.check : Start → Except Fault Variables
  | notAnArray => throw .variablesNotFloating
  | array heap view writable =>
    match view.storage with
    | .floating p =>
      if view.shape.size < 1 then throw .variablesEmpty
      else if !view.isContiguous then throw .variablesNotContiguous
      else if !writable then throw .variablesNotWritable
      else pure ⟨view.shape, p, (heap.tensor view).data⟩
    | _ => throw .variablesNotFloating

structure Plan where
  capacity : Nat
  capacity_ne_zero : capacity ≠ 0
  settings : Settings Float
  search : SearchOptions

instance (plan : Plan) : Capacity plan.capacity := ⟨plan.capacity_ne_zero⟩

def Plan.new (callable : Bool) (capacity : Value) (config : Config) : Except Fault Plan := do
  if callable then pure () else throw .objectiveNotCallable
  let ⟨m, hm⟩ ← checkCapacity capacity
  let checked ← config.validate
  pure ⟨m, hm, checked.settings, checked.search⟩

/-- A minimizer: the objective for every precision and shape of variables, the
feasible set, the options and the line search. -/
structure Minimizer (σ τ : Type) where
  objective : Precision → (s : Shape) → Objective σ Float s.size
  domain : Domain Float
  plan : Plan
  search : LineSearch Float τ

/-- What is passed on from run to run. -/
structure Session (σ τ : Type) where
  objective : σ
  search : τ
  kept : KeptBounds Float

def Session.new {σ τ : Type} (objective : σ) (search : τ) : Session σ τ :=
  ⟨objective, search, .none⟩

namespace Minimizer

variable {σ τ : Type}

def problem (min : Minimizer σ τ) (x : Variables) (feasible : FeasibleSet Float x.shape.size) :
    Problem Float σ τ x.shape.size where
  precision := x.precision
  keepsPairs := x.shape ≠ []
  objective := min.objective x.precision x.shape
  feasible
  search := min.search
  settings := min.plan.settings

abbrev Final (min : Minimizer σ τ) (x : Variables) :=
  State Float σ τ x.shape.size min.plan.capacity

/-- Minimizes from given variables within a number of turns, and gives the bounds
that are kept afterwards.  A run without room for its memory ends before its first
turn, and before it asks for bounds. -/
def solve (min : Minimizer σ τ) (turns : Nat) (x : Variables) (session : Session σ τ) :
    Outcome Float x.shape.size × min.Final x × KeptBounds Float :=
  let (feasible, kept) := min.domain.recallSet session.kept x.shape x.precision
  let p := min.problem x feasible
  match Memory.checkRoom min.plan.capacity x.shape x.precision with
  | .error fault =>
    (.failed fault, .initial p x.data session.objective session.search, session.kept)
  | .ok () =>
    let (outcome, final) :=
      p.solve min.plan.capacity turns x.data session.objective session.search
    (outcome, final, kept)

end Minimizer

/-- The notice that a run leaves if it ends without convergence. -/
def Solution.warning? {n : Nat} (s : Solution Float n) : Option (Notice Float) :=
  if s.status.isSuccess then none
  else some (.notConverged s.status.reason s.iterations s.evaluations s.value s.norm)

end VariableMetric
