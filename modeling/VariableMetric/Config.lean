import VariableMetric.Value.Number

/-!
# Configuration

The options of a run as they are given, and what a run is told after they have
been checked.  The options of the line search are only checked here; they are
converted when the line search is built.
-/

namespace VariableMetric

structure SearchOptions where
  name : Value
  ftol : Value
  gtol : Value
  amin : Value
  stpmin : Value
  limit : Value
  window : Value

structure Config where
  maxIterations : Value
  maxEvaluations : Value
  tolerance : Value
  firstStep : Value
  verbosity : Value
  search : SearchOptions

structure Settings (α : Type) where
  /-- No limit if negative. -/
  maxIterations : Int
  /-- No limit if negative. -/
  maxEvaluations : Int
  /-- Absolute and relative: the run has converged when the norm of the
  projected gradient is at most their sum, the second one times the norm at the
  start. -/
  tolerance : α × α
  /-- Relative and absolute length of the first step along the gradient. -/
  firstStep : α × α
  /-- A table row is printed for every so many iterations, none for zero. -/
  verbosity : Nat

namespace Config

def pair (x y : Float) : Value := .list [.float x, .float y]

def default : Config where
  maxIterations := .int (-1)
  maxEvaluations := .int (-1)
  tolerance := pair 0.0 1e-6
  firstStep := pair 1.0 0.0
  verbosity := .int 0
  search :=
    { name := .text "backtrack", ftol := .float 1e-4, gtol := .float 0.9, amin := .float 0.1,
      stpmin := .float 1e-20, limit := .int 30, window := .int 5 }

instance : Inhabited Config := ⟨default⟩

/-- The options in order, under the names they are given by. -/
def fields (c : Config) : List (String × Value) :=
  [("maxiter", c.maxIterations), ("maxeval", c.maxEvaluations), ("gtol", c.tolerance),
   ("slen", c.firstStep), ("verb", c.verbosity), ("lnsrch", c.search.name),
   ("ls_ftol", c.search.ftol), ("ls_gtol", c.search.gtol), ("ls_amin", c.search.amin),
   ("ls_stpmin", c.search.stpmin), ("ls_max_iter", c.search.limit),
   ("ls_nonmonotone_M", c.search.window)]

def optionNames : List String := default.fields.map Prod.fst

def set? (c : Config) (name : String) (v : Value) : Option Config :=
  match name with
  | "maxiter" => some { c with maxIterations := v }
  | "maxeval" => some { c with maxEvaluations := v }
  | "gtol" => some { c with tolerance := v }
  | "slen" => some { c with firstStep := v }
  | "verb" => some { c with verbosity := v }
  | "lnsrch" => some { c with search := { c.search with name := v } }
  | "ls_ftol" => some { c with search := { c.search with ftol := v } }
  | "ls_gtol" => some { c with search := { c.search with gtol := v } }
  | "ls_amin" => some { c with search := { c.search with amin := v } }
  | "ls_stpmin" => some { c with search := { c.search with stpmin := v } }
  | "ls_max_iter" => some { c with search := { c.search with limit := v } }
  | "ls_nonmonotone_M" => some { c with search := { c.search with window := v } }
  | _ => none

/-- The configuration with options replaced one after the other; each one has
to be known. -/
def withOptions (c : Config) : List (String × Value) → Except Fault Config
  | [] => pure c
  | (name, v) :: rest =>
    match c.set? name v with
    | some c => c.withOptions rest
    | none => throw .badCall

end Config

end VariableMetric
