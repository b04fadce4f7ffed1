import VariableMetric.Minimize
import VariableMetric.Objective.Samples
import VariableMetric.Report
import VariableMetric.Text.Lines

/-!
# Demonstrations

A demonstration is a run on a sample objective under a name.  It prints a
heading with what it was given, the table of its iterations, and where it
ended.
-/

namespace VariableMetric

structure Demo where
  name : String
  capacity : Value := .int 5
  lower : Value := .null
  upper : Value := .null
  searchName : Value := .text "backtrack"
  tolerance : Value := Config.pair 1e-8 0.0
  verbosity : Value := .int 1

namespace Demo

/-- The demonstration with one option replaced, if there is one of that
name. -/
def set? (d : Demo) (name : String) (v : Value) : Option Demo :=
  match name with
  | "m" => some { d with capacity := v }
  | "lower" => some { d with lower := v }
  | "upper" => some { d with upper := v }
  | "lnsrch" => some { d with searchName := v }
  | "gtol" => some { d with tolerance := v }
  | "verb" => some { d with verbosity := v }
  | _ => none

/-- The demonstration with options replaced one after the other; each one has
to be known. -/
def withOptions (d : Demo) : List (String × Value) → Except Fault Demo
  | [] => pure d
  | (name, v) :: rest =>
    match d.set? name v with
    | some d => d.withOptions rest
    | none => throw .badCall

def maxEvaluations : Int := 1000

def config (d : Demo) : Config :=
  { Config.default with
    maxEvaluations := .int maxEvaluations
    tolerance := d.tolerance
    verbosity := d.verbosity
    search := { Config.default.search with name := d.searchName } }

def rule (mark : Char) : String := String.ofList (List.replicate 80 mark)

/-- The lines printed before anything is checked. -/
def heading (d : Demo) (start : String) : List String :=
  [rule '=', d.name ++ ": m=" ++ d.capacity.plain ++ " lnsrch=" ++ d.searchName.plain
    ++ " x0=" ++ start]

def closing (d : Demo) (status : Status) (point : String) (value : Float) : List String :=
  ["-> " ++ d.name ++ " DONE (" ++ status.reason ++ "). x* = " ++ point ++ ", f* = "
    ++ Decimal.fixedText 9 value, rule '-']

def prepare (d : Demo) (objective : Precision → (s : Shape) → Objective Nat Float s.size)
    (start : Value) :
    Except Fault (Minimizer Nat (Strategy Float) × Strategy Float × Variables) := do
  let domain ← Request.boundsDomain d.lower d.upper
  let x ← start.toArray
  let plan ← Plan.new true d.capacity d.config
  let strategy ← Strategy.ofOptions plan.search
  if x.shape.size < 1 then throw .variablesEmpty
  else
    pure (⟨objective, domain.getD .unconstrained, plan, .ofStrategy strategy.usesDerivative⟩,
      strategy, ⟨x.shape, .double, x.data⟩)

def run (d : Demo) (objective : Precision → (s : Shape) → Objective Nat Float s.size)
    (start : Value) : Except Fault Report := do
  let (min, strategy, x) ← d.prepare objective start
  pure (min.report maxEvaluations.toNat x 0 strategy).1

/-- The texts that a demonstration prints one after the other, with the start and
the final point as they are to be shown. -/
def texts (d : Demo) (start : String) (point : List Float → String)
    (report : Except Fault Report) : List String :=
  d.heading start ++
    match report with
    | .error _ => []
    | .ok r =>
      r.lines ++
        match r.outcome with
        | .returned s => d.closing s.status (point s.point.toList) s.value
        | _ => []

def lines (d : Demo) (start : String) (point : List Float → String)
    (report : Except Fault Report) : List String :=
  (d.texts start point report).flatMap Text.printedLines

end Demo

end VariableMetric
