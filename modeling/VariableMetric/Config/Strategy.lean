import VariableMetric.Config.Validation
import VariableMetric.Double.Scalar
import VariableMetric.LineSearch.Strategy
import VariableMetric.Text.LowerCase

/-!
# Building a line search

The parameters of a strategy are checked as they are given, and then converted.
A strategy is built from parameters by name, or from the options of a
configuration.
-/

namespace VariableMetric

structure StrategyParameters where
  ftol : Value
  gtol : Value
  amin : Value
  stpmin : Value
  maxiter : Value
  mem : Value

inductive StrategyKind where
  | backtracking
  | nonmonotone
  | wolfe
  deriving DecidableEq, Repr

namespace StrategyKind

def name : StrategyKind → String
  | backtracking => "backtrack"
  | nonmonotone => "nonmonotone"
  | wolfe => "wolfe"

def all : List StrategyKind := [backtracking, nonmonotone, wolfe]

def named? (name : String) : Option StrategyKind := all.find? (·.name == name)

def usesDerivative : StrategyKind → Bool
  | wolfe => true
  | _ => false

def parameterNames : StrategyKind → List String
  | backtracking => ["ftol", "amin", "stpmin", "maxiter"]
  | nonmonotone => ["mem", "ftol", "amin", "stpmin", "maxiter"]
  | wolfe => ["ftol", "gtol", "stpmin", "maxiter"]

def defaults (kind : StrategyKind) : StrategyParameters where
  ftol := .float 1e-4
  gtol := .float 0.9
  amin := .float 0.1
  stpmin := .float 1e-20
  maxiter := .int (if kind = .wolfe then 40 else 30)
  mem := .int 5

end StrategyKind

namespace StrategyParameters

def set (p : StrategyParameters) (name : String) (v : Value) : StrategyParameters :=
  match name with
  | "ftol" => { p with ftol := v }
  | "gtol" => { p with gtol := v }
  | "amin" => { p with amin := v }
  | "stpmin" => { p with stpmin := v }
  | "maxiter" => { p with maxiter := v }
  | "mem" => { p with mem := v }
  | _ => p

/-- The parameters with some given by name; the kind has to take each of
them. -/
def withNamed (kind : StrategyKind) (p : StrategyParameters) :
    List (String × Value) → Except Fault StrategyParameters
  | [] => pure p
  | (name, v) :: rest =>
    if kind.parameterNames.contains name then withNamed kind (p.set name v) rest
    else throw .badCall

def ofOptions (s : SearchOptions) : StrategyParameters where
  ftol := s.ftol
  gtol := s.gtol
  amin := s.amin
  stpmin := s.stpmin
  maxiter := s.limit
  mem := s.window

end StrategyParameters

namespace Strategy

open Config

def safeguard (p : StrategyParameters) : Except Fault (Safeguard Float) := do
  require (isBetween zero p.ftol one) "ftol" .fraction p.ftol
  require (isAtMostHalf p.amin) "amin" .atMostHalf p.amin
  require (isNotBelow p.stpmin zero) "stpmin" .nonNegative p.stpmin
  require (isNotBelow p.maxiter (.int 1)) "maxiter" .positive p.maxiter
  let ftol ← p.ftol.toDouble
  let amin ← p.amin.toDouble
  let stpmin ← p.stpmin.toDouble
  let limit ← p.maxiter.toInt
  pure ⟨ftol, amin, stpmin, limit.toNat⟩

def windowLimit : Int := Int.pow 2 63 - 1

def historyWindow (mem : Value) : Except Fault Nat := do
  require (isNotBelow mem (.int 1)) "mem" .positive mem
  let window ← mem.toInt
  if windowLimit < window then throw .tooLarge else pure window.toNat

/-- Whether `0 < ftol < gtol < 1`. -/
def areSlopeFactors (ftol gtol : Value) : Except Fault Bool := do
  if ← isBetween zero ftol gtol then gtol.isBelow one else pure false

def wolfeRule (p : StrategyParameters) : Except Fault (WolfeRule Float) := do
  if ← areSlopeFactors p.ftol p.gtol then pure ()
  else throw (.slopeFactors p.ftol p.gtol)
  require (isNotBelow p.maxiter (.int 1)) "maxiter" .positive p.maxiter
  let ftol ← p.ftol.toDouble
  let gtol ← p.gtol.toDouble
  let stpmin ← p.stpmin.toDouble
  let limit ← p.maxiter.toInt
  pure ⟨ftol, gtol, stpmin, limit.toNat⟩

def build (kind : StrategyKind) (p : StrategyParameters) : Except Fault (Strategy Float) :=
  match kind with
  | .backtracking => do
    let rule ← safeguard p
    pure (.backtracking (Backtracking.new rule))
  | .nonmonotone => do
    let rule ← safeguard p
    let window ← historyWindow p.mem
    pure (.nonmonotone (Nonmonotone.new rule window))
  | .wolfe => do
    let rule ← wolfeRule p
    pure (.wolfe (Wolfe.new rule))

def kindOf (name : Value) : Except Fault StrategyKind :=
  let lowered := Text.lower name.plain
  match StrategyKind.named? lowered with
  | some kind => pure kind
  | none => throw (.unknownLineSearch lowered (StrategyKind.all.map StrategyKind.name))

def ofOptions (s : SearchOptions) : Except Fault (Strategy Float) := do
  let kind ← kindOf s.name
  build kind (StrategyParameters.ofOptions s)

def kind : Strategy Float → StrategyKind
  | backtracking _ => .backtracking
  | nonmonotone _ => .nonmonotone
  | wolfe _ => .wolfe

end Strategy

end VariableMetric
