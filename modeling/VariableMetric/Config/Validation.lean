import VariableMetric.Config

/-!
# Checking a configuration

Whole numbers and pairs are converted, then the ranges are checked in the order
of the options, so that the first fault in that order is reported.  Numbers
that are only checked keep the kind they were given in.
-/

namespace VariableMetric

/-- A configuration that has been checked: what the run is told, and the
options from which its line search is built. -/
structure CheckedConfig where
  settings : Settings Float
  search : SearchOptions

namespace Config

/-- The items of a value that can be gone through one by one: the characters of
a text, the items of a list, the keys of a record. -/
def items? : Value → Option (List Value)
  | .text s => some (s.toList.map fun c => .text (String.ofList [c]))
  | .list vs => some vs
  | .record fields => some (fields.map fun f => .text f.1)
  | _ => none

/-- The two doubles of a pair.  A third item is converted before the number of
items is found to be wrong. -/
def twoDoubles : List Value → Except Fault (Float × Float)
  | [] => throw .unreadable
  | [a] => do
    let _ ← a.toDouble
    throw .unreadable
  | [a, b] => do
    let x ← a.toDouble
    let y ← b.toDouble
    pure (x, y)
  | a :: b :: c :: _ => do
    let _ ← a.toDouble
    let _ ← b.toDouble
    let _ ← c.toDouble
    throw .unreadable

def areTolerances (p : Float × Float) : Bool :=
  p.1.isFinite && p.2.isFinite && !(p.1 < 0.0) && !(p.2 < 0.0)

/-- A pair of tolerances.  Items of the wrong kind, unreadable items and a wrong
number of items make the same complaint; a number too large for a double is
reported as such. -/
def tolerances (option : String) (given : Value) : Except Fault (Float × Float) :=
  match (items? given).map twoDoubles with
  | none => throw (.notAPair option given)
  | some (.error .wrongKind) => throw (.notAPair option given)
  | some (.error .unreadable) => throw (.notAPair option given)
  | some (.error fault) => throw fault
  | some (.ok p) => if areTolerances p then pure p else throw (.notTolerances option given)

def zero : Value := .float 0.0

def one : Value := .float 1.0

/-- Complains about an option unless it meets its requirement. -/
def require (met : Except Fault Bool) (option : String) (requirement : Requirement)
    (given : Value) : Except Fault Unit := do
  if ← met then pure () else throw (.outOfRange option requirement given)

/-- Whether `low < v < high`; the second comparison is made only if the first
one holds. -/
def isBetween (low v high : Value) : Except Fault Bool := do
  if ← low.isBelow v then v.isBelow high else pure false

/-- Whether `0 < v ≤ 1/2`. -/
def isAtMostHalf (v : Value) : Except Fault Bool := do
  if ← zero.isBelow v then v.isAtMost (.float 0.5) else pure false

/-- Whether not `v < bound`. -/
def isNotBelow (v bound : Value) : Except Fault Bool := do
  let below ← v.isBelow bound
  pure (!below)

def rowInterval (given : Value) : Except Fault Nat := do
  let verb ← given.toInt
  if verb < 0 then throw (.outOfRange "verb" .nonNegative (.int verb))
  else pure verb.toNat

def checkSearch (s : SearchOptions) : Except Fault Unit := do
  require (isBetween zero s.ftol one) "ls_ftol" .fraction s.ftol
  require (isBetween s.ftol s.gtol one) "ls_gtol" (.fractionAbove "ls_ftol") s.gtol
  require (isAtMostHalf s.amin) "ls_amin" .atMostHalf s.amin
  require (isNotBelow s.stpmin (.int 0)) "ls_stpmin" .nonNegative s.stpmin
  require (isNotBelow s.limit (.int 1)) "ls_max_iter" .positive s.limit
  require (isNotBelow s.window (.int 1)) "ls_nonmonotone_M" .positive s.window

def validate (c : Config) : Except Fault CheckedConfig := do
  let maxIterations ← c.maxIterations.toInt
  let maxEvaluations ← c.maxEvaluations.toInt
  let tolerance ← tolerances "gtol" c.tolerance
  let firstStep ← tolerances "slen" c.firstStep
  let verbosity ← rowInterval c.verbosity
  checkSearch c.search
  pure ⟨⟨maxIterations, maxEvaluations, tolerance, firstStep, verbosity⟩, c.search⟩

end Config

def CheckedConfig.toConfig (c : CheckedConfig) : Config where
  maxIterations := .int c.settings.maxIterations
  maxEvaluations := .int c.settings.maxEvaluations
  tolerance := Config.pair c.settings.tolerance.1 c.settings.tolerance.2
  firstStep := Config.pair c.settings.firstStep.1 c.settings.firstStep.2
  verbosity := .int c.settings.verbosity
  search := c.search

end VariableMetric
