import VariableMetric.Minimizer
import VariableMetric.Value.Array

/-!
# Minimizing in one call

Options given one by one replace those of a configuration.  Bounds given beside
them make a box, unless there is a feasible set already.  The options are
checked before anything else is done with them.
-/

namespace VariableMetric

structure Request where
  capacity : Value
  domain : Option (Domain Float)
  config : Config
  /-- The name of a line search. -/
  searchName : Option Value
  lower : Value
  upper : Value
  options : List (String × Value)

namespace Request

/-- The options that are not known, in order. -/
def unknownOptions (options : List (String × Value)) : List String :=
  ((options.map Prod.fst).filter fun name => !Config.optionNames.contains name).mergeSort

def namedOptions (r : Request) : List (String × Value) :=
  match r.searchName with
  | some name => r.options ++ [("lnsrch", name)]
  | none => r.options

def boundsDomain (lower upper : Value) : Except Fault (Option (Domain Float)) :=
  match lower, upper with
  | .null, .null => pure none
  | _, _ => do
    let box ← Box.ofValues lower upper
    pure (some (.box box))

def checkGiven (capacity : Value) : Except Fault Unit := do
  let m ← capacity.toInt
  if m < 1 then throw (.badCapacity capacity.plain) else pure ()

def check (r : Request) : Except Fault Unit := do
  checkGiven r.capacity
  let unknown := unknownOptions r.options
  if unknown.isEmpty then pure () else throw (.unknownOptions unknown)

def resolve (r : Request) (callable : Bool) : Except Fault (Domain Float × Plan) := do
  r.check
  let config ← r.config.withOptions r.namedOptions
  let domain ← match r.domain with
    | some d => pure (some d)
    | none => boundsDomain r.lower r.upper
  let plan ← Plan.new callable r.capacity config
  pure (domain.getD .unconstrained, plan)

end Request

end VariableMetric
