/-!
# The state of a run

A run looks for a direction, searches along it, and ends in one of five ways,
one of which is success.
-/

namespace VariableMetric

inductive Status where
  | newIterate
  | lineSearch
  | convergence
  | tooManyIterations
  | tooManyEvaluations
  | wouldBlock
  | lineSearchFailure
  deriving DecidableEq, Repr

namespace Status

def all : List Status :=
  [newIterate, lineSearch, convergence, tooManyIterations, tooManyEvaluations, wouldBlock,
   lineSearchFailure]

def tag : Status → String
  | newIterate => "new_iterate"
  | lineSearch => "line_search"
  | convergence => "convergence"
  | tooManyIterations => "too_many_iterations"
  | tooManyEvaluations => "too_many_evaluations"
  | wouldBlock => "would_block"
  | lineSearchFailure => "line_search_failure"

def reason : Status → String
  | newIterate => "a new iterate is available"
  | lineSearch => "line search in progress"
  | convergence => "convergence"
  | tooManyIterations => "too many iterations"
  | tooManyEvaluations => "too many evaluations"
  | wouldBlock => "no feasible descent step (variables blocked by the bounds)"
  | lineSearchFailure => "line search failed along the steepest descent"

def isSuccess (s : Status) : Bool := s = convergence

end Status

end VariableMetric
