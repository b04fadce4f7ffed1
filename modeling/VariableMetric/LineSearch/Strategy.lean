import VariableMetric.LineSearch.Backtracking
import VariableMetric.LineSearch.Wolfe

/-!
# The strategies together

The three strategies as one type, and as a line search for a run.
-/

namespace VariableMetric

inductive Strategy (α : Type) where
  | backtracking (b : Backtracking α)
  | nonmonotone (b : Nonmonotone α)
  | wolfe (b : Wolfe α)

namespace Strategy

variable {α : Type} [Scalar α]

def usesDerivative : Strategy α → Bool
  | wolfe _ => true
  | _ => false

def search : Strategy α → Search α
  | backtracking b => b.search
  | nonmonotone b => b.search
  | wolfe b => b.search

def limit : Strategy α → Nat
  | backtracking b => b.rule.limit
  | nonmonotone b => b.rule.limit
  | wolfe b => b.rule.limit

def reset : Strategy α → Strategy α
  | backtracking b => .backtracking b.reset
  | nonmonotone b => .nonmonotone b.reset
  | wolfe b => .wolfe b.reset

def start (s : Strategy α) (value slope step cap : α) : Reply α × Strategy α :=
  match s with
  | backtracking b =>
    let (reply, b) := b.start value slope step cap
    (reply, .backtracking b)
  | nonmonotone b =>
    let (reply, b) := b.start value slope step cap
    (reply, .nonmonotone b)
  | wolfe b =>
    let (reply, b) := b.start value slope step cap
    (reply, .wolfe b)

def iterate (s : Strategy α) (step value slope : α) : Reply α × Strategy α :=
  match s with
  | backtracking b =>
    let (reply, b) := b.iterate step value
    (reply, .backtracking b)
  | nonmonotone b =>
    let (reply, b) := b.iterate step value
    (reply, .nonmonotone b)
  | wolfe b =>
    let (reply, b) := b.iterate step value slope
    (reply, .wolfe b)

end Strategy

/-- The line search of a strategy; whether it wants slopes never changes. -/
def LineSearch.ofStrategy {α : Type} [Scalar α] (usesDerivative : Bool) :
    LineSearch α (Strategy α) where
  usesDerivative
  reset := Strategy.reset
  start := Strategy.start
  iterate s step value slope :=
    let (reply, s) := s.iterate step value slope
    (.ok reply, s)

end VariableMetric
