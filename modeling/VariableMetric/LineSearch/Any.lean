import VariableMetric.LineSearch.Scripted
import VariableMetric.LineSearch.Strategy

/-!
# Line searches of every kind

A run can be driven by a strategy, or by a scripted search that says for itself
whether it looks at slopes.
-/

namespace VariableMetric

inductive AnySearch (α : Type) where
  | strategy (s : Strategy α)
  | scripted (usesDerivative : Bool) (s : ScriptedSearch α)

namespace AnySearch

variable {α : Type} [Scalar α]

def usesDerivative : AnySearch α → Bool
  | strategy s => s.usesDerivative
  | scripted uses _ => uses

def reset : AnySearch α → AnySearch α
  | strategy s => .strategy s.reset
  | scripted uses s => .scripted uses s.reset

def start (search : AnySearch α) (value slope step cap : α) : Reply α × AnySearch α :=
  match search with
  | strategy s =>
    let (reply, s) := s.start value slope step cap
    (reply, .strategy s)
  | scripted uses s =>
    let (reply, s) := s.start value slope step cap
    (reply, .scripted uses s)

def iterate (search : AnySearch α) (step value slope : α) :
    Except Fault (Reply α) × AnySearch α :=
  match search with
  | strategy s =>
    let (reply, s) := s.iterate step value slope
    (.ok reply, .strategy s)
  | scripted uses s =>
    let (reply, s) := s.iterate step value
    (reply, .scripted uses s)

end AnySearch

def LineSearch.ofAny {α : Type} [Scalar α] (usesDerivative : Bool) :
    LineSearch α (AnySearch α) where
  usesDerivative
  reset := AnySearch.reset
  start := AnySearch.start
  iterate := AnySearch.iterate

end VariableMetric
