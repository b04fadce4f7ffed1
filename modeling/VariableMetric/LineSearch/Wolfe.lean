import VariableMetric.LineSearch

/-!
# Bracketing for the weak Wolfe conditions

A step is accepted when it gives a sufficient decrease and its slope has risen
to a fraction of the slope at the origin.  A step that misses the decrease
becomes the upper end of a bracket, one that only misses the slope the lower
end.  The next trial is the middle of the bracket, or twice the step while
there is no upper end; at the largest step allowed the decrease is enough.
-/

namespace VariableMetric

structure WolfeRule (α : Type) where
  ftol : α
  gtol : α
  stpmin : α
  limit : Nat

structure Wolfe (α : Type) where
  rule : WolfeRule α
  search : Search α
  lo : α
  hi : α

namespace Wolfe

variable {α : Type} [Scalar α]

def new (rule : WolfeRule α) : Wolfe α := ⟨rule, Search.idle, 0, Scalar.infinity⟩

def reset (b : Wolfe α) : Wolfe α := { b with search := b.search.reset }

def start (b : Wolfe α) (value slope step cap : α) : Reply α × Wolfe α :=
  let (reply, search) := Search.start value slope step cap
  (reply, { b with search, lo := 0, hi := Scalar.infinity })

def tooHigh (b : Wolfe α) (step value : α) : Bool :=
  !Scalar.isFinite value || b.search.target b.search.value b.rule.ftol step < value

def tooSteep (b : Wolfe α) (slope : α) : Bool := slope < b.rule.gtol * b.search.slope

def nextStep (b : Wolfe α) : α :=
  if Scalar.isFinite b.hi then Scalar.half * (b.lo + b.hi)
  else Scalar.least (Scalar.two * b.lo) b.search.cap

def accept (b : Wolfe α) (step : α) : Reply α × Wolfe α :=
  (⟨.converged, step, []⟩, { b with search := { b.search with status := .converged } })

def reject (b : Wolfe α) : Reply α × Wolfe α :=
  let trials := b.search.trials + 1
  let next := b.nextStep
  let failed : Wolfe α := { b with search := { b.search with trials, status := .failed } }
  if b.rule.limit ≤ trials then (⟨.failed, next, [.trialsSpent trials]⟩, failed)
  else if next < b.rule.stpmin then (⟨.failed, next, [.stepBelowLeast next none]⟩, failed)
  else (⟨.searching, next, []⟩, { b with search := { b.search with trials } })

def iterate (b : Wolfe α) (step value slope : α) : Reply α × Wolfe α :=
  if b.search.status = .searching then
    if b.tooHigh step value then { b with hi := step }.reject
    else if b.tooSteep slope then
      if b.search.cap ≤ step then b.accept step
      else { b with lo := step }.reject
    else b.accept step
  else (⟨b.search.status, step, []⟩, b)

end Wolfe

end VariableMetric
