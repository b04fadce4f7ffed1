import VariableMetric.LineSearch

/-!
# Backtracking

A trial step is accepted when its value lies below a reference by a fraction of
the promised decrease.  A rejected step is replaced by the minimizer of the
parabola through the value and the slope at the origin and the value at the
step, kept between a given fraction and a half of the rejected step.

The monotone strategy takes the value at the origin as its reference, the
nonmonotone one the largest value among the last origins, which lets the values
rise for a while.
-/

namespace VariableMetric

structure Safeguard (α : Type) where
  /-- The fraction of the promised decrease that is asked for. -/
  ftol : α
  /-- The smallest factor by which a step is cut. -/
  amin : α
  /-- Below this step the search gives up. -/
  stpmin : α
  /-- After this many rejected trials the search gives up. -/
  limit : Nat

namespace Search

variable {α : Type} [Scalar α]

/-- The curvature of the parabola times the squared step: the amount by which
the value lies above the tangent at the origin. -/
def excess (s : Search α) (step value : α) : α := value - s.value - s.slope * step

def shorterStep (s : Search α) (p : Safeguard α) (step value : α) : α :=
  if Scalar.isFinite value then
    let c := s.excess step value
    let minimizer :=
      if 0 < c then -Scalar.half * s.slope * step * step / c else Scalar.half * step
    Scalar.least (Scalar.greatest minimizer (p.amin * step)) (Scalar.half * step)
  else p.amin * step

def accepts (s : Search α) (p : Safeguard α) (reference step value : α) : Bool :=
  Scalar.isFinite value && value ≤ s.target reference p.ftol step

def backtrack (s : Search α) (p : Safeguard α) (reference step value : α) :
    Reply α × Search α :=
  if s.status = .searching then
    if s.accepts p reference step value then
      (⟨.converged, step, []⟩, { s with status := .converged })
    else
      let trials := s.trials + 1
      let next := s.shorterStep p step value
      let s := { s with trials := trials }
      if next < p.stpmin then
        (⟨.failed, next, [.stepBelowLeast next (some trials)]⟩, { s with status := .failed })
      else if p.limit ≤ trials then
        (⟨.failed, next, [.trialsSpent trials]⟩, { s with status := .failed })
      else (⟨.searching, next, []⟩, s)
  else (⟨s.status, step, []⟩, s)

end Search

structure Backtracking (α : Type) where
  rule : Safeguard α
  search : Search α

namespace Backtracking

variable {α : Type} [Scalar α]

def new (rule : Safeguard α) : Backtracking α := ⟨rule, Search.idle⟩

def reset (b : Backtracking α) : Backtracking α := { b with search := b.search.reset }

def start (b : Backtracking α) (value slope step cap : α) : Reply α × Backtracking α :=
  let (reply, search) := Search.start value slope step cap
  (reply, { b with search })

def iterate (b : Backtracking α) (step value : α) : Reply α × Backtracking α :=
  let (reply, search) := b.search.backtrack b.rule b.search.value step value
  (reply, { b with search })

end Backtracking

/-- The nonmonotone strategy: the values at the last origins are kept, oldest
first, and at most `window` of them. -/
structure Nonmonotone (α : Type) where
  rule : Safeguard α
  window : Nat
  search : Search α
  history : List α

namespace Nonmonotone

variable {α : Type} [Scalar α]

def new (rule : Safeguard α) (window : Nat) : Nonmonotone α := ⟨rule, window, Search.idle, []⟩

def reset (b : Nonmonotone α) : Nonmonotone α :=
  { b with search := b.search.reset, history := [] }

/-- The history with one more origin; the oldest ones fall out. -/
def remember (b : Nonmonotone α) (value : α) : List α :=
  let history := b.history ++ [value]
  history.drop (history.length - b.window)

def start (b : Nonmonotone α) (value slope step cap : α) : Reply α × Nonmonotone α :=
  let (reply, search) := Search.start value slope step cap
  if reply.status = .searching then (reply, { b with search, history := b.remember value })
  else (reply, { b with search })

def reference (b : Nonmonotone α) : α :=
  match b.history with
  | [] => b.search.value
  | value :: rest => rest.foldl Scalar.greatest value

def iterate (b : Nonmonotone α) (step value : α) : Reply α × Nonmonotone α :=
  let (reply, search) := b.search.backtrack b.rule b.reference step value
  (reply, { b with search })

end Nonmonotone

end VariableMetric
