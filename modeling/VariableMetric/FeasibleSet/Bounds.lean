import VariableMetric.FeasibleSet

/-!
# Bounds component by component

Variables are kept between a lower and an upper bound, each component between
its own.  A component at a bound is blocked when it would move out.
-/

namespace VariableMetric

structure Range (α : Type) where
  lower : α
  upper : α
  /-- Whether a component that equals a bound is kept as it is; otherwise the
  bound is taken for it. -/
  keepsEqual : Bool

namespace Range

variable {α : Type} [Scalar α]

def clamp (r : Range α) (x : α) : α :=
  if r.keepsEqual then Scalar.confine r.lower r.upper x else Scalar.clamp r.lower r.upper x

/-- Whether a component at `x` leaves the range when it moves along `-v`. -/
def blocks (r : Range α) (x v : α) : Bool :=
  (x ≤ r.lower && 0 < v) || (r.upper ≤ x && v < 0)

end Range

/-- The bounds of variables with `n` components. -/
abbrev Bounds (α : Type) (n : Nat) := Vec (Range α) n

namespace Bounds

variable {α : Type} [Scalar α] {n : Nat}

def clamp (b : Bounds α n) (x : Vec α n) : Vec α n := Vec.zipWith Range.clamp b x

/-- The components that a move along `-v` would take out of the bounds. -/
def blocked (b : Bounds α n) (x v : Vec α n) : Vec Bool n :=
  Vec.zipWith (fun (rx : Range α × α) a => rx.1.blocks rx.2 a) (Vec.zipWith Prod.mk b x) v

def cleared (marks : Vec Bool n) (v : Vec α n) : Vec α n :=
  Vec.zipWith (fun mark a => if mark then 0 else a) marks v

def projectGradient (b : Bounds α n) (x g : Vec α n) : Vec α n := cleared (b.blocked x g) g

/-- A direction is a move, not a descent, so the test is made on its
opposite. -/
def projectDirection (b : Bounds α n) (x d : Vec α n) : Vec α n :=
  cleared (b.blocked x (d.map fun a => -a)) d

def breakpoint (p q : Precision) (bound x d : α) : α :=
  Scalar.round (p.wider q) (Scalar.round p (bound - x) / d)

/-- The larger one of a step and the largest entry of a list; a list with an
entry that is not a number does not count. -/
def withLargest (step : α) : List α → α
  | [] => step
  | first :: rest => Scalar.greatest step (Scalar.supremum first rest)

def components (b : Bounds α n) (x d : Vec α n) : List (Range α × α × α) :=
  (Vec.zipWith Prod.mk b (Vec.zipWith Prod.mk x d)).toList

/-- The last breakpoint of the components that rise, and of those that fall.
Variables are stored in precision `p`, the direction in precision `q`. -/
def shortcutStep (p q : Precision) (b : Bounds α n) (x d : Vec α n) : α :=
  let parts := b.components x d
  let rising := parts.filterMap fun (r, x, d) =>
    if 0 < d then some (breakpoint p q r.upper x d) else none
  let falling := parts.filterMap fun (r, x, d) =>
    if d < 0 then some (breakpoint p q r.lower x d) else none
  withLargest (withLargest 0 rising) falling

end Bounds

/-- The variables within bounds, stored in precision `p`. -/
def FeasibleSet.within {α : Type} [Scalar α] {n : Nat} (p : Precision) (b : Bounds α n) :
    FeasibleSet α n where
  projectVariables x := pure (b.clamp x)
  projectGradient x g := pure (b.projectGradient x g)
  projectDirection x d := pure (b.projectDirection x d)
  shortcutStep x d := pure (b.shortcutStep p p x d)
  initialStep x d lengths := pure (FeasibleSet.firstStep x d lengths)

/-- The variables within bounds that may not be had, stored in precision `p`. -/
def FeasibleSet.ofBounds {α : Type} [Scalar α] {n : Nat} (p : Precision) :
    Except Fault (Bounds α n) → FeasibleSet α n
  | .ok b => .within p b
  | .error fault =>
    { FeasibleSet.undefined with
      projectVariables := fun _ => throw fault
      projectGradient := fun _ _ => throw fault
      projectDirection := fun _ _ => throw fault
      shortcutStep := fun _ _ => throw fault }

end VariableMetric
