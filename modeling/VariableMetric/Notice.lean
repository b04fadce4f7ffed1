import VariableMetric.Decimal.Layout

/-!
# Notices

The minimizer and its parts leave notices about searches that fail, about
correction pairs that are passed over, and about runs that end without
convergence.  A notice holds what it reports; its text is made when it is
shown.
-/

namespace VariableMetric

inductive Notice (α : Type) where
  /-- A search was refused because its direction does not descend. -/
  | searchWithoutDescent (slope : α)
  /-- A search was refused because its first step is not positive. -/
  | searchWithoutStep (step : α)
  /-- A search gave up at a step below the least one. -/
  | stepBelowLeast (step : α) (trials : Option Nat)
  /-- A search gave up after its allowance of trials. -/
  | trialsSpent (trials : Nat)
  /-- A correction pair without positive curvature was passed over. -/
  | pairSkipped (slot : Nat) (curvature : α)
  | curvatureMissing (pairs : Nat)
  /-- The memory was reset because its direction does not descend. -/
  | directionRefused (slope : α)
  /-- A failed search sends the run back to the origin of the search. -/
  | searchAbandoned (iterations : Nat)
  /-- A run ended without convergence. -/
  | notConverged (reason : String) (iterations evaluations : Nat) (value norm : α)
  deriving DecidableEq, Repr

inductive Severity where
  | debug
  | warning
  deriving DecidableEq, Repr

def Notice.severity {α : Type} : Notice α → Severity
  | notConverged .. => .warning
  | _ => .debug

def Severity.text : Severity → String
  | debug => "DEBUG"
  | warning => "WARNING"

namespace Notice

def text : Notice Float → String
  | searchWithoutDescent slope =>
    "Line search not started: not a descent direction (df0="
      ++ Decimal.scientificText 3 slope ++ ")"
  | searchWithoutStep step =>
    "Line search not started: bad initial step (stp=" ++ Decimal.scientificText 3 step ++ ")"
  | stepBelowLeast step trials =>
    "Line search failed: step size below minimum (stp=" ++ Decimal.scientificText 2 step ++ ")"
      ++ (match trials with
        | some n => " after " ++ toString n ++ " iters"
        | none => "")
  | trialsSpent trials =>
    "Line search failed: max iterations reached (iters=" ++ toString trials ++ ")"
  | pairSkipped slot curvature =>
    "L-BFGS: skipping pair in slot " ++ toString slot ++ " (<s,y>="
      ++ Decimal.scientificText 3 curvature ++ ")"
  | curvatureMissing pairs =>
    "L-BFGS: no pair with positive curvature among " ++ toString pairs
  | directionRefused slope =>
    "L-BFGS: not a descent direction (<d,g>=" ++ Decimal.scientificText 3 slope
      ++ "), resetting memory"
  | searchAbandoned iterations =>
    "VMLMB: line search failed after " ++ toString iterations ++ " iterations, restarting"
  | notConverged reason iterations evaluations value norm =>
    "VMLMB: " ++ reason ++ " (iterations=" ++ toString iterations ++ ", evaluations="
      ++ toString evaluations ++ ", f=" ++ Decimal.scientificText 6 value ++ ", gpnorm="
      ++ Decimal.scientificText 3 norm ++ ")"

def entry (n : Notice Float) : String := n.severity.text ++ ":" ++ n.text

end Notice

end VariableMetric
