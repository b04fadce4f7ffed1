import VariableMetric.Shape
import VariableMetric.Value

/-!
# Faults

Every way in which a call can be refused, by cause.  Faults of conversion, of
arithmetic and of indexing have no text of their own; all others quote what was
given.
-/

namespace VariableMetric

/-- What an option has to satisfy. -/
inductive Requirement where
  | nonNegative
  | positive
  /-- Strictly between zero and one. -/
  | fraction
  /-- Strictly between another option and one. -/
  | fractionAbove (other : String)
  /-- Above zero and at most a half. -/
  | atMostHalf

def Requirement.text : Requirement → String
  | nonNegative => "be non-negative"
  | positive => "be positive"
  | fraction => "be in (0,1)"
  | fractionAbove other => "be in (" ++ other ++ ",1)"
  | atMostHalf => "be in (0,0.5]"

inductive Fault where
  /-- A value of the wrong kind for a conversion or a comparison. -/
  | wrongKind
  /-- An argument that is not known, or a missing one. -/
  | badCall
  /-- Text or a value that stands for no number. -/
  | unreadable
  /-- A number too large for the format it is needed in. -/
  | tooLarge
  | divisionByZero
  | badIndex
  /-- Arrays whose shapes cannot be used together. -/
  | notBroadcastable
  /-- A result that the destination cannot hold. -/
  | castRefused
  /-- Extents that an array with the given elements cannot have. -/
  | badExtents
  /-- More axes than an array can have. -/
  | tooManyAxes
  /-- More cells than can be counted. -/
  | tooManyCells
  /-- More cells than there is room for. -/
  | outOfMemory
  /-- A slice that makes no headway. -/
  | sliceWithoutStep
  /-- A sum in place of arrays without elements. -/
  | nothingToAdd
  /-- An argument at which a function has no value. -/
  | outsideDomain
  /-- An operation that this kind of set or line search lacks. -/
  | notImplemented
  | shapesDiffer (first second : Shape)
  | variablesNotFloating
  | variablesEmpty
  | variablesNotContiguous
  | variablesNotWritable
  | boundNotANumber
  | boundsCrossed
  | boundShapes (lower upper : Shape)
  | objectiveNotCallable
  | objectiveFailed (call : Nat)
  | badCapacity (given : String)
  | notAPair (option : String) (given : Value)
  | notTolerances (option : String) (given : Value)
  | outOfRange (option : String) (requirement : Requirement) (given : Value)
  | slopeFactors (ftol gtol : Value)
  | unknownLineSearch (name : String) (known : List String)
  | unknownOptions (names : List String)

namespace Fault

/-- The text of a complaint; faults of conversion, arithmetic and indexing have
none. -/
def message? : Fault → Option String
  | wrongKind => none
  | badCall => none
  | unreadable => none
  | tooLarge => none
  | divisionByZero => none
  | badIndex => none
  | notBroadcastable => none
  | castRefused => none
  | badExtents => none
  | tooManyAxes => none
  | tooManyCells => none
  | outOfMemory => none
  | sliceWithoutStep => none
  | nothingToAdd => none
  | outsideDomain => none
  | notImplemented => some ""
  | shapesDiffer s t =>
    some ("arrays must have the same shape, got " ++ s.shown ++ " and " ++ t.shown)
  | variablesNotFloating => some "variables must be a floating-point numpy.ndarray"
  | variablesEmpty => some "variables must have at least one element"
  | variablesNotContiguous => some "variables must be stored in a C-contiguous array"
  | variablesNotWritable => some "variables must be writable (they are updated in place)"
  | boundNotANumber => some "bounds must not contain NaN"
  | boundsCrossed => some "lower bound must not exceed upper bound"
  | boundShapes s t =>
    some ("lower and upper bounds have incompatible shapes " ++ s.shown ++ " and " ++ t.shown)
  | objectiveNotCallable => some "objective function fg must be callable"
  | objectiveFailed call => some ("objective failed at call " ++ toString call)
  | badCapacity given =>
    some ("bad number of variable metric corrections m=" ++ given ++ " (must be >= 1)")
  | notAPair option given =>
    some (option ++ " must be a pair of numbers, got " ++ given.shown)
  | notTolerances option given =>
    some (option ++ " must hold two finite non-negative numbers, got " ++ given.shown)
  | outOfRange option requirement given =>
    some (option ++ " must " ++ requirement.text ++ ", got " ++ given.plain)
  | slopeFactors ftol gtol =>
    some ("need 0 < ftol < gtol < 1, got ftol=" ++ ftol.plain ++ ", gtol=" ++ gtol.plain)
  | unknownLineSearch name known =>
    some ("unknown line search " ++ (Value.text name).shown ++ ", expected one of "
      ++ (Value.list (known.map Value.text)).shown)
  | unknownOptions names => some ("unknown option(s): " ++ ", ".intercalate names)

end Fault

/-- What succeeds as a whole succeeds at its first step. -/
theorem exists_of_bind_eq_ok {ε β γ : Type} {x : Except ε β} {f : β → Except ε γ} {c : γ}
    (h : x >>= f = .ok c) : ∃ b, x = .ok b ∧ f b = .ok c := by
  cases x with
  | ok b => exact ⟨b, rfl, h⟩
  | error e => cases h

theorem exists_bind_eq_ok_iff {ε β γ : Type} {x : Except ε β} {f : β → Except ε γ}
    {good : γ → Prop} : (∃ c, x >>= f = .ok c ∧ good c) ↔
      ∃ b, x = .ok b ∧ ∃ c, f b = .ok c ∧ good c := by
  constructor
  · rintro ⟨c, hc, hgood⟩
    obtain ⟨b, hb, hc⟩ := exists_of_bind_eq_ok hc
    exact ⟨b, hb, c, hc, hgood⟩
  · rintro ⟨b, rfl, h⟩
    exact h

theorem exists_of_isOk {ε β : Type} {x : Except ε β} (h : x.isOk = true) : ∃ b, x = .ok b := by
  cases x with
  | ok b => exact ⟨b, rfl⟩
  | error e => cases h

end VariableMetric
