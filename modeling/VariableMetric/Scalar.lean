/-!
# Scalars

The minimizer is written once, over a type of scalars with the arithmetic, the
comparisons and the few constants that it uses.  Double precision numbers are
one such type; an ordered field with its two infinities is another, and gives
the reading of the same definitions in exact arithmetic.

Comparisons are answered by the scalars themselves, so a value that is not a
number fails each of them.
-/

namespace VariableMetric

/-- The formats in which elements are stored.  Half and extended precision are left
out, and so are numbers of several components. -/
inductive Precision where
  | single
  | double
  deriving DecidableEq, Repr

def Precision.wider : Precision → Precision → Precision
  | .single, .single => .single
  | _, _ => .double

class Scalar (α : Type) extends Add α, Sub α, Mul α, Div α, Neg α, LT α, LE α, Zero α, One α where
  half : α
  two : α
  infinity : α
  sqrt : α → α
  /-- The square as a power, which need not be the nearest value to it. -/
  square : α → α
  isFinite : α → Bool
  /-- Numerical equality: both zeros are equal, and a value that is not a
  number equals nothing. -/
  equal : α → α → Bool
  decLt : DecidableLT α
  decLe : DecidableLE α
  /-- The nearest value that the storage format holds. -/
  round : Precision → α → α

namespace Scalar

variable {α : Type} [Scalar α]

instance : DecidableLT α := decLt

instance : DecidableLE α := decLe

def isNaN (a : α) : Bool := !equal a a

/-- The smaller of two values.  The first one stands unless the second is
strictly below it, so that it stands beside a value that is not a number. -/
def least (a b : α) : α := if b < a then b else a

/-- The larger of two values; the first one stands unless the second is
strictly above it. -/
def greatest (a b : α) : α := if a < b then b else a

/-- The value brought between two bounds.  A value that equals a bound stays,
and so does one that is not a number. -/
def confine (lower upper a : α) : α :=
  let raised := if a < lower then lower else a
  if upper < raised then upper else raised

/-- The value brought between two bounds.  At equality the bound is taken, so
that a zero gets the sign of the bound; a value that is not a number stays. -/
def clamp (lower upper a : α) : α :=
  if isNaN a then a
  else
    let raised := if lower < a then a else lower
    if raised < upper then raised else upper

/-- The largest value of a nonempty list; not a number as soon as one entry
is not. -/
def supremum (first : α) (rest : List α) : α :=
  rest.foldl (fun top a => if isNaN top then top else if isNaN a || top < a then a else top) first

end Scalar

end VariableMetric
