import VariableMetric.Scalar
import VariableMetric.Double.Units

/-!
# Doubles as scalars

Double precision arithmetic rounds every operation to nearest.  A value kept in
single precision is held as the double of the same value, and an operation on
two of them is carried out in double precision and rounded once more; for the
operations used here the second rounding gives the single precision result.

Powers are not rounded to nearest: a square taken as a power may differ from the
product in the last bit.
-/

namespace VariableMetric

instance : Scalar Float where
  zero := 0.0
  one := 1.0
  half := 0.5
  two := 2.0
  infinity := 1.0 / 0.0
  sqrt := Float.sqrt
  square x := Float.pow x 2.0
  isFinite := Float.isFinite
  equal a b := a == b
  decLt := Float.decLt
  decLe := Float.decLe
  round
    | .single => Double.roundToSingle
    | .double => id

end VariableMetric
