import VariableMetric.Double.Scalar
import VariableMetric.Fault

/-!
# The Branin function

The Branin function of two variables, meant for the first one between minus five
and ten and the second one between zero and fifteen.  It has three minima there
with one value, about `0.397887`.
-/

namespace VariableMetric.Branin

def pi : Float := 3.141592653589793

def bend : Float := 5.1 / (4.0 * Scalar.square pi)

def tilt : Float := 5.0 / pi

def height : Float := 10.0 * (1.0 - 1.0 / (8.0 * pi))

def offset (x y : Float) : Float := y - bend * Scalar.square x + tilt * x - 6.0

def value (x y : Float) : Float :=
  let q := offset x y
  Scalar.square q + height * Float.cos x + 10.0

def gradient (x y : Float) : List Float :=
  let q := offset x y
  [2.0 * q * (tilt - 2.0 * bend * x) - height * Float.sin x, 2.0 * q]

/-- The value and the gradient at variables of a shape, which have to be two
numbers.  The waves have no value at infinity. -/
def evaluate (shape : Shape) (x : List Float) : Except Fault (Float × List Float) :=
  match shape, x with
  | [2], [x, y] => if x.isInf then throw .outsideDomain else pure (value x y, gradient x y)
  | [], _ => throw .wrongKind
  | 2 :: _, _ => throw .wrongKind
  | _, _ => throw .outsideDomain

end VariableMetric.Branin
