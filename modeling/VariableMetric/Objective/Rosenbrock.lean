import VariableMetric.Double.Scalar
import VariableMetric.Fault

/-!
# The Rosenbrock function

The extended Rosenbrock function has one term for every pair of neighbouring
components, and its least value, zero, at the point of ones.  The terms are
summed in blocks, in eight interleaved partial sums each, which keeps the
rounding errors small.

The slopes along the first and the last component take squares as powers; all
other squares are products.
-/

namespace VariableMetric

namespace BlockSum

def sequential (start : Float) (l : List Float) : Float := l.foldl (· + ·) start

/-- Adds the entries eight at a time to eight partial sums, as long as there are
eight; answers the sums and the entries left. -/
def lanes (sums l : List Float) : List Float × List Float :=
  if 8 ≤ l.length then lanes (List.zipWith (· + ·) sums (l.take 8)) (l.drop 8) else (sums, l)
termination_by l.length
decreasing_by
  rw [List.length_drop]
  omega

def joined : List Float → Float
  | [a, b, c, d, e, f, g, h] => ((a + b) + (c + d)) + ((e + f) + (g + h))
  | l => sequential 0.0 l

def block (l : List Float) : Float :=
  if l.length < 8 then sequential 0.0 l
  else
    let (sums, rest) := lanes (l.take 8) (l.drop 8)
    sequential (joined sums) rest

/-- Where a list that is too long for one block is cut: in the middle, at a
multiple of eight. -/
def cut (length : Nat) : Nat := length / 2 - length / 2 % 8

def sum (l : List Float) : Float :=
  if l.length ≤ 128 then block l
  else sum (l.take (cut l.length)) + sum (l.drop (cut l.length))
termination_by l.length
decreasing_by
  all_goals
    simp only [List.length_take, List.length_drop, cut]
    omega

end BlockSum

namespace Rosenbrock

def product (x : Float) : Float := x * x

def term (x y : Float) : Float := 100.0 * product (y - product x) + product (1.0 - x)

def terms : List Float → List Float
  | x :: y :: rest => term x y :: terms (y :: rest)
  | _ => []

def value (x : List Float) : Float := BlockSum.sum (terms x)

def firstSlope (x y : Float) : Float :=
  -400.0 * x * (y - Scalar.square x) - 2.0 * (1.0 - x)

def innerSlope (w x y : Float) : Float :=
  200.0 * (x - product w) - 400.0 * (y - product x) * x - 2.0 * (1.0 - x)

def lastSlope (w x : Float) : Float := 200.0 * (x - Scalar.square w)

def laterSlopes : List Float → List Float
  | w :: x :: y :: rest => innerSlope w x y :: laterSlopes (x :: y :: rest)
  | [w, x] => [lastSlope w x]
  | _ => []

/-- The gradient; there have to be two components. -/
def gradient : List Float → Except Fault (List Float)
  | x :: y :: rest => pure (firstSlope x y :: laterSlopes (x :: y :: rest))
  | _ => throw .badIndex

/-- The value and the gradient at variables of a shape, which have to lie along
one axis. -/
def evaluate (shape : Shape) (x : List Float) : Except Fault (Float × List Float) :=
  match shape with
  | [_] => do
    let g ← gradient x
    pure (value x, g)
  | 1 :: _ => throw .badIndex
  | [] => throw .badIndex
  | _ => throw .wrongKind

end Rosenbrock

end VariableMetric
