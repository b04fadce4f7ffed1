import VariableMetric.Objective
import VariableMetric.Objective.Branin
import VariableMetric.Objective.Rosenbrock
import VariableMetric.Vec.Algebra

/-!
# Sample objectives

Objectives to try a minimizer on.  All of them compute in double precision; the
gradient is rounded when it is stored.  Sums are taken from left to right.  The
state of an objective is the number of its calls, which only a scripted one
looks at.
-/

namespace VariableMetric

inductive Sample where
  /-- Half the weighted square distance from a center, above a least value. -/
  | quadratic (weights center : List Float) (least : Float)
  /-- A quadratic form around a center, above a least value. -/
  | form (rows : List (List Float)) (center : List Float) (least : Float)
  /-- A sum of polynomials of one component each, by ascending coefficients; the
  polynomials are taken in turn. -/
  | polynomials (coefficients : List (List Float))
  /-- The weighted sum of the distances from a center, component by
  component. -/
  | distance (weights center : List Float)
  | rosenbrock
  | branin
  /-- Given answers, one after the other, the last one repeating; no answer is a
  refusal. -/
  | scripted (answers : List (Option (Float × List Float)))

structure Wall where
  level : Float
  value : Float

namespace Sample

/-- An answer, unless the parameters did not suffice for all components. -/
def complete (n : Nat) (value : Float) (gradient : List Float) :
    Except Fault (Float × List Float) :=
  if gradient.length < n then throw .badIndex else pure (value, gradient)

def sum (l : List Float) : Float := l.foldl (· + ·) 0.0

def products (a b : List Float) : List Float := List.zipWith (· * ·) a b

def offsets (x center : List Float) : List Float := List.zipWith (· - ·) x center

/-- The value and the slope of a polynomial, from the highest coefficient
down. -/
def horner (coefficients : List Float) (x : Float) : Float × Float :=
  coefficients.foldr (fun a (q, slope) => (q * x + a, slope * x + q)) (0.0, 0.0)

def hornerAll (coefficients : List (List Float)) (x : List Float) :
    Except Fault (List (Float × Float)) :=
  x.zipIdx.mapM fun (a, i) =>
    match coefficients[i % coefficients.length]? with
    | some c => pure (horner c a)
    | none => throw .divisionByZero

def distanceSlope (weight offset : Float) : Float :=
  if 0.0 < offset then weight else if offset < 0.0 then -weight else 0.0

/-- The answer of a script to a call, counted from one. -/
def scriptedAnswer (answers : List (Option (Float × List Float))) (call : Nat) :
    Except Fault (Float × List Float) :=
  match answers[min call answers.length - 1]? with
  | some (some answer) => pure answer
  | some none => throw (.objectiveFailed call)
  | none => throw .badIndex

/-- The value and the gradient at variables of a shape, on a call counted from
one. -/
def evaluate (s : Sample) (call : Nat) (shape : Shape) (x : List Float) :
    Except Fault (Float × List Float) :=
  match s with
  | quadratic weights center least =>
    let r := offsets x center
    let g := products weights r
    complete x.length (0.5 * sum (products g r) + least) g
  | form rows center least =>
    let r := offsets x center
    let rows := rows.take x.length
    let g := rows.map fun row => sum (products row r)
    if r.length < x.length || rows.any fun row => row.length < x.length then throw .badIndex
    else complete x.length (0.5 * sum (products r g) + least) g
  | polynomials coefficients => do
    let answers ← hornerAll coefficients x
    pure (sum (answers.map Prod.fst), answers.map Prod.snd)
  | distance weights center =>
    let r := offsets x center
    let g := List.zipWith distanceSlope weights r
    complete x.length (sum (products weights (r.map Float.abs))) g
  | rosenbrock => Rosenbrock.evaluate shape x
  | branin => Branin.evaluate shape x
  | scripted answers => scriptedAnswer answers call

/-- Stores a gradient, which has to have a slope for every component. -/
def store (p : Precision) (n : Nat) (gradient : List Float) : Except Fault (Vec Float n) :=
  if gradient.length = n then pure (Vec.ofList n 0 (gradient.map (Scalar.round p)))
  else throw .notBroadcastable

def behind (wall : Option Wall) (x : List Float) (value : Float) : Float :=
  match wall with
  | some w => if x.any fun a => w.level < a then w.value else value
  | none => value

def objective (s : Sample) (wall : Option Wall) (p : Precision) (shape : Shape) :
    Objective Nat Float shape.size where
  evaluate calls x _ :=
    (do
      let (value, gradient) ← s.evaluate (calls + 1) shape x.toList
      let g ← store p shape.size gradient
      pure (behind wall x.toList value, g), calls + 1)

end Sample

end VariableMetric
