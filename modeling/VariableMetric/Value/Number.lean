import VariableMetric.Decimal.Reader
import VariableMetric.Fault

/-!
# Values as numbers

Numbers among the free values are compared exactly: a whole number is never
rounded to a double first.  The conversions read text as a numeral and count a
truth value as zero or one.
-/

namespace VariableMetric

inductive Number where
  | whole (i : Int)
  | real (x : Float)

namespace Number

/-- The sign and the significand of a finite double as one whole number, and
its power of two. -/
def signedSignificand (x : Float) : Int × Int :=
  let (m, q) := Double.significand x
  (if Double.isNegative x then -(m : Int) else (m : Int), q)

/-- Compares a whole number with a double: the number, scaled to the last
binary place of the double, against its significand. -/
def wholeBelow (i : Int) (x : Float) : Bool :=
  if x.isNaN then false
  else if !x.isFinite then !Double.isNegative x
  else
    let (m, q) := signedSignificand x
    if 0 ≤ q then i < m * Int.pow 2 q.toNat else i * Int.pow 2 (-q).toNat < m

def wholeAbove (i : Int) (x : Float) : Bool :=
  if x.isNaN then false
  else if !x.isFinite then Double.isNegative x
  else
    let (m, q) := signedSignificand x
    if 0 ≤ q then m * Int.pow 2 q.toNat < i else m < i * Int.pow 2 (-q).toNat

/-- Strict comparison by value; a value that is not a number is below and above
nothing. -/
def below : Number → Number → Bool
  | whole i, whole j => i < j
  | whole i, real y => wholeBelow i y
  | real x, whole j => wholeAbove j x
  | real x, real y => x < y

/-- The nearest double; numbers beyond all finite doubles become infinite. -/
def nearest (i : Int) : Float :=
  let magnitude := Decimal.nearestDouble i.natAbs 0
  if i < 0 then -magnitude else magnitude

/-- The nearest double, unless it would be infinite. -/
def doubleOfInt (i : Int) : Except Fault Float :=
  if (nearest i).isFinite then pure (nearest i) else throw .tooLarge

def truncated (x : Float) : Except Fault Int :=
  if x.isNaN then throw .unreadable
  else if !x.isFinite then throw .tooLarge
  else
    let (m, q) := signedSignificand x
    pure (if 0 ≤ q then m * Int.pow 2 q.toNat else m.tdiv (Int.pow 2 (-q).toNat))

end Number

namespace Value

def number? : Value → Option Number
  | bool b => some (.whole (if b then 1 else 0))
  | int i => some (.whole i)
  | float x => some (.real x)
  | _ => none

/-- Strict comparison of two values, which have to be numbers. -/
def isBelow (a b : Value) : Except Fault Bool :=
  match a.number?, b.number? with
  | some x, some y => pure (x.below y)
  | _, _ => throw .wrongKind

/-- Comparison for `a ≤ b`, which differs from the absence of `b < a` where a
value is not a number. -/
def isAtMost (a b : Value) : Except Fault Bool :=
  match a.number?, b.number? with
  | some (.real x), some (.real y) => pure (x ≤ y)
  | some (.real x), some (.whole j) => pure (!x.isNaN && !Number.below (.whole j) (.real x))
  | some (.whole i), some (.real y) => pure (!y.isNaN && !Number.below (.real y) (.whole i))
  | some (.whole i), some (.whole j) => pure (i ≤ j)
  | _, _ => throw .wrongKind

def toInt : Value → Except Fault Int
  | bool b => pure (if b then 1 else 0)
  | int i => pure i
  | float x => Number.truncated x
  | text s =>
    match Decimal.readWhole? s with
    | some i => pure i
    | none => throw .unreadable
  | _ => throw .wrongKind

def toDouble : Value → Except Fault Float
  | bool b => pure (if b then 1.0 else 0.0)
  | int i => Number.doubleOfInt i
  | float x => pure x
  | text s =>
    match Decimal.readReal? s with
    | some x => pure x
    | none => throw .unreadable
  | _ => throw .wrongKind

end Value

end VariableMetric
