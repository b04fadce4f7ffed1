import VariableMetric.Double.Units

/-!
# Decimal digits of doubles

A positive double is a significand times a power of two.  Two roundings to
decimal digits are given, both in exact arithmetic: to a stated number of
digits, and to the fewest digits that read back as the same double.  The second
one tries the decimal grids with one digit, two digits, and so on.  On each
grid only the two neighbours of the value can lie in the interval of numbers
that read back as it, so the first grid with a hit has the fewest digits.
-/

namespace VariableMetric.Decimal

structure Scaled where
  coefficient : Nat
  exponent : Int
  deriving DecidableEq, Repr

structure Fraction where
  num : Nat
  den : Nat

def scaleBy (n base : Nat) (exponent : Int) : Fraction :=
  if 0 ≤ exponent then ⟨n * base.pow exponent.toNat, 1⟩ else ⟨n, base.pow (-exponent).toNat⟩

def Fraction.onGrid (x : Fraction) (exponent : Int) : Fraction :=
  if 0 ≤ exponent then ⟨x.num, x.den * Nat.pow 10 exponent.toNat⟩
  else ⟨x.num * Nat.pow 10 (-exponent).toNat, x.den⟩

def Fraction.atLeastPower (x : Fraction) (exponent : Int) : Bool :=
  let y := x.onGrid exponent
  y.den ≤ y.num

/-- The decimal exponent of the leading digit of a significand times a power of
two, found from the binary one and corrected by at most one place. -/
def leadingExponent (m : Nat) (q : Int) : Int :=
  let x := scaleBy m 2 q
  let guess := (((m.log2 : Int) + q) * 30103) / 100000
  if !x.atLeastPower guess then guess - 1
  else if x.atLeastPower (guess + 1) then guess + 1
  else guess

/-- The value rounded to `count` significant digits, a half to the even
neighbour. -/
def significantDigits (count : Nat) (m : Nat) (q : Int) : Scaled :=
  let lead := leadingExponent m q
  let place := lead - (count : Int) + 1
  let x := (scaleBy m 2 q).onGrid place
  let d := Double.roundHalfEven x.num x.den
  if d = Nat.pow 10 count then ⟨Nat.pow 10 (count - 1), place + 1⟩ else ⟨d, place⟩

/-- The value rounded to a whole multiple of a power of ten, a half to the even
neighbour. -/
def atPlace (place : Int) (m : Nat) (q : Int) : Nat :=
  let x := (scaleBy m 2 q).onGrid place
  Double.roundHalfEven x.num x.den

/-- The interval of numbers that read back as a significand times a power of
two: its ends are a quarter or a half of a last place away, in units of a
quarter, and belong to it when the significand is even. -/
structure Interval where
  low : Nat
  mid : Nat
  high : Nat
  closed : Bool

def Interval.ofSignificand (m : Nat) (q : Int) : Interval where
  low := if m = Nat.pow 2 52 ∧ -1074 < q then 4 * m - 1 else 4 * m - 2
  mid := 4 * m
  high := 4 * m + 2
  closed := m % 2 = 0

/-- Whether `d` steps of a decimal grid fall into the interval, which is given
as quarters of a last place over a common denominator. -/
def Interval.holds (i : Interval) (unit : Fraction) (d : Nat) : Bool :=
  let at' := d * unit.den
  if i.closed then i.low * unit.num ≤ at' ∧ at' ≤ i.high * unit.num
  else i.low * unit.num < at' ∧ at' < i.high * unit.num

/-- The hit on one grid, if there is one: of two neighbours in the interval the
nearer one, and the even one when both are equally near. -/
def hitOnGrid (i : Interval) (unit : Fraction) : Option Nat :=
  let d := i.mid * unit.num / unit.den
  match i.holds unit d, i.holds unit (d + 1) with
  | true, true =>
    let below := i.mid * unit.num - d * unit.den
    let above := (d + 1) * unit.den - i.mid * unit.num
    some (if below < above then d else if above < below then d + 1 else d + d % 2)
  | true, false => some d
  | false, true => some (d + 1)
  | false, false => none

/-- The first hit on the grids that follow the one with leading exponent `lead`
and `count` digits, for at most `grids` grids. -/
def firstHit (i : Interval) (quarter : Fraction) (lead : Int) : Nat → Nat → Option Scaled
  | 0, _ => none
  | grids + 1, count =>
    let place := lead - (count : Int) + 1
    match hitOnGrid i (quarter.onGrid place) with
    | some d =>
      some (if d = Nat.pow 10 count then ⟨Nat.pow 10 (count - 1), place + 1⟩ else ⟨d, place⟩)
    | none => firstHit i quarter lead grids (count + 1)

def shortest (m : Nat) (q : Int) : Scaled :=
  let i := Interval.ofSignificand m q
  match firstHit i (scaleBy 1 2 (q - 2)) (leadingExponent m q) 17 1 with
  | some s => s
  | none => significantDigits 17 m q

end VariableMetric.Decimal
