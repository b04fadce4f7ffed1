/-!
# Doubles in units of the smallest one

The magnitude of every finite double is a whole number of units, a unit being
the smallest positive double, two to the power of minus 1074.  Rounding to the
coarser single precision format is then rounding of natural numbers: keep 24
leading bits, but never go below the finest single precision step, which is
925 binary places above a unit.
-/

namespace VariableMetric.Double

def magnitudeBits (x : Float) : Nat := x.toBits.toNat % Nat.pow 2 63

def isNegative (x : Float) : Bool := Nat.pow 2 63 ≤ x.toBits.toNat

/-- The magnitude as a significand and a power of two, read off the bits.  The
value is meaningful for finite doubles. -/
def significand (x : Float) : Nat × Int :=
  let field : Nat := magnitudeBits x / Nat.pow 2 52
  let fraction := magnitudeBits x % Nat.pow 2 52
  if field = 0 then (fraction, -1074) else (Nat.pow 2 52 + fraction, (field : Int) - 1075)

def units (x : Float) : Nat :=
  let field : Nat := magnitudeBits x / Nat.pow 2 52
  let fraction := magnitudeBits x % Nat.pow 2 52
  if field = 0 then fraction else (Nat.pow 2 52 + fraction) * Nat.pow 2 (field - 1)

def ofMagnitudeBits (negative : Bool) (bits : Nat) : Float :=
  Float.ofBits (UInt64.ofNat (if negative then Nat.pow 2 63 + bits else bits))

/-- The magnitude bits of a number of units that has at most 53 leading bits. -/
def bitsOfUnits (n : Nat) : Nat :=
  if n < Nat.pow 2 52 then n
  else (n.log2 - 51) * Nat.pow 2 52 + (n / Nat.pow 2 (n.log2 - 52) - Nat.pow 2 52)

/-- The quotient rounded to the nearest whole number, a half to the even
neighbour. -/
def roundHalfEven (n d : Nat) : Nat :=
  let q := n / d
  let r := n % d
  if 2 * r < d then q
  else if d < 2 * r then q + 1
  else q + q % 2

/-- The binary place of the last single precision digit of a number of
units. -/
def singlePlace (n : Nat) : Nat := max (n.log2 - 23) 925

/-- A number of units rounded to single precision, without a limit above. -/
def roundUnits (n : Nat) : Nat :=
  roundHalfEven n (Nat.pow 2 (singlePlace n)) * Nat.pow 2 (singlePlace n)

def singleLimit : Nat := Nat.pow 2 (128 + 1074)

/-- The nearest single precision number, held as a double.  Magnitudes that
round above all finite ones become infinite. -/
def roundToSingle (x : Float) : Float :=
  if x.isFinite then
    let n := roundUnits (units x)
    if n < singleLimit then ofMagnitudeBits (isNegative x) (bitsOfUnits n)
    else ofMagnitudeBits (isNegative x) (2047 * Nat.pow 2 52)
  else x

end VariableMetric.Double
