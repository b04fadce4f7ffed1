import VariableMetric.Decimal.Shortest

/-!
# Written forms of doubles

The minimizer writes doubles in three ways: the shortest text that reads back,
a stated number of digits with an exponent, and a stated number of decimal
places.  Infinities and the value that is not a number have words of their own.
-/

namespace VariableMetric.Decimal

structure Style where
  notANumber : String
  infinite : String
  exponentMark : String
  leastExponentDigits : Nat
  /-- Leading exponents from here on are written positionally. -/
  positionalFrom : Int
  /-- Leading exponents below this one are written positionally. -/
  positionalBelow : Int

/-- The shortest text is positional for leading exponents from minus four to
fifteen, and an exponent has a sign and at least two digits. -/
def style : Style where
  notANumber := "nan"
  infinite := "inf"
  exponentMark := "e"
  leastExponentDigits := 2
  positionalFrom := -4
  positionalBelow := 16

def zeros (n : Nat) : String := String.ofList (List.replicate n '0')

def padLeft (width : Nat) (s : String) : String :=
  String.ofList (List.replicate (width - s.length) ' ') ++ s

def padZeros (width : Nat) (s : String) : String := zeros (width - s.length) ++ s

def takeDigits (n : Nat) (s : String) : String := String.ofList (s.toList.take n)

def dropDigits (n : Nat) (s : String) : String := String.ofList (s.toList.drop n)

def exponentText (e : Int) : String :=
  let sign := if e < 0 then "-" else "+"
  style.exponentMark ++ sign ++ padZeros style.leastExponentDigits (toString e.natAbs)

/-- The digits with a point after the first one, and an exponent. -/
def withExponent (digits : String) (lead : Int) : String :=
  let fraction := dropDigits 1 digits
  let point := if fraction.isEmpty then "" else "."
  takeDigits 1 digits ++ point ++ fraction ++ exponentText lead

/-- The digits with a point where the leading exponent puts it, and at least
one digit on each side of the point. -/
def positional (digits : String) (lead : Int) : String :=
  if lead < 0 then "0." ++ zeros (-lead - 1).toNat ++ digits
  else
    let whole := lead.toNat + 1
    if digits.length ≤ whole then digits ++ zeros (whole - digits.length) ++ ".0"
    else takeDigits whole digits ++ "." ++ dropDigits whole digits

def shortestMagnitude (m : Nat) (q : Int) : String :=
  if m = 0 then "0.0"
  else
    let s := shortest m q
    let digits := toString s.coefficient
    let lead := s.exponent + (digits.length : Int) - 1
    if style.positionalFrom ≤ lead ∧ lead < style.positionalBelow then positional digits lead
    else withExponent digits lead

def scientificMagnitude (places : Nat) (m : Nat) (q : Int) : String :=
  if m = 0 then withExponent (zeros (places + 1)) 0
  else
    let s := significantDigits (places + 1) m q
    withExponent (toString s.coefficient) (s.exponent + (places : Int))

def fixedMagnitude (places : Nat) (m : Nat) (q : Int) : String :=
  let digits := padZeros (places + 1) (toString (atPlace (-(places : Int)) m q))
  let whole := digits.length - places
  takeDigits whole digits ++ (if places = 0 then "" else "." ++ dropDigits whole digits)

def written (magnitude : Nat → Int → String) (x : Float) : String :=
  if x.isNaN then style.notANumber
  else
    let sign := if Double.isNegative x then "-" else ""
    if x.isFinite then
      let (m, q) := Double.significand x
      sign ++ magnitude m q
    else sign ++ style.infinite

def shortestText (x : Float) : String := written shortestMagnitude x

def scientificText (places : Nat) (x : Float) : String := written (scientificMagnitude places) x

def fixedText (places : Nat) (x : Float) : String := written (fixedMagnitude places) x

end VariableMetric.Decimal
