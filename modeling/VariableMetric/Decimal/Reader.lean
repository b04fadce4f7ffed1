import VariableMetric.Text.Numeral

/-!
# Reading numbers from text

A whole number is an optional sign and digits; a real number may have a point,
an exponent, or be one of the words for infinity and for the value that is not
a number.  Single underscores may separate digits, and blanks may surround the
whole.
-/

namespace VariableMetric.Decimal

structure DigitRun where
  value : Nat
  count : Nat

def DigitRun.snoc (run : DigitRun) (digit : Nat) : DigitRun :=
  ⟨10 * run.value + digit, run.count + 1⟩

/-- The longest run of digits that continues `run`, and the text after it.  An
underscore belongs to the run if a digit stands on each side of it. -/
def readDigits (run : DigitRun) : List Char → DigitRun × List Char
  | [] => (run, [])
  | '_' :: c :: rest =>
    match Text.digitValue? c with
    | some digit =>
      if run.count = 0 then (run, '_' :: c :: rest) else readDigits (run.snoc digit) rest
    | none => (run, '_' :: c :: rest)
  | c :: rest =>
    match Text.digitValue? c with
    | some digit => readDigits (run.snoc digit) rest
    | none => (run, c :: rest)

/-- An optional sign, true for minus, and the text after it. -/
def readSign : List Char → Bool × List Char
  | '-' :: rest => (true, rest)
  | '+' :: rest => (false, rest)
  | cs => (false, cs)

def digitLimit : Nat := 4300

def readWhole? (s : String) : Option Int :=
  let (negative, unsigned) := readSign (Text.trimBlanks s.toList)
  match readDigits ⟨0, 0⟩ unsigned with
  | (run, []) =>
    if run.count = 0 ∨ digitLimit < run.count then none
    else some (if negative then -(run.value : Int) else (run.value : Int))
  | (_, _ :: _) => none

/-- The double nearest to a coefficient times a power of ten.  Numbers that are
certainly too large or too small are not multiplied out. -/
def nearestDouble (coefficient : Nat) (exponent : Int) : Float :=
  let lead := exponent + ((toString coefficient).length : Int)
  if coefficient = 0 then 0.0
  else if 310 < lead then 1.0 / 0.0
  else if lead < -330 then 0.0
  else Float.ofScientific coefficient (decide (exponent < 0)) exponent.natAbs

def readExponent? : List Char → Option Int
  | [] => some 0
  | c :: rest =>
    if c = 'e' ∨ c = 'E' then
      let (negative, unsigned) := readSign rest
      match readDigits ⟨0, 0⟩ unsigned with
      | (run, []) =>
        if run.count = 0 then none
        else some (if negative then -(run.value : Int) else (run.value : Int))
      | (_, _ :: _) => none
    else none

def readFraction? (whole : DigitRun) (cs : List Char) : Option Float :=
  let (fraction, rest) :=
    match cs with
    | '.' :: rest => readDigits ⟨0, 0⟩ rest
    | _ => (⟨0, 0⟩, cs)
  if whole.count + fraction.count = 0 then none
  else
    (readExponent? rest).map fun exponent =>
      nearestDouble (whole.value * Nat.pow 10 fraction.count + fraction.value)
        (exponent - (fraction.count : Int))

/-- A real number without its sign. -/
def readMagnitude? (cs : List Char) : Option Float :=
  let word := String.ofList (cs.map Char.toLower)
  if word = "inf" ∨ word = "infinity" then some (1.0 / 0.0)
  else if word = "nan" then some (0.0 / 0.0)
  else
    let (whole, rest) := readDigits ⟨0, 0⟩ cs
    readFraction? whole rest

def readReal? (s : String) : Option Float :=
  let (negative, unsigned) := readSign (Text.trimBlanks s.toList)
  (readMagnitude? unsigned).map fun x => if negative then -x else x

end VariableMetric.Decimal
