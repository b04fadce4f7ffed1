import VariableMetric.Decimal.Layout
import VariableMetric.Text.Printable

/-!
# Free values

Options reach the minimizer as values of any kind: they are checked and
converted where they are used, and quoted in complaints as they were given.
The fields of a record are named by texts.
-/

namespace VariableMetric

inductive Value where
  | null
  | bool (b : Bool)
  | int (i : Int)
  | float (x : Float)
  | text (s : String)
  | list (items : List Value)
  | record (fields : List (String × Value))
  deriving Inhabited

namespace Value

def singleQuote : Char := Char.ofNat 0x27

def doubleQuote : Char := Char.ofNat 0x22

def backslash : Char := Char.ofNat 0x5C

def hexDigit (n : Nat) : Char :=
  if n < 10 then Char.ofNat (48 + n) else Char.ofNat (87 + n)

/-- The last `count` hexadecimal digits of a number. -/
def hexDigits : Nat → Nat → List Char
  | 0, _ => []
  | count + 1, n => hexDigits count (n / 16) ++ [hexDigit (n % 16)]

/-- A quoted character.  The quote, the backslash and characters that are not
printable are escaped. -/
def quoteChar (quote : Char) (c : Char) : List Char :=
  let code := c.toNat
  if c == quote || c == backslash then [backslash, c]
  else if code = 0x9 then [backslash, 't']
  else if code = 0xA then [backslash, 'n']
  else if code = 0xD then [backslash, 'r']
  else if Text.isPrintable c then [c]
  else if code < 0x100 then [backslash, 'x'] ++ hexDigits 2 code
  else if code < 0x10000 then [backslash, 'u'] ++ hexDigits 4 code
  else [backslash, 'U'] ++ hexDigits 8 code

/-- Text stands between single quotes, or between double quotes if it holds a
single quote and no double one. -/
def quoted (s : String) : String :=
  let cs := s.toList
  let quote :=
    if cs.contains singleQuote && !cs.contains doubleQuote then doubleQuote else singleQuote
  String.ofList ([quote] ++ cs.flatMap (quoteChar quote) ++ [quote])

mutual

def shown : Value → String
  | null => "None"
  | bool true => "True"
  | bool false => "False"
  | int i => toString i
  | float x => Decimal.shortestText x
  | text s => quoted s
  | list items => "[" ++ ", ".intercalate (shownItems items) ++ "]"
  | record fields => "\x7b" ++ ", ".intercalate (shownFields fields) ++ "\x7d"

def shownItems : List Value → List String
  | [] => []
  | v :: rest => v.shown :: shownItems rest

def shownFields : List (String × Value) → List String
  | [] => []
  | (key, v) :: rest => (quoted key ++ ": " ++ v.shown) :: shownFields rest

end

def plain : Value → String
  | text s => s
  | v => v.shown

end Value

end VariableMetric
