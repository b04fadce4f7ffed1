/-!
# Lines of a text

What is printed is read back line by line.  Besides the line feed and the
carriage return, and the two of them together, there are a few other characters
that end a line.
-/

namespace VariableMetric.Text

/-- Whether a character ends a line: the controls from the line feed to the
carriage return, the information separators, the next line control, and the line
and paragraph separators. -/
def endsLine (c : Char) : Bool :=
  let n := c.toNat
  (0xA ≤ n && n ≤ 0xD) || (0x1C ≤ n && n ≤ 0x1E) || n == 0x85 || n == 0x2028 || n == 0x2029

/-- The lines of a text, after a line begun with the reversed `line`. -/
def splitLines (line : List Char) : List Char → List (List Char)
  | [] => if line.isEmpty then [] else [line.reverse]
  | '\r' :: '\n' :: rest => line.reverse :: splitLines [] rest
  | c :: rest =>
    if endsLine c then line.reverse :: splitLines [] rest else splitLines (c :: line) rest

def printedLines (s : String) : List String :=
  (splitLines [] (s.toList ++ ['\n'])).map String.ofList

end VariableMetric.Text
