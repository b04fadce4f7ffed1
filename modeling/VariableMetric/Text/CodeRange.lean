/-!
# Ranges of code points

Properties of characters are given as sorted lists of closed ranges of code
points, as the Unicode character database lists them.
-/

namespace VariableMetric.Text

abbrev CodeRange := Nat × Nat

def inRanges (ranges : List CodeRange) (c : Char) : Bool :=
  ranges.any fun r => r.1 ≤ c.toNat && c.toNat ≤ r.2

end VariableMetric.Text
