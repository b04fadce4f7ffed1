import VariableMetric.Demo.Scenes

/-!
# The demonstration program

Prints what the scenes print, one after the other.
-/

namespace VariableMetric

def pointText (x : List Float) : String :=
  "[" ++ " ".intercalate (x.map (Decimal.fixedText 6)) ++ "]"

end VariableMetric

open VariableMetric in
def main : IO Unit :=
  Demo.scenes.forM fun scene =>
    (scene.lines scene.startValue.plain pointText).forM IO.println
