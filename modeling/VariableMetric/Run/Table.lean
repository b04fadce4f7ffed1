import VariableMetric.Run.Transcript

/-!
# The table of iterations

A run can print a table of its iterations.  Its head names the columns; a row
tells the counters, the time, the value, the norm of the projected gradient and
the step.  The clock is not read, and the time is given as zero.
-/

namespace VariableMetric

namespace Row

def elapsed : Float := 0.0

def widths : List Nat := [6, 6, 8, 10, 24, 13, 13]

def columns : List String :=
  ["ITER", "EVAL", "RESTART", "TIME (s)", "PENALTY", "GRADIENT", "STEP"]

def aligned (widths : List Nat) (texts : List String) : String :=
  String.join (List.zipWith (fun w s => " " ++ Decimal.padLeft w s) widths texts)

/-- The head of the table for `n` variables and `m` correction pairs.  The mark
at its start takes a column of the first width. -/
def head (n m : Nat) : List String :=
  ["# VMLMB algorithm (N=" ++ toString n ++ ", M=" ++ toString m ++ ")",
   "#" ++ aligned (5 :: widths.tail) columns,
   String.ofList (List.replicate 86 '-')]

def text (r : Row Float) : String :=
  aligned widths
    [toString r.iterations, toString r.evaluations, toString r.restarts,
     Decimal.fixedText 3 elapsed, Decimal.scientificText 16 r.value,
     Decimal.scientificText 6 r.norm, Decimal.scientificText 6 r.step]

end Row

/-- The lines that a run with `m` correction pairs prints, oldest first. -/
def Transcript.lines {n : Nat} (m : Nat) (t : Transcript Float n) : List String :=
  (t.collect fun e =>
    match e with
    | .headed => some (Row.head n m)
    | .printed row => some [row.text]
    | _ => none).flatten

end VariableMetric
