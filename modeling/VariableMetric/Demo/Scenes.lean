import VariableMetric.Demo

/-!
# Scenes

Demonstrations on the Rosenbrock and Branin functions, with and without bounds.
-/

namespace VariableMetric

namespace Demo

structure Scene where
  demo : Demo
  sample : Sample
  start : List Float

def Scene.startValue (s : Scene) : Value := .list (s.start.map Value.float)

/-- Runs on the Rosenbrock function: without bounds, with another line search,
with more components, and in a box that the minimum lies outside of. -/
def rosenbrockScenes : List Scene :=
  [⟨{ name := "Rosenbrock" }, .rosenbrock, [-1.2, 1.0]⟩,
   ⟨{ name := "Rosenbrock (wolfe)", searchName := .text "wolfe" }, .rosenbrock, [-1.2, 1.0]⟩,
   ⟨{ name := "Rosenbrock 10D (m=3)", capacity := .int 3, verbosity := .int 10 }, .rosenbrock,
     List.replicate 10 0.0⟩,
   ⟨{ name := "Rosenbrock in [-2, 0.5]^4", lower := .float (-2.0), upper := .float 0.5,
      tolerance := Config.pair 1e-6 0.0, verbosity := .int 5 }, .rosenbrock,
     List.replicate 4 0.0⟩]

def braninScene (number : Nat) (start : List Float) : Scene :=
  ⟨{ name := "Branin #" ++ toString number, lower := Config.pair (-5.0) 0.0,
     upper := Config.pair 10.0 15.0, tolerance := Config.pair 1e-6 0.0, verbosity := .int 0 },
   .branin, start⟩

def scenes : List Scene :=
  rosenbrockScenes ++
    [braninScene 1 [-3.0, 12.0], braninScene 2 [3.0, 2.0], braninScene 3 [9.0, 3.0]]

def Scene.run (s : Scene) : Except Fault Report :=
  s.demo.run (s.sample.objective none) s.startValue

/-- The lines that a scene prints, with its start and final point as they are to
be shown. -/
def Scene.lines (s : Scene) (start : String) (point : List Float → String) : List String :=
  s.demo.lines start point s.run

end Demo

end VariableMetric
