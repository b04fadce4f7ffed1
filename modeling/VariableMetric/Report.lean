import VariableMetric.Minimizer

/-!
# Reports of runs

What can be seen of a run from outside: how it ended, where it left the
variables, and what it wrote down on the way.
-/

namespace VariableMetric

structure Report where
  size : Nat
  capacity : Nat
  outcome : Outcome Float size
  /-- The variables after the run. -/
  point : Vec Float size
  transcript : Transcript Float size

namespace Report

def lines (r : Report) : List String := r.transcript.lines r.capacity

def notices (r : Report) : List (Notice Float) := r.transcript.notices

/-- The notices, with a warning at the end if the run ended without
convergence. -/
def noticesAndWarning (r : Report) : List (Notice Float) :=
  match r.outcome with
  | .returned s => r.notices ++ s.warning?.toList
  | _ => r.notices

end Report

namespace Minimizer

variable {σ τ : Type}

/-- Minimizes from given variables within a number of turns, and reports; what is
passed on goes to the next run. -/
def resume (min : Minimizer σ τ) (turns : Nat) (x : Variables) (session : Session σ τ) :
    Report × Session σ τ :=
  let (outcome, final, kept) := min.solve turns x session
  (⟨x.shape.size, min.plan.capacity, outcome, final.current.point, final.transcript⟩,
    ⟨final.objective, final.search, kept⟩)

/-- A run for which no bounds have been rounded yet. -/
def report (min : Minimizer σ τ) (turns : Nat) (x : Variables) (objective : σ) (search : τ) :
    Report × σ × τ :=
  let (report, session) := min.resume turns x (.new objective search)
  (report, session.objective, session.search)

end Minimizer

end VariableMetric
