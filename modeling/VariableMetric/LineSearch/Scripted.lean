import VariableMetric.LineSearch.Backtracking

/-!
# Scripted line searches

Line searches that answer without looking: they put a run through states that
the strategies seldom reach.
-/

namespace VariableMetric

inductive ScriptedSearch (α : Type) where
  /-- A search that cannot go on after its start. -/
  | undefined (s : Search α)
  /-- A search that halves its step for ever. -/
  | endless (s : Search α)
  /-- Backtracking whose searches fail if their number is listed. -/
  | failing (b : Backtracking α) (starts : Nat) (failures : List Nat)
  /-- A search that answers by a script, each entry being a status and a factor
  of the step; the last entry repeats. -/
  | scripted (s : Search α) (script : List (SearchStatus × α)) (calls : Nat)

namespace ScriptedSearch

variable {α : Type} [Scalar α]

def search : ScriptedSearch α → Search α
  | undefined s => s
  | endless s => s
  | failing b _ _ => b.search
  | scripted s _ _ => s

def reset : ScriptedSearch α → ScriptedSearch α
  | undefined s => .undefined s.reset
  | endless s => .endless s.reset
  | failing b starts failures => .failing b.reset starts failures
  | scripted s script _ => .scripted s.reset script 0

def start (search : ScriptedSearch α) (value slope step cap : α) :
    Reply α × ScriptedSearch α :=
  let (reply, begun) := Search.start value slope step cap
  (reply, match search with
    | undefined _ => .undefined begun
    | endless _ => .endless begun
    | failing b starts failures => .failing { b with search := begun } (starts + 1) failures
    | scripted _ script calls => .scripted begun script calls)

/-- The entry of a script for a call; the last one repeats.  A script without
entries has none. -/
def entry? (script : List (SearchStatus × α)) (call : Nat) : Option (SearchStatus × α) :=
  script[min call (script.length - 1)]?

def iterate (search : ScriptedSearch α) (step value : α) :
    Except Fault (Reply α) × ScriptedSearch α :=
  match search with
  | undefined s => (.error .notImplemented, .undefined s)
  | endless s => (.ok ⟨.searching, Scalar.half * step, []⟩, .endless s)
  | failing b starts failures =>
    if failures.contains starts then
      (.ok ⟨.failed, step, []⟩,
        .failing { b with search := { b.search with status := .failed } } starts failures)
    else
      let (reply, b) := b.iterate step value
      (.ok reply, .failing b starts failures)
  | scripted s script calls =>
    match entry? script calls with
    | some (status, factor) => (.ok ⟨status, step * factor, []⟩, .scripted s script (calls + 1))
    | none => (.error .badIndex, search)

end ScriptedSearch

def LineSearch.ofScripted {α : Type} [Scalar α] (usesDerivative : Bool) :
    LineSearch α (ScriptedSearch α) where
  usesDerivative
  reset := ScriptedSearch.reset
  start := ScriptedSearch.start
  iterate s step value _ := s.iterate step value

end VariableMetric
