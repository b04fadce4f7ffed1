import VariableMetric.Layout

/-!
# Room for the memory

The memory is an array with one row for each pair, and arrays of coefficients
beside it.  There has to be room for each of them.  The arrays are checked one
after the other before a memory is made.
-/

namespace VariableMetric

namespace Memory

def roomLimit : Nat := Nat.pow 2 40

def checkArray (l : Layout) : Except Fault Unit := do
  l.check
  if roomLimit < l.bytes then throw .outOfMemory else pure ()

/-- Checks that a memory can be made: its rows, and then its coefficients, which
are doubles whatever the rows are. -/
def checkRoom (capacity : Nat) (shape : Shape) (p : Precision) : Except Fault Unit := do
  checkArray ⟨capacity :: shape, .floating p⟩
  checkArray ⟨[capacity], .floating .double⟩

end Memory

end VariableMetric
