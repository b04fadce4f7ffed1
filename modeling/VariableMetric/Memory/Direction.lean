import VariableMetric.Fault
import VariableMetric.Memory
import VariableMetric.Notice

/-!
# The quasi-Newton direction

The remembered pairs stand for a correction of the identity, scaled by the
newest pair with positive curvature.  The opposite gradient is multiplied by it
in two sweeps over the pairs, one from the newest to the oldest and one back.
Only the components that the mask selects take part; a pair without positive
curvature there is passed over and kept.
-/

namespace VariableMetric

/-- What the first sweep leaves: the direction so far, the scale, the
coefficients by slot, and the notices. -/
structure Sweep (α : Type) (n m : Nat) where
  vector : Vec α n
  gamma : α
  rho : Slots α m
  beta : Slots α m
  notices : List (Notice α)

/-- A direction: whether it descends, its slope, and its components. -/
structure Direction (α : Type) (n : Nat) where
  descends : Bool
  slope : α
  vector : Vec α n

namespace Memory

variable {α : Type} [Scalar α] {n m : Nat}

/-- The scale that a pair of positive curvature suggests, unless a newer one
has set it. -/
def scaleFrom (w y : Vec α n) (curvature gamma : α) : α :=
  if Scalar.equal gamma 0 then
    let yty := Vec.maskedInner w y y
    if 0 < yty then curvature / yty else gamma
  else gamma

def sweepBack (p : Precision) (mem : Memory α n m) (w : Vec α n) (sweep : Sweep α n m)
    (k : Fin m) : Sweep α n m :=
  let s := mem.steps.get k
  let y := mem.changes.get k
  let curvature := Vec.maskedInner w y s
  if 0 < curvature then
    let rho := 1 / curvature
    let beta := rho * Vec.maskedInner w sweep.vector s
    { sweep with
      vector := Vec.addScaled p sweep.vector (-beta) y
      gamma := scaleFrom w y curvature sweep.gamma
      rho := sweep.rho.set k rho
      beta := sweep.beta.set k beta }
  else
    { sweep with
      rho := sweep.rho.set k 0
      notices := sweep.notices ++ [.pairSkipped k.val curvature] }

def sweepForth (p : Precision) (mem : Memory α n m) (w : Vec α n) (d : Vec α n) (k : Fin m) :
    Vec α n :=
  let rho := mem.rho.get k
  if 0 < rho then
    let c := mem.beta.get k - rho * Vec.maskedInner w d (mem.changes.get k)
    Vec.addScaled p d c (mem.steps.get k)
  else d

def backward [Capacity m] (p : Precision) (mem : Memory α n m) (w d : Vec α n) : Sweep α n m :=
  mem.liveSlots.foldl (mem.sweepBack p w) ⟨d, 0, mem.rho, mem.beta, []⟩

/-- The second sweep, with the coefficients in the memory, and the restriction
to the mask. -/
def forward [Capacity m] (p : Precision) (mem : Memory α n m) (w d : Vec α n) : Vec α n :=
  Vec.hadamard p (mem.liveSlots.reverse.foldl (mem.sweepForth p w) d) w

/-- The direction at the gradient `g`, for the components selected by the mask
`w`, stored in precision `p`; `opposite` is the opposite gradient as it is
stored.  Without a remembered pair the vector stays what it was before; without
a pair of positive curvature there is no direction; and a direction that does
not descend after its projection resets the memory. -/
def directionFrom [Capacity m] (mem : Memory α n m) (p : Precision)
    (project : Vec α n → Except Fault (Vec α n)) (before opposite g w : Vec α n) :
    Except Fault (Direction α n) × Memory α n m × List (Notice α) :=
  if mem.live < 1 then (.ok ⟨false, 0, before⟩, mem, [])
  else
    let sweep := mem.backward p w opposite
    let mem := { mem with gamma := sweep.gamma, rho := sweep.rho, beta := sweep.beta }
    if sweep.gamma ≤ 0 then
      (.ok ⟨false, 0, sweep.vector⟩, mem, sweep.notices ++ [.curvatureMissing mem.live])
    else
      match project (mem.forward p w (sweep.vector.scale p sweep.gamma)) with
      | .error fault => (.error fault, mem, sweep.notices)
      | .ok d =>
        let slope := Vec.inner d g
        if 0 ≤ slope then
          (.ok ⟨false, slope, d⟩, mem.reset, sweep.notices ++ [.directionRefused slope])
        else (.ok ⟨true, slope, d⟩, mem, sweep.notices)

/-- The direction at a gradient that is stored in precision `p` as well. -/
def direction [Capacity m] (mem : Memory α n m) (p : Precision)
    (project : Vec α n → Except Fault (Vec α n)) (before g w : Vec α n) :
    Except Fault (Direction α n) × Memory α n m × List (Notice α) :=
  mem.directionFrom p project before (g.scale p (-1)) g w

end Memory

end VariableMetric
