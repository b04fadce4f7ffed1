import VariableMetric.Scalar
import VariableMetric.Vec

/-!
# Vector algebra

Inner products are summed in full precision from left to right.  Results that
are stored take the precision of the variables: a factor is brought to that
precision first, then every product and every sum is rounded to it.

In doubles this fixes what a library of kernels may leave open: the order of the terms
of a sum, and whether a product is rounded before it is added.
-/

namespace VariableMetric.Vec

variable {α : Type} [Scalar α] {n : Nat}

def zeros (n : Nat) : Vec α n := replicate n 0

def inner (a b : Vec α n) : α :=
  (zipWith (fun x y => x * y) a b).toList.foldl (· + ·) 0

/-- The inner product over the components that a mask of ones and zeros
selects. -/
def maskedInner (w a b : Vec α n) : α :=
  (zipWith (fun x y => x * y) (zipWith (fun m x => m * x) w a) b).toList.foldl (· + ·) 0

def norm (a : Vec α n) : α := Scalar.sqrt (inner a a)

def scale (p : Precision) (c : α) (a : Vec α n) : Vec α n :=
  let c := Scalar.round p c
  a.map fun x => Scalar.round p (x * c)

/-- A vector plus the multiple of another one.  A factor that vanishes leaves
the vector alone, whatever the other one holds. -/
def addScaled (p : Precision) (v : Vec α n) (c : α) (a : Vec α n) : Vec α n :=
  let c := Scalar.round p c
  if Scalar.equal c 0 then v
  else zipWith (fun y x => Scalar.round p (y + Scalar.round p (c * x))) v a

def combine (p : Precision) (c : α) (a : Vec α n) (k : α) (b : Vec α n) : Vec α n :=
  addScaled p (scale p c a) k b

def hadamard (p : Precision) (a b : Vec α n) : Vec α n :=
  zipWith (fun x y => Scalar.round p (x * y)) a b

def support (a : Vec α n) : Vec α n := a.map fun x => if Scalar.equal x 0 then 0 else 1

def any (test : α → Bool) (a : Vec α n) : Bool := a.toList.any test

end VariableMetric.Vec
