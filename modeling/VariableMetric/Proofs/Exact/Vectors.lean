import Mathlib.Data.Matrix.Mul
import Mathlib.LinearAlgebra.Matrix.DotProduct
import VariableMetric.Memory
import VariableMetric.Proofs.Exact.Order

/-!
# Vectors of exact scalars

Vectors whose components are real numbers, and the masks that select a set of
components.  Every operation on such vectors is the one of real vectors, and an
inner product over a mask is one of the restrictions to the selected components.
-/

namespace VariableMetric

open Matrix

noncomputable section

variable {n : ℕ}

theorem dotProduct_self_pos {ι : Type} [Fintype ι] {a : ι → ℝ} (h : a ≠ 0) : 0 < a ⬝ᵥ a :=
  lt_of_le_of_ne (Finset.sum_nonneg fun _ _ => mul_self_nonneg _)
    fun hzero => h (dotProduct_self_eq_zero.mp hzero.symm)

/-- The components of a real vector that a set selects. -/
def restrict (F : Finset (Fin n)) (a : Fin n → ℝ) : F → ℝ := fun i => a i

@[simp] theorem restrict_neg (F : Finset (Fin n)) (a : Fin n → ℝ) :
    restrict F (-a) = -restrict F a := rfl

@[simp] theorem restrict_add (F : Finset (Fin n)) (a b : Fin n → ℝ) :
    restrict F (a + b) = restrict F a + restrict F b := rfl

@[simp] theorem restrict_smul (F : Finset (Fin n)) (c : ℝ) (a : Fin n → ℝ) :
    restrict F (c • a) = c • restrict F a := rfl

theorem sum_eq_restrict_dotProduct (F : Finset (Fin n)) (a b : Fin n → ℝ) :
    (∑ i, if i ∈ F then a i * b i else 0) = restrict F a ⬝ᵥ restrict F b := by
  rw [← Finset.sum_filter, Finset.filter_mem_eq_inter, Finset.univ_inter]
  exact (Finset.sum_coe_sort F fun i => a i * b i).symm

namespace Vec

/-- A vector of real numbers. -/
def ofReals (a : Fin n → ℝ) : Vec Exact n :=
  ⟨(List.ofFn a).map .real, by rw [List.length_map, List.length_ofFn]⟩

/-- One at the components that a set selects, and zero elsewhere. -/
def mask (F : Finset (Fin n)) : Vec Exact n := ofReals fun i => if i ∈ F then 1 else 0

@[simp] theorem get_ofReals (a : Fin n → ℝ) (i : Fin n) : (ofReals a).get i = .real (a i) := by
  simp [get, ofReals]

theorem ofReals_injective : Function.Injective (ofReals : (Fin n → ℝ) → Vec Exact n) := by
  intro a b h
  funext i
  have hget : (ofReals a).get i = (ofReals b).get i := congrArg (·.get i) h
  rw [get_ofReals, get_ofReals] at hget
  exact Exact.real.inj hget

@[simp] theorem get_mask (F : Finset (Fin n)) (i : Fin n) :
    (mask F).get i = .real (if i ∈ F then 1 else 0) := by
  simp [mask]

theorem foldl_add_real (l : List ℝ) (c : ℝ) :
    (l.map Exact.real).foldl (· + ·) (.real c) = .real (c + l.sum) := by
  induction l generalizing c with
  | nil => simp
  | cons a l ih =>
      rw [List.map_cons, List.foldl_cons, Exact.real_add, ih, List.sum_cons, add_assoc]

theorem sum_ofReals (a : Fin n → ℝ) :
    (ofReals a).toList.foldl (· + ·) 0 = .real (∑ i, a i) := by
  have hsum := foldl_add_real (List.ofFn a) 0
  rw [zero_add, List.sum_ofFn] at hsum
  exact hsum

theorem inner_ofReals (a b : Fin n → ℝ) :
    inner (ofReals a) (ofReals b) = .real (a ⬝ᵥ b) := by
  have hproducts : zipWith (fun x y => x * y) (ofReals a) (ofReals b) =
      ofReals fun i => a i * b i := by
    ext i
    simp
  unfold inner
  rw [hproducts, sum_ofReals]
  rfl

theorem maskedInner_ofReals (F : Finset (Fin n)) (a b : Fin n → ℝ) :
    maskedInner (mask F) (ofReals a) (ofReals b) =
      .real (restrict F a ⬝ᵥ restrict F b) := by
  have hproducts :
      zipWith (fun x y => x * y) (zipWith (fun m x => m * x) (mask F) (ofReals a))
        (ofReals b) = ofReals fun i => if i ∈ F then a i * b i else 0 := by
    ext i
    by_cases hi : i ∈ F <;> simp [hi]
  unfold maskedInner
  rw [hproducts, sum_ofReals, sum_eq_restrict_dotProduct]

theorem scale_ofReals (p : Precision) (c : ℝ) (a : Fin n → ℝ) :
    scale p (.real c) (ofReals a) = ofReals (c • a) := by
  ext i
  simp [scale, mul_comm]

/-- Leaving a vector alone is the same as adding nothing to it. -/
theorem addScaled_ofReals (p : Precision) (v : Fin n → ℝ) (c : ℝ) (a : Fin n → ℝ) :
    addScaled p (ofReals v) (.real c) (ofReals a) = ofReals (v + c • a) := by
  unfold addScaled
  simp only [Exact.round_eq, Exact.zero_eq, Exact.equal_real]
  split
  next hc => rw [hc, zero_smul, add_zero]
  next hc =>
    ext i
    simp

theorem hadamard_mask (p : Precision) (a : Fin n → ℝ) (F : Finset (Fin n)) :
    hadamard p (ofReals a) (mask F) = ofReals fun i => if i ∈ F then a i else 0 := by
  ext i
  by_cases hi : i ∈ F <;> simp [hadamard, hi]

theorem norm_ofReals (a : Fin n → ℝ) : (ofReals a).norm = .real √(a ⬝ᵥ a) := by
  have hnonneg : ¬ a ⬝ᵥ a < 0 :=
    not_lt.mpr (Finset.sum_nonneg fun _ _ => mul_self_nonneg _)
  rw [norm, inner_ofReals]
  exact if_neg hnonneg

theorem difference_ofReals (p : Precision) (a b : Fin n → ℝ) :
    difference p (ofReals a) (ofReals b) = ofReals (a - b) := by
  ext i
  simp [difference, scale, Exact.one_eq, sub_eq_add_neg]

theorem combine_ofReals (p : Precision) (a : Fin n → ℝ) (k : ℝ) (b : Fin n → ℝ) :
    combine p 1 (ofReals a) (.real k) (ofReals b) = ofReals (a + k • b) := by
  rw [combine, Exact.one_eq, scale_ofReals, addScaled_ofReals, one_smul]

theorem exists_ofReals {v : Vec Exact n} (h : ∀ a ∈ v.toList, Scalar.isFinite a = true) :
    ∃ a, v = ofReals a := by
  have hreal : ∀ i, ∃ r, v.get i = .real r := fun i =>
    Exact.exists_real_of_isFinite (h _ (v.get_mem i))
  choose a ha using hreal
  refine ⟨a, ?_⟩
  ext i
  rw [ha, get_ofReals]
end Vec

end

end VariableMetric
