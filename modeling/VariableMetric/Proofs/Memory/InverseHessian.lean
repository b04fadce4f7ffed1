import VariableMetric.Proofs.Exact.Vectors

/-!
# The inverse Hessian of the remembered pairs

A pair of a step and the change of the gradient along it corrects a dense
approximation of the inverse Hessian.  Taken from the oldest to the newest, the
corrections of the pairs with positive curvature make a dense matrix out of a
multiple of the identity.

Its product with a vector needs no matrix.  One sweep from the newest pair to the
oldest and one back do, and the sweeps may run over all components as long as
they measure the selected ones only.
-/

namespace VariableMetric

open Matrix

noncomputable section

/-- A step and the change of the gradient along it. -/
abbrev Pair (ι : Type) := (ι → ℝ) × (ι → ℝ)

section Dense

variable {ι : Type} [Fintype ι] [DecidableEq ι]

def correction (q : Pair ι) (H : Matrix ι ι ℝ) : Matrix ι ι ℝ :=
  let (s, y) := q
  let ρ := 1 / (y ⬝ᵥ s)
  (1 - ρ • vecMulVec s y) * H * (1 - ρ • vecMulVec y s) + ρ • vecMulVec s s

/-- The corrections of the pairs, newest first, of a multiple of the
identity. -/
def corrections (γ : ℝ) (pairs : List (Pair ι)) : Matrix ι ι ℝ :=
  pairs.foldr correction (γ • 1)

omit [DecidableEq ι] in
/-- The multiple of the identity that the newest pair suggests. -/
def initialScale : List (Pair ι) → ℝ
  | [] => 0
  | (s, y) :: _ => (y ⬝ᵥ s) / (y ⬝ᵥ y)

def inverseHessian (pairs : List (Pair ι)) : Matrix ι ι ℝ :=
  corrections (initialScale pairs) pairs

/-- One correction is applied by projecting the vector before the matrix and its
image after it. -/
theorem correction_mulVec (s y q : ι → ℝ) (H : Matrix ι ι ℝ) :
    let ρ := 1 / (y ⬝ᵥ s)
    let β := ρ * (q ⬝ᵥ s)
    let r := H *ᵥ (q + -β • y)
    correction (s, y) H *ᵥ q = r + (β - ρ * (r ⬝ᵥ y)) • s := by
  intro ρ β r
  have hbefore : (1 - ρ • vecMulVec y s) *ᵥ q = q + -β • y := by
    rw [sub_mulVec, one_mulVec, smul_mulVec, vecMulVec_mulVec, op_smul_eq_smul, smul_smul,
      dotProduct_comm s q, neg_smul, sub_eq_add_neg]
  have hafter : (1 - ρ • vecMulVec s y) *ᵥ r = r - (ρ * (r ⬝ᵥ y)) • s := by
    rw [sub_mulVec, one_mulVec, smul_mulVec, vecMulVec_mulVec, op_smul_eq_smul, smul_smul,
      dotProduct_comm y r]
  have hadded : (ρ • vecMulVec s s) *ᵥ q = β • s := by
    rw [smul_mulVec, vecMulVec_mulVec, op_smul_eq_smul, smul_smul, dotProduct_comm s q]
  show ((1 - ρ • vecMulVec s y) * H * (1 - ρ • vecMulVec y s) + ρ • vecMulVec s s) *ᵥ q = _
  rw [add_mulVec, ← mulVec_mulVec, ← mulVec_mulVec, hbefore, hafter, hadded, sub_smul]
  abel

end Dense

/-!
## Two sweeps over real vectors

The first sweep runs from the newest pair to the oldest, and the second one back.
A pair without positive curvature is passed over by both.
-/

section Sweeps

variable {n : ℕ} (F : Finset (Fin n))

def curvature (q : Pair (Fin n)) : ℝ := restrict F q.2 ⬝ᵥ restrict F q.1

def coefficient (q : Pair (Fin n)) (v : Fin n → ℝ) : ℝ :=
  1 / curvature F q * (restrict F v ⬝ᵥ restrict F q.1)

/-- The pairs with positive curvature, restricted to the selected components. -/
def usable (pairs : List (Pair (Fin n))) : List (Pair F) :=
  (pairs.filter fun q => 0 < curvature F q).map fun q => (restrict F q.1, restrict F q.2)

def sweepDown : List (Pair (Fin n)) → (Fin n → ℝ) → Fin n → ℝ
  | [], v => v
  | q :: older, v =>
      if 0 < curvature F q then sweepDown older (v + -coefficient F q v • q.2)
      else sweepDown older v

/-- The second sweep needs what the first one was given, for the coefficients, and
the vector to begin with. -/
def sweepUp : List (Pair (Fin n)) → (v z : Fin n → ℝ) → Fin n → ℝ
  | [], _, z => z
  | q :: older, v, z =>
      if 0 < curvature F q then
        let r := sweepUp older (v + -coefficient F q v • q.2) z
        r + (coefficient F q v - 1 / curvature F q * (restrict F r ⬝ᵥ restrict F q.2)) • q.1
      else sweepUp older v z

variable {F}

theorem usable_cons_of_pos {q : Pair (Fin n)} (h : 0 < curvature F q)
    (older : List (Pair (Fin n))) :
    usable F (q :: older) = (restrict F q.1, restrict F q.2) :: usable F older := by
  simp [usable, h]

theorem usable_cons_of_not_pos {q : Pair (Fin n)} (h : ¬ 0 < curvature F q)
    (older : List (Pair (Fin n))) : usable F (q :: older) = usable F older := by
  simp [usable, h]

/-- On the selected components the two sweeps multiply by the dense matrix. -/
theorem restrict_sweepUp (γ : ℝ) (pairs : List (Pair (Fin n))) (v : Fin n → ℝ) :
    restrict F (sweepUp F pairs v (γ • sweepDown F pairs v)) =
      corrections γ (usable F pairs) *ᵥ restrict F v := by
  induction pairs generalizing v with
  | nil => simp [sweepUp, sweepDown, usable, corrections, smul_mulVec]
  | cons q older ih =>
      by_cases hq : 0 < curvature F q
      · have hdown := ih (v + -coefficient F q v • q.2)
        rw [usable_cons_of_pos hq]
        simp only [sweepUp, sweepDown, if_pos hq]
        rw [restrict_add, restrict_smul, hdown, restrict_add, restrict_smul]
        exact (correction_mulVec (restrict F q.1) (restrict F q.2) (restrict F v)
          (corrections γ (usable F older))).symm
      · rw [usable_cons_of_not_pos hq]
        simp only [sweepUp, sweepDown, if_neg hq]
        exact ih v

theorem dotProduct_self_pos_of_curvature_pos {q : Pair (Fin n)} (h : 0 < curvature F q) :
    0 < restrict F q.2 ⬝ᵥ restrict F q.2 := by
  have hne : restrict F q.2 ≠ 0 := by
    intro hzero
    rw [curvature, hzero, zero_dotProduct] at h
    exact lt_irrefl 0 h
  exact dotProduct_self_pos hne

/-- A pair of positive curvature makes the multiple of the identity positive. -/
theorem initialScale_usable_pos {pairs : List (Pair (Fin n))}
    (h : ∃ q ∈ pairs, 0 < curvature F q) : 0 < initialScale (usable F pairs) := by
  induction pairs with
  | nil => simp at h
  | cons q older ih =>
      by_cases hq : 0 < curvature F q
      · rw [usable_cons_of_pos hq]
        exact div_pos hq (dotProduct_self_pos_of_curvature_pos hq)
      · rw [usable_cons_of_not_pos hq]
        obtain ⟨q', hmem, hq'⟩ := h
        rcases List.mem_cons.mp hmem with rfl | hmem
        · exact absurd hq' hq
        · exact ih ⟨q', hmem, hq'⟩

end Sweeps

end

end VariableMetric
