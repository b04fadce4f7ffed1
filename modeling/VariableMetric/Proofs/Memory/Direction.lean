import VariableMetric.Proofs.Memory.InverseHessian
import VariableMetric.Proofs.Memory.Ring

/-!
# The direction of a memory of real pairs

In exact arithmetic the two loops over the slots are the two sweeps over the
remembered pairs: the loop back finds at every slot the coefficient that the loop
before has left there, since the slots are distinct, and skips the same pairs.
So the direction at a gradient is the opposite of its product with the inverse
Hessian on the selected components, and zero elsewhere.
-/

namespace VariableMetric.Memory

open Matrix

/-! ## The coefficients left in the slots -/

section Slots

variable {α : Type} [Scalar α] {n m : ℕ} {p : Precision} {mem : Memory α n m} {w : Vec α n}

theorem sweepBack_get_of_ne (sweep : Sweep α n m) {j k : Fin m} (hne : k ≠ j) :
    (mem.sweepBack p w sweep j).rho.get k = sweep.rho.get k ∧
      (mem.sweepBack p w sweep j).beta.get k = sweep.beta.get k := by
  unfold sweepBack
  dsimp only
  split
  · exact ⟨Slots.get_set_of_ne _ _ hne, Slots.get_set_of_ne _ _ hne⟩
  · exact ⟨Slots.get_set_of_ne _ _ hne, rfl⟩

/-- The loop back does not touch the other slots. -/
theorem foldl_sweepBack_get_of_not_mem {k : Fin m} {ks : List (Fin m)} (hk : k ∉ ks)
    (sweep : Sweep α n m) :
    (ks.foldl (mem.sweepBack p w) sweep).rho.get k = sweep.rho.get k ∧
      (ks.foldl (mem.sweepBack p w) sweep).beta.get k = sweep.beta.get k := by
  induction ks generalizing sweep with
  | nil => exact ⟨rfl, rfl⟩
  | cons j ks ih =>
      rw [List.mem_cons, not_or] at hk
      have hrest := ih hk.2 (mem.sweepBack p w sweep j)
      have hhead : (mem.sweepBack p w sweep j).rho.get k = sweep.rho.get k ∧
          (mem.sweepBack p w sweep j).beta.get k = sweep.beta.get k :=
        sweepBack_get_of_ne sweep hk.1
      exact ⟨hrest.1.trans hhead.1, hrest.2.trans hhead.2⟩

/-- The memory with the coefficients that a loop back has left. -/
def learned (mem : Memory α n m) (sweep : Sweep α n m) : Memory α n m :=
  { mem with gamma := sweep.gamma, rho := sweep.rho, beta := sweep.beta }

/-- A direction with a positive scale is what the loop forth gives, whether it
descends or not. -/
theorem directionFrom_fst [Capacity m] {before opposite g d : Vec α n} (hlive : ¬ mem.live < 1)
    (hgamma : ¬ (mem.backward p w opposite).gamma ≤ 0)
    (hforward : (mem.learned (mem.backward p w opposite)).forward p w
      ((mem.backward p w opposite).vector.scale p (mem.backward p w opposite).gamma) = d) :
    ∃ descends, (mem.directionFrom p (fun d => .ok d) before opposite g w).1 =
      .ok ⟨descends, d.inner g, d⟩ := by
  subst hforward
  unfold directionFrom
  rw [if_neg hlive]
  simp only [if_neg hgamma]
  split
  · exact ⟨false, rfl⟩
  · exact ⟨true, rfl⟩

end Slots

/-! ## One slot with a real pair -/

noncomputable section

section Real

variable {n m : ℕ} {p : Precision} {mem : Memory Exact n m} {F : Finset (Fin n)}

/-- A slot holds a pair of real vectors. -/
structure Holds (mem : Memory Exact n m) (k : Fin m) (q : Pair (Fin n)) : Prop where
  step : mem.steps.get k = .ofReals q.1
  change : mem.changes.get k = .ofReals q.2

theorem Holds.sweepBack_of_pos {k : Fin m} {q : Pair (Fin n)} (h : mem.Holds k q)
    (hpos : 0 < curvature F q) {sweep : Sweep Exact n m} {v : Fin n → ℝ}
    (hv : sweep.vector = .ofReals v) :
    mem.sweepBack p (.mask F) sweep k =
      { sweep with
        vector := .ofReals (v + -coefficient F q v • q.2)
        gamma := scaleFrom (.mask F) (.ofReals q.2) (.real (curvature F q)) sweep.gamma
        rho := sweep.rho.set k (.real (1 / curvature F q))
        beta := sweep.beta.set k (.real (coefficient F q v)) } := by
  have hcurvature : Vec.maskedInner (.mask F) (.ofReals q.2) (.ofReals q.1) =
      .real (curvature F q) := Vec.maskedInner_ofReals F q.2 q.1
  have hinverse : (1 : Exact) / .real (curvature F q) = .real (1 / curvature F q) := by
    rw [Exact.one_eq, Exact.real_div _ hpos.ne']
  have hpos' : (0 : Exact) < .real (curvature F q) := hpos
  unfold sweepBack
  simp only [h.step, h.change, hv, hcurvature, if_pos hpos', hinverse,
    Vec.maskedInner_ofReals, Exact.real_mul, Exact.neg_real, Vec.addScaled_ofReals]
  rfl

theorem Holds.sweepBack_of_not_pos {k : Fin m} {q : Pair (Fin n)} (h : mem.Holds k q)
    (hpos : ¬ 0 < curvature F q) (sweep : Sweep Exact n m) :
    mem.sweepBack p (.mask F) sweep k =
      { sweep with
        rho := sweep.rho.set k 0
        notices := sweep.notices ++ [.pairSkipped k.val (.real (curvature F q))] } := by
  have hcurvature : Vec.maskedInner (.mask F) (.ofReals q.2) (.ofReals q.1) =
      .real (curvature F q) := Vec.maskedInner_ofReals F q.2 q.1
  have hpos' : ¬ (0 : Exact) < .real (curvature F q) := hpos
  unfold sweepBack
  simp only [h.step, h.change, hcurvature, if_neg hpos']

theorem Holds.sweepForth_of_pos {k : Fin m} {q : Pair (Fin n)} (h : mem.Holds k q)
    (hpos : 0 < curvature F q) (hrho : mem.rho.get k = .real (1 / curvature F q)) {β : ℝ}
    (hbeta : mem.beta.get k = .real β) (r : Fin n → ℝ) :
    mem.sweepForth p (.mask F) (.ofReals r) k =
      .ofReals (r + (β - 1 / curvature F q * (restrict F r ⬝ᵥ restrict F q.2)) • q.1) := by
  have hpos' : (0 : Exact) < .real (1 / curvature F q) := one_div_pos.mpr hpos
  unfold sweepForth
  simp only [h.step, h.change, hrho, hbeta, if_pos hpos', Vec.maskedInner_ofReals,
    Exact.real_mul, Exact.real_sub, Vec.addScaled_ofReals]

theorem sweepForth_of_zero {k : Fin m} (hrho : mem.rho.get k = 0) (d w : Vec Exact n) :
    mem.sweepForth p w d k = d := by
  have hzero : ¬ (0 : Exact) < 0 := lt_irrefl (0 : ℝ)
  unfold sweepForth
  simp only [hrho, if_neg hzero]

/-! ## The two loops -/

theorem Holds.learned {k : Fin m} {q : Pair (Fin n)} (h : mem.Holds k q)
    (sweep : Sweep Exact n m) : (mem.learned sweep).Holds k q :=
  ⟨h.step, h.change⟩

theorem foldl_sweepBack_vector {ks : List (Fin m)} {pairs : List (Pair (Fin n))}
    (h : List.Forall₂ mem.Holds ks pairs) {sweep : Sweep Exact n m} {v : Fin n → ℝ}
    (hv : sweep.vector = .ofReals v) :
    (ks.foldl (mem.sweepBack p (.mask F)) sweep).vector =
      .ofReals (sweepDown F pairs v) := by
  induction h generalizing sweep v with
  | nil => exact hv
  | @cons k q ks older hq _ ih =>
      rw [List.foldl_cons]
      by_cases hpos : 0 < curvature F q
      · rw [hq.sweepBack_of_pos hpos hv, sweepDown, if_pos hpos]
        exact ih rfl
      · rw [hq.sweepBack_of_not_pos hpos, sweepDown, if_neg hpos]
        exact ih hv

/-- The loop forth, with the coefficients that the loop back has left.  A slot is
reached after all older ones, which have not touched its coefficients. -/
theorem foldl_sweepForth {ks : List (Fin m)} {pairs : List (Pair (Fin n))}
    (h : List.Forall₂ mem.Holds ks pairs) (hnodup : ks.Nodup) {sweep left : Sweep Exact n m}
    (hslots : ∀ k ∈ ks,
      left.rho.get k = (ks.foldl (mem.sweepBack p (.mask F)) sweep).rho.get k ∧
        left.beta.get k = (ks.foldl (mem.sweepBack p (.mask F)) sweep).beta.get k)
    {v : Fin n → ℝ} (hv : sweep.vector = .ofReals v) (z : Fin n → ℝ) :
    ks.reverse.foldl ((mem.learned left).sweepForth p (.mask F)) (.ofReals z) =
      .ofReals (sweepUp F pairs v z) := by
  induction h generalizing sweep v with
  | nil => rfl
  | @cons k q ks older hq _ ih =>
      obtain ⟨hk, hnodup⟩ := List.nodup_cons.mp hnodup
      obtain ⟨hrho, hbeta⟩ := hslots k List.mem_cons_self
      have hrest := fun j hj => hslots j (List.mem_cons_of_mem k hj)
      rw [List.foldl_cons] at hrho hbeta
      simp only [List.foldl_cons] at hrest
      obtain ⟨hrho', hbeta'⟩ := foldl_sweepBack_get_of_not_mem hk
        (mem.sweepBack p (.mask F) sweep k)
      rw [hrho'] at hrho
      rw [hbeta'] at hbeta
      rw [List.reverse_cons, List.foldl_append, List.foldl_cons, List.foldl_nil]
      by_cases hpos : 0 < curvature F q
      · rw [hq.sweepBack_of_pos hpos hv] at hrho hbeta hrest
        rw [Slots.get_set_self] at hrho hbeta
        rw [ih hnodup hrest rfl, sweepUp, if_pos hpos]
        exact (hq.learned left).sweepForth_of_pos hpos hrho hbeta _
      · rw [hq.sweepBack_of_not_pos hpos] at hrho hrest
        rw [Slots.get_set_self] at hrho
        rw [ih hnodup hrest hv, sweepUp, if_neg hpos]
        exact sweepForth_of_zero hrho _ _

/-! ## The scale -/

theorem scaleFrom_zero {q : Pair (Fin n)} (hpos : 0 < curvature F q) :
    scaleFrom (.mask F) (.ofReals q.2) (.real (curvature F q)) 0 =
      .real (curvature F q / (restrict F q.2 ⬝ᵥ restrict F q.2)) := by
  have hchange := dotProduct_self_pos_of_curvature_pos hpos
  have hchange' : (0 : Exact) < .real (restrict F q.2 ⬝ᵥ restrict F q.2) := hchange
  have hequal : Scalar.equal (0 : Exact) 0 = true := (Exact.equal_real 0 0).mpr rfl
  unfold scaleFrom
  simp only [hequal, Vec.maskedInner_ofReals, if_pos hchange', Exact.real_div _ hchange.ne',
    if_true]

theorem scaleFrom_of_ne_zero (w y : Vec Exact n) (c : Exact) {γ : ℝ} (hγ : γ ≠ 0) :
    scaleFrom w y c (.real γ) = .real γ := by
  have hequal : ¬ Scalar.equal (Exact.real γ) 0 = true := by
    intro h
    exact hγ ((Exact.equal_real γ 0).mp h)
  unfold scaleFrom
  rw [if_neg hequal]

/-- Older pairs keep the scale of a newer one. -/
theorem foldl_sweepBack_gamma_of_ne_zero {ks : List (Fin m)} {pairs : List (Pair (Fin n))}
    (h : List.Forall₂ mem.Holds ks pairs) {sweep : Sweep Exact n m} {v : Fin n → ℝ}
    (hv : sweep.vector = .ofReals v) {γ : ℝ} (hγ : γ ≠ 0) (hgamma : sweep.gamma = .real γ) :
    (ks.foldl (mem.sweepBack p (.mask F)) sweep).gamma = .real γ := by
  induction h generalizing sweep v with
  | nil => exact hgamma
  | @cons k q ks older hq _ ih =>
      rw [List.foldl_cons]
      by_cases hpos : 0 < curvature F q
      · rw [hq.sweepBack_of_pos hpos hv]
        refine ih rfl ?_
        show scaleFrom _ _ _ sweep.gamma = .real γ
        rw [hgamma, scaleFrom_of_ne_zero _ _ _ hγ]
      · rw [hq.sweepBack_of_not_pos hpos]
        exact ih hv hgamma

/-- The newest usable pair sets the scale. -/
theorem foldl_sweepBack_gamma {ks : List (Fin m)} {pairs : List (Pair (Fin n))}
    (h : List.Forall₂ mem.Holds ks pairs) {sweep : Sweep Exact n m} {v : Fin n → ℝ}
    (hv : sweep.vector = .ofReals v) (hgamma : sweep.gamma = 0) :
    (ks.foldl (mem.sweepBack p (.mask F)) sweep).gamma =
      .real (initialScale (usable F pairs)) := by
  induction h generalizing sweep v with
  | nil => exact hgamma
  | @cons k q ks older hq hrest ih =>
      rw [List.foldl_cons]
      by_cases hpos : 0 < curvature F q
      · rw [hq.sweepBack_of_pos hpos hv, usable_cons_of_pos hpos]
        have hscale := div_pos hpos (dotProduct_self_pos_of_curvature_pos hpos)
        refine foldl_sweepBack_gamma_of_ne_zero hrest rfl hscale.ne' ?_
        show scaleFrom _ _ _ sweep.gamma = _
        rw [hgamma, scaleFrom_zero hpos]
        rfl
      · rw [hq.sweepBack_of_not_pos hpos, usable_cons_of_not_pos hpos]
        exact ih hv hgamma

/-! ## The direction -/

/-- A pair of real vectors as it is remembered. -/
def stored (q : Pair (Fin n)) : Vec Exact n × Vec Exact n := (.ofReals q.1, .ofReals q.2)

variable [Capacity m]

theorem forall₂_holds {pairs : List (Pair (Fin n))} (h : mem.pairs = pairs.map stored) :
    List.Forall₂ mem.Holds mem.liveSlots pairs := by
  unfold Memory.pairs at h
  rw [← List.forall₂_eq_eq_eq, List.forall₂_map_left_iff, List.forall₂_map_right_iff] at h
  refine h.imp fun k q hpair => ?_
  exact ⟨congrArg Prod.fst hpair, congrArg Prod.snd hpair⟩

theorem backward_vector {pairs : List (Pair (Fin n))} (h : mem.pairs = pairs.map stored)
    (v : Fin n → ℝ) :
    (mem.backward p (.mask F) (.ofReals v)).vector = .ofReals (sweepDown F pairs v) :=
  foldl_sweepBack_vector (forall₂_holds h) rfl

theorem backward_gamma {pairs : List (Pair (Fin n))} (h : mem.pairs = pairs.map stored)
    (v : Fin n → ℝ) :
    (mem.backward p (.mask F) (.ofReals v)).gamma = .real (initialScale (usable F pairs)) :=
  foldl_sweepBack_gamma (forall₂_holds h) rfl rfl

theorem forward_learned (hroom : mem.live ≤ m) {pairs : List (Pair (Fin n))}
    (h : mem.pairs = pairs.map stored) (v z : Fin n → ℝ) :
    (mem.learned (mem.backward p (.mask F) (.ofReals v))).forward p (.mask F) (.ofReals z) =
      .ofReals fun i => if i ∈ F then sweepUp F pairs v z i else 0 := by
  have hvector : Sweep.vector ⟨.ofReals v, 0, mem.rho, mem.beta, []⟩ = .ofReals v := rfl
  have hloop := foldl_sweepForth (p := p) (F := F) (forall₂_holds h) (liveSlots_nodup hroom)
    (fun k _ => ⟨rfl, rfl⟩) hvector z
  unfold forward
  rw [← Vec.hadamard_mask p, ← hloop]
  rfl

/-- The direction at a gradient is the opposite of its product with the inverse
Hessian on the selected components, and zero elsewhere, and its slope is the inner
product with the gradient. -/
theorem direction_eq_neg_inverseHessian_mulVec (hroom : mem.live ≤ m)
    {pairs : List (Pair (Fin n))} (hpairs : mem.pairs = pairs.map stored)
    (husable : ∃ q ∈ pairs, 0 < curvature F q) (before : Vec Exact n) (g : Fin n → ℝ) :
    ∃ (descends : Bool) (d : Fin n → ℝ),
      (mem.direction p (fun d => .ok d) before (.ofReals g) (.mask F)).1 =
        .ok ⟨descends, .real (d ⬝ᵥ g), .ofReals d⟩ ∧
      (∀ i ∉ F, d i = 0) ∧
      restrict F d = -(inverseHessian (usable F pairs) *ᵥ restrict F g) := by
  have hscale := initialScale_usable_pos husable
  let γ := initialScale (usable F pairs)
  let z := γ • sweepDown F pairs (-g)
  let d : Fin n → ℝ := fun i => if i ∈ F then sweepUp F pairs (-g) z i else 0
  have hopposite : Vec.scale p (-1) (.ofReals g) = .ofReals (-g) := by
    rw [Exact.one_eq, Exact.neg_real, Vec.scale_ofReals, neg_one_smul]
  have hlive : ¬ mem.live < 1 := by
    obtain ⟨q, hmem, -⟩ := husable
    have hlength := congrArg List.length hpairs
    have hpos := List.length_pos_of_mem hmem
    simp only [Memory.pairs, liveSlots, List.length_map, List.length_range] at hlength
    omega
  have hvector := backward_vector (p := p) (F := F) hpairs (-g)
  have hgamma := backward_gamma (p := p) (F := F) hpairs (-g)
  have hdirection : ∃ descends, (mem.direction p (fun d => .ok d) before (.ofReals g)
      (.mask F)).1 = .ok ⟨descends, (Vec.ofReals d).inner (.ofReals g), .ofReals d⟩ := by
    unfold direction
    rw [hopposite]
    apply directionFrom_fst hlive
    · rw [hgamma]
      exact not_le.mpr hscale
    · rw [hvector, hgamma, Vec.scale_ofReals]
      exact forward_learned hroom hpairs (-g) z
  obtain ⟨descends, hdirection⟩ := hdirection
  rw [Vec.inner_ofReals] at hdirection
  refine ⟨descends, d, hdirection, fun i hi => if_neg hi, ?_⟩
  have hrestrict : restrict F d = restrict F (sweepUp F pairs (-g) z) := by
    ext i
    exact if_pos i.2
  rw [hrestrict, restrict_sweepUp, restrict_neg, mulVec_neg]
  rfl

end Real

/-- Three pairs in a ring of two slots.  The first one has been overwritten, and the
last one has negative curvature on the first component. -/
def fullRing : Memory Exact 2 2 :=
  (((Memory.empty 2 2).push (.ofReals ![1, 0]) (.ofReals ![1, 1])).push
    (.ofReals ![1, 1]) (.ofReals ![1, 0])).push (.ofReals ![1, 0]) (.ofReals ![-1, 1])

theorem pairs_fullRing :
    fullRing.pairs = [(![1, 0], ![-1, 1]), (![1, 1], ![1, 0])].map stored := by
  rfl

theorem direction_fullRing :
    fullRing.live ≤ 2 ∧
      fullRing.pairs = [(![1, 0], ![-1, 1]), (![1, 1], ![1, 0])].map stored ∧
      (∃ q ∈ [((![1, 0], ![-1, 1]) : Pair (Fin 2)), (![1, 1], ![1, 0])],
        0 < curvature {0} q) ∧
      ∃ (descends : Bool) (d : Fin 2 → ℝ),
        (fullRing.direction .double (fun d => .ok d) (.zeros 2) (.ofReals ![3, 4])
          (.mask {0})).1 = .ok ⟨descends, .real (d ⬝ᵥ ![3, 4]), .ofReals d⟩ ∧
        (∀ i ∉ ({0} : Finset (Fin 2)), d i = 0) ∧
        restrict {0} d =
          -(inverseHessian (usable {0} [(![1, 0], ![-1, 1]), (![1, 1], ![1, 0])]) *ᵥ
            restrict {0} ![3, 4]) := by
  have husable : ∃ q ∈ [((![1, 0], ![-1, 1]) : Pair (Fin 2)), (![1, 1], ![1, 0])],
      0 < curvature {0} q := by
    refine ⟨(![1, 1], ![1, 0]), by simp, ?_⟩
    simp [curvature, restrict, dotProduct]
  have hroom : fullRing.live ≤ 2 := live_push_le _ _ _
  exact ⟨hroom, pairs_fullRing, husable,
    direction_eq_neg_inverseHessian_mulVec hroom pairs_fullRing husable (.zeros 2) ![3, 4]⟩

end

end VariableMetric.Memory
