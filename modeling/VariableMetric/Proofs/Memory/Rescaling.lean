import VariableMetric.Proofs.Exact.Hidden
import VariableMetric.Proofs.Memory.Descent

/-!
# Directions from rescaled gradients

If all gradients are multiplied by a positive factor, then so are the changes in the
memory, and the inverse curvatures and the scale are divided by it.  The coefficients stay
what they are, and so does the direction.  It does not depend either on what the gradients
hold in components that the mask leaves out, as long as they are finite there.
-/

namespace VariableMetric

noncomputable section

/-- Both are answered, with related answers, or both are refused for the same fault. -/
def Agree {β γ : Type} (related : β → γ → Prop) : Except Fault β → Except Fault γ → Prop
  | .ok b, .ok c => related b c
  | .error fault, .error fault' => fault' = fault
  | _, _ => False

variable {n m : ℕ} {P : Finset (Fin n)} {c : ℝ} {p : Precision}

/-! ## Memories -/

/-- The coefficients of two memories by slot, for gradients and for their multiples. -/
structure CoefficientsScaled (c : ℝ) (rho beta rho' beta' : Slots Exact m) : Prop where
  rho : ∀ k, rho'.get k = c⁻¹ • rho.get k
  beta : ∀ k, beta'.get k = beta.get k

theorem CoefficientsScaled.set {rho beta rho' beta' : Slots Exact m}
    (h : CoefficientsScaled c rho beta rho' beta') (k : Fin m) (a b : Exact) :
    CoefficientsScaled c (rho.set k a) (beta.set k b) (rho'.set k (c⁻¹ • a)) (beta'.set k b) where
  rho j := by
    by_cases hj : j = k
    · rw [hj, Slots.get_set_self, Slots.get_set_self]
    · rw [Slots.get_set_of_ne _ _ hj, Slots.get_set_of_ne _ _ hj, h.rho]
  beta j := by
    by_cases hj : j = k
    · rw [hj, Slots.get_set_self, Slots.get_set_self]
    · rw [Slots.get_set_of_ne _ _ hj, Slots.get_set_of_ne _ _ hj, h.beta]

theorem CoefficientsScaled.set_rho {rho beta rho' beta' : Slots Exact m}
    (h : CoefficientsScaled c rho beta rho' beta') (k : Fin m) :
    CoefficientsScaled c (rho.set k 0) beta (rho'.set k 0) beta' where
  rho j := by
    by_cases hj : j = k
    · rw [hj, Slots.get_set_self, Slots.get_set_self, Exact.smul_zero]
    · rw [Slots.get_set_of_ne _ _ hj, Slots.get_set_of_ne _ _ hj, h.rho]
  beta := h.beta

/-- Memories of the same steps, of which the second holds the changes of multiples. -/
structure Memory.ScaledOff (P : Finset (Fin n)) (c : ℝ) (mem mem' : Memory Exact n m) : Prop where
  steps : mem'.steps = mem.steps
  changes : ∀ k, Vec.ScaledOff P c (mem.changes.get k) (mem'.changes.get k)
  coefficients : CoefficientsScaled c mem.rho mem.beta mem'.rho mem'.beta
  updates : mem'.updates = mem.updates
  live : mem'.live = mem.live

/-- What the first sweep makes of a gradient and of its multiple. -/
structure Sweep.ScaledOff (P : Finset (Fin n)) (c : ℝ) (sweep sweep' : Sweep Exact n m) : Prop where
  vector : Vec.ScaledOff P c sweep.vector sweep'.vector
  gamma : sweep'.gamma = c⁻¹ • sweep.gamma
  coefficients : CoefficientsScaled c sweep.rho sweep.beta sweep'.rho sweep'.beta

/-- Directions that are the same if they descend, with slopes along gradients and along their
multiples. -/
structure Direction.Scaled (P : Finset (Fin n)) (c : ℝ) (d d' : Direction Exact n) : Prop where
  descends : d'.descends = d.descends
  slope : d'.slope = c • d.slope
  vector : d.descends = true → d'.vector = d.vector ∧ Vec.NullOn P d.vector

namespace Memory

variable {mem mem' : Memory Exact n m} {w : Vec Exact n} {sweep sweep' : Sweep Exact n m}

theorem scaledOff_empty (P : Finset (Fin n)) (c : ℝ) :
    (Memory.empty n m : Memory Exact n m).ScaledOff P c (Memory.empty n m) where
  steps := rfl
  changes k := by
    have hzeros : c • (Vec.zeros n : Vec Exact n) = Vec.zeros n := by
      ext i
      simp [Vec.zeros]
    have hscaled := Vec.scaledOff_smul P c (Vec.zeros n)
    rw [hzeros] at hscaled
    simpa [Memory.empty] using hscaled
  coefficients :=
    { rho := fun k => by simp [Memory.empty]
      beta := fun _ => rfl }
  updates := rfl
  live := rfl

theorem ScaledOff.reset (h : mem.ScaledOff P c mem') : mem.reset.ScaledOff P c mem'.reset :=
  { h with live := rfl }

section Ring

variable [Capacity m]

theorem ScaledOff.slot (h : mem.ScaledOff P c mem') (j : ℤ) : mem'.slot j = mem.slot j := by
  unfold Memory.slot
  simp only [h.updates]

theorem ScaledOff.liveSlots (h : mem.ScaledOff P c mem') : mem'.liveSlots = mem.liveSlots := by
  unfold Memory.liveSlots
  simp only [h.live, h.slot]

theorem ScaledOff.push (h : mem.ScaledOff P c mem') (s : Vec Exact n) {y y' : Vec Exact n}
    (hy : Vec.ScaledOff P c y y') : (mem.push s y).ScaledOff P c (mem'.push s y') where
  steps := by
    show mem'.steps.set (mem'.slot 0) s = mem.steps.set (mem.slot 0) s
    rw [h.steps, h.slot]
  changes k := by
    show Vec.ScaledOff P c ((mem.changes.set (mem.slot 0) y).get k)
      ((mem'.changes.set (mem'.slot 0) y').get k)
    rw [h.slot]
    by_cases hk : k = mem.slot 0
    · rw [hk, Slots.get_set_self, Slots.get_set_self]
      exact hy
    · rw [Slots.get_set_of_ne _ _ hk, Slots.get_set_of_ne _ _ hk]
      exact h.changes k
  coefficients := h.coefficients
  updates := congrArg (· + 1) h.updates
  live := by
    show min (mem'.live + 1) m = min (mem.live + 1) m
    rw [h.live]

end Ring

/-! ## The sweeps -/

variable (hc : 0 < c)

include hc

theorem scaleFrom_scaled {y y' : Vec Exact n} (hy : Vec.ScaledOff P c y y')
    (hw : Vec.NullOn P w) (curvature gamma : Exact) :
    scaleFrom w y' (c • curvature) (c⁻¹ • gamma) = c⁻¹ • scaleFrom w y curvature gamma := by
  have hyty : Vec.maskedInner w y' y' = (c * c) • Vec.maskedInner w y y :=
    hy.maskedInner hc hy hc hw
  have hratio : c / (c * c) = c⁻¹ := by field_simp
  unfold scaleFrom
  rw [hyty, Exact.equal_smul_zero (inv_pos.mpr hc)]
  dsimp only
  split
  · simp only [Exact.smul_pos_iff (mul_pos hc hc)]
    split
    · rw [Exact.smul_div_smul hc (mul_pos hc hc), hratio]
    · rfl
  · rfl

/-- One slot of the first sweep: the coefficient stays what it is. -/
theorem ScaledOff.sweepBack (h : mem.ScaledOff P c mem') (hw : Vec.NullOn P w)
    (hsweep : sweep.ScaledOff P c sweep') (k : Fin m) :
    (mem.sweepBack p w sweep k).ScaledOff P c (mem'.sweepBack p w sweep' k) := by
  have hsteps := Vec.ScaledOff.refl P (mem.steps.get k)
  have hcurvature : Vec.maskedInner w (mem'.changes.get k) (mem.steps.get k) =
      c • Vec.maskedInner w (mem.changes.get k) (mem.steps.get k) := by
    have hscaled := (h.changes k).maskedInner hc hsteps one_pos hw
    rwa [mul_one] at hscaled
  have hproduct : Vec.maskedInner w sweep'.vector (mem.steps.get k) =
      c • Vec.maskedInner w sweep.vector (mem.steps.get k) := by
    have hscaled := hsweep.vector.maskedInner hc hsteps one_pos hw
    rwa [mul_one] at hscaled
  have hrho : 1 / c • Vec.maskedInner w (mem.changes.get k) (mem.steps.get k) =
      c⁻¹ • (1 / Vec.maskedInner w (mem.changes.get k) (mem.steps.get k)) := by
    have hdivided := Exact.smul_div_smul one_pos hc 1
      (Vec.maskedInner w (mem.changes.get k) (mem.steps.get k))
    rwa [one_smul, one_div c] at hdivided
  have hcancel : c⁻¹ * c = 1 := inv_mul_cancel₀ hc.ne'
  unfold Memory.sweepBack
  dsimp only
  rw [h.steps, hcurvature, hproduct, hrho,
    Exact.smul_mul_smul (inv_pos.mpr hc) hc, hcancel, one_smul]
  simp only [Exact.smul_pos_iff hc]
  split
  · exact
      { vector := hsweep.vector.addScaled hc (h.changes k) _
        gamma := by
          show scaleFrom w _ _ sweep'.gamma = _
          rw [hsweep.gamma, scaleFrom_scaled hc (h.changes k) hw]
        coefficients := hsweep.coefficients.set k _ _ }
  · exact
      { vector := hsweep.vector
        gamma := hsweep.gamma
        coefficients := hsweep.coefficients.set_rho k }

theorem ScaledOff.sweepForth (h : mem.ScaledOff P c mem') (hw : Vec.NullOn P w)
    {d d' : Vec Exact n} (hd : Vec.ScaledOff P 1 d d') (k : Fin m) :
    Vec.ScaledOff P 1 (mem.sweepForth p w d k) (mem'.sweepForth p w d' k) := by
  have hproduct : Vec.maskedInner w d' (mem'.changes.get k) =
      c • Vec.maskedInner w d (mem.changes.get k) := by
    have hscaled := hd.maskedInner one_pos (h.changes k) hc hw
    rwa [one_mul] at hscaled
  have hcancel : c⁻¹ * c = 1 := inv_mul_cancel₀ hc.ne'
  unfold Memory.sweepForth
  dsimp only
  rw [h.coefficients.rho, h.coefficients.beta, h.steps, hproduct,
    Exact.smul_mul_smul (inv_pos.mpr hc) hc, hcancel, one_smul]
  simp only [Exact.smul_pos_iff (inv_pos.mpr hc)]
  split
  · exact hd.addScaled one_pos (Vec.ScaledOff.refl P _) _
  · exact hd

variable [Capacity m]

theorem ScaledOff.backward (h : mem.ScaledOff P c mem') (hw : Vec.NullOn P w)
    {d d' : Vec Exact n} (hd : Vec.ScaledOff P c d d') :
    (mem.backward p w d).ScaledOff P c (mem'.backward p w d') := by
  have hfold : ∀ (ks : List (Fin m)) (sweep sweep' : Sweep Exact n m),
      sweep.ScaledOff P c sweep' →
      (ks.foldl (mem.sweepBack p w) sweep).ScaledOff P c
        (ks.foldl (mem'.sweepBack p w) sweep') := by
    intro ks
    induction ks with
    | nil => exact fun _ _ hsweep => hsweep
    | cons k ks ih => exact fun _ _ hsweep => ih _ _ (h.sweepBack hc hw hsweep k)
  unfold Memory.backward
  rw [h.liveSlots]
  exact hfold _ _ _ ⟨hd, (Exact.smul_zero _).symm, h.coefficients⟩

theorem ScaledOff.forward (h : mem.ScaledOff P c mem') (hw : Vec.NullOn P w)
    {d d' : Vec Exact n} (hd : Vec.ScaledOff P 1 d d') :
    mem'.forward p w d' = mem.forward p w d := by
  have hfold : ∀ (ks : List (Fin m)) (d d' : Vec Exact n), Vec.ScaledOff P 1 d d' →
      Vec.ScaledOff P 1 (ks.foldl (mem.sweepForth p w) d) (ks.foldl (mem'.sweepForth p w) d') := by
    intro ks
    induction ks with
    | nil => exact fun _ _ hd => hd
    | cons k ks ih => exact fun _ _ hd => ih _ _ (h.sweepForth hc hw hd k)
  unfold Memory.forward
  rw [h.liveSlots]
  exact (hfold _ _ _ hd).hadamard_eq hw

omit hc in
theorem directionFrom_of_gamma_pos {project : Vec Exact n → Except Fault (Vec Exact n)}
    (before opposite g : Vec Exact n) (hlive : ¬ mem.live < 1)
    (hgamma : ¬ (mem.backward p w opposite).gamma ≤ 0) :
    mem.directionFrom p project before opposite g w =
      let sweep := mem.backward p w opposite
      let learned := mem.learned sweep
      match project (learned.forward p w (sweep.vector.scale p sweep.gamma)) with
      | .error fault => (.error fault, learned, sweep.notices)
      | .ok d =>
        if 0 ≤ d.inner g then
          (.ok ⟨false, d.inner g, d⟩, learned.reset,
            sweep.notices ++ [.directionRefused (d.inner g)])
        else (.ok ⟨true, d.inner g, d⟩, learned, sweep.notices) := by
  unfold directionFrom learned
  rw [if_neg hlive]
  dsimp only
  rw [if_neg hgamma]
  split
  next fault hfault => rw [hfault]
  next d hd => rw [hd]

/-- A memory with a pair gives the same direction for the multiple of a gradient. -/
theorem ScaledOff.directionFrom (h : mem.ScaledOff P c mem') (hlive : ¬ mem.live < 1)
    (hw : Vec.NullOn P w) {project : Vec Exact n → Except Fault (Vec Exact n)}
    (hproject : ∀ d d', project d = .ok d' → Vec.NullOn P d → Vec.NullOn P d')
    {opposite opposite' g g' : Vec Exact n} (hopposite : Vec.ScaledOff P c opposite opposite')
    (hg : Vec.ScaledOff P c g g') (before before' : Vec Exact n) :
    let answer := mem.directionFrom p project before opposite g w
    let answer' := mem'.directionFrom p project before' opposite' g' w
    Agree (Direction.Scaled P c) answer.1 answer'.1 ∧ answer.2.1.ScaledOff P c answer'.2.1 := by
  have hlive' : ¬ mem'.live < 1 := h.live ▸ hlive
  have hsweep : (mem.backward p w opposite).ScaledOff P c (mem'.backward p w opposite') :=
    h.backward hc hw hopposite
  have hlearned : (mem.learned (mem.backward p w opposite)).ScaledOff P c
      (mem'.learned (mem'.backward p w opposite')) :=
    { h with coefficients := hsweep.coefficients }
  have hgamma : (mem'.backward p w opposite').gamma ≤ 0 ↔
      (mem.backward p w opposite).gamma ≤ 0 := by
    rw [hsweep.gamma]
    exact Exact.smul_nonpos_iff (inv_pos.mpr hc) _
  by_cases hflat : (mem.backward p w opposite).gamma ≤ 0
  · rw [directionFrom_of_gamma_le before hlive hflat,
      directionFrom_of_gamma_le before' hlive' (hgamma.mpr hflat)]
    exact ⟨⟨rfl, (Exact.smul_zero c).symm, nofun⟩, hlearned⟩
  -- The factor of the gradient and that of the scale cancel each other.
  have hscaled := hsweep.vector.scale (p := p) hc (inv_pos.mpr hc) (mem.backward p w opposite).gamma
  rw [mul_inv_cancel₀ hc.ne', ← hsweep.gamma] at hscaled
  rw [directionFrom_of_gamma_pos before _ _ hlive hflat,
    directionFrom_of_gamma_pos before' _ _ hlive' fun hle => hflat (hgamma.mp hle)]
  dsimp only
  rw [hlearned.forward hc hw hscaled]
  set d := (mem.learned (mem.backward p w opposite)).forward p w
    ((mem.backward p w opposite).vector.scale p (mem.backward p w opposite).gamma) with hd
  have hnull : Vec.NullOn P d := hw.hadamard _
  cases hprojected : project d with
  | error fault => exact ⟨rfl, hlearned⟩
  | ok d' =>
    have hkept := hproject d d' hprojected hnull
    dsimp only
    rw [hg.inner hc hkept]
    by_cases hrefused : 0 ≤ d'.inner g
    · rw [if_pos hrefused, if_pos ((Exact.smul_nonneg_iff hc _).mpr hrefused)]
      exact ⟨⟨rfl, rfl, nofun⟩, hlearned.reset⟩
    · rw [if_neg hrefused, if_neg fun hle => hrefused ((Exact.smul_nonneg_iff hc _).mp hle)]
      exact ⟨⟨rfl, rfl, fun _ => ⟨rfl, hkept⟩⟩, hlearned⟩

/-- The same for the direction at a gradient that is stored like the variables. -/
theorem ScaledOff.direction (h : mem.ScaledOff P c mem') (hlive : ¬ mem.live < 1)
    (hw : Vec.NullOn P w) {project : Vec Exact n → Except Fault (Vec Exact n)}
    (hproject : ∀ d d', project d = .ok d' → Vec.NullOn P d → Vec.NullOn P d')
    {g g' : Vec Exact n} (hg : Vec.ScaledOff P c g g') (before before' : Vec Exact n) :
    let answer := mem.direction p project before g w
    let answer' := mem'.direction p project before' g' w
    Agree (Direction.Scaled P c) answer.1 answer'.1 ∧ answer.2.1.ScaledOff P c answer'.2.1 := by
  have hopposite : Vec.ScaledOff P c (g.scale p (-1)) (g'.scale p (-1)) := by
    have hscaled := hg.scale (p := p) hc one_pos (-1)
    rwa [one_smul, mul_one] at hscaled
  exact h.directionFrom hc hlive hw hproject hopposite hg before before'

end Memory

end

end VariableMetric
