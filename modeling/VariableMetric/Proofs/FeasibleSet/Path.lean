import VariableMetric.Proofs.FeasibleSet.RealBox

/-!
# Paths that are brought into a box

A point moves from inside a box along a direction, and is brought back into the box.  Every
component then moves until it reaches the bound that it is heading to, and rests there; it goes
on for ever if there is no bound.  The shortcut step of a box is the step at which the last
component comes to rest, so the path moves up to that step and no longer.
-/

namespace VariableMetric

noncomputable section

/-! ## One component -/

namespace Range

variable {r : Range Exact} {x d : ℝ}

/-- The step at which a component reaches the bound that it is heading to.  One that does not
move rests from the beginning. -/
def restingStep (r : Range Exact) (x d : ℝ) : Exact :=
  if 0 < d then (r.upper - .real x) / .real d
  else if d < 0 then (r.lower - .real x) / .real d
  else 0

theorem restingStep_of_pos (r : Range Exact) (x : ℝ) (hd : 0 < d) :
    r.restingStep x d = (r.upper - .real x) / .real d :=
  if_pos hd

theorem restingStep_of_neg (r : Range Exact) (x : ℝ) (hd : d < 0) :
    r.restingStep x d = (r.lower - .real x) / .real d :=
  (if_neg hd.not_gt).trans (if_pos hd)

theorem restingStep_of_zero (r : Range Exact) (x : ℝ) : r.restingStep x 0 = 0 :=
  (if_neg (lt_irrefl 0)).trans (if_neg (lt_irrefl 0))

/-- A component that moves towards an infinite bound. -/
def Unhindered (r : Range Exact) (d : ℝ) : Prop :=
  0 < d ∧ r.upper = .infinite false ∨ d < 0 ∧ r.lower = .infinite true

/-- A step from which a component rests: it comes as far as that step at most. -/
inductive RestsFrom (r : Range Exact) (x d : ℝ) : Exact → Prop
  | bounded (t : ℝ) : 0 ≤ t → ¬ r.Unhindered d →
      (∀ a, 0 ≤ a → r.clamp (.real (x + a * d)) = .real (x + min a t * d)) →
      RestsFrom r x d (.real t)
  | unbounded : d ≠ 0 → r.Unhindered d →
      (∀ a, 0 ≤ a → r.clamp (.real (x + a * d)) = .real (x + a * d)) →
      RestsFrom r x d (.infinite false)

theorem clamp_of_mem_reals {z : ℝ} (hz : z ∈ r.reals) : r.clamp (.real z) = .real z := by
  obtain ⟨b, hb, -, hsame⟩ := (shape_of_mem_reals hz).clamp_real z
  rw [hb, hsame hz]

/-- From inside a component is brought down to the upper bound, and no further. -/
theorem clamp_of_le (hx : x ∈ r.reals) {z u : ℝ} (hxz : x ≤ z) (hu : r.upper = .real u) :
    r.clamp (.real z) = .real (min z u) := by
  have hclamp := r.clamp_eq_least_greatest z
  have hshape := shape_of_mem_reals hx
  have hlower := le_real_of_le hx.1 hxz
  cases hshape with
  | closed l u' keeps =>
    obtain rfl : u' = u := Exact.real.inj hu
    rw [Exact.real_le] at hlower
    simpa [max_comm l, min_comm u', max_eq_left hlower] using hclamp
  | below u' keeps =>
    obtain rfl : u' = u := Exact.real.inj hu
    simpa [min_comm u'] using hclamp
  | above l keeps => cases hu
  | all keeps => cases hu

theorem clamp_of_ge (hx : x ∈ r.reals) {z l : ℝ} (hzx : z ≤ x) (hl : r.lower = .real l) :
    r.clamp (.real z) = .real (max z l) := by
  have hclamp := r.clamp_eq_least_greatest z
  have hshape := shape_of_mem_reals hx
  have hupper := real_le_of_le hx.2 hzx
  cases hshape with
  | closed l' u keeps hle =>
    obtain rfl : l' = l := Exact.real.inj hl
    rw [Exact.real_le] at hupper
    simpa [max_comm l', min_comm u, min_eq_left (max_le hupper hle)] using hclamp
  | above l' keeps =>
    obtain rfl : l' = l := Exact.real.inj hl
    simpa [max_comm l'] using hclamp
  | below u keeps => cases hl
  | all keeps => cases hl

theorem restsFrom_of_pos (hx : x ∈ r.reals) (hd : 0 < d) :
    r.RestsFrom x d ((r.upper - .real x) / .real d) := by
  have hforth (a : ℝ) (ha : 0 ≤ a) : x ≤ x + a * d := le_add_of_nonneg_right (mul_nonneg ha hd.le)
  cases hupper : r.upper with
  | real u =>
    have hxu : x ≤ u := (Exact.real_le x u).mp (hupper ▸ hx.2)
    rw [Exact.real_sub, Exact.real_div _ hd.ne']
    refine .bounded _ (div_nonneg (sub_nonneg.mpr hxu) hd.le) ?_ fun a ha => ?_
    · rintro (⟨-, hinf⟩ | ⟨hneg, -⟩)
      · cases hupper.symm.trans hinf
      · exact hd.not_gt hneg
    · rw [clamp_of_le hx (hforth a ha) hupper, min_mul_of_nonneg _ _ hd.le,
        div_mul_cancel₀ _ hd.ne', ← min_add_add_left, add_sub_cancel]
  | infinite negative =>
    obtain rfl : negative = false := (hupper ▸ hx.2 : Exact.real x ≤ .infinite negative)
    rw [Exact.infinite_sub_real, Exact.infinite_div_real _ hd.ne', decide_eq_false hd.not_gt]
    refine .unbounded hd.ne' (.inl ⟨hd, hupper⟩) fun a ha => clamp_of_mem_reals ?_
    exact ⟨le_real_of_le hx.1 (hforth a ha), by rw [hupper]; rfl⟩
  | undefined => exact absurd (hupper ▸ hx.2 : Exact.real x ≤ .undefined) id

theorem restsFrom_of_neg (hx : x ∈ r.reals) (hd : d < 0) :
    r.RestsFrom x d ((r.lower - .real x) / .real d) := by
  have hback (a : ℝ) (ha : 0 ≤ a) : x + a * d ≤ x :=
    add_le_of_nonpos_right (mul_nonpos_of_nonneg_of_nonpos ha hd.le)
  cases hlower : r.lower with
  | real l =>
    have hlx : l ≤ x := (Exact.real_le l x).mp (hlower ▸ hx.1)
    rw [Exact.real_sub, Exact.real_div _ hd.ne]
    refine .bounded _ (div_nonneg_of_nonpos (sub_nonpos.mpr hlx) hd.le) ?_ fun a ha => ?_
    · rintro (⟨hpos, -⟩ | ⟨-, hinf⟩)
      · exact hd.not_gt hpos
      · cases hlower.symm.trans hinf
    · have hmin : min a ((l - x) / d) * d = max (a * d) ((l - x) / d * d) :=
        (antitone_mul_right hd.le).map_min
      rw [clamp_of_ge hx (hback a ha) hlower, hmin, div_mul_cancel₀ _ hd.ne,
        ← max_add_add_left, add_sub_cancel]
  | infinite negative =>
    obtain rfl : negative = true := (hlower ▸ hx.1 : Exact.infinite negative ≤ .real x)
    rw [Exact.infinite_sub_real, Exact.infinite_div_real _ hd.ne, decide_eq_true hd]
    refine .unbounded hd.ne (.inr ⟨hd, hlower⟩) fun a ha => clamp_of_mem_reals ?_
    exact ⟨by rw [hlower]; rfl, real_le_of_le hx.2 (hback a ha)⟩
  | undefined => exact absurd (hlower ▸ hx.1 : Exact.undefined ≤ .real x) id

theorem RestsFrom.ne_undefined {s : Exact} (h : r.RestsFrom x d s) : s ≠ .undefined := by
  cases h <;> exact nofun

/-- After the step from which it rests a component does not move any more. -/
theorem RestsFrom.rests {s : Exact} (h : r.RestsFrom x d s) {t a : ℝ} (hs : s ≤ .real t)
    (ht : 0 ≤ t) (hta : t ≤ a) : r.clamp (.real (x + a * d)) = r.clamp (.real (x + t * d)) := by
  cases h with
  | bounded t' ht' hhindered hpath =>
    rw [Exact.real_le] at hs
    rw [hpath a (ht.trans hta), hpath t ht, min_eq_right hs, min_eq_right (hs.trans hta)]
  | unbounded => cases hs

/-- Up to that step it is never twice at the same place. -/
theorem RestsFrom.moves {s : Exact} (h : r.RestsFrom x d s) (hd : d ≠ 0) {a c : ℝ} (ha : 0 ≤ a)
    (hac : a < c) (hs : .real c ≤ s) :
    r.clamp (.real (x + a * d)) ≠ r.clamp (.real (x + c * d)) := by
  have happart : Exact.real (x + a * d) ≠ .real (x + c * d) := by
    intro heq
    exact hac.ne (mul_right_cancel₀ hd (add_left_cancel (Exact.real.inj heq)))
  cases h with
  | bounded t ht hhindered hpath =>
    rw [Exact.real_le] at hs
    rwa [hpath a ha, hpath c (ha.trans hac.le), min_eq_left hs, min_eq_left (hac.le.trans hs)]
  | unbounded hmoves hunhindered hpath => rwa [hpath a ha, hpath c (ha.trans hac.le)]

/-- A component never rests exactly if it moves towards an infinite bound. -/
theorem RestsFrom.infinite_iff {s : Exact} (h : r.RestsFrom x d s) :
    s = .infinite false ↔ r.Unhindered d := by
  cases h with
  | bounded t ht hhindered => exact iff_of_false nofun hhindered
  | unbounded hmoves hunhindered => exact iff_of_true rfl hunhindered

/-- A component rests from the step at which it reaches its bound. -/
theorem restsFrom_restingStep (hx : x ∈ r.reals) (d : ℝ) :
    r.RestsFrom x d (r.restingStep x d) := by
  rcases lt_trichotomy d 0 with hneg | rfl | hpos
  · rw [r.restingStep_of_neg x hneg]
    exact restsFrom_of_neg hx hneg
  · rw [restingStep_of_zero]
    refine .bounded 0 le_rfl ?_ fun a _ => ?_
    · rintro (⟨hpos, -⟩ | ⟨hneg, -⟩)
      · exact lt_irrefl _ hpos
      · exact lt_irrefl _ hneg
    · rw [mul_zero, mul_zero, add_zero]
      exact clamp_of_mem_reals hx
  · rw [r.restingStep_of_pos x hpos]
    exact restsFrom_of_pos hx hpos

end Range

/-! ## The last component -/

namespace Bounds

variable {n : ℕ} {p : Precision} {b : Bounds Exact n} {x d : Fin n → ℝ}

theorem withLargest_mem (step : Exact) (l : List Exact) :
    withLargest step l = step ∨ withLargest step l ∈ l := by
  cases l with
  | nil => exact .inl rfl
  | cons first rest =>
    rcases Scalar.greatest_mem step (Scalar.supremum first rest) with heq | heq
    · exact .inl heq
    · right
      show Scalar.greatest step (Scalar.supremum first rest) ∈ first :: rest
      rw [heq]
      exact Scalar.supremum_mem first rest

/-- The larger one of a step and the entries of a list bounds all of them. -/
theorem le_withLargest {step : Exact} {l : List Exact}
    (hdefined : ∀ a ∈ step :: l, a ≠ .undefined) : ∀ a ∈ step :: l, a ≤ withLargest step l := by
  have hstep := hdefined step List.mem_cons_self
  cases l with
  | nil =>
    intro a ha
    obtain rfl := List.mem_singleton.mp ha
    exact Exact.le_self hstep
  | cons first rest =>
    have hentries : ∀ a ∈ first :: rest, a ≠ .undefined := fun a ha =>
      hdefined a (List.mem_cons_of_mem _ ha)
    obtain ⟨hleft, hright⟩ := Exact.le_greatest hstep
      (hentries _ (Scalar.supremum_mem first rest))
    intro a ha
    rcases List.mem_cons.mp ha with rfl | ha
    · exact hleft
    · exact Exact.le_trans (Exact.le_supremum hentries a ha) hright

/-- The breakpoints of the components that rise, and of those that fall. -/
theorem exists_shortcutStep (p : Precision) (b : Bounds Exact n) (x d : Fin n → ℝ) :
    ∃ rising falling : List Exact,
      b.shortcutStep p p (.ofReals x) (.ofReals d) =
        withLargest (withLargest 0 rising) falling ∧
      (∀ a, a ∈ rising ↔ ∃ i, 0 < d i ∧ (b.get i).restingStep (x i) (d i) = a) ∧
      ∀ a, a ∈ falling ↔ ∃ i, d i < 0 ∧ (b.get i).restingStep (x i) (d i) = a := by
  refine ⟨_, _, rfl, fun a => ?_, fun a => ?_⟩
  · rw [List.mem_filterMap]
    constructor
    · rintro ⟨c, hc, hstep⟩
      obtain ⟨i, rfl⟩ := FeasibleSet.mem_components.mp hc
      obtain ⟨hpos, heq⟩ := Option.ite_none_right_eq_some.mp hstep
      have hpos : 0 < d i := hpos
      exact ⟨i, hpos, ((b.get i).restingStep_of_pos (x i) hpos).trans (Option.some.inj heq)⟩
    · rintro ⟨i, hpos, heq⟩
      refine ⟨_, FeasibleSet.mem_components.mpr ⟨i, rfl⟩, ?_⟩
      rw [(b.get i).restingStep_of_pos (x i) hpos] at heq
      exact (if_pos (show 0 < Exact.real (d i) from hpos)).trans (congrArg some heq)
  · rw [List.mem_filterMap]
    constructor
    · rintro ⟨c, hc, hstep⟩
      obtain ⟨i, rfl⟩ := FeasibleSet.mem_components.mp hc
      obtain ⟨hneg, heq⟩ := Option.ite_none_right_eq_some.mp hstep
      have hneg : d i < 0 := hneg
      exact ⟨i, hneg, ((b.get i).restingStep_of_neg (x i) hneg).trans (Option.some.inj heq)⟩
    · rintro ⟨i, hneg, heq⟩
      refine ⟨_, FeasibleSet.mem_components.mpr ⟨i, rfl⟩, ?_⟩
      rw [(b.get i).restingStep_of_neg (x i) hneg] at heq
      exact (if_pos (show Exact.real (d i) < 0 from hneg)).trans (congrArg some heq)

/-- The last one of the steps at which the components come to rest; zero if none of them
moves. -/
structure IsLastRest (b : Bounds Exact n) (x d : Fin n → ℝ) (s : Exact) : Prop where
  nonneg : 0 ≤ s
  upper : ∀ i, (b.get i).restingStep (x i) (d i) ≤ s
  reached : s = 0 ∨ ∃ i, d i ≠ 0 ∧ (b.get i).restingStep (x i) (d i) = s

theorem isLastRest_shortcutStep (hx : ∀ i, x i ∈ (b.get i).reals) :
    b.IsLastRest x d (b.shortcutStep p p (.ofReals x) (.ofReals d)) := by
  have hrests i := Range.restsFrom_restingStep (hx i) (d i)
  obtain ⟨rising, falling, heq, hrising, hfalling⟩ := exists_shortcutStep p b x d
  have hzero : (0 : Exact) ≠ .undefined := nofun
  have hrises : ∀ a ∈ (0 : Exact) :: rising, a ≠ .undefined := by
    intro a ha
    rcases List.mem_cons.mp ha with rfl | ha
    · exact hzero
    · obtain ⟨i, -, rfl⟩ := (hrising a).mp ha
      exact (hrests i).ne_undefined
  have hfalls : ∀ a ∈ withLargest 0 rising :: falling, a ≠ .undefined := by
    intro a ha
    rcases List.mem_cons.mp ha with rfl | ha
    · rcases withLargest_mem 0 rising with hfirst | hmem
      · rwa [hfirst]
      · exact hrises _ (List.mem_cons_of_mem _ hmem)
    · obtain ⟨i, -, rfl⟩ := (hfalling a).mp ha
      exact (hrests i).ne_undefined
  have hlast := le_withLargest hfalls
  have hfirst : ∀ a ∈ (0 : Exact) :: rising, a ≤ withLargest (withLargest 0 rising) falling :=
    fun a ha => Exact.le_trans (le_withLargest hrises a ha) (hlast _ List.mem_cons_self)
  rw [heq]
  refine ⟨hfirst 0 List.mem_cons_self, fun i => ?_, ?_⟩
  · rcases lt_trichotomy (d i) 0 with hneg | hstill | hpos
    · exact hlast _ (List.mem_cons_of_mem _ ((hfalling _).mpr ⟨i, hneg, rfl⟩))
    · rw [hstill, Range.restingStep_of_zero]
      exact hfirst 0 List.mem_cons_self
    · exact hfirst _ (List.mem_cons_of_mem _ ((hrising _).mpr ⟨i, hpos, rfl⟩))
  · rcases withLargest_mem (withLargest 0 rising) falling with hsame | hmem
    · rw [hsame]
      rcases withLargest_mem 0 rising with hnone | hmem
      · exact .inl hnone
      · obtain ⟨i, hpos, hstep⟩ := (hrising _).mp hmem
        exact .inr ⟨i, hpos.ne', hstep⟩
    · obtain ⟨i, hneg, hstep⟩ := (hfalling _).mp hmem
      exact .inr ⟨i, hneg.ne, hstep⟩

/-- A step from which no component moves is a number that is not negative, or infinite. -/
theorem IsLastRest.cases {s : Exact} (h : b.IsLastRest x d s)
    (hx : ∀ i, x i ∈ (b.get i).reals) : (∃ t, 0 ≤ t ∧ s = .real t) ∨ s = .infinite false := by
  rcases h.reached with rfl | ⟨i, -, heq⟩
  · exact .inl ⟨0, le_rfl, rfl⟩
  · have hrests := Range.restsFrom_restingStep (hx i) (d i)
    rw [heq] at hrests
    cases hrests with
    | bounded t ht => exact .inl ⟨t, ht, rfl⟩
    | unbounded => exact .inr rfl

section Path

variable {path : ℝ → Fin n → ℝ} {s : Exact}

/-- The path rests from the last of these steps. -/
theorem IsLastRest.path_eq (h : b.IsLastRest x d s) (hx : ∀ i, x i ∈ (b.get i).reals)
    (hpath : ∀ a i, (b.get i).clamp (.real (x i + a * d i)) = .real (path a i)) {t a : ℝ}
    (hs : s ≤ .real t) (ht : 0 ≤ t) (hta : t ≤ a) : path a = path t := by
  funext i
  have hrests := Range.restsFrom_restingStep (hx i) (d i)
  have hsame := hrests.rests (Exact.le_trans (h.upper i) hs) ht hta
  rw [hpath, hpath] at hsame
  exact Exact.real.inj hsame

/-- Before, it is never twice at the same point. -/
theorem IsLastRest.path_ne (h : b.IsLastRest x d s) (hx : ∀ i, x i ∈ (b.get i).reals)
    (hpath : ∀ a i, (b.get i).clamp (.real (x i + a * d i)) = .real (path a i)) {a c : ℝ}
    (ha : 0 ≤ a) (hac : a < c) (hs : .real c ≤ s) : path a ≠ path c := by
  have hc : 0 < c := ha.trans_lt hac
  rcases h.reached with rfl | ⟨i, hi, heq⟩
  · exact absurd hs (not_le.mpr hc)
  · have hrests := Range.restsFrom_restingStep (hx i) (d i)
    have hmoves := hrests.moves hi ha hac (heq ▸ hs)
    rw [hpath, hpath] at hmoves
    exact fun hsame => hmoves (congrArg Exact.real (congrFun hsame i))

theorem path_zero (hx : ∀ i, x i ∈ (b.get i).reals)
    (hpath : ∀ a i, (b.get i).clamp (.real (x i + a * d i)) = .real (path a i)) :
    path 0 = x := by
  funext i
  have hstart := hpath 0 i
  rw [zero_mul, add_zero, Range.clamp_of_mem_reals (hx i)] at hstart
  exact (Exact.real.inj hstart).symm

theorem IsLastRest.eq_zero_iff (h : b.IsLastRest x d s) (hx : ∀ i, x i ∈ (b.get i).reals)
    (hpath : ∀ a i, (b.get i).clamp (.real (x i + a * d i)) = .real (path a i)) :
    s = 0 ↔ ∀ a, 0 ≤ a → path a = x := by
  constructor
  · rintro rfl a ha
    rw [h.path_eq hx hpath (Exact.le_self nofun) le_rfl ha, path_zero hx hpath]
  · intro hstays
    -- Up to any positive step that is not above the last one the path would have moved.
    have hstuck (c : ℝ) (hc : 0 < c) : ¬ .real c ≤ s := fun hs =>
      h.path_ne hx hpath le_rfl hc hs ((hstays 0 le_rfl).trans (hstays c hc.le).symm)
    rcases h.cases hx with ⟨t, ht, rfl⟩ | rfl
    · rcases ht.eq_or_lt with rfl | hpos
      · rfl
      · exact absurd ((Exact.real_le t t).mpr le_rfl) (hstuck t hpos)
    · exact absurd rfl (hstuck 1 one_pos)

theorem IsLastRest.eq_infinite_iff (h : b.IsLastRest x d s) (hx : ∀ i, x i ∈ (b.get i).reals) :
    s = .infinite false ↔ ∃ i, (b.get i).Unhindered (d i) := by
  constructor
  · rintro rfl
    rcases h.reached with hzero | ⟨i, -, heq⟩
    · cases hzero
    · exact ⟨i, (Range.restsFrom_restingStep (hx i) (d i)).infinite_iff.mp heq⟩
  · rintro ⟨i, hi⟩
    have hupper := h.upper i
    rw [(Range.restsFrom_restingStep (hx i) (d i)).infinite_iff.mpr hi] at hupper
    rcases h.cases hx with ⟨t, -, rfl⟩ | rfl
    · cases hupper
    · rfl

end Path

end Bounds

/-! ## Boxes -/

namespace Box

variable {box : Box Exact} {shape : Shape} {p : Precision}

/-- The real vectors in a box. -/
def reals (box : Box Exact) (shape : Shape) : Set (Fin shape.size → ℝ) :=
  {x | ∀ i, (box.lower.spread shape).get i ≤ .real (x i) ∧
    .real (x i) ≤ (box.upper.spread shape).get i}

theorem mem_ranges_of_mem {x : Fin shape.size → ℝ} (hx : x ∈ box.reals shape) (p : Precision)
    (i : Fin shape.size) : x i ∈ ((box.ranges shape p).get i).reals := by
  rw [get_ranges]
  exact hx i

/-- The shortcut step is the end of the path that is brought into the box: the path does not
move exactly if the step is zero, it rests from the step on and from no earlier one, and the
step is infinite exactly if some component moves towards an infinite bound, along which the path
never comes to rest. -/
theorem path_rests_from_shortcutStep (hlower : box.lower.shape.broadcastsTo shape = true)
    (hupper : box.upper.shape.broadcastsTo shape = true) {x : Fin shape.size → ℝ}
    (hx : x ∈ box.reals shape) (d : Fin shape.size → ℝ) :
    ∃ (s : Exact) (path : ℝ → Fin shape.size → ℝ),
      (box.toSet shape p).shortcutStep (.ofReals x) (.ofReals d) = .ok s ∧
      (∀ a : ℝ, (box.toSet shape p).projectVariables (.ofReals (x + a • d)) =
        .ok (.ofReals (path a))) ∧
      ((∃ t : ℝ, 0 ≤ t ∧ s = .real t) ∨ s = Scalar.infinity) ∧
      (s = 0 ↔ ∀ a : ℝ, 0 ≤ a → path a = x) ∧
      (∀ t : ℝ, s = .real t → (∀ a, t ≤ a → path a = path t) ∧
        ∀ a, 0 ≤ a → a < t → path a ≠ path t) ∧
      (s = Scalar.infinity ↔
        ∃ i, 0 < d i ∧ (box.upper.spread shape).get i = Scalar.infinity ∨
          d i < 0 ∧ (box.lower.spread shape).get i = -Scalar.infinity) ∧
      (s = Scalar.infinity → ∀ a c : ℝ, 0 ≤ a → a < c → path a ≠ path c) := by
  have hinside := mem_ranges_of_mem hx p
  have hlast := Bounds.isLastRest_shortcutStep (p := p) (d := d) hinside
  have hclamp : ∀ a i, ∃ c, ((box.ranges shape p).get i).clamp (.real (x i + a * d i)) =
      .real c := by
    intro a i
    obtain ⟨c, hc, -⟩ := (Range.shape_of_mem_reals (hinside i)).clamp_real (x i + a * d i)
    exact ⟨c, hc⟩
  choose path hpath using hclamp
  rw [toSet_eq hlower hupper]
  refine ⟨_, path, rfl, fun a => ?_, hlast.cases hinside, hlast.eq_zero_iff hinside hpath,
    fun t ht => ⟨fun a hta => ?_, fun a ha hat => ?_⟩, ?_, fun hinf a c ha hac => ?_⟩
  · have hpoint : (box.ranges shape p).clamp (.ofReals (x + a • d)) = .ofReals (path a) := by
      ext i
      simp [Bounds.clamp, hpath]
    rw [← hpoint]
    rfl
  · have hnonneg : 0 ≤ t := (Exact.real_le 0 t).mp (ht ▸ hlast.nonneg)
    refine hlast.path_eq hinside hpath ?_ hnonneg hta
    rw [ht]
    exact (Exact.real_le t t).mpr le_rfl
  · refine hlast.path_ne hinside hpath ha hat ?_
    rw [ht]
    exact (Exact.real_le t t).mpr le_rfl
  · refine (hlast.eq_infinite_iff hinside).trans (exists_congr fun i => ?_)
    rw [get_ranges]
    exact Iff.rfl
  · exact hlast.path_ne hinside hpath ha hac (by rw [hinf]; rfl)

end Box

namespace Sample

/-- A box in space that is open towards the third axis. -/
def openBox : Box Exact where
  lower := ⟨[], .floating .double, ⟨[.real 0], rfl⟩⟩
  upper := ⟨[3], .floating .double, ⟨[.real 1, .real 1, .infinite false], rfl⟩⟩

def edgePoint : Fin (Shape.size [3]) → ℝ := ![0, 0, 1]

/-- A direction that leads into the box, out of it, and along its open side. -/
def edgeDirection : Fin (Shape.size [3]) → ℝ := ![1, -1, 1]

theorem edgePoint_mem : edgePoint ∈ openBox.reals [3] := by
  have hlower (i : Fin (Shape.size [3])) : (openBox.lower.spread [3]).get i = .real 0 := by
    fin_cases i <;> rfl
  intro i
  rw [hlower, Exact.real_le]
  fin_cases i
  · exact ⟨show (0 : ℝ) ≤ 0 from le_rfl, (Exact.real_le 0 1).mpr zero_le_one⟩
  · exact ⟨show (0 : ℝ) ≤ 0 from le_rfl, (Exact.real_le 0 1).mpr zero_le_one⟩
  · exact ⟨show (0 : ℝ) ≤ 1 from zero_le_one, rfl⟩

theorem edge_path_rests :
    openBox.lower.shape.broadcastsTo [3] = true ∧ openBox.upper.shape.broadcastsTo [3] = true ∧
      edgePoint ∈ openBox.reals [3] ∧
      ∃ (s : Exact) (path : ℝ → Fin (Shape.size [3]) → ℝ),
        (openBox.toSet [3] .double).shortcutStep (.ofReals edgePoint) (.ofReals edgeDirection) =
          .ok s ∧
        (∀ a : ℝ, (openBox.toSet [3] .double).projectVariables
          (.ofReals (edgePoint + a • edgeDirection)) = .ok (.ofReals (path a))) ∧
        ((∃ t : ℝ, 0 ≤ t ∧ s = .real t) ∨ s = Scalar.infinity) ∧
        (s = 0 ↔ ∀ a : ℝ, 0 ≤ a → path a = edgePoint) ∧
        (∀ t : ℝ, s = .real t → (∀ a, t ≤ a → path a = path t) ∧
          ∀ a, 0 ≤ a → a < t → path a ≠ path t) ∧
        (s = Scalar.infinity ↔
          ∃ i, 0 < edgeDirection i ∧ (openBox.upper.spread [3]).get i = Scalar.infinity ∨
            edgeDirection i < 0 ∧ (openBox.lower.spread [3]).get i = -Scalar.infinity) ∧
        (s = Scalar.infinity → ∀ a c : ℝ, 0 ≤ a → a < c → path a ≠ path c) :=
  ⟨rfl, rfl, edgePoint_mem, Box.path_rests_from_shortcutStep rfl rfl edgePoint_mem edgeDirection⟩

end Sample

end

end VariableMetric
