import VariableMetric.Proofs.LineSearch.Strategy
import VariableMetric.Proofs.Memory.Descent
import VariableMetric.Proofs.Run.Searches

/-!
# Sound records

A run in exact arithmetic can be told to be sound by its record.  Its answers are real
numbers inside the set.  Every direction that it takes descends and can be followed
inside the set, with a positive step within the cap; no search is refused, and neither
is a direction of the memory.  An iterate is accepted only if its value lies below that
at one of the last origins by the fraction of the promised decrease that the rule asks
for.
-/

namespace VariableMetric

open Matrix

noncomputable section

variable {σ : Type} {n m : ℕ}

/-! ## Valid configurations -/

/-- What the checks of a configuration ask of a pair of tolerances or of lengths. -/
structure AreTolerances {α : Type} [Scalar α] (pair : α × α) : Prop where
  finite : Scalar.isFinite pair.1 = true ∧ Scalar.isFinite pair.2 = true
  nonneg : ¬ pair.1 < 0 ∧ ¬ pair.2 < 0

structure Settings.Valid {α : Type} [Scalar α] (s : Settings α) : Prop where
  tolerance : AreTolerances s.tolerance
  firstStep : AreTolerances s.firstStep

theorem AreTolerances.exists_real {pair : Exact × Exact} (h : AreTolerances pair) :
    ∃ a b, 0 ≤ a ∧ 0 ≤ b ∧ pair = (.real a, .real b) := by
  obtain ⟨c, d⟩ := pair
  obtain ⟨a, rfl⟩ := Exact.exists_real_of_isFinite h.finite.1
  obtain ⟨b, rfl⟩ := Exact.exists_real_of_isFinite h.finite.2
  exact ⟨a, b, not_lt.mp h.nonneg.1, not_lt.mp h.nonneg.2, rfl⟩

/-- A problem with a set of real vectors, driven by a strategy with a rule. -/
structure Problem.Proper (p : Problem Exact σ (Strategy Exact) n) (C : Fin n → Set ℝ)
    (rule : Rule Exact) : Prop where
  feasible : p.feasible.Confines C
  search : ∃ uses, p.search = .ofStrategy uses
  settings : p.settings.Valid
  rule : rule.Works

/-! ## What is on record -/

/-- What a run may fail for: its objective refuses a point, or its variables are of a kind
of which no pairs can be kept. -/
def Problem.MayFail (p : Problem Exact σ (Strategy Exact) n) (t : Transcript Exact n) : Prop :=
  (∃ x, .refused x ∈ t) ∨ p.keepsPairs = false

theorem Problem.MayFail.of_suffix {p : Problem Exact σ (Strategy Exact) n}
    {t older : Transcript Exact n} (h : p.MayFail older) (hsuffix : older <:+ t) :
    p.MayFail t :=
  h.imp_left fun ⟨x, hx⟩ => ⟨x, hsuffix.subset hx⟩

/-- An iterate of real numbers inside the set. -/
def Iterate.Within (C : Fin n → Set ℝ) (i : Iterate Exact n) : Prop :=
  ∃ (x : Fin n → ℝ) (f : ℝ) (g : Fin n → ℝ),
    i = ⟨.ofReals x, .real f, .ofReals g⟩ ∧ ∀ k, x k ∈ C k

/-- One where the projected gradient does not vanish. -/
def Iterate.Nonstationary (C : Fin n → Set ℝ) (i : Iterate Exact n) : Prop :=
  ∃ (x : Fin n → ℝ) (f : ℝ) (g : Fin n → ℝ),
    i = ⟨.ofReals x, .real f, .ofReals g⟩ ∧ (∀ k, x k ∈ C k) ∧ loosened C x (-g) g ≠ 0

/-- A pass from an iterate along a direction that descends there and can be followed
inside the set, with a positive step within the cap. -/
structure Pass.Usable (p : Problem Exact σ (Strategy Exact) n) (C : Fin n → Set ℝ)
    (i : Iterate Exact n) (pass : Pass Exact n) : Prop where
  slope_eq : pass.slope = pass.direction.inner i.gradient
  slope_neg : pass.slope < 0
  follows : ∃ x d, i.point = .ofReals x ∧ pass.direction = .ofReals d ∧
    ∃ t, 0 < t ∧ ∀ k, x k + t * d k ∈ C k
  cap_eq : p.feasible.shortcutStep i.point pass.direction = .ok pass.cap
  step_pos : 0 < pass.step
  step_le : pass.step ≤ pass.cap

/-- Whether a step to the last answer may be accepted: its value lies below that at one
of the last origins by the fraction of the promised decrease that the rule asks for.  A
search that looks at one origin only compares with its own. -/
def Transcript.Decreases (rule : Rule Exact) (t : Transcript Exact n) (step value : Exact) :
    Prop :=
  ∃ i o pass, t.answers.getLast? = some i ∧ i.value = value ∧
    t.lastSearch = some (o, pass) ∧ t.accepted.head? = some o ∧
    ∃ r ∈ t.lastOrigins rule.window, (rule.window = 1 → r = o) ∧
      value ≤ r.value + rule.ftol * step * pass.slope ∧
        r.value + rule.ftol * step * pass.slope < r.value

/-- What an event of a sound record says, after what was on record before. -/
def Event.Sound (p : Problem Exact σ (Strategy Exact) n) (C : Fin n → Set ℝ)
    (rule : Rule Exact) : Event Exact n → Transcript Exact n → Prop
  | .evaluated _, older => older.answers = [] ∨ older.origins ≠ []
  | .chosen pass, older => ∃ i, older.accepted.head? = some i ∧ pass.Usable p C i
  | .started o pass status _, older =>
      status = .searching ∧ older.accepted.head? = some o ∧ pass.Usable p C o
  | .iterated step value _ .converged _, older => older.Decreases rule step value
  | .noticed (.directionRefused _), _ => False
  | _, _ => True

structure Transcript.Sound (p : Problem Exact σ (Strategy Exact) n) (C : Fin n → Set ℝ)
    (rule : Rule Exact) (t : Transcript Exact n) : Prop where
  within : ∀ i ∈ t.answers, i.Within C
  always : t.Always (Event.Sound p C rule)

/-- Whether all answers are finite. -/
def Transcript.Finite (t : Transcript Exact n) : Prop :=
  ∀ i ∈ t.answers, Scalar.isFinite i.value = true ∧
    ∀ a ∈ i.gradient.toList, Scalar.isFinite a = true

variable {p : Problem Exact σ (Strategy Exact) n} {C : Fin n → Set ℝ} {rule : Rule Exact}

namespace Transcript

theorem Finite.of_suffix {t older : Transcript Exact n} (h : t.Finite) (hsuffix : older <:+ t) :
    older.Finite :=
  fun i hi => h i (answers_subset_of_suffix hsuffix hi)

variable {t : Transcript Exact n}

theorem Sound.cons (h : t.Sound p C rule) {e : Event Exact n} (hsilent : isSilent e = true)
    (he : e.Sound p C rule t) : Transcript.Sound p C rule (e :: t) where
  within := by rw [answers_silent hsilent]; exact h.within
  always := h.always.cons he

theorem Sound.notices (h : t.Sound p C rule) {notices : List (Notice Exact)}
    (hnotices : ∀ slope, .directionRefused slope ∉ notices) :
    Transcript.Sound p C rule ((notices.map Event.noticed).reverse ++ t) where
  within := by rw [(searchesLike_notices notices t).answers]; exact h.within
  always := by
    refine h.always.notices fun notice hmem older => ?_
    cases notice with
    | directionRefused slope => exact absurd hmem (hnotices slope)
    | _ => trivial

theorem Sound.evaluated (h : t.Sound p C rule) {i : Iterate Exact n} (hi : i.Within C)
    (hstarted : t.answers = [] ∨ t.origins ≠ []) :
    Transcript.Sound p C rule (.evaluated i :: t) where
  within := by
    intro j hj
    rw [answers_evaluated] at hj
    rcases List.mem_append.mp hj with hold | hnew
    · exact h.within j hold
    · rw [List.mem_singleton] at hnew
      exact hnew ▸ hi
  always := h.always.cons hstarted

theorem Sound.started (h : t.Sound p C rule) {o : Iterate Exact n} {pass : Pass Exact n}
    (step : Exact) (ho : t.accepted.head? = some o) (hpass : pass.Usable p C o) :
    Transcript.Sound p C rule (.started o pass .searching step :: t) where
  within := h.within
  always := h.always.cons ⟨rfl, ho, hpass⟩

/-- Searches are begun at answers. -/
theorem origins_subset_answers (h : t.Always (Event.Sound p C rule)) :
    t.origins ⊆ t.answers := by
  induction t with
  | nil => exact List.Subset.refl _
  | cons e t ih =>
    have hgrows : answers t ⊆ answers (e :: t) :=
      answers_subset_of_suffix (List.suffix_cons e t)
    have hold := List.Subset.trans (ih h.tail) hgrows
    cases e with
    | started o pass status next =>
      rw [origins_started]
      obtain ⟨-, haccepted, -⟩ := h.head
      have hmem := accepted_subset_answers t (List.mem_of_head? haccepted)
      exact List.append_subset.mpr ⟨hold, List.cons_subset.mpr ⟨hgrows hmem, List.nil_subset _⟩⟩
    | evaluated i => exact hold
    | _ =>
      rw [origins_silent rfl]
      exact hold

theorem Sound.within_of_origin (h : t.Sound p C rule) {o : Iterate Exact n}
    (ho : o ∈ t.origins) : o.Within C :=
  h.within o (origins_subset_answers h.always ho)

theorem Sound.within_of_accepted (h : t.Sound p C rule) {i : Iterate Exact n}
    (hi : i ∈ t.accepted) : i.Within C :=
  h.within i (accepted_subset_answers t hi)

end Transcript

/-! ## The remembered pairs are real -/

theorem Iterate.Within.pairFrom {i o : Iterate Exact n} (hi : i.Within C) (ho : o.Within C)
    (precision : Precision) : ∃ q, i.pairFrom precision o = Memory.stored q := by
  obtain ⟨x, f, g, rfl, -⟩ := hi
  obtain ⟨x', f', g', rfl, -⟩ := ho
  refine ⟨(x - x', g - g'), ?_⟩
  rw [Iterate.pairFrom, Vec.difference_ofReals, Vec.difference_ofReals, Memory.stored]

theorem exists_stored_lastPairs {t : Transcript Exact n} (h : t.Sound p C rule)
    (precision : Precision) (m : ℕ) :
    ∃ pairs : List (Pair (Fin n)), t.lastPairs precision m = pairs.map Memory.stored := by
  have hall : ∀ q ∈ t.lastPairs precision m, q ∈ Set.range (Memory.stored (n := n)) := by
    intro q hq
    have hmem := List.mem_of_mem_take hq
    unfold Transcript.differences at hmem
    rw [← List.map_uncurry_zip_eq_zipWith] at hmem
    obtain ⟨⟨i, o⟩, hzip, rfl⟩ := List.mem_map.mp hmem
    obtain ⟨hi, ho⟩ := List.of_mem_zip hzip
    obtain ⟨q, hq⟩ := (h.within_of_accepted hi).pairFrom
      (h.within_of_accepted (List.mem_of_mem_tail ho)) precision
    exact ⟨q, hq.symm⟩
  have hrange : t.lastPairs precision m ∈ Set.range (List.map (Memory.stored (n := n))) := by
    rw [Set.range_list_map]
    exact hall
  obtain ⟨pairs, hpairs⟩ := hrange
  exact ⟨pairs, hpairs.symm⟩

end

end VariableMetric
