import VariableMetric.Proofs.Double.Rounding
import VariableMetric.Proofs.Exact

/-!
# The order of exact scalars

Exact scalars are in the order of the real numbers, between the two infinities, and
what is undefined compares with nothing.  Storing them changes nothing, so it keeps
them in order.
-/

namespace VariableMetric

theorem Scalar.greatest_mem {α : Type} [Scalar α] (a c : α) :
    Scalar.greatest a c = a ∨ Scalar.greatest a c = c := by
  unfold Scalar.greatest
  split
  · exact .inr rfl
  · exact .inl rfl

theorem Scalar.supremum_mem {α : Type} [Scalar α] (first : α) (rest : List α) :
    Scalar.supremum first rest ∈ first :: rest := by
  unfold Scalar.supremum
  induction rest generalizing first with
  | nil => exact List.mem_cons_self
  | cons a rest ih =>
    rw [List.foldl_cons]
    refine List.cons_subset.mpr ⟨?_, ?_⟩ (ih _)
    · split
      · simp
      · split <;> simp
    · exact fun c hc => List.mem_cons_of_mem _ (List.mem_cons_of_mem _ hc)

noncomputable section

namespace Exact

theorem equal_iff (a b : Exact) : Scalar.equal a b = true ↔ a ≤ b ∧ b ≤ a := by
  show decide (a ≤ b ∧ b ≤ a) = true ↔ a ≤ b ∧ b ≤ a
  exact decide_eq_true_iff

theorem isNaN_iff (a : Exact) : Scalar.isNaN a = true ↔ a = undefined := by
  have hself : Scalar.equal a a = true ↔ le a a ∧ le a a := equal_iff a a
  rw [Scalar.isNaN, Bool.not_eq_true', ← Bool.not_eq_true, hself]
  cases a with
  | real a => simp [le]
  | infinite negative => cases negative <;> simp [le]
  | undefined => simp [le]

@[simp] theorem isNaN_real (a : ℝ) : Scalar.isNaN (real a) = false := by
  rw [← Bool.not_eq_true, isNaN_iff]
  exact nofun

@[simp] theorem real_lt_infinite (a : ℝ) (negative : Bool) :
    real a < infinite negative ↔ negative = false := Iff.rfl

theorem le_self {a : Exact} (h : a ≠ .undefined) : a ≤ a := by
  cases a with
  | real a => exact (real_le a a).mpr le_rfl
  | infinite negative => cases negative <;> [exact .inr rfl; exact .inl rfl]
  | undefined => exact absurd rfl h

theorem le_of_lt {a b : Exact} (h : a < b) : a ≤ b := by
  change lt a b at h
  change le a b
  cases a <;> cases b <;> simp_all [lt, le]
  exact h.le

theorem lt_of_le_of_not_le {a b : Exact} (h : a ≤ b) (hnot : ¬ b ≤ a) : a < b := by
  change le a b at h
  change ¬ le b a at hnot
  change lt a b
  cases a <;> cases b <;> simp_all [lt, le]

theorem not_le_of_lt {a b : Exact} (h : a < b) : ¬ b ≤ a := by
  change lt a b at h
  change ¬ le b a
  cases a <;> cases b <;> simp_all [lt, le]

theorem le_trans {a b c : Exact} (hab : a ≤ b) (hbc : b ≤ c) : a ≤ c := by
  change le a b at hab
  change le b c at hbc
  change le a c
  cases a <;> cases b <;> cases c <;> simp_all [le]
  · exact hab.trans hbc
  · cases hab <;> simp_all

theorem lt_of_le_of_lt {a b c : Exact} (hab : a ≤ b) (hbc : b < c) : a < c :=
  lt_of_le_of_not_le (le_trans hab (le_of_lt hbc)) fun hca =>
    not_le_of_lt hbc (le_trans hca hab)

/-- What is positive is a positive number or infinite. -/
theorem pos_iff (a : Exact) :
    0 < a ↔ (∃ r, 0 < r ∧ a = real r) ∨ a = infinite false := by
  cases a with
  | real r =>
    refine ⟨fun h => .inl ⟨r, h, rfl⟩, ?_⟩
    rintro (⟨r', hr', heq⟩ | heq)
    · rw [heq]
      exact hr'
    · cases heq
  | infinite negative =>
    refine ⟨fun h => .inr (congrArg infinite h), ?_⟩
    rintro (⟨r, -, heq⟩ | heq)
    · cases heq
    · rw [heq]
      rfl
  | undefined =>
    refine ⟨fun h => absurd h id, ?_⟩
    rintro (⟨r, -, heq⟩ | heq) <;> cases heq

@[simp] theorem isFinite_real (a : ℝ) : Scalar.isFinite (real a) = true := rfl

theorem exists_real_of_isFinite {a : Exact} (h : Scalar.isFinite a = true) :
    ∃ r, a = real r := by
  cases a with
  | real r => exact ⟨r, rfl⟩
  | infinite negative => cases h
  | undefined => cases h

@[simp] theorem least_real (a b : ℝ) : Scalar.least (real a) (real b) = real (min a b) := by
  unfold Scalar.least
  by_cases h : b < a
  · rw [if_pos ((real_lt b a).mpr h), min_eq_right h.le]
  · rw [if_neg fun hlt => h ((real_lt b a).mp hlt), min_eq_left (not_lt.mp h)]

@[simp] theorem greatest_real (a b : ℝ) :
    Scalar.greatest (real a) (real b) = real (max a b) := by
  unfold Scalar.greatest
  by_cases h : a < b
  · rw [if_pos ((real_lt a b).mpr h), max_eq_right h.le]
  · rw [if_neg fun hlt => h ((real_lt a b).mp hlt), max_eq_left (not_lt.mp h)]

@[simp] theorem greatest_infinite_right (a : ℝ) :
    Scalar.greatest (real a) (infinite true) = real a :=
  if_neg nofun

@[simp] theorem greatest_infinite_left (a : ℝ) :
    Scalar.greatest (infinite true) (real a) = real a :=
  if_pos rfl

@[simp] theorem least_infinite_right (a : ℝ) :
    Scalar.least (real a) (infinite false) = real a :=
  if_neg nofun

@[simp] theorem least_infinite_left (a : ℝ) :
    Scalar.least (infinite false) (real a) = real a :=
  if_pos rfl

/-- A positive number cut down to something positive is a positive number. -/
theorem exists_least_pos {a : ℝ} (ha : 0 < a) {cap : Exact} (hcap : 0 < cap) :
    ∃ b, 0 < b ∧ Scalar.least (real a) cap = real b ∧ real b ≤ cap := by
  rcases (pos_iff cap).mp hcap with ⟨c, hc, rfl⟩ | rfl
  · exact ⟨min a c, lt_min ha hc, least_real a c, min_le_right a c⟩
  · exact ⟨a, ha, least_infinite_right a, rfl⟩

end Exact

instance : StoredScalar Exact where
  not_infinity_lt a := by
    cases a with
    | real a => exact nofun
    | infinite negative => cases negative <;> exact nofun
    | undefined => exact nofun
  lt_irrefl a := by
    cases a with
    | real a => exact lt_irrefl a
    | infinite negative => cases negative <;> exact nofun
    | undefined => exact id
  le_of_not_lt {a b} ha hb h := by
    have ha' : a ≠ .undefined := fun heq => by simp [(Exact.isNaN_iff a).mpr heq] at ha
    have hb' : b ≠ .undefined := fun heq => by simp [(Exact.isNaN_iff b).mpr heq] at hb
    cases a with
    | undefined => exact absurd rfl ha'
    | real a => cases b with
      | undefined => exact absurd rfl hb'
      | real b =>
        have hle : b ≤ a := not_lt.mp fun hlt => h ((Exact.real_lt a b).mpr hlt)
        exact (Exact.real_le b a).mpr hle
      | infinite negative => cases negative with
        | false => exact absurd rfl h
        | true => exact rfl
    | infinite negative => cases b with
      | undefined => exact absurd rfl hb'
      | real b => cases negative with
        | false => exact rfl
        | true => exact absurd rfl h
      | infinite negative' =>
        have hsigns : ¬ (negative = true ∧ negative' = false) := h
        show negative' = true ∨ negative = false
        cases negative <;> cases negative' <;> simp at hsigns ⊢
  not_le_of_isNaN {a} b h := by
    rw [(Exact.isNaN_iff a).mp h]
    exact id
  not_lt_of_isNaN a b h := by
    rw [(Exact.isNaN_iff b).mp h]
    cases a <;> exact id
  lt_asymm {a b} h := by
    cases a with
    | real a => cases b with
      | real b => exact lt_asymm (α := ℝ) h
      | infinite negative => exact fun h' => by cases h.symm.trans h'
      | undefined => exact absurd h id
    | infinite negative => cases b with
      | real b => exact fun h' => by cases h.symm.trans h'
      | infinite negative' => exact fun h' => by cases h.1.symm.trans h'.2
      | undefined => exact absurd h id
    | undefined => cases b <;> exact absurd h id
  isNaN_round _ _ h := h
  not_round_lt _ _ _ _ _ h := h

namespace Exact

theorem le_greatest {a c : Exact} (ha : a ≠ .undefined) (hc : c ≠ .undefined) :
    a ≤ Scalar.greatest a c ∧ c ≤ Scalar.greatest a c := by
  unfold Scalar.greatest
  split
  next hlt => exact ⟨le_of_lt hlt, le_self hc⟩
  next hnot =>
    refine ⟨le_self ha, OrderedScalar.le_of_not_lt ?_ ?_ hnot⟩
    · rwa [← Bool.not_eq_true, isNaN_iff]
    · rwa [← Bool.not_eq_true, isNaN_iff]

theorem le_supremum {first : Exact} {rest : List Exact}
    (hdefined : ∀ a ∈ first :: rest, a ≠ .undefined) :
    ∀ a ∈ first :: rest, a ≤ Scalar.supremum first rest := by
  induction rest generalizing first with
  | nil =>
    intro a ha
    obtain rfl := List.mem_singleton.mp ha
    exact le_self (hdefined a ha)
  | cons next rest ih =>
    have hfirst := hdefined first List.mem_cons_self
    have hnext := hdefined next (List.mem_cons_of_mem _ List.mem_cons_self)
    have hnumber (c : Exact) (hc : c ≠ .undefined) : Scalar.isNaN c = false := by
      rwa [← Bool.not_eq_true, isNaN_iff]
    have hstep : Scalar.supremum first (next :: rest) =
        Scalar.supremum (Scalar.greatest first next) rest := by
      unfold Scalar.supremum
      rw [List.foldl_cons, if_neg (by simp [hnumber first hfirst]), hnumber next hnext]
      simp [Scalar.greatest]
    have hlater := ih fun a (ha : a ∈ Scalar.greatest first next :: rest) => by
      rcases List.mem_cons.mp ha with rfl | ha
      · rcases Scalar.greatest_mem first next with heq | heq <;> rwa [heq]
      · exact hdefined a (List.mem_cons_of_mem _ (List.mem_cons_of_mem _ ha))
    obtain ⟨hleft, hright⟩ := le_greatest hfirst hnext
    have htop := hlater _ List.mem_cons_self
    intro a ha
    rw [hstep]
    rcases List.mem_cons.mp ha with rfl | ha
    · exact le_trans hleft htop
    · rcases List.mem_cons.mp ha with rfl | ha
      · exact le_trans hright htop
      · exact hlater a (List.mem_cons_of_mem _ ha)

end Exact

end

end VariableMetric
