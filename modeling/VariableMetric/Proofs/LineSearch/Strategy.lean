import Mathlib.Data.List.DropRight
import VariableMetric.Proofs.Exact.Order
import VariableMetric.Proofs.LineSearch.Search

/-!
# The strategies in exact arithmetic

A strategy keeps its rule for ever.  While it searches along a descending slope it asks
for positive steps only, and it accepts a value only if it lies below one of its
references by the fraction of the promised decrease that the rule asks for.  Its
references are the values at the last origins, as many as its window holds; a monotone
strategy has a window of one.
-/

namespace VariableMetric

/-! ## Rules -/

section Rules

variable {α : Type}

/-- What a strategy is built from. -/
inductive Rule (α : Type) where
  | backtracking (r : Safeguard α)
  | nonmonotone (r : Safeguard α) (window : ℕ)
  | wolfe (r : WolfeRule α)

namespace Rule

def ftol : Rule α → α
  | backtracking r => r.ftol
  | nonmonotone r _ => r.ftol
  | wolfe r => r.ftol

/-- How many origins are looked at. -/
def window : Rule α → ℕ
  | nonmonotone _ window => window
  | _ => 1

end Rule

def Strategy.rule : Strategy α → Rule α
  | backtracking b => .backtracking b.rule
  | nonmonotone b => .nonmonotone b.rule b.window
  | wolfe b => .wolfe b.rule

variable [Scalar α]

/-- What the checks of a configuration ask of the parameters. -/
structure Safeguard.Valid (r : Safeguard α) : Prop where
  ftol_pos : 0 < r.ftol
  ftol_lt : r.ftol < 1
  amin_pos : 0 < r.amin
  amin_le : r.amin ≤ Scalar.half
  stpmin : ¬ r.stpmin < 0
  limit : 1 ≤ r.limit

structure WolfeRule.Valid (r : WolfeRule α) : Prop where
  ftol_pos : 0 < r.ftol
  gtol_gt : r.ftol < r.gtol
  gtol_lt : r.gtol < 1
  stpmin : ¬ r.stpmin < 0
  limit : 1 ≤ r.limit

def Rule.Valid : Rule α → Prop
  | .backtracking r => r.Valid
  | .nonmonotone r window => r.Valid ∧ 1 ≤ window
  | .wolfe r => r.Valid

/-- What a search along a descending slope needs of the parameters: neither the least step
nor the limit matters. -/
structure Safeguard.Works (r : Safeguard α) : Prop where
  ftol_pos : 0 < r.ftol
  ftol_lt : r.ftol < 1
  amin_pos : 0 < r.amin
  amin_le : r.amin ≤ Scalar.half

structure WolfeRule.Works (r : WolfeRule α) : Prop where
  ftol_pos : 0 < r.ftol
  gtol_gt : r.ftol < r.gtol
  gtol_lt : r.gtol < 1

def Rule.Works : Rule α → Prop
  | .backtracking r => r.Works
  | .nonmonotone r window => r.Works ∧ 1 ≤ window
  | .wolfe r => r.Works

theorem Safeguard.Valid.works {r : Safeguard α} (h : r.Valid) : r.Works :=
  ⟨h.ftol_pos, h.ftol_lt, h.amin_pos, h.amin_le⟩

theorem Rule.Valid.works {rule : Rule α} (h : rule.Valid) : rule.Works := by
  cases rule with
  | backtracking r => exact Safeguard.Valid.works h
  | nonmonotone r window => exact ⟨h.1.works, h.2⟩
  | wolfe r => exact ⟨h.ftol_pos, h.gtol_gt, h.gtol_lt⟩

namespace Strategy

theorem rule_wolfe_reject (b : Wolfe α) : b.reject.2.rule = b.rule := by
  rcases b.reject_cases with ⟨_, -, heq⟩ | ⟨-, -, heq⟩ <;> rw [heq]

omit [Scalar α] in
@[simp] theorem rule_reset (s : Strategy α) : s.reset.rule = s.rule := by
  cases s <;> rfl

@[simp] theorem rule_start (s : Strategy α) (value slope step cap : α) :
    (s.start value slope step cap).2.rule = s.rule := by
  cases s with
  | backtracking b => rfl
  | nonmonotone b =>
    show rule (nonmonotone (b.start value slope step cap).2) = _
    unfold Nonmonotone.start
    dsimp only
    split <;> rfl
  | wolfe b => rfl

@[simp] theorem rule_iterate (s : Strategy α) (step value slope : α) :
    (s.iterate step value slope).2.rule = s.rule := by
  cases s with
  | backtracking b => rfl
  | nonmonotone b => rfl
  | wolfe b =>
    show Rule.wolfe (b.iterate step value slope).2.rule = .wolfe b.rule
    rcases b.iterate_cases step value slope with ⟨-, heq⟩ | ⟨-, heq | ⟨b', -, hrule, heq⟩⟩
    · rw [heq]
    · rw [heq]
      rfl
    · rw [heq, rule_wolfe_reject, hrule]

theorem one_le_limit {s : Strategy α} (h : s.rule.Valid) : 1 ≤ s.limit := by
  cases s with
  | backtracking b => exact Safeguard.Valid.limit h
  | nonmonotone b => exact h.1.limit
  | wolfe b => exact WolfeRule.Valid.limit h

/-- The strategies leave notices about steps and trials only. -/
theorem iterate_notices (s : Strategy α) (step value slope refused : α) :
    .directionRefused refused ∉ (s.iterate step value slope).1.notices := by
  have hbacktrack : ∀ (search : Search α) rule reference,
      .directionRefused refused ∉ (search.backtrack rule reference step value).1.notices := by
    intro search rule reference
    unfold Search.backtrack
    split
    · split
      · simp
      · dsimp only
        split
        · simp
        · split <;> simp
    · simp
  have hreject : ∀ b : Wolfe α, .directionRefused refused ∉ b.reject.1.notices := by
    intro b
    unfold Wolfe.reject
    dsimp only
    split
    · simp
    · split <;> simp
  cases s with
  | backtracking b => exact hbacktrack _ _ _
  | nonmonotone b => exact hbacktrack _ _ _
  | wolfe b =>
    show .directionRefused refused ∉ (b.iterate step value slope).1.notices
    rcases b.iterate_cases step value slope with ⟨-, heq⟩ | ⟨-, heq | ⟨b', -, -, heq⟩⟩
    · simp [heq]
    · simp [heq, Wolfe.accept]
    · rw [heq]
      exact hreject b'

end Strategy

end Rules

/-! ## References -/

section References

variable {α : Type} [Scalar α]

/-- Whether a strategy refers to the last of some values, as many as it looks at. -/
def Strategy.Tracks (values : List α) : Strategy α → Prop
  | .nonmonotone b => b.history = values.rtake b.window
  | s => ∀ v, values.getLast? = some v → s.search.value = v

omit [Scalar α] in
theorem Strategy.tracks_backtracking {values : List α} {b : Backtracking α} :
    (Strategy.backtracking b).Tracks values ↔
      ∀ v, values.getLast? = some v → b.search.value = v := Iff.rfl

omit [Scalar α] in
theorem Strategy.tracks_nonmonotone {values : List α} {b : Nonmonotone α} :
    (Strategy.nonmonotone b).Tracks values ↔ b.history = values.rtake b.window := Iff.rfl

omit [Scalar α] in
theorem Strategy.tracks_wolfe {values : List α} {b : Wolfe α} :
    (Strategy.wolfe b).Tracks values ↔
      ∀ v, values.getLast? = some v → b.search.value = v := Iff.rfl

theorem rtake_concat_of_rtake {β : Type} (l : List β) (b : β) (k : ℕ) :
    (l.rtake k ++ [b]).rtake k = (l ++ [b]).rtake k := by
  cases k with
  | zero => rw [List.rtake_zero, List.rtake_zero]
  | succ k =>
    rw [List.rtake_concat_succ, List.rtake_concat_succ]
    congr 1
    simp only [List.rtake]
    rw [List.drop_drop, List.length_drop]
    congr 1
    omega

theorem foldl_greatest_mem (value : α) (rest : List α) :
    rest.foldl Scalar.greatest value ∈ value :: rest := by
  induction rest generalizing value with
  | nil => exact List.mem_cons_self
  | cons a rest ih =>
    rw [List.foldl_cons]
    refine List.cons_subset.mpr ⟨?_, ?_⟩ (ih _)
    · unfold Scalar.greatest
      split <;> simp
    · exact fun c hc => List.mem_cons_of_mem _ (List.mem_cons_of_mem _ hc)

theorem Nonmonotone.reference_mem {b : Nonmonotone α} (h : b.history ≠ []) :
    b.reference ∈ b.history := by
  unfold reference
  cases hhistory : b.history with
  | nil => exact absurd hhistory h
  | cons value rest => exact foldl_greatest_mem value rest

end References

noncomputable section

/-! ## One search along a descending slope -/

/-- A search that is under way from a real value along a descending slope. -/
structure Search.Descending (s : Search Exact) (f df : ℝ) : Prop where
  searching : s.status = .searching
  value : s.value = .real f
  slope : s.slope = .real df
  slope_neg : df < 0

theorem exists_real_of_pos {a : Exact} (hpos : 0 < a) (hne : a ≠ .infinite false) :
    ∃ r, 0 < r ∧ a = .real r :=
  ((Exact.pos_iff a).mp hpos).resolve_right hne

theorem ne_infinite_of_lt {a b : Exact} (h : a < b) : a ≠ .infinite false := by
  rintro rfl
  exact OrderedScalar.not_infinity_lt b h

theorem Rule.Works.exists_ftol {rule : Rule Exact} (h : rule.Works) :
    ∃ ftol, 0 < ftol ∧ rule.ftol = .real ftol := by
  cases rule with
  | backtracking r => exact exists_real_of_pos h.ftol_pos (ne_infinite_of_lt h.ftol_lt)
  | nonmonotone r window =>
    exact exists_real_of_pos h.1.ftol_pos (ne_infinite_of_lt h.1.ftol_lt)
  | wolfe r => exact exists_real_of_pos h.ftol_pos (ne_infinite_of_lt h.gtol_gt)

theorem Rule.Works.one_le_window {rule : Rule Exact} (h : rule.Works) : 1 ≤ rule.window := by
  cases rule with
  | nonmonotone r window => exact h.2
  | _ => exact le_refl 1

theorem Rule.Valid.one_le_window {rule : Rule Exact} (h : rule.Valid) : 1 ≤ rule.window :=
  h.works.one_le_window

theorem Safeguard.Works.exists_amin {rule : Safeguard Exact} (h : rule.Works) :
    ∃ amin, 0 < amin ∧ amin ≤ 1 / 2 ∧ rule.amin = .real amin := by
  have hle := h.amin_le
  have hbounded : rule.amin ≠ .infinite false := by
    intro heq
    rw [heq] at hle
    cases hle
  obtain ⟨amin, hamin, hfactor⟩ := exists_real_of_pos h.amin_pos hbounded
  rw [hfactor] at hle
  exact ⟨amin, hamin, hle, hfactor⟩

namespace Search

variable {s : Search Exact} {f df a v : ℝ} {rule : Safeguard Exact}

theorem start_descending (hslope : df < 0) (ha : 0 < a) {cap : Exact}
    (hcap : .real a ≤ cap) (f : ℝ) :
    ∃ s, Search.start (.real f) (.real df) (.real a) cap = (⟨.searching, .real a, []⟩, s) ∧
      s.Descending f df ∧ s.cap = cap := by
  have hstep : Scalar.least (.real a) cap = .real a := by
    unfold Scalar.least
    apply if_neg
    cases cap with
    | real c =>
      rw [Exact.real_lt, not_lt]
      exact hcap
    | infinite negative =>
      obtain rfl : negative = false := hcap
      exact nofun
    | undefined => exact absurd hcap id
  have hslope' : Exact.real df < 0 := hslope
  have ha' : 0 < Exact.real a := ha
  refine ⟨⟨.searching, .real f, .real df, cap, 0⟩, ?_, ⟨rfl, rfl, rfl, hslope⟩, rfl⟩
  simp only [Search.start, hstep, if_pos hslope', if_pos ha']

/-- The shorter step is the lowest point of the parabola through both values, kept between the
bounds of the rule. -/
theorem Descending.shorterStep_real (h : s.Descending f df) {amin : ℝ}
    (hamin : rule.amin = .real amin) (a v : ℝ) :
    s.shorterStep rule (.real a) (.real v) =
      .real (min (max (if 0 < v - f - df * a then -(1 / 2) * df * a * a / (v - f - df * a)
        else 1 / 2 * a) (amin * a)) (1 / 2 * a)) := by
  have hhalf : (Scalar.half : Exact) = .real (1 / 2) := rfl
  have hexcess : s.excess (.real a) (.real v) = .real (v - f - df * a) := by
    simp [excess, h.value, h.slope]
  unfold shorterStep
  rw [if_pos (Exact.isFinite_real v), hexcess, hamin, hhalf, h.slope]
  by_cases hpos : 0 < v - f - df * a
  · have hpos' : 0 < Exact.real (v - f - df * a) := hpos
    simp only [if_pos hpos, if_pos hpos', Exact.neg_real, Exact.real_mul,
      Exact.real_div _ hpos.ne', Exact.greatest_real, Exact.least_real]
  · have hpos' : ¬ 0 < Exact.real (v - f - df * a) := hpos
    simp only [if_neg hpos, if_neg hpos', Exact.real_mul, Exact.greatest_real, Exact.least_real]

theorem Descending.shorterStep_pos (h : s.Descending f df) (hrule : rule.Works) (ha : 0 < a)
    (v : ℝ) : ∃ b, 0 < b ∧ s.shorterStep rule (.real a) (.real v) = .real b := by
  obtain ⟨amin, hamin, -, hfactor⟩ := hrule.exists_amin
  refine ⟨_, ?_, h.shorterStep_real hfactor a v⟩
  exact lt_min (lt_max_of_lt_right (by positivity)) (by positivity)

@[simp] theorem backtrack_value (s : Search Exact) (rule : Safeguard Exact)
    (reference step value : Exact) : (s.backtrack rule reference step value).2.value = s.value := by
  rcases s.backtrack_cases rule reference step value with
    ⟨-, heq⟩ | ⟨-, -, heq⟩ | ⟨-, -, _, _, -, -, heq⟩ <;> rw [heq]

/-- A step is accepted if its value is low enough, and otherwise cut down. -/
theorem Descending.backtrack (h : s.Descending f df) (hrule : rule.Works) (ha : 0 < a) (v : ℝ)
    (reference : Exact) {reply : Reply Exact} {s' : Search Exact}
    (hreply : s.backtrack rule reference (.real a) (.real v) = (reply, s')) :
    (reply.status = .searching → (∃ b, 0 < b ∧ reply.step = .real b) ∧ s'.Descending f df) ∧
      (reply.status = .converged →
        .real v ≤ reference + rule.ftol * .real a * .real df) := by
  rcases s.backtrack_cases rule reference (.real a) (.real v) with
    ⟨hover, -⟩ | ⟨-, haccepts, heq⟩ | ⟨-, -, status, _, hrejected, -, heq⟩
  · exact absurd h.searching hover
  · cases heq.symm.trans hreply
    refine ⟨nofun, fun _ => ?_⟩
    rw [← h.slope]
    exact ((s.accepts_iff _ _ _ _).mp haccepts).2
  · cases heq.symm.trans hreply
    exact ⟨fun hstatus => ⟨h.shorterStep_pos hrule ha v, hstatus, h.value, h.slope, h.slope_neg⟩,
      fun hstatus => absurd hstatus hrejected⟩

end Search

/-! ## The bracket of a Wolfe search -/

namespace Wolfe

variable {b : Wolfe Exact} {f df a v : ℝ}

/-- The bracket is not empty, and the search may not go beyond a positive step. -/
structure Bracket (b : Wolfe Exact) : Prop where
  lo : ∃ lo, 0 ≤ lo ∧ b.lo = .real lo
  hi : (∃ hi, 0 < hi ∧ b.hi = .real hi) ∨ b.hi = .infinite false
  cap : 0 < b.search.cap

/-- A bracket that has an end, or else a beginning beyond the origin. -/
structure Narrowed (b : Wolfe Exact) : Prop extends b.Bracket where
  narrowed : (∃ hi, 0 < hi ∧ b.hi = .real hi) ∨ 0 < b.lo

theorem Narrowed.nextStep_pos (h : b.Narrowed) : ∃ c, 0 < c ∧ b.nextStep = .real c := by
  obtain ⟨lo, hlo, hlower⟩ := h.lo
  unfold nextStep
  rcases h.hi with ⟨hi, hhi, hupper⟩ | hupper
  · refine ⟨1 / 2 * (lo + hi), by positivity, ?_⟩
    rw [hupper, if_pos (Exact.isFinite_real hi), hlower]
    rfl
  · have hinfinite : ¬ Scalar.isFinite b.hi = true := by
      rw [hupper]
      exact nofun
    have hpos : 0 < b.lo := by
      rcases h.narrowed with ⟨hi, -, hreal⟩ | hpos
      · rw [hreal] at hupper
        cases hupper
      · exact hpos
    have hlopos : 0 < lo := by
      rw [hlower] at hpos
      exact hpos
    have hdouble : Scalar.two * b.lo = .real (2 * lo) := by
      rw [hlower]
      rfl
    obtain ⟨c, hc, hleast, -⟩ := Exact.exists_least_pos (a := 2 * lo) (by positivity) h.cap
    exact ⟨c, hc, by rw [if_neg hinfinite, hdouble, hleast]⟩

theorem Narrowed.reject (h : b.Narrowed) (hsearch : b.search.Descending f df)
    {reply : Reply Exact} {b' : Wolfe Exact} (hreply : b.reject = (reply, b')) :
    b'.search.value = b.search.value ∧ reply.status ≠ .converged ∧
      (reply.status = .searching → (∃ c, 0 < c ∧ reply.step = .real c) ∧
        b'.search.Descending f df ∧ b'.Bracket) := by
  rcases b.reject_cases with ⟨_, -, heq⟩ | ⟨-, -, heq⟩
  · cases heq.symm.trans hreply
    exact ⟨rfl, nofun, nofun⟩
  · cases heq.symm.trans hreply
    exact ⟨rfl, nofun, fun _ => ⟨h.nextStep_pos,
      ⟨hsearch.searching, hsearch.value, hsearch.slope, hsearch.slope_neg⟩,
      ⟨h.lo, h.hi, h.cap⟩⟩⟩

/-- A step is accepted if its value is low enough, and otherwise narrows the
bracket. -/
theorem Bracket.iterate (h : b.Bracket) (hsearch : b.search.Descending f df)
    (hrule : b.rule.Works) (ha : 0 < a) (v : ℝ) (slope : Exact) {reply : Reply Exact}
    {b' : Wolfe Exact} (hreply : b.iterate (.real a) (.real v) slope = (reply, b')) :
    b'.search.value = b.search.value ∧
      (reply.status = .searching → (∃ c, 0 < c ∧ reply.step = .real c) ∧
        b'.search.Descending f df ∧ b'.Bracket) ∧
      (reply.status = .converged →
        .real v ≤ b.search.value + b.rule.ftol * .real a * .real df) := by
  have hlow : ¬ b.tooHigh (.real a) (.real v) = true →
      .real v ≤ b.search.value + b.rule.ftol * .real a * .real df := by
    intro hnot
    obtain ⟨ftol, -, hftol⟩ := exists_real_of_pos hrule.ftol_pos
      (ne_infinite_of_lt hrule.gtol_gt)
    have hnot : ¬ b.search.target b.search.value b.rule.ftol (.real a) < .real v := by
      intro hlt
      apply hnot
      rw [tooHigh, Bool.or_eq_true, decide_eq_true_iff]
      exact .inr hlt
    rw [Search.target, hsearch.value, hsearch.slope, hftol] at hnot
    rw [hsearch.value, hftol]
    exact OrderedScalar.le_of_not_lt (Exact.isNaN_real _) (Exact.isNaN_real v) hnot
  rcases b.iterate_branches (.real a) (.real v) slope with
    ⟨hover, -⟩ | ⟨-, ⟨-, heq⟩ | ⟨-, -, -, heq⟩ | ⟨hnot, -, heq⟩⟩
  · exact absurd hsearch.searching hover
  · have hnarrowed : Narrowed { b with hi := .real a } :=
      { lo := h.lo
        hi := .inl ⟨a, ha, rfl⟩
        cap := h.cap
        narrowed := .inl ⟨a, ha, rfl⟩ }
    obtain ⟨hvalue, hconverged, hnext⟩ := hnarrowed.reject hsearch (heq.symm.trans hreply)
    exact ⟨hvalue, hnext, fun hstatus => absurd hstatus hconverged⟩
  · have hnarrowed : Narrowed { b with lo := .real a } :=
      { lo := ⟨a, ha.le, rfl⟩
        hi := h.hi
        cap := h.cap
        narrowed := .inr ha }
    obtain ⟨hvalue, hconverged, hnext⟩ := hnarrowed.reject hsearch (heq.symm.trans hreply)
    exact ⟨hvalue, hnext, fun hstatus => absurd hstatus hconverged⟩
  · cases heq.symm.trans hreply
    refine ⟨rfl, fun hstatus => ?_, fun _ => hlow (Bool.eq_false_iff.mp hnot)⟩
    cases hstatus

end Wolfe

/-! ## The strategies -/

namespace Strategy

def Bracketed : Strategy Exact → Prop
  | .wolfe b => b.Bracket
  | _ => True

/-- A strategy that searches from a real value along a descending slope. -/
structure Underway (s : Strategy Exact) (f df : ℝ) : Prop where
  search : s.search.Descending f df
  bracketed : s.Bracketed

variable {s s' : Strategy Exact} {f df a : ℝ} {values : List Exact} {reply : Reply Exact}

theorem tracks_reset (s : Strategy Exact) : s.reset.Tracks [] := by
  cases s with
  | nonmonotone b => exact (List.rtake_nil _).symm
  | _ => exact nofun

/-- A search along a descending slope with a positive step is begun, and its origin is
the last one that the strategy refers to. -/
theorem start_underway (htracks : s.Tracks values) (hslope : df < 0) (ha : 0 < a)
    {cap : Exact} (hcap : .real a ≤ cap) (f : ℝ) :
    ∃ s', s.start (.real f) (.real df) (.real a) cap = (⟨.searching, .real a, []⟩, s') ∧
      s'.Underway f df ∧ s'.Tracks (values ++ [Exact.real f]) := by
  obtain ⟨begun, hstart, hbegun, hcapped⟩ := Search.start_descending hslope ha hcap f
  have hlast : ∀ v, (values ++ [Exact.real f]).getLast? = some v → begun.value = v := by
    intro v hv
    rw [List.getLast?_concat] at hv
    rw [hbegun.value]
    exact Option.some.inj hv
  cases s with
  | backtracking b =>
    refine ⟨.backtracking { b with search := begun }, ?_, ⟨hbegun, trivial⟩,
      tracks_backtracking.mpr hlast⟩
    simp only [start, Backtracking.start, hstart]
  | nonmonotone b =>
    refine ⟨.nonmonotone { b with search := begun, history := b.remember (.real f) }, ?_,
      ⟨hbegun, trivial⟩, ?_⟩
    · simp only [start, Nonmonotone.start, hstart, if_true]
    · have hhistory : b.remember (.real f) = (b.history ++ [Exact.real f]).rtake b.window := rfl
      rw [tracks_nonmonotone, hhistory, tracks_nonmonotone.mp htracks]
      exact rtake_concat_of_rtake values _ b.window
  | wolfe b =>
    refine ⟨.wolfe { b with search := begun, lo := 0, hi := Scalar.infinity }, ?_,
      ⟨hbegun, ?_⟩, tracks_wolfe.mpr hlast⟩
    · simp only [start, Wolfe.start, hstart]
    · have hpos : 0 < cap := by
        cases cap with
        | real c => exact lt_of_lt_of_le (α := ℝ) ha hcap
        | infinite negative => exact hcap
        | undefined => exact absurd hcap id
      exact ⟨⟨0, le_refl 0, rfl⟩, .inr rfl, hcapped ▸ hpos⟩

/-- What a reply to a trial promises.  While it searches, the strategy asks for a positive
step; and it accepts a value only if it lies below one of the references by the fraction
of the promised decrease that its rule asks for. -/
structure Heeds (s s' : Strategy Exact) (values : List Exact) (f df a v : ℝ)
    (reply : Reply Exact) : Prop where
  tracks : s'.Tracks values
  next : reply.status = .searching →
    (∃ c, 0 < c ∧ reply.step = .real c) ∧ s'.Underway f df
  accepted : reply.status = .converged → ∃ r ∈ values.rtake s.rule.window,
    .real v ≤ r + s.rule.ftol * .real a * .real df

theorem mem_rtake_one (values : List Exact) (f : ℝ) :
    Exact.real f ∈ (values ++ [Exact.real f]).rtake 1 := by
  rw [List.rtake_concat_succ]
  exact List.mem_append_right _ (List.mem_singleton_self _)

theorem Underway.heeds_backtracking {b : Backtracking Exact}
    (h : (backtracking b).Underway f df) (hrule : b.rule.Works)
    (htracks : (backtracking b).Tracks (values ++ [Exact.real f])) (ha : 0 < a) (v : ℝ) :
    (backtracking b).Heeds (.backtracking (b.iterate (.real a) (.real v)).2)
      (values ++ [Exact.real f]) f df a v (b.iterate (.real a) (.real v)).1 := by
  have hsearch : b.search.Descending f df := h.search
  cases hbacktrack : b.search.backtrack b.rule b.search.value (.real a) (.real v) with
  | mk reply search =>
    obtain ⟨hnext, haccepted⟩ := hsearch.backtrack hrule ha v _ hbacktrack
    have hvalue := Search.backtrack_value b.search b.rule b.search.value (.real a) (.real v)
    rw [hbacktrack] at hvalue
    simp only [Backtracking.iterate, hbacktrack]
    refine ⟨?_, fun hstatus => ⟨(hnext hstatus).1, (hnext hstatus).2, trivial⟩,
      fun hstatus => ⟨_, mem_rtake_one values f, ?_⟩⟩
    · exact tracks_backtracking.mpr fun v hv => hvalue.trans (tracks_backtracking.mp htracks v hv)
    · rw [← hsearch.value]
      exact haccepted hstatus

theorem Underway.heeds_nonmonotone {b : Nonmonotone Exact}
    (h : (nonmonotone b).Underway f df) (hrule : b.rule.Works) (hwindow : 1 ≤ b.window)
    (htracks : (nonmonotone b).Tracks (values ++ [Exact.real f])) (ha : 0 < a) (v : ℝ) :
    (nonmonotone b).Heeds (.nonmonotone (b.iterate (.real a) (.real v)).2)
      (values ++ [Exact.real f]) f df a v (b.iterate (.real a) (.real v)).1 := by
  have hsearch : b.search.Descending f df := h.search
  have htracked := tracks_nonmonotone.mp htracks
  have hne : b.history ≠ [] := by
    obtain ⟨window, hsucc⟩ := Nat.exists_eq_add_one_of_ne_zero
      (Nat.one_le_iff_ne_zero.mp hwindow)
    rw [htracked, hsucc, List.rtake_concat_succ]
    exact List.append_ne_nil_of_right_ne_nil _ (List.cons_ne_nil _ _)
  have hmem := Nonmonotone.reference_mem hne
  rw [htracked] at hmem
  cases hbacktrack : b.search.backtrack b.rule b.reference (.real a) (.real v) with
  | mk reply search =>
    obtain ⟨hnext, haccepted⟩ := hsearch.backtrack hrule ha v _ hbacktrack
    simp only [Nonmonotone.iterate, hbacktrack]
    exact ⟨tracks_nonmonotone.mpr htracked,
      fun hstatus => ⟨(hnext hstatus).1, (hnext hstatus).2, trivial⟩,
      fun hstatus => ⟨b.reference, hmem, haccepted hstatus⟩⟩

theorem Underway.heeds_wolfe {b : Wolfe Exact} (h : (wolfe b).Underway f df)
    (hrule : b.rule.Works) (htracks : (wolfe b).Tracks (values ++ [Exact.real f])) (ha : 0 < a)
    (v : ℝ) (slope : Exact) :
    (wolfe b).Heeds (.wolfe (b.iterate (.real a) (.real v) slope).2) (values ++ [Exact.real f]) f
      df a v (b.iterate (.real a) (.real v) slope).1 := by
  have hsearch : b.search.Descending f df := h.search
  have hbracket : b.Bracket := h.bracketed
  obtain ⟨hvalue, hnext, haccepted⟩ := hbracket.iterate hsearch hrule ha v slope rfl
  refine ⟨?_, fun hstatus => ?_, fun hstatus => ⟨_, mem_rtake_one values f, ?_⟩⟩
  · exact tracks_wolfe.mpr fun v hv => hvalue.trans (tracks_wolfe.mp htracks v hv)
  · obtain ⟨hstep, hdescending, hbracketed⟩ := hnext hstatus
    exact ⟨hstep, hdescending, hbracketed⟩
  · rw [← hsearch.value]
    exact haccepted hstatus

theorem Underway.iterate (h : s.Underway f df) (hrule : s.rule.Works)
    (htracks : s.Tracks (values ++ [Exact.real f])) (ha : 0 < a) (v : ℝ) (slope : Exact)
    (hreply : s.iterate (.real a) (.real v) slope = (reply, s')) :
    s.Heeds s' (values ++ [Exact.real f]) f df a v reply := by
  cases s with
  | backtracking b =>
    cases hreply
    exact h.heeds_backtracking hrule htracks ha v
  | nonmonotone b =>
    cases hreply
    exact h.heeds_nonmonotone hrule.1 hrule.2 htracks ha v
  | wolfe b =>
    cases hreply
    exact h.heeds_wolfe hrule htracks ha v slope

end Strategy

end

end VariableMetric
