import VariableMetric.Proofs.Double.Order
import VariableMetric.Proofs.LineSearch.Steps

/-!
# How far the steps reach

A search that is told of the trials that it asks for shortens its steps, or keeps them inside a
bracket.  In double precision its steps are positive and at most the cap, with three exceptions.
A step may vanish if the least step of the rule does not exclude it.  A safeguarded step is no
number if the parabola of the first step has a numerator that is too large.  The middle of a
bracket is infinite if twice the cap is too large.
-/

namespace VariableMetric

/-! ## Telling a search of its trials -/

/-- A strategy with its last answer. -/
structure Dialogue (α : Type) where
  reply : Reply α
  strategy : Strategy α

namespace Dialogue

variable {α : Type} [Scalar α]

def begin (t : Strategy α) (value slope step cap : α) : Dialogue α :=
  ⟨(t.start value slope step cap).1, (t.start value slope step cap).2⟩

/-- The strategy is told of the value and the slope at the step that it asked for. -/
def tell (d : Dialogue α) (value slope : α) : Dialogue α :=
  ⟨(d.strategy.iterate d.reply.step value slope).1, (d.strategy.iterate d.reply.step value slope).2⟩

def after (d : Dialogue α) (told : List (α × α)) : Dialogue α :=
  told.foldl (fun d answer => d.tell answer.1 answer.2) d

end Dialogue

/-! ## Steps that are spoiled -/

/-- What a search is begun with: the slope at the origin, the first step and the cap. -/
structure Outset where
  slope : Float
  first : Float
  cap : Float

/-- A search is begun along a descent direction with a step that its cap allows. -/
structure Outset.Proper (o : Outset) : Prop where
  descends : o.slope < 0
  first_le : o.first ≤ o.cap

/-- The numerator of the minimizer of a parabola is too large at the first step. -/
def Outset.Overflows (o : Outset) : Prop :=
  Scalar.isFinite (-Scalar.half * o.slope * o.first * o.first) = false

/-- The ways in which a step can fail to be positive and at most the cap. -/
inductive Rule.Spoils (o : Outset) (a : Float) : Rule Float → Prop
  | vanished {rule : Rule Float} : Scalar.equal a 0 = true → ¬ 0 < rule.stpmin → Spoils o a rule
  | backtracking {r : Safeguard Float} : Scalar.isNaN a = true → o.Overflows →
      Spoils o a (.backtracking r)
  | nonmonotone {r : Safeguard Float} {window : ℕ} : Scalar.isNaN a = true → o.Overflows →
      Spoils o a (.nonmonotone r window)
  | wolfe {r : WolfeRule Float} : o.cap < a → Scalar.isFinite (o.cap + o.cap) = false →
      Spoils o a (.wolfe r)

/-- Factors between zero and one half, as far as a rule has them. -/
def Rule.Shortens : Rule Float → Prop
  | backtracking r => 0 < r.amin ∧ r.amin ≤ Scalar.half
  | nonmonotone r _ => 0 < r.amin ∧ r.amin ≤ Scalar.half
  | wolfe _ => True

/-! ## Factors that are given as options -/

/-- A double with binary places behind the point is compared as so many of its last ones. -/
theorem Number.wholeAbove_of_fraction {x : Float} {m q : ℤ} (hnumber : x.isNaN = false)
    (hfinite : x.isFinite = true) (hsignificand : signedSignificand x = (m, q)) (hq : q < 0)
    (i : ℤ) : wholeAbove i x = decide (m < i * Int.pow 2 (-q).toNat) := by
  unfold wholeAbove
  rw [hnumber, hfinite, hsignificand, if_neg Bool.false_ne_true, Bool.not_true,
    if_neg Bool.false_ne_true]
  exact if_neg (not_le.mpr hq)

/-- Between zero and one half there is no whole number. -/
theorem Number.wholeAbove_half_of_zero {i : ℤ} (h : wholeAbove i 0.0 = true) :
    wholeAbove i 0.5 = true := by
  have hzero : signedSignificand 0.0 = (0, -1074) := by decide
  have hhalf : signedSignificand 0.5 = (Int.pow 2 52, -53) := by decide
  have hplace : (0 : ℤ) < Int.pow 2 (-(-1074 : ℤ)).toNat := Int.pow_pos (by decide)
  rw [wholeAbove_of_fraction rfl rfl hzero (by decide), decide_eq_true_iff] at h
  rw [wholeAbove_of_fraction rfl rfl hhalf (by decide), decide_eq_true_iff]
  have hpos : 0 < i := pos_of_mul_pos_left h hplace.le
  calc Int.pow 2 52 < 1 * Int.pow 2 53 := by decide
    _ ≤ i * Int.pow 2 53 := mul_le_mul_of_nonneg_right (by omega) (by decide)

theorem Value.double_of_isAtMostHalf {v : Value} (h : Config.isAtMostHalf v = .ok true) :
    ∃ x, v = .float x ∧ 0 < x ∧ x ≤ Scalar.half := by
  obtain ⟨above, habove, hatMost⟩ := exists_of_bind_eq_ok h
  cases above with
  | false => cases hatMost
  | true =>
    have hnot (i : ℤ) (habove : Number.wholeAbove i 0.0 = true)
        (hatMost : (true && !Number.wholeAbove i 0.5) = true) : False := by
      rw [Number.wholeAbove_half_of_zero habove] at hatMost
      cases hatMost
    cases v with
    | float x =>
      exact ⟨x, rfl, of_decide_eq_true (Except.ok.inj habove),
        of_decide_eq_true (Except.ok.inj hatMost)⟩
    | int i => exact (hnot i (Except.ok.inj habove) (Except.ok.inj hatMost)).elim
    | bool b => exact (hnot _ (Except.ok.inj habove) (Except.ok.inj hatMost)).elim
    | _ => cases habove

namespace Strategy

open Config

theorem amin_of_safeguard {p : StrategyParameters} {rule : Safeguard Float}
    (h : safeguard p = .ok rule) : 0 < rule.amin ∧ rule.amin ≤ Scalar.half := by
  have hread := readFrom_of_safeguard h
  obtain ⟨x, hx, hpos, hle⟩ := Value.double_of_isAtMostHalf hread.amin_checked
  have hamin := hread.amin_eq
  rw [hx] at hamin
  obtain rfl := Except.ok.inj hamin
  exact ⟨hpos, hle⟩

/-- However a strategy is built, a factor by which it cuts its steps lies between zero and one
half. -/
theorem shortens_of_build {kind : StrategyKind} {p : StrategyParameters} {s : Strategy Float}
    (h : build kind p = .ok s) : s.rule.Shortens := by
  cases kind with
  | backtracking =>
    obtain ⟨rule, hrule, h⟩ := exists_of_bind_eq_ok h
    obtain rfl := Except.ok.inj h
    exact amin_of_safeguard hrule
  | nonmonotone =>
    obtain ⟨rule, hrule, h⟩ := exists_of_bind_eq_ok h
    obtain ⟨window, -, h⟩ := exists_of_bind_eq_ok h
    obtain rfl := Except.ok.inj h
    exact amin_of_safeguard hrule
  | wolfe =>
    obtain ⟨rule, hrule, h⟩ := exists_of_bind_eq_ok h
    obtain rfl := Except.ok.inj h
    exact trivial

end Strategy

/-! ## Safeguarded steps -/

section Safeguarded

variable {o : Outset} {s : Search Float} {rule : Safeguard Float} {a b step value : Float}

/-- A step that does not lie beyond the first one, or is no number where this is excused. -/
def Outset.Reaches (o : Outset) (a : Float) : Prop :=
  0 ≤ a ∧ a ≤ o.first ∨ Scalar.isNaN a = true ∧ o.Overflows

theorem Outset.Reaches.mul {c : Float} (ha : o.Reaches a) (hc : 0 < c) (hone : c ≤ 1) :
    o.Reaches (c * a) := by
  rcases ha with ⟨hnonneg, hfirst⟩ | ⟨hnan, hover⟩
  · obtain ⟨hproduct, hle⟩ := Double.mul_le_of_le_one hc hone hnonneg
    exact .inl ⟨hproduct, Double.le_trans hle hfirst⟩
  · exact .inr ⟨(Double.isNaN_iff _).mpr (Double.unpacked_mul_notANumber c
      ((Double.isNaN_iff a).mp hnan)), hover⟩

/-- A step that is brought between two others reaches no further than they do. -/
theorem Outset.reaches_between {c : Float} (ha : 0 ≤ a ∨ Scalar.isNaN a = true ∧ o.Overflows)
    (hb : o.Reaches b) (hc : 0 ≤ c) (hle : c ≤ o.first) :
    o.Reaches (Scalar.least (Scalar.greatest a b) c) := by
  have hcnumber := Double.isNaN_of_nonneg hc
  unfold Scalar.least
  split
  next => exact .inl ⟨hc, hle⟩
  next hnot =>
    unfold Scalar.greatest at hnot ⊢
    split at hnot
    next habove =>
      rw [if_pos habove]
      exact hb
    next hbelow =>
      rw [if_neg hbelow]
      rcases ha with hnonneg | hspoiled
      · have hac : a ≤ c := (Double.le_iff_not_lt a c).mpr
          ⟨hnot, Double.isNaN_of_nonneg hnonneg, hcnumber⟩
        exact .inl ⟨hnonneg, Double.le_trans hac hle⟩
      · exact .inr hspoiled

/-- What is no number is not brought between anything. -/
theorem least_greatest_of_isNaN {c : Float} (ha : Scalar.isNaN a = true) :
    Scalar.least (Scalar.greatest a b) c = a := by
  have hgreatest : Scalar.greatest a b = a := if_neg fun hlt => by
    rw [(Double.isNaN_of_lt hlt).1] at ha
    cases ha
  rw [hgreatest]
  exact if_neg (OrderedScalar.not_lt_of_isNaN c ha)

/-- The numerator of the minimizer is not negative; it is finite if it is so at the first step. -/
theorem Outset.Proper.numerator (ho : o.Proper) (ha : 0 ≤ a) (hle : a ≤ o.first) :
    (0 ≤ -Scalar.half * o.slope * a * a ∧
      Scalar.isFinite (-Scalar.half * o.slope * a * a) = true) ∨ o.Overflows := by
  have hfactor : 0 ≤ -Scalar.half * o.slope := Double.mul_nonneg_of_neg (by decide) ho.descends
  cases hfinite : Scalar.isFinite (-Scalar.half * o.slope * o.first * o.first) with
  | true => exact .inl (Double.mul_mul_nonneg hfactor ha hle hfinite)
  | false => exact .inr hfinite

theorem Outset.Proper.minimizer (ho : o.Proper) (ha : 0 ≤ a) (hle : a ≤ o.first) {c : Float}
    (hc : 0 < c) : 0 ≤ -Scalar.half * o.slope * a * a / c ∨
      Scalar.isNaN (-Scalar.half * o.slope * a * a / c) = true ∧ o.Overflows := by
  have hfactor : 0 ≤ -Scalar.half * o.slope := Double.mul_nonneg_of_neg (by decide) ho.descends
  rcases ho.numerator ha hle with ⟨hnonneg, hfinite⟩ | hover
  · exact .inl (Double.div_nonneg_of_pos hnonneg hfinite hc)
  · exact (Double.mul_mul_div_nonneg_or_isNaN hfactor ha hc).imp_right fun hnan =>
      ⟨(Double.isNaN_iff _).mpr hnan, hover⟩

/-- Nothing lies above the tangent at a step that is no number. -/
theorem Search.not_pos_excess (hnan : Scalar.isNaN step = true) : ¬ 0 < s.excess step value := by
  have hexcess : Scalar.isNaN (s.excess step value) = true := (Double.isNaN_iff _).mpr
    (Double.unpacked_sub_notANumber _
      (Double.unpacked_mul_notANumber _ ((Double.isNaN_iff step).mp hnan)))
  intro hpos
  rw [(Double.isNaN_of_lt hpos).2] at hexcess
  cases hexcess

theorem Search.reaches_shorterStep (hrule : 0 < rule.amin ∧ rule.amin ≤ Scalar.half)
    (ho : o.Proper) (hslope : s.slope = o.slope) (ha : o.Reaches step) :
    o.Reaches (s.shorterStep rule step value) := by
  have hhalf : (Scalar.half : Float) ≤ 1 := by decide
  have hfactor := ha.mul hrule.1 (Double.le_trans hrule.2 hhalf)
  have hmiddle : o.Reaches (Scalar.half * step) := ha.mul (by decide) hhalf
  unfold shorterStep
  split
  next hfinite =>
    rcases ha with ⟨hnonneg, hle⟩ | ⟨hnan, hover⟩
    · obtain ⟨hmiddle0, hmiddle1⟩ := Double.mul_le_of_le_one (c := Scalar.half) (by decide) hhalf
        hnonneg
      refine Outset.reaches_between ?_ hfactor hmiddle0 (Double.le_trans hmiddle1 hle)
      split
      next hexcess =>
        rw [hslope]
        exact ho.minimizer hnonneg hle hexcess
      next => exact .inl hmiddle0
    · have hmiddlenan : Scalar.isNaN (Scalar.half * step) = true := (Double.isNaN_iff _).mpr
        (Double.unpacked_mul_notANumber _ ((Double.isNaN_iff step).mp hnan))
      dsimp only
      split
      next hexcess => exact absurd hexcess (not_pos_excess hnan)
      next =>
        rw [least_greatest_of_isNaN hmiddlenan]
        exact hmiddle
  next => exact hfactor

theorem Search.reaches_backtrack (hrule : 0 < rule.amin ∧ rule.amin ≤ Scalar.half)
    (ho : o.Proper) (hslope : s.slope = o.slope) (ha : o.Reaches step) (reference : Float) :
    (s.backtrack rule reference step value).2.slope = o.slope ∧
      o.Reaches (s.backtrack rule reference step value).1.step := by
  rcases s.backtrack_cases rule reference step value with
    ⟨-, heq⟩ | ⟨-, -, heq⟩ | ⟨-, -, status, notices, -, -, heq⟩
  · rw [heq]
    exact ⟨hslope, ha⟩
  · rw [heq]
    exact ⟨hslope, ha⟩
  · rw [heq]
    exact ⟨hslope, reaches_shorterStep hrule ho hslope ha⟩

end Safeguarded

/-! ## Steps inside a bracket -/

/-- A step that does not lie beyond the cap, or is infinite where this is excused. -/
def Outset.Admits (o : Outset) (a : Float) : Prop :=
  0 ≤ a ∧ (a ≤ o.cap ∨ Scalar.isFinite a = false ∧ Scalar.isFinite (o.cap + o.cap) = false)

theorem Outset.Admits.le_cap {o : Outset} {a : Float} (h : o.Admits a)
    (hfinite : Scalar.isFinite a = true) : a ≤ o.cap := by
  rcases h.2 with hle | ⟨hinfinite, -⟩
  · exact hle
  · rw [hfinite] at hinfinite
    cases hinfinite

namespace Wolfe

variable {o : Outset} {b : Wolfe Float} {step : Float}

/-- The ends of a bracket do not lie beyond the cap as far as they are numbers. -/
structure Within (b : Wolfe Float) (o : Outset) : Prop where
  cap_eq : b.search.cap = o.cap
  cap_nonneg : 0 ≤ o.cap
  lo_nonneg : 0 ≤ b.lo
  lo_finite : Scalar.isFinite b.lo = true
  lo_le : b.lo ≤ o.cap
  hi_nonneg : 0 ≤ b.hi
  hi_le : Scalar.isFinite b.hi = true → b.hi ≤ o.cap

theorem within_unbounded (b : Wolfe Float) {s : Search Float} (hcap : s.cap = o.cap)
    (hnonneg : 0 ≤ o.cap) : { b with search := s, lo := 0, hi := Scalar.infinity }.Within o := by
  have hzero : (0 : Float) ≤ 0 := by decide
  have hinfinity : (0 : Float) ≤ Scalar.infinity := by decide
  have hinfinite : Scalar.isFinite (Scalar.infinity : Float) = false := rfl
  exact {
    cap_eq := hcap
    cap_nonneg := hnonneg
    lo_nonneg := hzero
    lo_finite := (rfl : Scalar.isFinite (0 : Float) = true)
    lo_le := hnonneg
    hi_nonneg := hinfinity
    hi_le := fun hfinite => absurd (hinfinite.symm.trans hfinite) Bool.false_ne_true }

theorem Within.cut (h : b.Within o) (ha : o.Admits step) : { b with hi := step }.Within o :=
  { h with hi_nonneg := ha.1, hi_le := ha.le_cap }

theorem Within.raise (h : b.Within o) (ha : o.Admits step) (hbelow : ¬ b.search.cap ≤ step) :
    { b with lo := step }.Within o := by
  rw [h.cap_eq] at hbelow
  have hfinite : Scalar.isFinite step = true := by
    by_contra hinfinite
    rw [Bool.not_eq_true] at hinfinite
    exact hbelow (Double.le_of_not_isFinite h.cap_nonneg ha.1 hinfinite)
  exact { h with lo_nonneg := ha.1, lo_finite := hfinite, lo_le := ha.le_cap hfinite }

/-- The middle of a bracket lies inside it, unless the sum of its ends is too large; a doubled
step is cut down to the cap. -/
theorem Within.nextStep (h : b.Within o) : o.Admits b.nextStep := by
  unfold Wolfe.nextStep
  split
  next hfinite =>
    have hle := h.hi_le hfinite
    cases hsum : Scalar.isFinite (b.lo + b.hi) with
    | true =>
      obtain ⟨hnonneg, hcapped⟩ := Double.half_add_le h.lo_nonneg h.hi_nonneg h.lo_finite hfinite
        h.lo_le hle hsum
      exact ⟨hnonneg, .inl hcapped⟩
    | false =>
      obtain ⟨hnonneg, hinfinite⟩ := Double.half_add_of_not_isFinite h.lo_nonneg h.hi_nonneg
        h.lo_finite hfinite hsum
      refine ⟨hnonneg, ?_⟩
      cases hcap : Scalar.isFinite o.cap with
      | false => exact .inl (Double.le_of_not_isFinite hnonneg h.cap_nonneg hcap)
      | true =>
        refine .inr ⟨hinfinite, ?_⟩
        rw [← Bool.not_eq_true]
        intro htwice
        rw [Double.isFinite_add_of_le h.lo_nonneg h.hi_nonneg hcap h.lo_le hle htwice] at hsum
        cases hsum
  next =>
    have htwice : 0 ≤ Scalar.two * b.lo :=
      (Double.nearest_mul (by decide) h.lo_nonneg rfl h.lo_finite).nonneg
    rw [h.cap_eq]
    unfold Scalar.least
    split
    next => exact ⟨h.cap_nonneg, .inl (Double.le_refl_of_nonneg h.cap_nonneg)⟩
    next hnot => exact ⟨htwice, .inl ((Double.le_iff_not_lt _ _).mpr
        ⟨hnot, Double.isNaN_of_nonneg htwice, Double.isNaN_of_nonneg h.cap_nonneg⟩)⟩

theorem Within.reject (h : b.Within o) :
    b.reject.2.Within o ∧ o.Admits b.reject.1.step := by
  rcases b.reject_cases with ⟨notices, -, heq⟩ | ⟨-, -, heq⟩ <;> rw [heq]
  · exact ⟨{ h with }, h.nextStep⟩
  · exact ⟨{ h with }, h.nextStep⟩

theorem Within.iterate (h : b.Within o) (ha : o.Admits step) (value slope : Float) :
    (b.iterate step value slope).2.Within o ∧ o.Admits (b.iterate step value slope).1.step := by
  rcases b.iterate_branches step value slope with
    ⟨-, heq⟩ | ⟨-, ⟨-, heq⟩ | ⟨-, -, hbelow, heq⟩ | ⟨-, -, heq⟩⟩
  · rw [heq]
    exact ⟨h, ha⟩
  · rw [heq]
    exact (h.cut ha).reject
  · rw [heq]
    exact (h.raise ha hbelow).reject
  · rw [heq]
    exact ⟨{ h with }, ha⟩

end Wolfe

/-! ## Whole searches -/

/-- The step that a strategy has asked for reaches no further than it may, and the strategy keeps
what this needs. -/
def Strategy.Keeps (o : Outset) (step : Float) : Strategy Float → Prop
  | backtracking b => b.search.slope = o.slope ∧ o.Reaches step
  | nonmonotone b => b.search.slope = o.slope ∧ o.Reaches step
  | wolfe b => b.Within o ∧ o.Admits step

theorem Strategy.Keeps.iterate {o : Outset} {step : Float} {t : Strategy Float} (h : t.Keeps o step)
    (hrule : t.rule.Shortens) (ho : o.Proper) (value slope : Float) :
    (t.iterate step value slope).2.Keeps o (t.iterate step value slope).1.step := by
  cases t with
  | backtracking b => exact Search.reaches_backtrack hrule ho h.1 h.2 _
  | nonmonotone b => exact Search.reaches_backtrack hrule ho h.1 h.2 _
  | wolfe b => exact h.1.iterate h.2 value slope

theorem least_le_of_not_isNaN {step cap : Float} (hpos : 0 < Scalar.least step cap)
    (hcap : Scalar.isNaN cap = false) : Scalar.least step cap ≤ cap := by
  unfold Scalar.least at hpos ⊢
  split at hpos
  next hbelow =>
    rw [if_pos hbelow]
    exact Double.le_refl_of_nonneg (Double.le_of_lt hpos)
  next hnot =>
    rw [if_neg hnot]
    exact (Double.le_iff_not_lt _ _).mpr ⟨hnot, (Double.isNaN_of_lt hpos).2, hcap⟩

/-- A search that is begun is begun properly, if its cap is a number. -/
theorem Strategy.keeps_start {t : Strategy Float} {value slope step cap : Float}
    (hcap : Scalar.isNaN cap = false)
    (h : (t.start value slope step cap).1.status = .searching) :
    Outset.Proper ⟨slope, Scalar.least step cap, cap⟩ ∧
      (t.start value slope step cap).2.Keeps ⟨slope, Scalar.least step cap, cap⟩
        (t.start value slope step cap).1.step := by
  obtain ⟨hreply, hsearch⟩ := t.start_search value slope step cap
  rw [hreply] at h ⊢
  rcases Search.start_cases value slope step cap with ⟨_, heq⟩ | ⟨hdescends, hpos, heq⟩
  · rw [heq] at h
    cases h
  · rw [heq] at hsearch ⊢
    have hnonneg := Double.le_of_lt hpos
    have hle := least_le_of_not_isNaN hpos hcap
    have hsafe : Outset.Reaches ⟨slope, Scalar.least step cap, cap⟩ (Scalar.least step cap) :=
      .inl ⟨hnonneg, Double.le_refl_of_nonneg hnonneg⟩
    have hcapped := Double.le_trans hnonneg hle
    refine ⟨⟨hdescends, hle⟩, ?_⟩
    cases t with
    | backtracking b => exact ⟨congrArg Search.slope hsearch, hsafe⟩
    | nonmonotone b => exact ⟨congrArg Search.slope hsearch, hsafe⟩
    | wolfe b =>
      exact ⟨Wolfe.within_unbounded b (congrArg Search.cap hsearch) hcapped, hnonneg, .inl hle⟩

namespace Dialogue

variable {d : Dialogue Float} {rule : Rule Float} {o : Outset}

/-- What is known of a dialogue about a search that was begun properly. -/
structure Follows (d : Dialogue Float) (rule : Rule Float) (o : Outset) : Prop where
  rule_eq : d.strategy.rule = rule
  keeps : d.strategy.Keeps o d.reply.step
  allowed : d.reply.status = .searching → rule.Allows d.reply.step

theorem follows_begin {t : Strategy Float} {value slope step cap : Float}
    (hcap : Scalar.isNaN cap = false)
    (h : (t.start value slope step cap).1.status = .searching) :
    (begin t value slope step cap).Follows t.rule ⟨slope, Scalar.least step cap, cap⟩ where
  rule_eq := t.rule_start value slope step cap
  keeps := (Strategy.keeps_start hcap h).2
  allowed := Strategy.allows_start

theorem Follows.tell (h : d.Follows rule o) (hrule : rule.Shortens) (ho : o.Proper)
    (value slope : Float) : (d.tell value slope).Follows rule o where
  rule_eq := (d.strategy.rule_iterate _ _ _).trans h.rule_eq
  keeps := h.keeps.iterate (h.rule_eq ▸ hrule) ho value slope
  allowed := fun hsearching => h.rule_eq ▸ Strategy.allows_iterate hsearching

theorem Follows.after (h : d.Follows rule o) (hrule : rule.Shortens) (ho : o.Proper)
    (told : List (Float × Float)) : (d.after told).Follows rule o := by
  induction told generalizing d with
  | nil => exact h
  | cons answer told ih => exact ih (h.tell hrule ho answer.1 answer.2)

/-- A step that is asked for is positive and at most the cap, or spoiled. -/
theorem Follows.pos_and_le_or_spoils (h : d.Follows rule o) (ho : o.Proper)
    (hsearching : d.reply.status = .searching) :
    0 < d.reply.step ∧ d.reply.step ≤ o.cap ∨ rule.Spoils o d.reply.step := by
  have hallowed := h.allowed hsearching
  have hkeeps := h.keeps
  obtain rfl := h.rule_eq
  obtain ⟨⟨status, a, notices⟩, t⟩ := d
  have hpositive (hnonneg : 0 ≤ a) (hle : a ≤ o.cap) : 0 < a ∧ a ≤ o.cap ∨ t.rule.Spoils o a := by
    rcases Double.pos_or_equal_zero hnonneg with hpos | hzero
    · exact .inl ⟨hpos, hle⟩
    · exact .inr (.vanished hzero (hallowed.not_stpmin_pos hzero))
  cases t with
  | backtracking b =>
    rcases hkeeps.2 with ⟨hnonneg, hle⟩ | ⟨hnan, hover⟩
    · exact hpositive hnonneg (Double.le_trans hle ho.first_le)
    · exact .inr (.backtracking hnan hover)
  | nonmonotone b =>
    rcases hkeeps.2 with ⟨hnonneg, hle⟩ | ⟨hnan, hover⟩
    · exact hpositive hnonneg (Double.le_trans hle ho.first_le)
    · exact .inr (.nonmonotone hnan hover)
  | wolfe b =>
    obtain ⟨hwithin, hnonneg, hle | ⟨-, htwice⟩⟩ := hkeeps
    · exact hpositive hnonneg hle
    · by_cases hle : a ≤ o.cap
      · exact hpositive hnonneg hle
      · refine .inr (.wolfe ?_ htwice)
        by_contra hnot
        exact hle ((Double.le_iff_not_lt _ _).mpr ⟨hnot, Double.isNaN_of_nonneg hnonneg,
          Double.isNaN_of_nonneg hwithin.cap_nonneg⟩)

end Dialogue

theorem Rule.Spoils.not_pos_and_le {rule : Rule Float} {o : Outset} {a : Float}
    (h : rule.Spoils o a) : ¬ (0 < a ∧ a ≤ o.cap) := by
  rintro ⟨hpos, hle⟩
  cases h with
  | vanished hzero hstpmin =>
    rw [Double.not_equal_of_lt hpos] at hzero
    cases hzero
  | backtracking hnan hover =>
    rw [(Double.isNaN_of_lt hpos).2] at hnan
    cases hnan
  | nonmonotone hnan hover =>
    rw [(Double.isNaN_of_lt hpos).2] at hnan
    cases hnan
  | wolfe hbeyond htwice => exact ((Double.le_iff_not_lt _ _).mp hle).1 hbeyond

end VariableMetric
