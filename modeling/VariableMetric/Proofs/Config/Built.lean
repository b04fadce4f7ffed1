import VariableMetric.Proofs.Double.Whole
import VariableMetric.Proofs.LineSearch.Reach

/-!
# Line searches built from a checked configuration

The options of a line search are checked twice: with the configuration, and when the line
search is built from them.  What has passed the first check passes the second one, and the
parameters of the line search that is built are in range.

The conversions in between are not covered by either check.  The least step may be no number or
too large for a double, and the limit and the window may be infinite or no number, or the window
longer than anything can be.
-/

namespace VariableMetric

open Config

/-! ## Options that have been checked -/

/-- The options of a line search have passed the check of a configuration. -/
structure SearchOptions.Checked (s : SearchOptions) : Prop where
  ftol : isBetween zero s.ftol one = .ok true
  gtol : isBetween s.ftol s.gtol one = .ok true
  amin : isAtMostHalf s.amin = .ok true
  stpmin : isNotBelow s.stpmin (.int 0) = .ok true
  limit : isNotBelow s.limit (.int 1) = .ok true
  window : isNotBelow s.window (.int 1) = .ok true

theorem SearchOptions.checked_of_checkSearch {s : SearchOptions} {u : Unit}
    (h : checkSearch s = .ok u) : s.Checked := by
  obtain ⟨_, hftol, h⟩ := exists_of_bind_eq_ok h
  obtain ⟨_, hgtol, h⟩ := exists_of_bind_eq_ok h
  obtain ⟨_, hamin, h⟩ := exists_of_bind_eq_ok h
  obtain ⟨_, hstpmin, h⟩ := exists_of_bind_eq_ok h
  obtain ⟨_, hlimit, hwindow⟩ := exists_of_bind_eq_ok h
  exact ⟨Strategy.met_of_require hftol, Strategy.met_of_require hgtol,
    Strategy.met_of_require hamin, Strategy.met_of_require hstpmin,
    Strategy.met_of_require hlimit, Strategy.met_of_require hwindow⟩

theorem Config.checked_of_validate {c : Config} {checked : CheckedConfig}
    (h : c.validate = .ok checked) : checked.search = c.search ∧ c.search.Checked := by
  obtain ⟨_, -, h⟩ := exists_of_bind_eq_ok h
  obtain ⟨_, -, h⟩ := exists_of_bind_eq_ok h
  obtain ⟨_, -, h⟩ := exists_of_bind_eq_ok h
  obtain ⟨_, -, h⟩ := exists_of_bind_eq_ok h
  obtain ⟨_, -, h⟩ := exists_of_bind_eq_ok h
  obtain ⟨_, hsearch, h⟩ := exists_of_bind_eq_ok h
  obtain rfl := Except.ok.inj h
  exact ⟨rfl, SearchOptions.checked_of_checkSearch hsearch⟩

/-- What the two checks do not cover. -/
structure SearchOptions.Convertible (s : SearchOptions) (kind : StrategyKind) : Prop where
  stpmin_small : ∀ i, s.stpmin = .int i → (Number.nearest i).isFinite = true
  stpmin_number : ∀ x, s.stpmin = .float x → Scalar.isNaN x = false
  limit_finite : ∀ x, s.limit = .float x → x.isFinite = true
  window_small : kind = .nonmonotone → s.window.isBelow (.int (2 ^ 63)) = .ok true

/-! ## Parameters in range -/

structure Safeguard.InRange (r : Safeguard Float) : Prop where
  ftol : 0 < r.ftol ∧ r.ftol < 1
  amin : 0 < r.amin ∧ r.amin ≤ Scalar.half
  stpmin : 0 ≤ r.stpmin
  limit : 1 ≤ r.limit

structure WolfeRule.InRange (r : WolfeRule Float) : Prop where
  ftol : 0 < r.ftol ∧ r.ftol < 1
  gtol : r.ftol < r.gtol ∧ r.gtol < 1
  stpmin : 0 ≤ r.stpmin
  limit : 1 ≤ r.limit

def Strategy.InRange : Strategy Float → Prop
  | .backtracking b => b.rule.InRange
  | .nonmonotone b => b.rule.InRange ∧ 1 ≤ b.window
  | .wolfe b => b.rule.InRange

/-! ## Single options -/

namespace Value

theorem float_of_isBetween {x : Float} {v : Value} (hx : 0 ≤ x)
    (h : isBetween (.float x) v one = .ok true) : ∃ y, v = .float y ∧ x < y ∧ y < 1 := by
  obtain ⟨above, habove, h⟩ := exists_of_bind_eq_ok h
  cases above with
  | false => cases h
  | true =>
    cases v with
    | float y =>
      exact ⟨y, rfl, of_decide_eq_true (Except.ok.inj habove), of_decide_eq_true (Except.ok.inj h)⟩
    | int i => exact (Number.not_between_one hx (Except.ok.inj habove) (Except.ok.inj h)).elim
    | bool b => exact (Number.not_between_one hx (Except.ok.inj habove) (Except.ok.inj h)).elim
    | _ => cases habove

/-- It makes no difference whether a value is compared with the whole number or the double. -/
theorem isNotBelow_zero (v : Value) : isNotBelow v zero = isNotBelow v (.int 0) := by
  have hwhole (i : ℤ) : Number.wholeBelow i 0.0 = decide (i < 0) := by
    rw [Bool.eq_iff_iff, Number.wholeBelow_iff rfl, Number.exact_zero, decide_eq_true_iff]
    exact_mod_cast Iff.rfl
  have hsame : v.isBelow zero = v.isBelow (.int 0) := by
    cases v with
    | float x =>
      refine congrArg Except.ok (Bool.eq_iff_iff.mpr ?_)
      exact decide_eq_true_iff.trans (Number.wholeAbove_zero_iff x).symm
    | int i => exact congrArg Except.ok (hwhole i)
    | bool b => exact congrArg Except.ok (hwhole _)
    | _ => rfl
  unfold isNotBelow
  rw [hsame]

theorem below_of_isNotBelow {v bound : Value} (h : isNotBelow v bound = .ok true) :
    v.isBelow bound = .ok false := by
  obtain ⟨below, hbelow, hnot⟩ := exists_of_bind_eq_ok h
  obtain rfl : below = false := by simpa using Except.ok.inj hnot
  exact hbelow

/-- The least step is a double that is not negative if it can be converted to a number. -/
theorem toDouble_nonneg_iff {v : Value} (h : isNotBelow v (.int 0) = .ok true) :
    (∃ x, v.toDouble = .ok x ∧ 0 ≤ x) ↔
      (∀ i, v = .int i → (Number.nearest i).isFinite = true) ∧
        ∀ x, v = .float x → Scalar.isNaN x = false := by
  have hbelow := below_of_isNotBelow h
  cases v with
  | bool b =>
    refine iff_of_true ?_ ⟨nofun, nofun⟩
    cases b with
    | false => exact ⟨0.0, rfl, by decide⟩
    | true => exact ⟨1.0, rfl, by decide⟩
  | int i =>
    have hnonneg : 0 ≤ i := not_lt.mp (of_decide_eq_false (Except.ok.inj hbelow))
    refine (Number.doubleOfInt_nonneg_iff hnonneg).trans ⟨fun hfinite => ⟨?_, nofun⟩, ?_⟩
    · rintro _ ⟨⟩
      exact hfinite
    · exact fun h => h.1 i rfl
  | float x =>
    have hnot : ¬ x < 0 := by
      rw [← Number.wholeAbove_zero_iff x]
      exact Bool.eq_false_iff.mp (Except.ok.inj hbelow)
    constructor
    · rintro ⟨_, ⟨⟩, hnonneg⟩
      refine ⟨nofun, ?_⟩
      rintro _ ⟨⟩
      exact Double.isNaN_of_nonneg hnonneg
    · rintro ⟨-, hnumber⟩
      exact ⟨x, rfl, (Double.le_iff_not_lt 0 x).mpr ⟨hnot, rfl, hnumber x rfl⟩⟩
  | _ => cases hbelow

theorem exists_toInt_iff {v : Value} (h : isNotBelow v (.int 1) = .ok true) :
    (∃ i, v.toInt = .ok i) ↔ ∀ x, v = .float x → x.isFinite = true := by
  have hbelow := below_of_isNotBelow h
  cases v with
  | bool b => exact iff_of_true ⟨_, rfl⟩ nofun
  | int i => exact iff_of_true ⟨_, rfl⟩ nofun
  | float x =>
    refine (Number.exists_truncated_iff (Except.ok.inj hbelow)).trans ⟨?_, fun hall => hall x rfl⟩
    rintro hfinite _ ⟨⟩
    exact hfinite
  | _ => cases hbelow

/-- A value is compared with a bound as the whole number that it is cut to. -/
theorem toInt_lt_iff {v : Value} (h : isNotBelow v (.int 1) = .ok true) (bound : ℤ) :
    (∃ i, v.toInt = .ok i ∧ i < bound) ↔ v.isBelow (.int bound) = .ok true := by
  have hbelow := below_of_isNotBelow h
  have hwhole (i : ℤ) : (∃ j, (.ok i : Except Fault ℤ) = .ok j ∧ j < bound) ↔
      (.ok (decide (i < bound)) : Except Fault Bool) = .ok true := by
    simp
  cases v with
  | bool b => exact hwhole _
  | int i => exact hwhole i
  | float x =>
    refine (Number.truncated_lt_iff (Except.ok.inj hbelow) bound).trans ?_
    exact ⟨congrArg Except.ok, Except.ok.inj⟩
  | _ => cases hbelow

end Value

/-! ## Building -/

namespace Strategy

variable {s : SearchOptions}

theorem safeguard_eq (h : s.Checked) {ftol amin : Float} (hftol : s.ftol = .float ftol)
    (hamin : s.amin = .float amin) :
    safeguard (.ofOptions s) = s.stpmin.toDouble >>= fun stpmin =>
      s.limit.toInt >>= fun limit => pure ⟨ftol, amin, stpmin, limit.toNat⟩ := by
  have hfraction := h.ftol
  have hhalf := h.amin
  rw [hftol] at hfraction
  rw [hamin] at hhalf
  unfold safeguard StrategyParameters.ofOptions
  dsimp only
  rw [hftol, hamin, hfraction, hhalf, Value.isNotBelow_zero, h.stpmin, h.limit]
  rfl

theorem wolfeRule_eq (h : s.Checked) {ftol gtol : Float} (hftol : s.ftol = .float ftol)
    (hgtol : s.gtol = .float gtol)
    (hordered : areSlopeFactors (.float ftol) (.float gtol) = .ok true) :
    wolfeRule (.ofOptions s) = s.stpmin.toDouble >>= fun stpmin =>
      s.limit.toInt >>= fun limit => pure ⟨ftol, gtol, stpmin, limit.toNat⟩ := by
  unfold wolfeRule StrategyParameters.ofOptions
  dsimp only
  rw [hftol, hgtol, hordered, h.limit]
  rfl

theorem areSlopeFactors_floats {ftol gtol : Float} (hpos : 0 < ftol) (hlt : ftol < gtol)
    (hone : gtol < 1) : areSlopeFactors (.float ftol) (.float gtol) = .ok true := by
  have hfirst : zero.isBelow (.float ftol) = .ok true := congrArg Except.ok (decide_eq_true hpos)
  have hsecond : (Value.float ftol).isBelow (.float gtol) = .ok true :=
    congrArg Except.ok (decide_eq_true hlt)
  have hthird : (Value.float gtol).isBelow one = .ok true :=
    congrArg Except.ok (decide_eq_true hone)
  unfold areSlopeFactors isBetween
  rw [hfirst, hsecond, hthird]
  rfl

/-- The two conversions that a rule needs beyond what is checked. -/
theorem converted_iff (h : s.Checked) {β : Type} {rule : Float → ℕ → β} {good : β → Prop}
    (hgood : ∀ x i, good (rule x i) ↔ 0 ≤ x ∧ 1 ≤ i) :
    (∃ b, (s.stpmin.toDouble >>= fun stpmin => s.limit.toInt >>= fun limit =>
        pure (rule stpmin limit.toNat)) = .ok b ∧ good b) ↔
      (∃ x, s.stpmin.toDouble = .ok x ∧ 0 ≤ x) ∧ ∃ i, s.limit.toInt = .ok i := by
  rw [exists_bind_eq_ok_iff]
  constructor
  · rintro ⟨x, hx, hrest⟩
    obtain ⟨i, hi, b, hb, hinside⟩ := exists_bind_eq_ok_iff.mp hrest
    obtain rfl := Except.ok.inj hb
    exact ⟨⟨x, hx, ((hgood _ _).mp hinside).1⟩, i, hi⟩
  · rintro ⟨⟨x, hx, hnonneg⟩, i, hi⟩
    have hone : 1 ≤ i.toNat := by
      have hwhole := Value.one_le_of_toInt h.limit hi
      omega
    exact ⟨x, hx, exists_bind_eq_ok_iff.mpr ⟨i, hi, _, rfl, (hgood _ _).mpr ⟨hnonneg, hone⟩⟩⟩

theorem safeguard_inRange_iff (h : s.Checked) :
    (∃ rule, safeguard (.ofOptions s) = .ok rule ∧ rule.InRange) ↔
      (∃ x, s.stpmin.toDouble = .ok x ∧ 0 ≤ x) ∧ ∃ i, s.limit.toInt = .ok i := by
  obtain ⟨ftol, hftol, hpos, hlt⟩ := Value.float_of_isBetween (by decide) h.ftol
  obtain ⟨amin, hamin, hshort, hhalf⟩ := Value.double_of_isAtMostHalf h.amin
  rw [safeguard_eq h hftol hamin]
  exact converted_iff h fun stpmin limit =>
    ⟨fun hrule => ⟨hrule.stpmin, hrule.limit⟩,
      fun hrule => ⟨⟨hpos, hlt⟩, ⟨hshort, hhalf⟩, hrule.1, hrule.2⟩⟩

theorem wolfeRule_inRange_iff (h : s.Checked) :
    (∃ rule, wolfeRule (.ofOptions s) = .ok rule ∧ rule.InRange) ↔
      (∃ x, s.stpmin.toDouble = .ok x ∧ 0 ≤ x) ∧ ∃ i, s.limit.toInt = .ok i := by
  obtain ⟨ftol, hftol, hpos, hsmall⟩ := Value.float_of_isBetween (by decide) h.ftol
  have hslopes := h.gtol
  rw [hftol] at hslopes
  obtain ⟨gtol, hgtol, hlt, hone⟩ := Value.float_of_isBetween (Double.le_of_lt hpos) hslopes
  rw [wolfeRule_eq h hftol hgtol (areSlopeFactors_floats hpos hlt hone)]
  exact converted_iff h fun stpmin limit =>
    ⟨fun hrule => ⟨hrule.stpmin, hrule.limit⟩,
      fun hrule => ⟨⟨hpos, hsmall⟩, ⟨hlt, hone⟩, hrule.1, hrule.2⟩⟩

theorem historyWindow_pos_iff {mem : Value} (h : isNotBelow mem (.int 1) = .ok true) :
    (∃ window, historyWindow mem = .ok window ∧ 1 ≤ window) ↔
      mem.isBelow (.int (2 ^ 63)) = .ok true := by
  have hlimit : windowLimit = 2 ^ 63 - 1 := rfl
  have hconverted : historyWindow mem = mem.toInt >>= fun window =>
      if windowLimit < window then throw .tooLarge else pure window.toNat := by
    unfold historyWindow
    rw [h]
    rfl
  rw [← Value.toInt_lt_iff h, hconverted, hlimit, exists_bind_eq_ok_iff]
  refine exists_congr fun i => and_congr_right fun hi => ?_
  have hone := Value.one_le_of_toInt h hi
  constructor
  · rintro ⟨window, hwindow, -⟩
    split at hwindow
    · cases hwindow
    · omega
  · intro hlt
    exact ⟨i.toNat, if_neg (by omega), by omega⟩

/-! ### The kinds of line search -/

section Kinds

variable {p : StrategyParameters}

/-- A line search that is made of one part is in range if its part is. -/
theorem exists_made_iff {β : Type} {part : Except Fault β} {make : β → Strategy Float}
    {kind : StrategyKind} (hkind : ∀ b, (make b).kind = kind) :
    (∃ t, (part >>= fun b => pure (make b)) = .ok t ∧ t.kind = kind ∧ t.InRange) ↔
      ∃ b, part = .ok b ∧ (make b).InRange := by
  rw [exists_bind_eq_ok_iff]
  refine exists_congr fun b => and_congr_right fun _ => ⟨?_, ?_⟩
  · rintro ⟨t, ht, -, hinside⟩
    obtain rfl := Except.ok.inj ht
    exact hinside
  · exact fun hinside => ⟨make b, rfl, hkind b, hinside⟩

theorem build_backtracking_iff :
    (∃ t, build .backtracking p = .ok t ∧ t.kind = .backtracking ∧ t.InRange) ↔
      ∃ rule, safeguard p = .ok rule ∧ rule.InRange :=
  exists_made_iff fun _ => rfl

theorem build_nonmonotone_iff :
    (∃ t, build .nonmonotone p = .ok t ∧ t.kind = .nonmonotone ∧ t.InRange) ↔
      (∃ rule, safeguard p = .ok rule ∧ rule.InRange) ∧
        ∃ window, historyWindow p.mem = .ok window ∧ 1 ≤ window := by
  have hmade (rule : Safeguard Float) : (∃ t : Strategy Float,
      (historyWindow p.mem >>= fun window => pure (nonmonotone (.new rule window))) = .ok t ∧
        t.kind = .nonmonotone ∧ t.InRange) ↔
      ∃ window, historyWindow p.mem = .ok window ∧ rule.InRange ∧ 1 ≤ window :=
    exists_made_iff fun _ => rfl
  refine exists_bind_eq_ok_iff.trans ⟨?_, ?_⟩
  · rintro ⟨rule, hrule, hrest⟩
    obtain ⟨window, hwindow, hinside, hone⟩ := (hmade rule).mp hrest
    exact ⟨⟨rule, hrule, hinside⟩, window, hwindow, hone⟩
  · rintro ⟨⟨rule, hrule, hinside⟩, window, hwindow, hone⟩
    exact ⟨rule, hrule, (hmade rule).mpr ⟨window, hwindow, hinside, hone⟩⟩

theorem build_wolfe_iff :
    (∃ t, build .wolfe p = .ok t ∧ t.kind = .wolfe ∧ t.InRange) ↔
      ∃ rule, wolfeRule p = .ok rule ∧ rule.InRange :=
  exists_made_iff fun _ => rfl

end Kinds

theorem convertible_iff (h : s.Checked) (kind : StrategyKind) : s.Convertible kind ↔
    ((∃ x, s.stpmin.toDouble = .ok x ∧ 0 ≤ x) ∧ ∃ i, s.limit.toInt = .ok i) ∧
      (kind = .nonmonotone → ∃ window, historyWindow s.window = .ok window ∧ 1 ≤ window) := by
  rw [Value.toDouble_nonneg_iff h.stpmin, Value.exists_toInt_iff h.limit,
    historyWindow_pos_iff h.window]
  exact ⟨fun hs => ⟨⟨⟨hs.stpmin_small, hs.stpmin_number⟩, hs.limit_finite⟩, hs.window_small⟩,
    fun hs => ⟨hs.1.1.1, hs.1.1.2, hs.1.2, hs.2⟩⟩

/-- From checked options a line search with parameters in range is built exactly if they can be
converted. -/
theorem build_inRange_iff (h : s.Checked) (kind : StrategyKind) :
    (∃ t, build kind (.ofOptions s) = .ok t ∧ t.kind = kind ∧ t.InRange) ↔
      s.Convertible kind := by
  rw [convertible_iff h]
  cases kind with
  | backtracking =>
    rw [build_backtracking_iff, safeguard_inRange_iff h]
    exact (and_iff_left nofun).symm
  | nonmonotone =>
    rw [build_nonmonotone_iff, safeguard_inRange_iff h]
    exact and_congr_right fun _ => ⟨fun hwindow _ => hwindow, fun hwindow => hwindow rfl⟩
  | wolfe =>
    rw [build_wolfe_iff, wolfeRule_inRange_iff h]
    exact (and_iff_left nofun).symm

theorem named?_name (kind : StrategyKind) : StrategyKind.named? kind.name = some kind := by
  cases kind <;> decide

theorem ofOptions_eq_build {kind : StrategyKind} (h : Text.lower s.name.plain = kind.name) :
    Strategy.ofOptions s = build kind (.ofOptions s) := by
  have hkind : kindOf s.name = .ok kind := by
    unfold kindOf
    dsimp only
    rw [h, named?_name]
    rfl
  unfold Strategy.ofOptions
  rw [hkind]
  rfl

/-- The line search that a checked configuration names is built, with parameters in range,
exactly if its options can be converted. -/
theorem ofOptions_inRange_iff {c : Config} {checked : CheckedConfig} {kind : StrategyKind}
    (h : c.validate = .ok checked) (hname : Text.lower c.search.name.plain = kind.name) :
    (∃ t, Strategy.ofOptions checked.search = .ok t ∧ t.kind = kind ∧ t.InRange) ↔
      c.search.Convertible kind := by
  obtain ⟨hsame, hchecked⟩ := Config.checked_of_validate h
  rw [hsame, ofOptions_eq_build hname]
  exact build_inRange_iff hchecked kind

end Strategy

/-! ## Sample configurations -/

namespace Sample

/-- The defaults with another least step. -/
def stpminConfig (stpmin : Value) : Config :=
  { Config.default with search := { Config.default.search with stpmin := stpmin } }

theorem stpminConfig_inRange_iff : ∃ checked,
    (stpminConfig (.int 0)).validate = .ok checked ∧
      Text.lower (stpminConfig (.int 0)).search.name.plain = StrategyKind.backtracking.name ∧
      ((∃ t, Strategy.ofOptions checked.search = .ok t ∧ t.kind = .backtracking ∧ t.InRange) ↔
        (stpminConfig (.int 0)).search.Convertible .backtracking) := by
  obtain ⟨checked, hchecked⟩ : ∃ checked, (stpminConfig (.int 0)).validate = .ok checked :=
    exists_of_isOk (by decide +kernel)
  have hname : Text.lower (stpminConfig (.int 0)).search.name.plain =
      StrategyKind.backtracking.name := by decide +kernel
  exact ⟨checked, hchecked, hname, Strategy.ofOptions_inRange_iff hchecked hname⟩

/-- A least step that is no number passes the check, and is kept. -/
theorem stpminConfig_not_inRange : ∃ checked,
    (stpminConfig (.float (0.0 / 0.0))).validate = .ok checked ∧
      Text.lower (stpminConfig (.float (0.0 / 0.0))).search.name.plain =
        StrategyKind.backtracking.name ∧
      ¬ ∃ t, Strategy.ofOptions checked.search = .ok t ∧ t.kind = .backtracking ∧ t.InRange := by
  obtain ⟨checked, hchecked⟩ :
      ∃ checked, (stpminConfig (.float (0.0 / 0.0))).validate = .ok checked :=
    exists_of_isOk (by decide +kernel)
  have hname : Text.lower (stpminConfig (.float (0.0 / 0.0))).search.name.plain =
      StrategyKind.backtracking.name := by decide +kernel
  obtain ⟨hsame, hoptions⟩ := Config.checked_of_validate hchecked
  refine ⟨checked, hchecked, hname, ?_⟩
  rw [hsame, Strategy.ofOptions_eq_build hname, Strategy.build_inRange_iff hoptions]
  intro hconvertible
  have hnumber : Scalar.isNaN (0.0 / 0.0 : Float) = false := hconvertible.stpmin_number _ rfl
  exact absurd hnumber (by decide +kernel)

end Sample

end VariableMetric
