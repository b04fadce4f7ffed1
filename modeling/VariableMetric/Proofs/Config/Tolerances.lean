import VariableMetric.Config.Validation
import VariableMetric.Proofs.Double.Overflow

/-!
# Checking a pair of tolerances

Whatever is given for a pair of tolerances, its items are converted one after the other, and
the first one that cannot be converted decides.  A value that is no pair of finite numbers that
are not negative is complained of by the name of its option.

A whole number that is too large for a double is the one exception.  It is reported as such,
without a complaint, if it is met among the first three items.
-/

namespace VariableMetric

/-! ## Conversion -/

/-- Powers of ten with more than 310 digits are beyond all doubles. -/
theorem Number.not_isFinite_nearest_pow {k : ℕ} (h : 310 ≤ k) :
    (nearest (10 ^ k)).isFinite = false := by
  have hpos : 0 < 10 ^ k := Nat.pow_pos (by decide)
  have hlength : 310 < (toString (10 ^ k)).length := by
    show 310 < (10 ^ k).repr.length
    obtain ⟨digits, hdigits⟩ : ∃ digits, 310 = digits := ⟨_, rfl⟩
    rw [hdigits] at h ⊢
    rw [← not_le, Nat.length_repr_le_iff (by omega), not_lt]
    exact Nat.pow_le_pow_right (by decide) h
  have hlead : 310 < (0 : ℤ) + ((toString (10 ^ k)).length : ℤ) := by omega
  have hsign : ¬ (10 ^ k : ℤ) < 0 := not_lt.mpr (pow_nonneg (by decide) k)
  unfold nearest
  rw [if_neg hsign, Int.natAbs_pow]
  show (Decimal.nearestDouble (10 ^ k) 0).isFinite = false
  unfold Decimal.nearestDouble
  rw [if_neg hpos.ne', if_pos hlead]
  rfl

theorem Number.doubleOfInt_eq_tooLarge_iff (i : ℤ) :
    doubleOfInt i = .error .tooLarge ↔ (nearest i).isFinite = false := by
  unfold doubleOfInt
  split
  next hfinite => exact iff_of_false nofun (by simp [hfinite])
  next hinfinite => exact iff_of_true rfl (by simpa using hinfinite)

theorem Value.toDouble_eq_tooLarge_iff (v : Value) :
    v.toDouble = .error .tooLarge ↔ ∃ i, v = .int i ∧ (Number.nearest i).isFinite = false := by
  cases v with
  | int i =>
    refine (Number.doubleOfInt_eq_tooLarge_iff i).trans ⟨fun h => ⟨i, rfl, h⟩, ?_⟩
    rintro ⟨_, ⟨⟩, h⟩
    exact h
  | text s =>
    unfold toDouble
    dsimp only
    split <;> exact iff_of_false nofun (by rintro ⟨_, ⟨⟩, _⟩)
  | _ => exact iff_of_false nofun (by rintro ⟨_, ⟨⟩, _⟩)

theorem Value.toDouble_error {v : Value} {fault : Fault} (h : v.toDouble = .error fault) :
    fault = .wrongKind ∨ fault = .unreadable ∨ fault = .tooLarge := by
  cases v with
  | int i =>
    unfold toDouble Number.doubleOfInt at h
    dsimp only at h
    split at h <;> cases h
    exact .inr (.inr rfl)
  | text s =>
    unfold toDouble at h
    dsimp only at h
    split at h <;> cases h
    exact .inr (.inl rfl)
  | bool b => cases h
  | float x => cases h
  | _ =>
    cases h
    exact .inl rfl

section Items

variable {ε β γ : Type} {f : β → Except ε γ} {a : β} {l : List β} {e : ε}

/-- The first item that cannot be converted fails with an error. -/
def FirstFails (f : β → Except ε γ) (l : List β) (e : ε) : Prop :=
  ∃ before b rest, l = before ++ b :: rest ∧ (∀ a ∈ before, ∃ c, f a = .ok c) ∧ f b = .error e

theorem firstFails_of_error {e' : ε} (h : f a = .error e') :
    FirstFails f (a :: l) e ↔ e' = e := by
  constructor
  · rintro ⟨before, b, rest, heq, hbefore, hb⟩
    cases before with
    | nil =>
      obtain ⟨rfl, rfl⟩ := List.cons.inj heq
      exact Except.error.inj (h.symm.trans hb)
    | cons a' before =>
      obtain ⟨rfl, -⟩ := List.cons.inj heq
      obtain ⟨c, hc⟩ := hbefore a List.mem_cons_self
      cases h.symm.trans hc
  · rintro rfl
    exact ⟨[], a, l, rfl, nofun, h⟩

theorem firstFails_of_ok {c : γ} (h : f a = .ok c) :
    FirstFails f (a :: l) e ↔ FirstFails f l e := by
  constructor
  · rintro ⟨before, b, rest, heq, hbefore, hb⟩
    cases before with
    | nil =>
      obtain ⟨rfl, -⟩ := List.cons.inj heq
      cases h.symm.trans hb
    | cons a' before =>
      obtain ⟨rfl, rfl⟩ := List.cons.inj heq
      exact ⟨before, b, rest, rfl, (List.forall_mem_cons.mp hbefore).2, hb⟩
  · rintro ⟨before, b, rest, rfl, hbefore, hb⟩
    exact ⟨a :: before, b, rest, rfl, List.forall_mem_cons.mpr ⟨⟨c, h⟩, hbefore⟩, hb⟩

/-- A list that is converted item by item fails as its first item that cannot be converted. -/
theorem mapM_eq_error_iff (f : β → Except ε γ) (l : List β) (e : ε) :
    l.mapM f = .error e ↔ FirstFails f l e := by
  induction l with
  | nil =>
    refine iff_of_false nofun ?_
    rintro ⟨before, b, rest, hnil, -⟩
    simp at hnil
  | cons a l ih =>
    rw [List.mapM_cons]
    cases hfa : f a with
    | error e' =>
      rw [firstFails_of_error hfa]
      exact ⟨Except.error.inj, congrArg Except.error⟩
    | ok c =>
      rw [firstFails_of_ok hfa, ← ih]
      cases l.mapM f with
      | error e' => exact Iff.rfl
      | ok cs => exact iff_of_false nofun nofun

end Items

namespace Config

/-! ## Pairs -/

/-- The doubles of a pair with finite numbers that are not negative, in their order. -/
structure Holds (given : Value) (p : Float × Float) : Prop where
  items : ∃ a b, items? given = some [a, b] ∧ a.toDouble = .ok p.1 ∧ b.toDouble = .ok p.2
  finite : p.1.isFinite = true ∧ p.2.isFinite = true
  nonneg : 0 ≤ p.1 ∧ 0 ≤ p.2

/-- Among the first three items there is a whole number that is too large for a double, and
all items before it can be converted. -/
def Overflows (given : Value) : Prop :=
  ∃ items before i rest, items? given = some items ∧ items.take 3 = before ++ .int i :: rest ∧
    (∀ a ∈ before, ∃ x, a.toDouble = .ok x) ∧ (Number.nearest i).isFinite = false

def pairOf : List Float → Except Fault (Float × Float)
  | [x, y] => pure (x, y)
  | _ => throw .unreadable

theorem twoDoubles_eq (items : List Value) :
    twoDoubles items = (items.take 3).mapM Value.toDouble >>= pairOf := by
  match items with
  | [] => rfl
  | [a] =>
    simp only [twoDoubles, List.take, List.mapM_cons, List.mapM_nil, bind_assoc, pure_bind]
    rfl
  | [a, b] =>
    simp only [twoDoubles, List.take, List.mapM_cons, List.mapM_nil, bind_assoc, pure_bind]
    rfl
  | a :: b :: c :: _ =>
    simp only [twoDoubles, List.take, List.mapM_cons, List.mapM_nil, bind_assoc, pure_bind]
    rfl

theorem twoDoubles_eq_ok_iff (items : List Value) (p : Float × Float) :
    twoDoubles items = .ok p ↔
      ∃ a b, items = [a, b] ∧ a.toDouble = .ok p.1 ∧ b.toDouble = .ok p.2 := by
  constructor
  · intro h
    match items with
    | [] => cases h
    | [a] =>
      obtain ⟨_, -, h⟩ := exists_of_bind_eq_ok h
      cases h
    | [a, b] =>
      obtain ⟨x, hx, h⟩ := exists_of_bind_eq_ok h
      obtain ⟨y, hy, h⟩ := exists_of_bind_eq_ok h
      obtain rfl := Except.ok.inj h
      exact ⟨a, b, rfl, hx, hy⟩
    | a :: b :: c :: _ =>
      obtain ⟨_, -, h⟩ := exists_of_bind_eq_ok h
      obtain ⟨_, -, h⟩ := exists_of_bind_eq_ok h
      obtain ⟨_, -, h⟩ := exists_of_bind_eq_ok h
      cases h
  · rintro ⟨a, b, rfl, hx, hy⟩
    simp only [twoDoubles, hx, hy]
    rfl

/-- Two doubles fail to be read as one of the items fails, or for want of two items. -/
theorem twoDoubles_eq_error_iff (items : List Value) {fault : Fault} (h : fault ≠ .unreadable) :
    twoDoubles items = .error fault ↔ (items.take 3).mapM Value.toDouble = .error fault := by
  rw [twoDoubles_eq]
  cases (items.take 3).mapM Value.toDouble with
  | error fault' =>
    constructor <;>
      (intro h; cases h; rfl)
  | ok xs =>
    refine iff_of_false (fun hpair => ?_) nofun
    change pairOf xs = .error fault at hpair
    unfold pairOf at hpair
    split at hpair
    · cases hpair
    · exact h (Except.error.inj hpair).symm

theorem twoDoubles_error {items : List Value} {fault : Fault}
    (h : twoDoubles items = .error fault) :
    fault = .wrongKind ∨ fault = .unreadable ∨ fault = .tooLarge := by
  by_cases hunreadable : fault = .unreadable
  · exact .inr (.inl hunreadable)
  · rw [twoDoubles_eq_error_iff items hunreadable, mapM_eq_error_iff] at h
    obtain ⟨before, v, rest, -, -, hv⟩ := h
    exact Value.toDouble_error hv

/-! ## One option -/

theorem areTolerances_iff (p : Float × Float) : areTolerances p = true ↔
    (p.1.isFinite = true ∧ p.2.isFinite = true) ∧ 0 ≤ p.1 ∧ 0 ≤ p.2 := by
  have hnonneg (x : Float) (hx : x.isFinite = true) : 0 ≤ x ↔ ¬ x < 0.0 := by
    rw [Double.le_iff_not_lt]
    exact and_iff_left ⟨rfl, Double.isNaN_of_isFinite hx⟩
  simp only [areTolerances, Bool.and_eq_true, Bool.not_eq_true', decide_eq_false_iff_not, and_assoc]
  refine and_congr_right fun hx => and_congr_right fun hy => ?_
  rw [hnonneg p.1 hx, hnonneg p.2 hy]

/-- What is wrong with the value of an option. -/
def Complains (option : String) (given : Value) (fault : Fault) : Prop :=
  fault = .notAPair option given ∨ fault = .notTolerances option given

theorem Complains.ne_tooLarge {option : String} {given : Value} {fault : Fault}
    (h : Complains option given fault) : fault ≠ .tooLarge := by
  rcases h with rfl | rfl <;> exact nofun

theorem holds_iff {given : Value} {p : Float × Float} : Holds given p ↔
    ∃ items, items? given = some items ∧ twoDoubles items = .ok p ∧ areTolerances p = true := by
  simp only [twoDoubles_eq_ok_iff, areTolerances_iff]
  constructor
  · rintro ⟨⟨a, b, hitems, hdoubles⟩, hfinite, hnonneg⟩
    exact ⟨[a, b], hitems, ⟨a, b, rfl, hdoubles⟩, hfinite, hnonneg⟩
  · rintro ⟨_, hitems, ⟨a, b, rfl, hdoubles⟩, hfinite, hnonneg⟩
    exact ⟨⟨a, b, hitems, hdoubles⟩, hfinite, hnonneg⟩

theorem overflows_iff {given : Value} : Overflows given ↔
    ∃ items, items? given = some items ∧ twoDoubles items = .error .tooLarge := by
  have hreadable : Fault.tooLarge ≠ .unreadable := nofun
  constructor
  · rintro ⟨items, before, i, rest, hitems, heq, hbefore, hlarge⟩
    refine ⟨items, hitems, ?_⟩
    rw [twoDoubles_eq_error_iff items hreadable, mapM_eq_error_iff]
    exact ⟨before, .int i, rest, heq, hbefore,
      (Value.toDouble_eq_tooLarge_iff _).mpr ⟨i, rfl, hlarge⟩⟩
  · rintro ⟨items, hitems, hdoubles⟩
    rw [twoDoubles_eq_error_iff items hreadable, mapM_eq_error_iff] at hdoubles
    obtain ⟨before, v, rest, heq, hbefore, hlarge⟩ := hdoubles
    obtain ⟨i, rfl, hinfinite⟩ := (Value.toDouble_eq_tooLarge_iff v).mp hlarge
    exact ⟨items, before, i, rest, hitems, heq, hbefore, hinfinite⟩

theorem Holds.not_overflows {given : Value} {p : Float × Float} (h : Holds given p) :
    ¬ Overflows given := by
  intro hoverflows
  obtain ⟨items, hitems, hdoubles, -⟩ := holds_iff.mp h
  obtain ⟨items', hitems', hlarge⟩ := overflows_iff.mp hoverflows
  obtain rfl := Option.some.inj (hitems.symm.trans hitems')
  cases hdoubles.symm.trans hlarge

/-- All that can become of the value of an option. -/
inductive Judged (option : String) (given : Value) : Except Fault (Float × Float) → Prop
  | taken (p : Float × Float) (holds : Holds given p) : Judged option given (.ok p)
  | refused (fault : Fault) (complains : Complains option given fault)
      (unheld : ¬ ∃ p, Holds given p) (small : ¬ Overflows given) :
      Judged option given (.error fault)
  | overflowed (overflows : Overflows given) : Judged option given (.error .tooLarge)

theorem judged_tolerances (option : String) (given : Value) :
    Judged option given (tolerances option given) := by
  unfold tolerances
  cases hitems : items? given with
  | none =>
    refine .refused _ (.inl rfl) ?_ ?_ <;> simp [holds_iff, overflows_iff, hitems]
  | some items =>
    rw [Option.map_some]
    cases hdoubles : twoDoubles items with
    | error fault =>
      rcases twoDoubles_error hdoubles with rfl | rfl | rfl
      · refine .refused _ (.inl rfl) ?_ ?_ <;> simp [holds_iff, overflows_iff, hitems, hdoubles]
      · refine .refused _ (.inl rfl) ?_ ?_ <;> simp [holds_iff, overflows_iff, hitems, hdoubles]
      · exact .overflowed (overflows_iff.mpr ⟨items, hitems, hdoubles⟩)
    | ok p =>
      dsimp only
      split
      next hare => exact .taken p (holds_iff.mpr ⟨items, hitems, hdoubles, hare⟩)
      next hnot =>
        refine .refused _ (.inr rfl) ?_ ?_ <;>
          simp [holds_iff, overflows_iff, hitems, hdoubles, hnot]

/-! ## All options -/

/-- All options but the two pairs of tolerances pass the check. -/
def OtherwiseValid (c : Config) : Prop :=
  ∃ tolerance firstStep checked,
    { c with tolerance := tolerance, firstStep := firstStep }.validate = .ok checked

/-- A pair of tolerances that is checked in its turn has an item that is too large. -/
def HasOverflow (c : Config) : Prop :=
  Overflows c.tolerance ∨ (∃ p, Holds c.tolerance p) ∧ Overflows c.firstStep

theorem OtherwiseValid.validate_eq {c : Config} (h : c.OtherwiseValid) :
    ∃ maxIterations maxEvaluations verbosity, c.validate =
      tolerances "gtol" c.tolerance >>= fun tolerance =>
        tolerances "slen" c.firstStep >>= fun firstStep =>
          pure ⟨⟨maxIterations, maxEvaluations, tolerance, firstStep, verbosity⟩, c.search⟩ := by
  obtain ⟨tolerance, firstStep, checked, h⟩ := h
  obtain ⟨maxIterations, hiterations, h⟩ := exists_of_bind_eq_ok h
  obtain ⟨maxEvaluations, hevaluations, h⟩ := exists_of_bind_eq_ok h
  obtain ⟨_, -, h⟩ := exists_of_bind_eq_ok h
  obtain ⟨_, -, h⟩ := exists_of_bind_eq_ok h
  obtain ⟨verbosity, hverbosity, h⟩ := exists_of_bind_eq_ok h
  obtain ⟨_, hsearch, -⟩ := exists_of_bind_eq_ok h
  refine ⟨maxIterations, maxEvaluations, verbosity, ?_⟩
  unfold validate
  dsimp only at hiterations hevaluations hverbosity hsearch
  rw [hiterations, hevaluations, hverbosity, hsearch]
  rfl

/-- The tolerances are stored as they are given, or one of them is complained of. -/
def Settles (c : Config) : Prop :=
  (∃ checked, c.validate = .ok checked ∧ Holds c.tolerance checked.settings.tolerance ∧
    Holds c.firstStep checked.settings.firstStep) ∨
  ∃ fault, c.validate = .error fault ∧
    (Complains "gtol" c.tolerance fault ∨ Complains "slen" c.firstStep fault)

theorem not_settles_of_tooLarge {c : Config} (h : c.validate = .error .tooLarge) :
    ¬ c.Settles := by
  rintro (⟨checked, hok, -⟩ | ⟨fault, hfault, hcomplains⟩)
  · rw [h] at hok
    cases hok
  · rw [h] at hfault
    cases hfault
    exact hcomplains.elim (·.ne_tooLarge rfl) (·.ne_tooLarge rfl)

theorem OtherwiseValid.settles_or_overflows {c : Config} (h : c.OtherwiseValid) :
    c.Settles ∧ ¬ c.HasOverflow ∨ c.validate = .error .tooLarge ∧ c.HasOverflow := by
  obtain ⟨maxIterations, maxEvaluations, verbosity, hvalidate⟩ := h.validate_eq
  have htolerance := judged_tolerances "gtol" c.tolerance
  have hfirst := judged_tolerances "slen" c.firstStep
  generalize tolerances "gtol" c.tolerance = tolerance at hvalidate htolerance
  generalize tolerances "slen" c.firstStep = firstStep at hvalidate hfirst
  cases htolerance with
  | refused fault hcomplains hunheld hsmall =>
    refine .inl ⟨.inr ⟨fault, hvalidate, .inl hcomplains⟩, ?_⟩
    rintro (hlarge | ⟨hheld, -⟩)
    · exact hsmall hlarge
    · exact hunheld hheld
  | overflowed hlarge => exact .inr ⟨hvalidate, .inl hlarge⟩
  | taken p hp =>
    -- The first step is looked at only once the tolerance has been taken.
    cases hfirst with
    | refused fault hcomplains hunheld hsmall =>
      refine .inl ⟨.inr ⟨fault, hvalidate, .inr hcomplains⟩, ?_⟩
      rintro (hlarge | ⟨-, hlarge⟩)
      · exact hp.not_overflows hlarge
      · exact hsmall hlarge
    | overflowed hlarge => exact .inr ⟨hvalidate, .inr ⟨⟨p, hp⟩, hlarge⟩⟩
    | taken q hq =>
      refine .inl ⟨.inl ⟨_, hvalidate, hp, hq⟩, ?_⟩
      rintro (hlarge | ⟨-, hlarge⟩)
      · exact hp.not_overflows hlarge
      · exact hq.not_overflows hlarge

end Config

/-- What an otherwise valid configuration gives for its tolerances is stored as pairs of finite
doubles that are not negative, each the one of the item that was given, or it is complained of by
the name of its option.  The one exception is a number too large for a double. -/
theorem Config.validate_settles_iff {c : Config} (h : c.OtherwiseValid) :
    (c.Settles ↔ ¬ c.HasOverflow) ∧ (c.HasOverflow → c.validate = .error .tooLarge) := by
  rcases h.settles_or_overflows with ⟨hsettles, hsmall⟩ | ⟨herror, hlarge⟩
  · exact ⟨iff_of_true hsettles hsmall, fun hlarge => absurd hlarge hsmall⟩
  · refine ⟨iff_of_false (not_settles_of_tooLarge herror) ?_, fun _ => herror⟩
    exact fun hsmall => hsmall hlarge

/-! ## Sample configurations -/

namespace Sample

/-- The defaults with other tolerances. -/
def toleranceConfig (given : Value) : Config := { Config.default with tolerance := given }

theorem toleranceConfig_valid (given : Value) : (toleranceConfig given).OtherwiseValid := by
  obtain ⟨checked, hchecked⟩ : ∃ checked, Config.default.validate = .ok checked :=
    exists_of_isOk (by decide +kernel)
  exact ⟨Config.pair 0.0 1e-6, Config.pair 1.0 0.0, checked, hchecked⟩

theorem toleranceConfig_settles_iff :
    (toleranceConfig (.list [.text "1e-3", .bool true])).OtherwiseValid ∧
      ((toleranceConfig (.list [.text "1e-3", .bool true])).Settles ↔
        ¬ (toleranceConfig (.list [.text "1e-3", .bool true])).HasOverflow) ∧
      ((toleranceConfig (.list [.text "1e-3", .bool true])).HasOverflow →
        (toleranceConfig (.list [.text "1e-3", .bool true])).validate = .error .tooLarge) :=
  ⟨toleranceConfig_valid _, Config.validate_settles_iff (toleranceConfig_valid _)⟩

/-- Ten to the power of four hundred is neither stored nor complained of. -/
theorem toleranceConfig_not_settles :
    (toleranceConfig (.list [.int (10 ^ 400), .int 0])).OtherwiseValid ∧
      ¬ (toleranceConfig (.list [.int (10 ^ 400), .int 0])).Settles := by
  have hvalid := toleranceConfig_valid (.list [.int (10 ^ 400), .int 0])
  have hinfinite : (Number.nearest (10 ^ 400)).isFinite = false :=
    Number.not_isFinite_nearest_pow (by decide)
  have hlarge : (toleranceConfig (.list [.int (10 ^ 400), .int 0])).HasOverflow :=
    .inl ⟨_, [], _, [.int 0], rfl, rfl, nofun, hinfinite⟩
  refine ⟨hvalid, fun hsettles => ?_⟩
  rcases hvalid.settles_or_overflows with ⟨-, hsmall⟩ | ⟨herror, -⟩
  · exact hsmall hlarge
  · exact Config.not_settles_of_tooLarge herror hsettles

end Sample

end VariableMetric
