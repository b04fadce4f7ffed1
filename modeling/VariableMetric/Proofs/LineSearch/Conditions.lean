import VariableMetric.Proofs.Double.Arithmetic
import VariableMetric.Proofs.LineSearch.Calls

/-!
# The conditions of an accepted step

A Wolfe search rejects a trial whose value lies above its target, and one whose slope lies below
a fraction of the slope at the origin.  It accepts what neither of these comparisons rejects, so
the conditions hold for an accepted trial as far as there is something to compare: a target that
is no number rejects no finite value, and a slope that is no number is not too steep.
-/

namespace VariableMetric

section Conditions

variable {α : Type} [Scalar α]

/-- The value that a step has to reach. -/
def Origin.target (o : Origin α) (factor step : α) : α := o.value + factor * step * o.slope

/-- The weak Wolfe conditions for a trial; at the cap the sufficient decrease is enough. -/
structure WolfeRule.Satisfied (rule : WolfeRule α) (o : Origin α) (step value slope : α) :
    Prop where
  decrease : value ≤ o.target rule.ftol step
  curvature : rule.gtol * o.slope ≤ slope ∨ o.cap ≤ step

/-- What an accepted trial has passed: neither its value nor its slope was found to violate a
condition. -/
structure WolfeRule.Passed (rule : WolfeRule α) (o : Origin α) (step value slope : α) : Prop where
  finite : Scalar.isFinite value = true
  low : ¬ o.target rule.ftol step < value
  flat : ¬ slope < rule.gtol * o.slope ∨ o.cap ≤ step

theorem Wolfe.passed_of_converged {b : Wolfe α} {step value slope : α}
    (hsearching : b.search.status = .searching)
    (h : (b.iterate step value slope).1.status = .converged) :
    b.rule.Passed b.search.origin step value slope := by
  obtain ⟨hlow, hflat⟩ := (Wolfe.converged_iff hsearching step value slope).mp h
  rw [tooHigh, Bool.or_eq_false_iff, Bool.not_eq_false', decide_eq_false_iff_not] at hlow
  rw [tooSteep, decide_eq_false_iff_not] at hflat
  exact ⟨hlow.1, hlow.2, hflat⟩

end Conditions

/-- A trial that has passed satisfies the conditions if they compare numbers. -/
theorem WolfeRule.Passed.satisfied_iff {rule : WolfeRule Float} {o : Origin Float}
    {step value slope : Float} (h : rule.Passed o step value slope) (hrule : rule.Works)
    (hdescends : o.slope < 0) :
    rule.Satisfied o step value slope ↔ Scalar.isNaN (o.target rule.ftol step) = false ∧
      (Scalar.isNaN slope = false ∨ o.cap ≤ step) := by
  have hvalue := Double.isNaN_of_isFinite h.finite
  have hbound : Scalar.isNaN (rule.gtol * o.slope) = false :=
    Double.isNaN_mul_of_pos_of_neg (Double.lt_trans hrule.ftol_pos hrule.gtol_gt) hdescends
  constructor
  · rintro ⟨hdecrease, hcurvature⟩
    exact ⟨((Double.le_iff_not_lt _ _).mp hdecrease).2.2,
      hcurvature.imp_left fun hle => ((Double.le_iff_not_lt _ _).mp hle).2.2⟩
  · rintro ⟨htarget, hslope⟩
    refine ⟨(Double.le_iff_not_lt _ _).mpr ⟨h.low, hvalue, htarget⟩, ?_⟩
    rcases h.flat with hflat | hcapped
    · exact hslope.imp_left fun hnumber =>
        (Double.le_iff_not_lt _ _).mpr ⟨hflat, hbound, hnumber⟩
    · exact .inr hcapped

/-- Whatever calls have been made, a trial that a Wolfe search accepts is answered by its own
step and has passed both comparisons; it satisfies the conditions if and only if the target of
its value is a number and, below the cap, so is its slope. -/
theorem Strategy.accepted_satisfies_iff {rule : WolfeRule Float} (hrule : rule.Works)
    {calls : List (SearchCall Float)} {t : SearchSession Float}
    (hserve : (Rule.wolfe rule).new.serve calls = t)
    (hsearching : t.strategy.search.status = .searching) {step value slope : Float}
    {reply : Reply Float} (hreply : (t.strategy.iterate step value slope).1 = reply)
    (haccepted : reply.status = .converged) :
    ∃ o, (originsSince t.log).head? = some o ∧ reply.step = step ∧
      rule.Passed o step value slope ∧
      (rule.Satisfied o step value slope ↔ Scalar.isNaN (o.target rule.ftol step) = false ∧
        (Scalar.isNaN slope = false ∨ o.cap ≤ step)) := by
  subst hreply
  have hrecalls : t.strategy.Recalls (.wolfe rule) t.log := hserve ▸ recalls_serve _ calls
  have hrule_eq := hrecalls.rule_eq
  have hhead := hrecalls.origin hsearching
  have hdescends := hrecalls.descends hsearching
  generalize t.strategy = s at *
  cases s with
  | wolfe b =>
    obtain rfl := Rule.wolfe.inj hrule_eq
    have hpassed := Wolfe.passed_of_converged hsearching haccepted
    exact ⟨_, hhead, Wolfe.step_of_converged hsearching haccepted, hpassed,
      hpassed.satisfied_iff hrule hdescends⟩
  | backtracking b => cases hrule_eq
  | nonmonotone b => cases hrule_eq

namespace Sample

def usualRule : WolfeRule Float := ⟨1e-4, 0.9, 1e-20, 40⟩

theorem usualRule_works : usualRule.Works where
  ftol_pos := by decide +kernel
  gtol_gt := by decide +kernel
  gtol_lt := by decide +kernel

/-- A search that may not go beyond its first step. -/
def cappedSession : SearchSession Float := (Rule.wolfe usualRule).new.serve [.start 1 (-2) 1 1]

theorem cappedSession_satisfies_iff :
    usualRule.Works ∧ cappedSession.strategy.search.status = .searching ∧
      (cappedSession.strategy.iterate 1 0.5 (0 / 0)).1.status = .converged ∧
      ∃ o, (originsSince cappedSession.log).head? = some o ∧
        (cappedSession.strategy.iterate 1 0.5 (0 / 0)).1.step = 1 ∧
        usualRule.Passed o 1 0.5 (0 / 0) ∧
        (usualRule.Satisfied o 1 0.5 (0 / 0) ↔
          Scalar.isNaN (o.target usualRule.ftol 1) = false ∧
            (Scalar.isNaN (0 / 0 : Float) = false ∨ o.cap ≤ 1)) := by
  have hsearching : cappedSession.strategy.search.status = .searching := by decide +kernel
  have haccepted : (cappedSession.strategy.iterate 1 0.5 (0 / 0)).1.status = .converged := by
    decide +kernel
  exact ⟨usualRule_works, hsearching, haccepted,
    Strategy.accepted_satisfies_iff usualRule_works rfl hsearching rfl haccepted⟩

/-- A search that is begun where the objective has no value. -/
def valuelessSession : SearchSession Float :=
  (Rule.wolfe usualRule).new.serve [.start (0 / 0) (-1) 1 Scalar.infinity]

/-- Its first trial is accepted, though the value there does not reach the target. -/
theorem valuelessSession_not_satisfied :
    usualRule.Works ∧ valuelessSession.strategy.search.status = .searching ∧
      (valuelessSession.strategy.iterate 1 0.5 (-0.25)).1.status = .converged ∧
      ∃ o, (originsSince valuelessSession.log).head? = some o ∧
        ¬ usualRule.Satisfied o 1 0.5 (-0.25) := by
  have hsearching : valuelessSession.strategy.search.status = .searching := by decide +kernel
  have hlow : ¬ (0.5 : Float) ≤
      valuelessSession.strategy.search.origin.target usualRule.ftol 1 := by decide +kernel
  exact ⟨usualRule_works, hsearching, by decide +kernel, _,
    (Strategy.recalls_serve _ _).origin hsearching, fun h => hlow h.decrease⟩

end Sample

end VariableMetric
