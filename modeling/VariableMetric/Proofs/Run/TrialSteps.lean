import VariableMetric.Proofs.LineSearch.Reach
import VariableMetric.Proofs.Run.Faults

/-!
# The steps of the trials of a run

A run moves by the steps that its line search asks for, and divides by them where it takes the
slope along a trial.
-/

namespace VariableMetric

/-- A strategy that is built from options and told of its own trials asks for steps that are
positive and at most the cap, except for those that are spoiled.  The slope along a trial is
missing only at a step that has vanished, which the least step of the rule has to allow. -/
theorem Strategy.trialStep_pos_iff {options : SearchOptions} {s t : Strategy Float}
    (hbuild : ofOptions options = .ok s) (hrule : t.rule = s.rule)
    {value slope step cap : Float} (hcap : Scalar.isNaN cap = false)
    (hstart : (t.start value slope step cap).1.status = .searching)
    {told : List (Float × Float)} {d : Dialogue Float}
    (hd : (Dialogue.begin t value slope step cap).after told = d)
    (hsearching : d.reply.status = .searching) :
    (0 < d.reply.step ∧ d.reply.step ≤ cap ↔
      ¬ s.rule.Spoils ⟨slope, Scalar.least step cap, cap⟩ d.reply.step) ∧
    ∀ {σ : Type} {n m : ℕ} (p : Problem Float σ (Strategy Float) n)
      (run : State Float σ (Strategy Float) n m) {fault : Fault},
      run.step = d.reply.step → run.trialSlope p = .error fault →
        fault = .divisionByZero ∧ p.search.usesDerivative = true ∧
          Scalar.equal d.reply.step 0 = true ∧ ¬ 0 < s.rule.stpmin := by
  obtain ⟨kind, -, hbuild⟩ := exists_of_bind_eq_ok hbuild
  have hshortens : t.rule.Shortens := hrule ▸ shortens_of_build hbuild
  have hproper := (keeps_start hcap hstart).1
  have hfollows := (Dialogue.follows_begin hcap hstart).after hshortens hproper told
  rw [hd, hrule] at hfollows
  refine ⟨⟨fun hstep hspoils => hspoils.not_pos_and_le hstep, fun hsound => ?_⟩, ?_⟩
  · exact (hfollows.pos_and_le_or_spoils hproper hsearching).resolve_right hsound
  · intro σ n m p run fault hstep hfault
    obtain ⟨hdivision, huses, hzero⟩ := State.trialSlope_eq_error hfault
    rw [hstep] at hzero
    exact ⟨hdivision, huses, hzero, (hfollows.allowed hsearching).not_stpmin_pos hzero⟩

/-- The middle of a bracket can lie beyond the cap. -/
example : let d := (Dialogue.begin (.wolfe (.new ⟨1e-4, 0.9, 1e-20, 40⟩)) 0 (-1) 1e308
      1.7e308).after [(-1e305, -1), (0, 0)]
    d.reply.status = .searching ∧ 1.7e308 < d.reply.step := by decide +kernel

/-- A step can vanish if the least step is zero. -/
example : let d := (Dialogue.begin (.wolfe (.new ⟨1e-4, 0.9, 0, 40⟩)) 1 (-1) 5e-324
      Scalar.infinity).after [(2, 0)]
    d.reply.status = .searching ∧ Scalar.equal d.reply.step 0 = true := by decide +kernel

namespace Sample

theorem ofOptions_default :
    Strategy.ofOptions Config.default.search = .ok backtrackingSearch := rfl

/-- A search whose first trial is rejected. -/
def halved : Dialogue Float :=
  (Dialogue.begin backtrackingSearch 0 (-1) 1 Scalar.infinity).after [(0, 0)]

theorem halved_pos_iff :
    Strategy.ofOptions Config.default.search = .ok backtrackingSearch ∧
      Scalar.isNaN (Scalar.infinity : Float) = false ∧
      (backtrackingSearch.start 0 (-1) 1 Scalar.infinity).1.status = .searching ∧
      halved.reply.status = .searching ∧
      (0 < halved.reply.step ∧ halved.reply.step ≤ Scalar.infinity ↔
        ¬ backtrackingSearch.rule.Spoils ⟨-1, Scalar.least 1 Scalar.infinity, Scalar.infinity⟩
          halved.reply.step) := by
  have hstart : (backtrackingSearch.start 0 (-1) 1 Scalar.infinity).1.status = .searching := by
    decide +kernel
  have hsearching : halved.reply.status = .searching := by decide +kernel
  exact ⟨ofOptions_default, rfl, hstart, hsearching,
    (Strategy.trialStep_pos_iff ofOptions_default rfl rfl hstart rfl hsearching).1⟩

/-- A search along a direction that descends too steeply for its first step. -/
def overflowing : Dialogue Float :=
  (Dialogue.begin backtrackingSearch 0 (-1e308) 10 Scalar.infinity).after [(0, 0)]

/-- It goes on with a step that is no number. -/
theorem overflowing_not_pos :
    Strategy.ofOptions Config.default.search = .ok backtrackingSearch ∧
      Scalar.isNaN (Scalar.infinity : Float) = false ∧
      (backtrackingSearch.start 0 (-1e308) 10 Scalar.infinity).1.status = .searching ∧
      overflowing.reply.status = .searching ∧ Scalar.isNaN overflowing.reply.step = true ∧
      ¬ (0 < overflowing.reply.step ∧ overflowing.reply.step ≤ Scalar.infinity) :=
  ⟨ofOptions_default, rfl, by decide +kernel, by decide +kernel, by decide +kernel,
    by decide +kernel⟩

end Sample

end VariableMetric
