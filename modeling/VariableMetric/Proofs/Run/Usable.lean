import VariableMetric.Proofs.FeasibleSet.RealBox
import VariableMetric.Proofs.LineSearch.Trials
import VariableMetric.Proofs.Run.Comparison
import VariableMetric.Proofs.Run.Descent

/-!
# Every direction is usable

Consider runs in exact arithmetic with a valid configuration, in the whole space or in a
box with room for real vectors.  Above its threshold such a run always finds a direction
that descends, that can be followed inside the set, and along which there is a positive
step within the cap.  The objective need not be smooth, and its gradients need not belong
to its values.
-/

namespace VariableMetric

noncomputable section

section Usable

variable {σ : Type} {m : ℕ} [Capacity m] {shape : Shape} {domain : Domain Exact}
  {p : Problem Exact σ (Strategy Exact) shape.size} {uses : Bool} {turns : ℕ}
  {x : Fin shape.size → ℝ} {objective : σ} {search : Strategy Exact}
  {outcome : Outcome Exact shape.size} {last : State Exact σ (Strategy Exact) shape.size m}

theorem Domain.Proper.problem (hdomain : domain.Proper shape)
    (hset : p.feasible = domain.toSet shape p.precision) (hsearch : p.search = .ofStrategy uses)
    (hsettings : p.settings.Valid) (hrule : search.rule.Valid) :
    p.Proper (domain.intervals shape p.precision) search.rule where
  feasible := hset ▸ hdomain.confines p.precision
  search := ⟨uses, hsearch⟩
  settings := hsettings
  rule := hrule.works

/-- Every direction that is chosen is usable, no search and no direction is refused, and a
run fails only if its objective does or no pairs can be kept. -/
theorem Problem.chosen_direction_usable (hdomain : domain.Proper shape)
    (hset : p.feasible = domain.toSet shape p.precision) (hsearch : p.search = .ofStrategy uses)
    (hsettings : p.settings.Valid) (hrule : search.rule.Valid)
    (hrun : p.solve m turns (.ofReals x) objective search = (outcome, last))
    (hfinite : last.transcript.Finite) :
    (∀ pass (older : Transcript Exact shape.size),
      .chosen pass :: older <:+ last.transcript → ∃ i, older.accepted.head? = some i ∧
        pass.Usable p (domain.intervals shape p.precision) i) ∧
      (∀ solution, outcome = .returned solution → solution.status ≠ .wouldBlock) ∧
      (∀ origin pass status next,
        .started origin pass status next ∈ last.transcript → status = .searching) ∧
      (∀ slope, .noticed (.directionRefused slope) ∉ last.transcript) ∧
      ∀ fault, outcome = .failed fault → p.MayFail last.transcript := by
  have hproper := hdomain.problem hset hsearch hsettings hrule
  obtain ⟨hsound, hreturned, hfailed⟩ := Problem.solve_sound hproper rfl hrun hfinite
  refine ⟨fun pass older hsuffix => hsound.always _ older hsuffix, hreturned, ?_, ?_, hfailed⟩
  · intro origin pass status next hmem
    obtain ⟨older, hstatus, -⟩ := hsound.always.of_mem hmem
    exact hstatus
  · intro slope hmem
    obtain ⟨older, hrefused⟩ := hsound.always.of_mem hmem
    exact hrefused

end Usable

/-! ## A sample run

A line on which the slope rises by half after one step, so that a search that asks for a half
accepts that step.  The next direction comes from the pair of that step. -/

/-- Along a direction that descends, a search in the whole space begins with its first
step. -/
theorem State.begin_of_descent {σ : Type} {n m : ℕ} {p : Problem Exact σ (Strategy Exact) n}
    {s : State Exact σ (Strategy Exact) n m} {uses : Bool} (hset : p.feasible = .unconstrained)
    (hsearch : p.search = .ofStrategy uses) {d : Fin n → ℝ} {f df a : ℝ}
    (hdirection : s.direction = .ofReals d) (hmoves : d ≠ 0) (hvalue : s.current.value = .real f)
    (hslope : df < 0) (hstep : 0 < a) {search : Strategy Exact}
    (hstart : (s.search.start (.real f) (.real df) (.real a) Scalar.infinity).2 = search) :
    s.begin p (.real df) (.real a) =
      .ok { (s.chosen (.real df) (.real a) Scalar.infinity).begun
          (s.pass (.real df) (.real a) Scalar.infinity) ⟨.searching, .real a, []⟩ search with
        searching := true } := by
  have hcap : p.feasible.shortcutStep s.current.point s.direction = .ok Scalar.infinity := by
    rw [hset, hdirection]
    exact congrArg Except.ok (FeasibleSet.freeStep_of_ne_zero hmoves)
  obtain ⟨begun, hbegun, -⟩ := Search.start_descending hslope hstep
    (show Exact.real a ≤ Scalar.infinity from rfl) f
  have hreply := (s.search.start_search (.real f) (.real df) (.real a) Scalar.infinity).1
  rw [hbegun] at hreply
  have hanswer : p.search.start s.search s.current.value (.real df) (.real a) Scalar.infinity =
      (⟨.searching, .real a, []⟩, search) := by
    rw [hsearch, hvalue]
    exact Prod.ext hreply hstart
  exact begin_of_searching hcap (Exact.least_infinite_right a) (not_le.mpr hstep) hanswer rfl

namespace Sample

/-! ### Vectors with one component -/

def line (a : ℝ) : Vec Exact (Shape.size [1]) := .ofReals fun _ => a

theorem line_dotProduct (a b : ℝ) :
    (fun _ : Fin (Shape.size [1]) => a) ⬝ᵥ (fun _ => b) = a * b := by
  simp [dotProduct, show Shape.size [1] = 1 from rfl]

theorem line_inner (a b : ℝ) : (line a).inner (line b) = .real (a * b) := by
  rw [line, line, Vec.inner_ofReals, line_dotProduct]

theorem line_norm (a : ℝ) : (line a).norm = .real |a| := by
  rw [line, Vec.norm_ofReals, line_dotProduct, Real.sqrt_mul_self_eq_abs]

theorem line_opposite (a : ℝ) : (line a).scale .double (-1) = line (-a) := by
  rw [line, Exact.one_eq, Exact.neg_real, Vec.scale_ofReals]
  congr 1
  funext i
  exact neg_one_mul a

theorem line_combine (a k b : ℝ) :
    Vec.combine .double 1 (line a) (.real k) (line b) = line (a + k * b) :=
  Vec.combine_ofReals _ _ _ _

theorem line_difference (a b : ℝ) : Vec.difference .double (line a) (line b) = line (a - b) :=
  Vec.difference_ofReals _ _ _

theorem line_ne_zero {a : ℝ} (ha : a ≠ 0) : (fun _ : Fin (Shape.size [1]) => a) ≠ 0 :=
  fun hzero => ha (congrFun hzero ⟨0, Nat.one_pos⟩)

theorem line_restrict (a b : ℝ) :
    restrict Finset.univ (fun _ : Fin (Shape.size [1]) => a) ⬝ᵥ
      restrict Finset.univ (fun _ => b) = a * b := by
  simp [← sum_eq_restrict_dotProduct, show Shape.size [1] = 1 from rfl]

theorem line_support {a : ℝ} (ha : a ≠ 0) : (line a).support = .mask Finset.univ := by
  rw [line, Memory.support_ofReals]
  simp [Memory.moving, ha]

theorem line_firstStep {a b r c : ℝ} (hb : b ≠ 0) (hlength : 0 < max (r * |a|) c) :
    FeasibleSet.firstStep (line a) (line b) (.real r, .real c) =
      .real (max (r * |a|) c / |b|) := by
  have hmoves : ¬ Exact.real |b| ≤ 0 := not_le.mpr (abs_pos.mpr hb)
  have hpositive : ¬ Exact.real (max (r * |a|) c) ≤ 0 := not_le.mpr hlength
  unfold FeasibleSet.firstStep
  rw [line_norm, line_norm]
  dsimp only
  rw [if_neg hmoves, Exact.real_mul, Exact.greatest_real, if_neg hpositive,
    Exact.real_div _ (abs_ne_zero.mpr hb)]

/-! ### The first search -/

def bendValue (calls : ℕ) : ℝ := if calls = 0 then 0 else -1

def bendSlope (calls : ℕ) : ℝ := if calls = 0 then -1 else -(1 + 1)⁻¹

/-- Falls by one after the first call, and less steeply from there. -/
def bend : Objective ℕ Exact (Shape.size [1]) where
  evaluate calls _ _ := (.ok (.real (bendValue calls), line (bendSlope calls)), calls + 1)

def bendProblem : Problem Exact ℕ (Strategy Exact) (Shape.size [1]) where
  precision := .double
  keepsPairs := true
  objective := bend
  feasible := .unconstrained
  search := .ofStrategy true
  settings := ⟨-1, 2, (0, 0), (0, 1), 0⟩

def bendSearch : Wolfe Exact := Wolfe.new ⟨Scalar.half * Scalar.half, Scalar.half, 0, 40⟩

abbrev BendState := State Exact ℕ (Strategy Exact) (Shape.size [1]) 1

def bendStart : BendState := State.initial bendProblem (line 0) 0 (.wolfe bendSearch)

theorem bendProblem_settings : bendProblem.settings.Valid where
  tolerance := ⟨⟨rfl, rfl⟩, lt_irrefl (0 : ℝ), lt_irrefl (0 : ℝ)⟩
  firstStep := ⟨⟨rfl, rfl⟩, lt_irrefl (0 : ℝ), not_lt.mpr (zero_le_one (α := ℝ))⟩

theorem bendSearch_valid : (Strategy.wolfe bendSearch).rule.Valid := by
  refine ⟨?_, ?_, ?_, lt_irrefl (0 : ℝ), by decide⟩
  · show (0 : ℝ) < 1 / 2 * (1 / 2)
    norm_num
  · show (1 / 2 * (1 / 2) : ℝ) < 1 / 2
    norm_num
  · show (1 / 2 : ℝ) < 1
    norm_num

def bendMeasured (s : BendState) : BendState :=
  { s.answered ⟨s.current.point, .real (bendValue s.objective), line (bendSlope s.objective)⟩
      (s.objective + 1) with
    projected := line (bendSlope s.objective)
    norm := .real |bendSlope s.objective| }

theorem bend_gauge (s : BendState) :
    s.gauge bendProblem = ((bendMeasured s).setThreshold bendProblem).settle := by
  have hgauge := s.gauge_of_answer (p := bendProblem) rfl rfl
  rw [line_norm] at hgauge
  exact hgauge

def bendGauged : BendState :=
  { bendMeasured bendStart with threshold := 0 + 0 * .real |-1| }

theorem bendStart_gauge : bendStart.gauge bendProblem = .ok bendGauged := by
  have hset : (bendMeasured bendStart).setThreshold bendProblem = bendGauged := if_pos rfl
  have habove : ¬ bendGauged.norm ≤ bendGauged.threshold := by
    show ¬ |(-1 : ℝ)| ≤ 0 + 0 * |-1|
    norm_num
  rw [bend_gauge bendStart, hset, State.settle_of_above habove]

theorem bendGauged_direction : (bendGauged.steered bendProblem).direction = line 1 := by
  show (line (-1)).scale .double (-1) = _
  rw [line_opposite, neg_neg]

theorem bend_firstStep : FeasibleSet.firstStep (line 0) (line 1) (0, 1) = Exact.real 1 := by
  refine (line_firstStep (r := 0) (c := 1) one_ne_zero (by norm_num)).trans ?_
  norm_num

/-- A search under way, along a slope of minus one. -/
def bendBegun : Wolfe Exact :=
  { bendSearch with search := ⟨.searching, .real 0, .real (-1), Scalar.infinity, 0⟩ }

theorem bendSearch_start :
    bendSearch.start (.real 0) (.real (-1)) (.real 1) Scalar.infinity =
      (⟨.searching, .real 1, []⟩, bendBegun) := by
  have hslope : Exact.real (-1) < 0 := neg_one_lt_zero (R := ℝ)
  have hstep : 0 < Exact.real 1 := one_pos (α := ℝ)
  have hleast : Scalar.least (.real 1) Scalar.infinity = Exact.real 1 :=
    Exact.least_infinite_right 1
  rw [Wolfe.start, Search.start, hleast, if_pos hslope, if_pos hstep]
  rfl

def bendSought : BendState :=
  { ((bendGauged.steered bendProblem).chosen (.real (-1)) (.real 1) Scalar.infinity).begun
      ((bendGauged.steered bendProblem).pass (.real (-1)) (.real 1) Scalar.infinity)
      ⟨.searching, .real 1, []⟩ (.wolfe bendBegun) with
    searching := true }

theorem bendGauged_seek : bendGauged.seek bendProblem = .ok bendSought := by
  have happroach : bendGauged.approach bendProblem = .ok (-(Scalar.square (.real |-1|)),
      FeasibleSet.firstStep (line 0) (bendGauged.steered bendProblem).direction (0, 1),
      bendGauged.steered bendProblem) := rfl
  have hslope : -(Scalar.square (Exact.real |-1|)) = Exact.real (-1) := by
    show Exact.real (-(|-1| * |-1|)) = _
    norm_num
  rw [bendGauged_direction, bend_firstStep, hslope] at happroach
  have hstart : Strategy.start (.wolfe bendSearch) (.real 0) (.real (-1)) (.real 1)
      Scalar.infinity = (⟨.searching, .real 1, []⟩, .wolfe bendBegun) := by
    rw [Strategy.start, bendSearch_start]
  rw [State.seek_eq bendProblem (s := bendGauged) rfl, happroach]
  exact State.begin_of_descent (p := bendProblem) rfl rfl bendGauged_direction
    (line_ne_zero one_ne_zero) rfl neg_one_lt_zero one_pos (congrArg Prod.snd hstart)

theorem bend_first_turn : bendStart.turn bendProblem = .ok (bendSought.advance bendProblem) := by
  have hmeter : bendSought.meter bendProblem = .ok bendSought := if_neg (by decide)
  rw [State.turn_of_sought bendStart_gauge rfl bendGauged_seek, hmeter]
  rfl

/-! ### The pair and its direction -/

theorem bendSlope_one : bendSlope 1 = -(1 / 2) := by
  rw [bendSlope, if_neg one_ne_zero]
  norm_num

theorem bendSlope_one_neg : bendSlope 1 < 0 := by
  rw [bendSlope_one]
  norm_num

/-- At the trial, where the slope has risen by half. -/
def bendTried : BendState := bendMeasured (bendSought.advance bendProblem)

theorem bendTried_gauge : (bendSought.advance bendProblem).gauge bendProblem = .ok bendTried := by
  have hset : bendTried.setThreshold bendProblem = bendTried := if_neg (by decide)
  have habove : ¬ bendTried.norm ≤ bendTried.threshold := by
    show ¬ |bendSlope 1| ≤ 0 + 0 * |-1|
    rw [bendSlope_one]
    norm_num
  rw [bend_gauge]
  show (bendTried.setThreshold bendProblem).settle = _
  rw [hset, State.settle_of_above habove]

theorem bendTried_point : bendTried.current.point = line 1 := by
  show Vec.combine .double 1 (line 0) (.real 1) (bendGauged.steered bendProblem).direction = _
  rw [bendGauged_direction, line_combine, zero_add, mul_one]

theorem bendTried_step :
    Vec.difference .double bendTried.current.point bendTried.origin.point = line 1 := by
  rw [bendTried_point]
  exact (line_difference 1 0).trans (congrArg line (sub_zero 1))

theorem bendTried_change :
    Vec.difference .double bendTried.current.gradient bendTried.origin.gradient =
      line (1 / 2) := by
  refine (line_difference (bendSlope 1) (-1)).trans (congrArg line ?_)
  rw [bendSlope_one]
  norm_num

theorem bendTried_slope : bendTried.trialSlope bendProblem = .ok (.real (bendSlope 1)) := by
  have hnonzero : ¬ Scalar.equal (Exact.real 1) 0 = true := by
    rw [Exact.zero_eq, Exact.equal_real]
    exact one_ne_zero
  show (if Scalar.equal (Exact.real 1) 0 = true then throw Fault.divisionByZero
    else pure ((line (bendSlope 1)).inner (Vec.difference .double
      bendTried.current.point bendTried.origin.point) / .real 1) : Except Fault Exact) = _
  rw [if_neg hnonzero, bendTried_step, line_inner, Exact.real_div _ one_ne_zero, mul_one, div_one]
  rfl

theorem bendBegun_iterate : bendBegun.iterate (.real 1) (.real (-1)) (.real (bendSlope 1)) =
    bendBegun.accept (.real 1) := by
  have hlow : ¬ bendBegun.tooHigh (.real 1) (.real (-1)) = true := by
    rw [Wolfe.tooHigh, Bool.or_eq_true, decide_eq_true_iff]
    rintro (hfinite | hhigh)
    · cases hfinite
    · have hhigh' : (0 + 1 / 2 * (1 / 2) * 1 * (-1) : ℝ) < -1 := hhigh
      norm_num at hhigh'
  have hrisen : ¬ bendBegun.tooSteep (.real (bendSlope 1)) = true := by
    rw [bendSlope_one, Wolfe.tooSteep, decide_eq_true_iff]
    show ¬ (-(1 / 2) : ℝ) < 1 / 2 * (-1)
    norm_num
  have hsearching : bendBegun.search.status = .searching := rfl
  rw [Wolfe.iterate, if_pos hsearching, if_neg hlow, if_neg hrisen]

def bendAccepted : BendState :=
  (bendTried.told (.real (bendSlope 1)) ⟨.converged, .real 1, []⟩
    (.wolfe (bendBegun.accept (.real 1)).2)).accepted

theorem bendTried_consult : bendTried.consult bendProblem = .ok bendAccepted := by
  have hreply : bendProblem.search.iterate bendTried.search bendTried.step bendTried.current.value
      (.real (bendSlope 1)) = (.ok ⟨.converged, .real 1, []⟩,
        .wolfe (bendBegun.accept (.real 1)).2) := by
    show (Except.ok (bendBegun.iterate (.real 1) (.real (-1)) (.real (bendSlope 1))).1,
      Strategy.wolfe (bendBegun.iterate (.real 1) (.real (-1)) (.real (bendSlope 1))).2) = _
    rw [bendBegun_iterate]
    rfl
  rw [State.consult_of_reply rfl bendTried_slope hreply]
  rfl

/-- With the pair in the memory. -/
def bendEnriched : BendState :=
  { bendAccepted.enriched
      (Vec.difference .double bendAccepted.current.point bendAccepted.origin.point)
      (Vec.difference .double bendAccepted.current.gradient bendAccepted.origin.gradient) with
    restored := false }

theorem bendAccepted_seek :
    bendAccepted.seek bendProblem = bendEnriched.choose bendProblem := rfl

/-- The step and the change of the gradient along it. -/
def bendPair : Pair (Fin (Shape.size [1])) := (fun _ => 1, fun _ => -bendSlope 1)

theorem bendEnriched_pairs : bendEnriched.memory.pairs = [bendPair].map Memory.stored := by
  have hpairs : bendEnriched.memory.pairs =
      [(Vec.difference .double bendTried.current.point bendTried.origin.point,
        Vec.difference .double bendTried.current.gradient bendTried.origin.gradient)] := rfl
  rw [hpairs, bendTried_step, bendTried_change]
  simp only [bendPair, bendSlope_one, neg_neg]
  rfl

theorem bendPair_curvature : curvature Finset.univ bendPair = 1 / 2 := by
  rw [curvature, bendPair, line_restrict, bendSlope_one]
  norm_num

theorem bendPair_curvature_pos : 0 < curvature Finset.univ bendPair := by
  rw [bendPair_curvature]
  exact one_half_pos

/-- What the sweeps over that pair make of the opposite gradient. -/
theorem bendPair_swept : Memory.swept Finset.univ [bendPair] (fun _ => bendSlope 1) =
    fun _ => 1 := by
  have hcoefficient : coefficient Finset.univ bendPair (-fun _ => bendSlope 1) = 1 := by
    rw [coefficient, bendPair_curvature]
    show 1 / (1 / 2) * (restrict Finset.univ (fun _ => -bendSlope 1) ⬝ᵥ
      restrict Finset.univ (fun _ => 1)) = 1
    rw [line_restrict, bendSlope_one]
    norm_num
  have hvanishes : (-fun _ => bendSlope 1) + -(1 : ℝ) • bendPair.2 = 0 := by
    funext i
    simp [bendPair]
  funext i
  unfold Memory.swept
  rw [if_pos (Finset.mem_univ i)]
  simp only [sweepUp, sweepDown, if_pos bendPair_curvature_pos, hcoefficient, hvanishes,
    smul_zero]
  show (0 + (1 - 1 / curvature Finset.univ bendPair * (0 ⬝ᵥ restrict Finset.univ bendPair.2)) •
    bendPair.1) i = 1
  simp [bendPair]

/-- The direction from the pair, along which the slope is the one at the trial. -/
theorem bendEnriched_direction (before : Vec Exact (Shape.size [1])) :
    ∃ memory notices, bendEnriched.memory.direction .double (fun d => .ok d) before
        (line (bendSlope 1)) (line (bendSlope 1)).support =
      (.ok ⟨true, .real (bendSlope 1), line 1⟩, memory, notices) := by
  have husable : ∃ q ∈ [bendPair], 0 < curvature Finset.univ q :=
    ⟨bendPair, List.mem_singleton_self _, bendPair_curvature_pos⟩
  have hproduct : (fun _ => 1) ⬝ᵥ (fun _ : Fin (Shape.size [1]) => bendSlope 1) = bendSlope 1 :=
    (line_dotProduct 1 (bendSlope 1)).trans (one_mul _)
  have hanswer : bendEnriched.memory.direction .double (fun d => .ok d) before
      (line (bendSlope 1)) (.mask Finset.univ) = (.ok ⟨true, _, line 1⟩, _, _) :=
    Memory.direction_of_usable (show bendEnriched.memory.live ≤ 1 from le_refl 1) (by decide)
      bendEnriched_pairs husable
      (congrArg (fun d => Except.ok (Vec.ofReals d)) bendPair_swept)
      (hproduct.trans_lt bendSlope_one_neg) before
  rw [hproduct] at hanswer
  rw [line_support bendSlope_one_neg.ne]
  exact ⟨_, _, hanswer⟩

/-! ### The second search -/

/-- Where the memory has answered with the direction from the pair. -/
def bendReady (memory : Memory Exact (Shape.size [1]) 1) (notices : List (Notice Exact)) :
    BendState :=
  { bendEnriched.asked memory notices with direction := line 1, steepest := false }

/-- The second pass, along the direction from the pair. -/
def bendPass : Pass Exact (Shape.size [1]) :=
  ⟨1, 2, line 1, .real (bendSlope 1), false, .real 1, Scalar.infinity⟩

def bendLast (memory : Memory Exact (Shape.size [1]) 1) (notices : List (Notice Exact))
    (search : Strategy Exact) : BendState :=
  { ((bendReady memory notices).chosen (.real (bendSlope 1)) (.real 1) Scalar.infinity).begun
      bendPass ⟨.searching, .real 1, []⟩ search with
    searching := true }

theorem bendAccepted_sought : ∃ memory notices search,
    bendAccepted.seek bendProblem = .ok (bendLast memory notices search) := by
  obtain ⟨memory, notices, hanswer⟩ := bendEnriched_direction bendEnriched.direction
  have hchoose := State.choose_of_descent (p := bendProblem) (by decide) hanswer
  have hbegin := State.begin_of_descent (p := bendProblem) (s := bendReady memory notices) rfl rfl
    rfl (line_ne_zero one_ne_zero) (show _ = Exact.real (-1) from rfl) bendSlope_one_neg
    (one_pos (α := ℝ)) rfl
  rw [bendAccepted_seek]
  exact ⟨memory, notices, _, hchoose.trans hbegin⟩

def bendRun : Outcome Exact (Shape.size [1]) × BendState :=
  bendProblem.solve 1 2 (line 0) 0 (.wolfe bendSearch)

theorem bendRun_eq : ∃ memory notices search,
    bendRun = (.returned ⟨line 1, .real (-1), .tooManyEvaluations, 1, 2, 0,
      .real |bendSlope 1|⟩, bendLast memory notices search) := by
  obtain ⟨memory, notices, search, hseek⟩ := bendAccepted_sought
  have hmeter : (bendLast memory notices search).meter bendProblem =
      .error (.status .tooManyEvaluations, bendLast memory notices search) :=
    if_pos ⟨by decide, le_refl (2 : ℤ)⟩
  have hturn : (bendSought.advance bendProblem).turn bendProblem =
      .error (.status .tooManyEvaluations, bendLast memory notices search) := by
    rw [State.turn_of_sought bendTried_gauge bendTried_consult hseek, hmeter]
    rfl
  have hsettled : (bendLast memory notices search).settled bendProblem =
      .ok (bendLast memory notices search) := if_neg (lt_irrefl (-1 : ℝ))
  have hsolution : (bendLast memory notices search).solution .tooManyEvaluations =
      ⟨line 1, .real (-1), .tooManyEvaluations, 1, 2, 0, .real |bendSlope 1|⟩ := by
    rw [← bendTried_point]
    rfl
  refine ⟨memory, notices, search, ?_⟩
  show bendStart.run bendProblem (1 + 1) = _
  unfold State.run
  rw [bend_first_turn]
  show (bendSought.advance bendProblem).run bendProblem (0 + 1) = _
  unfold State.run
  rw [hturn]
  unfold State.finish
  rw [← hsolution]
  dsimp only
  rw [hsettled]
  rfl

/-- What is on record: the first step is accepted, and the second pass takes the direction
from its pair. -/
theorem bendRun_transcript : ∃ notices : List (Notice Exact), bendRun.2.transcript =
    .started bendTried.current bendPass .searching (.real 1) ::
      .chosen bendPass :: ((notices.map Event.noticed).reverse ++
        .recalled bendEnriched.memory.pairs :: .pushed (line 1) (line (1 / 2)) ::
          .iterated (.real 1) (.real (-1)) (.real (bendSlope 1)) .converged (.real 1) ::
            bendTried.transcript) := by
  obtain ⟨memory, notices, search, hrun⟩ := bendRun_eq
  refine ⟨notices, ?_⟩
  rw [hrun, ← bendTried_step, ← bendTried_change]
  rfl

theorem bendRun_chooses : ∃ older : Transcript Exact (Shape.size [1]),
    .chosen bendPass :: older <:+ bendRun.2.transcript := by
  obtain ⟨notices, htranscript⟩ := bendRun_transcript
  rw [htranscript]
  exact ⟨_, List.suffix_cons _ _⟩

theorem bendRun_pushes : .pushed (line 1) (line (1 / 2)) ::
    .iterated (.real 1) (.real (-1)) (.real (bendSlope 1)) .converged (.real 1) ::
      bendTried.transcript <:+ bendRun.2.transcript := by
  obtain ⟨notices, htranscript⟩ := bendRun_transcript
  rw [htranscript]
  exact (((List.suffix_cons _ _).trans (List.suffix_append _ _)).trans
    (List.suffix_cons _ _)).trans (List.suffix_cons _ _)

theorem bendRun_finite : bendRun.2.transcript.Finite := by
  refine Problem.answers_of_objective (fun calls x buffer value gradient next hanswer => ?_) 2
    (line 0) 0 (Strategy.wolfe bendSearch)
  cases hanswer
  refine ⟨rfl, fun a ha => ?_⟩
  obtain ⟨i, rfl⟩ := Vec.exists_get_of_mem ha
  simp [line]

theorem bendRun_usable :
    Domain.unconstrained.Proper [1] ∧ bendProblem.settings.Valid ∧
      (Strategy.wolfe bendSearch).rule.Valid ∧
      bendRun.2.transcript.Finite ∧ bendPass.steepest = false ∧
      (∃ older : Transcript Exact (Shape.size [1]),
        .chosen bendPass :: older <:+ bendRun.2.transcript) ∧
      (∀ pass (older : Transcript Exact (Shape.size [1])),
        .chosen pass :: older <:+ bendRun.2.transcript → ∃ i, older.accepted.head? = some i ∧
          pass.Usable bendProblem (Domain.unconstrained.intervals [1] .double) i) ∧
      (∀ solution, bendRun.1 = .returned solution → solution.status ≠ .wouldBlock) ∧
      (∀ origin pass status next,
        .started origin pass status next ∈ bendRun.2.transcript → status = .searching) ∧
      (∀ slope, .noticed (.directionRefused slope) ∉ bendRun.2.transcript) ∧
      ∀ fault, bendRun.1 = .failed fault → bendProblem.MayFail bendRun.2.transcript :=
  ⟨.unconstrained, bendProblem_settings, bendSearch_valid, bendRun_finite, rfl, bendRun_chooses,
    Problem.chosen_direction_usable .unconstrained rfl rfl bendProblem_settings bendSearch_valid
      Prod.mk.eta.symm bendRun_finite⟩

end Sample

end

end VariableMetric
