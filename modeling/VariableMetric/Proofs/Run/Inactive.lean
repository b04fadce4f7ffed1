import VariableMetric.Proofs.Run.Budget
import VariableMetric.Proofs.Run.Capped

/-!
# Boxes that are never reached

Consider a run in the whole space, in exact arithmetic, that calls its objective strictly
inside a box only.  Its searches have not come up to the caps that the box would put on
them, so the box makes no difference to them, and it makes none to the points and the
gradients.

So the run in the box calls the objective at the same points, in the same order, and
comes to the same outcome.
-/

namespace VariableMetric

open Matrix Transcript

noncomputable section

variable {σ : Type} {n m : ℕ}

/-! ## Answers of real numbers -/

/-- A call of the objective that was answered with real numbers. -/
def Event.IsRealAnswer (e : Event Exact n) : Prop :=
  ∃ x f g, e = .evaluated ⟨x, .real f, .ofReals g⟩

def Transcript.RealAnswers (t : Transcript Exact n) : Prop :=
  ∀ e ∈ t, isCall e = true → e.IsRealAnswer

theorem Transcript.RealAnswers.finite {t : Transcript Exact n} (h : t.RealAnswers) :
    t.Finite := by
  intro i hi
  obtain ⟨x, f, g, hanswer⟩ := h _ (mem_answers.mp hi) rfl
  obtain rfl := Event.evaluated.inj hanswer
  refine ⟨rfl, fun a ha => ?_⟩
  obtain ⟨k, rfl⟩ := Vec.exists_get_of_mem ha
  simp

theorem Transcript.RealAnswers.cons {t : Transcript Exact n} (h : t.RealAnswers)
    {e : Event Exact n} (he : isCall e = false) : RealAnswers (e :: t) := by
  intro e' hmem hcall
  rcases List.mem_cons.mp hmem with rfl | hold
  · exact absurd hcall (by simp [he])
  · exact h e' hold hcall

section Computes

variable {o : Objective σ Exact n} {f : (Fin n → ℝ) → ℝ} {g : (Fin n → ℝ) → Fin n → ℝ}
  {state next : σ} {x : Fin n → ℝ} {buffer : Vec Exact n}

theorem Objective.Computes.isFunctionAt (h : o.Computes f g) (x : Fin n → ℝ) :
    o.IsFunctionAt (.ofReals x) :=
  ⟨_, fun state buffer => h state x buffer⟩

theorem Objective.Computes.isRealAnswer (h : o.Computes f g) {value : Exact}
    {gradient : Vec Exact n}
    (hanswer : o.evaluate state (.ofReals x) buffer = (.ok (value, gradient), next)) :
    Event.IsRealAnswer (.evaluated ⟨.ofReals x, value, gradient⟩) := by
  have hcomputed := h state x buffer
  rw [hanswer] at hcomputed
  cases hcomputed
  exact ⟨_, _, _, rfl⟩

theorem Objective.Computes.not_refused (h : o.Computes f g) {fault : Fault} :
    o.evaluate state (.ofReals x) buffer ≠ (.error fault, next) := by
  intro hrefusal
  have hcomputed := h state x buffer
  rw [hrefusal] at hcomputed
  cases hcomputed

end Computes

/-! ## Turns and runs -/

namespace State

section Stays

variable {p : Problem Exact σ (Strategy Exact) n} {s g c b : State Exact σ (Strategy Exact) n m}

/-- The same search, and the same place. -/
structure Stays (s s₁ : State Exact σ (Strategy Exact) n m) : Prop where
  origin : s₁.origin = s.origin := by rfl
  direction : s₁.direction = s.direction := by rfl
  point : s₁.current.point = s.current.point := by rfl

theorem ensures_gauge_stays (hfree : p.feasible = .unconstrained) :
    Ensures (s.gauge p) s.Stays fun _ last => last.origin = s.origin := by
  have hproject : Ensures (s.project p) s.Stays fun _ last => last.origin = s.origin := by
    rw [project, hfree]
    exact ⟨rfl, rfl, rfl⟩
  have hevaluate : ∀ s₁, s.Stays s₁ →
      Ensures (s₁.evaluate p) s.Stays fun _ last => last.origin = s.origin := fun _ h =>
    ensures_evaluate (fun _ _ _ _ => ⟨h.origin, h.direction, h.point⟩) fun _ _ _ => h.origin
  have hmeasure : ∀ s₁, s.Stays s₁ →
      Ensures (s₁.measure p) s.Stays fun _ last => last.origin = s.origin := fun _ h =>
    ensures_measure (fun _ _ => ⟨h.origin, h.direction, h.point⟩) fun _ _ => h.origin
  refine ensures_gauge hproject hevaluate hmeasure fun s₁ h => ?_
  have hset : s.Stays (s₁.setThreshold p) :=
    setThreshold_of s.Stays fun _ => ⟨h.origin, h.direction, h.point⟩
  exact ensures_settle (fun _ => hset.origin) fun _ => hset

/-- The trial of a search is followed where it is, or from its origin. -/
structure Follows (s c : State Exact σ (Strategy Exact) n m) : Prop where
  origin : c.origin = s.origin := by rfl
  direction : c.direction = s.direction := by rfl
  point : c.current.point = s.current.point ∨
    s.searching = true ∧ c.current.point = s.origin.point
  searching : c.searching = true → s.searching = true

theorem ensures_consult_follows (p : Problem Exact σ (Strategy Exact) n)
    (s : State Exact σ (Strategy Exact) n m) :
    Ensures (s.consult p) s.Follows fun _ last => last.origin = s.origin := by
  refine ensures_consult (fun _ => ⟨rfl, rfl, .inl rfl, id⟩) fun hsearching => ?_
  refine ensures_report (fun slope reply search _ _ => ?_) (fun _ _ => rfl) fun _ _ _ _ => rfl
  cases reply.status with
  | searching => exact ⟨rfl, rfl, .inl rfl, fun _ => hsearching⟩
  | converged =>
    exact ensures_accept (fun _ _ => rfl) fun _ => ⟨rfl, rfl, .inl rfl, nofun⟩
  | failed =>
    exact ensures_abandon (fun _ => rfl)
      (fun _ _ _ => ⟨rfl, rfl, .inr ⟨hsearching, rfl⟩, nofun⟩) fun _ _ => rfl

theorem meter_of_unmetered (s : State Exact σ (Strategy Exact) n m)
    (hunmetered : p.settings.maxEvaluations < 0) : s.meter p = .ok s :=
  if_neg fun h => absurd h.1 (not_le.mpr hunmetered)

theorem turn_of_unmetered [Capacity m] (hgauge : s.gauge p = .ok g)
    (hconsult : g.consult p = .ok c) (hseek : c.seek p = .ok b)
    (hunmetered : p.settings.maxEvaluations < 0) : s.turn p = .ok (b.advance p) := by
  rw [turn_of_sought hgauge hconsult hseek, meter_of_unmetered b hunmetered]
  rfl

end Stays

variable {p : Problem Exact σ (Strategy Exact) n} {S : FeasibleSet Exact n}
  {inside : Vec Exact n → Prop} {rule : Rule Exact} {objective : σ}
  {s s' : State Exact σ (Strategy Exact) n m}

theorem Extends.realAnswers (h : s.Extends Event.IsRealAnswer []) :
    s.transcript.RealAnswers := by
  obtain ⟨added, heq, hreal⟩ := h
  rw [heq, List.append_nil]
  exact hreal

/-- The run has no origin yet, or one inside. -/
def Anchored (inside : Vec Exact n → Prop) (s : State Exact σ (Strategy Exact) n m) : Prop :=
  s.origin.value = Scalar.infinity ∨ inside s.origin.point

/-- Between two turns of both runs. -/
structure Alongside [Capacity m] (p : Problem Exact σ (Strategy Exact) n)
    (inside : Vec Exact n → Prop) (rule : Rule Exact) (objective : σ)
    (s s' : State Exact σ (Strategy Exact) n m) : Prop where
  alike : (Likeness.capped (Clears p.precision inside s.origin.point s.direction)).Matches s s'
  anchored : s.Anchored inside
  proceeds : s.Proceeds p (fun _ => Set.univ) rule objective
  calls : s.Extends Event.IsRealAnswer []

/-- Where both runs end. -/
structure Parted (p : Problem Exact σ (Strategy Exact) n) (inside : Vec Exact n → Prop)
    (s s' : State Exact σ (Strategy Exact) n m) : Prop where
  alike : (Likeness.capped fun _ => True).Resembles s s'
  anchored : s.Anchored inside
  calls : s.Extends Event.IsRealAnswer []

/-- The second half of a turn, at a trial that is inside. -/
theorem mirrors_rest [Capacity m] (hp : p.Unhindered S inside rule)
    (halike : (Likeness.capped (Clears p.precision inside s.origin.point s.direction)).Matches s s')
    (hanchored : s.Anchored inside) (hgauges : s.Gauges p (fun _ => Set.univ) rule)
    (hcalls : s.Extends Event.IsRealAnswer []) (hinside : inside s.current.point)
    (hnext : ∀ c b, s.consult p = .ok c → c.seek p = .ok b →
      inside (Vec.combine p.precision 1 b.origin.point b.step b.direction)) :
    Mirrors
      (s.consult p >>= fun c => c.seek p >>= fun b => b.meter p >>= fun b => pure (b.advance p))
      (s'.consult { p with feasible := S } >>= fun c => c.seek { p with feasible := S } >>=
        fun b => b.meter { p with feasible := S } >>=
          fun b => pure (b.advance { p with feasible := S }))
      (fun t t' => t.Anchored inside ∧
        (Likeness.capped (Clears p.precision inside t.origin.point t.direction)).Matches t t')
      fun t t' => t.Anchored inside ∧ (Likeness.capped fun _ => True).Resembles t t' := by
  obtain ⟨hsteady, -⟩ := hgauges.steady hcalls.realAnswers.finite
  have horigin : s.searching = true → inside s.origin.point := by
    intro hsearching
    obtain ⟨f, df, pass, hvalue, -⟩ := (hsteady.search hsearching).search
    exact hanchored.resolve_left (by rw [hvalue]; exact nofun)
  have hfollows := ensures_consult_follows p s
  have hconsult := halike.mirrors_capped_consult hp horigin fun c hc hsearching cap hclear => by
    rw [hc] at hfollows
    have htrial := hnext c c hc (if_pos hsearching)
    rw [hfollows.origin, hfollows.direction] at htrial
    exact hclear _ htrial
  refine ((hconsult.ensuring (hfollows.and ((hgauges.ensures_consult hp.proper).and
    hcalls.ensures_consult))).mono (fun _ _ h => h) ?_).bind ?_
  · rintro last last' ⟨⟨ending, horigin, -⟩, hlike⟩
    exact ⟨by rw [Anchored, horigin]; exact hanchored, hlike.recapped⟩
  rintro c c' hconsulted ⟨⟨hfollows, ⟨hfollowed, hguided⟩, hcalls⟩, halike⟩
  rw [← hfollows.origin, ← hfollows.direction] at halike
  -- A failed search sends the run back to its origin, which is inside like the trial.
  have hplace : inside c.current.point := by
    rcases hfollows.point with hsame | ⟨hsearching, hsame⟩
    · exact hsame ▸ hinside
    · exact hsame ▸ horigin hsearching
  have hseek := halike.mirrors_capped_seek hp (hguided hcalls.realAnswers.finite) hfollowed hplace
    (fun hsearching => hfollows.origin ▸ horigin (hfollows.searching hsearching))
    fun b hb => hnext c b hconsulted hb
  refine (hseek.mono (fun _ _ h => h) ?_).bind ?_
  · rintro last last' ⟨horigin, hlike⟩
    refine ⟨?_, hlike⟩
    rw [Anchored, horigin, hfollows.origin]
    exact hanchored
  rintro b b' - hcleared
  rw [meter_of_unmetered b hp.unmetered,
    meter_of_unmetered (p := { p with feasible := S }) b' hp.unmetered]
  refine ⟨.inr hcleared.origin, ?_⟩
  obtain ⟨objective, cap, t, rfl, hrecord, hrest⟩ := hcleared.alike.of_busy hcleared.searching
  refine ⟨.intro (b.advance p) objective _ trivial hrecord, fun hidle => ?_, fun _ => ?_⟩
  · exact absurd hcleared.searching (by simp [show b.searching = false from hidle])
  · exact ⟨rfl, cap, rfl, hrest⟩

theorem isRealAnswer_of_kept (hp : p.Unhindered S inside rule) {y : Fin n → ℝ}
    (hkept : p.feasible.projectVariables s.current.point = .ok (.ofReals y)) :
    (∀ state x buffer value gradient next,
      p.feasible.projectVariables s.current.point = .ok x →
      p.objective.evaluate state x buffer = (.ok (value, gradient), next) →
      Event.IsRealAnswer (.evaluated ⟨x, value, gradient⟩)) ∧
    ∀ state x buffer fault next,
      p.feasible.projectVariables s.current.point = .ok x →
      p.objective.evaluate state x buffer = (.error fault, next) →
      Event.IsRealAnswer (.refused x : Event Exact n) := by
  obtain ⟨f, g, hcomputes⟩ := hp.computes
  refine ⟨fun state x buffer value gradient next hx heq => ?_,
    fun state x buffer fault next hx heq => ?_⟩
  · cases hkept.symm.trans hx
    exact hcomputes.isRealAnswer heq
  · cases hkept.symm.trans hx
    exact absurd heq hcomputes.not_refused

theorem Alongside.mirrors_turn [Capacity m] (hp : p.Unhindered S inside rule)
    (h : s.Alongside p inside rule objective s') (hinside : inside s.current.point)
    (hnext : ∀ next, s.turn p = .ok next → inside next.current.point) :
    Mirrors (s.turn p) (s'.turn { p with feasible := S }) (Alongside p inside rule objective)
      (Parted p inside) := by
  obtain ⟨f, g, hcomputes⟩ := hp.computes
  -- All answers so far were real numbers, so the run stands at a point of real numbers.
  obtain ⟨-, y, hy⟩ := h.proceeds.steady h.calls.realAnswers.finite
  have hkept : p.feasible.projectVariables s.current.point = .ok (.ofReals y) := by
    rw [hp.unconstrained, hy]
    rfl
  obtain ⟨hanswer, hrefusal⟩ := isRealAnswer_of_kept hp hkept
  have hplace := hp.answers hinside
  have hgauge : Mirrors (s.gauge p) (s'.gauge { p with feasible := S }) _ _ :=
    h.alike.mirrors_gauge hplace fun x hx => by
      cases hkept.symm.trans hx
      exact ⟨hcomputes.isFunctionAt y, hy ▸ hplace⟩
  have hturn : Mirrors (s.turn p) (s'.turn { p with feasible := S })
      (fun t t' => t.Anchored inside ∧
        (Likeness.capped (Clears p.precision inside t.origin.point t.direction)).Matches t t')
      fun t t' => t.Anchored inside ∧ (Likeness.capped fun _ => True).Resembles t t' := by
    have hgauges := (ensures_gauge_stays hp.unconstrained).and
      ((h.proceeds.ensures_gauge hp.proper).and (h.calls.ensures_gauge hanswer hrefusal))
    rw [turn_eq, turn_eq]
    refine ((hgauge.ensuring hgauges).mono (fun _ _ h => h) ?_).bind ?_
    · rintro last last' ⟨⟨ending, horigin, -⟩, hlike⟩
      exact ⟨by rw [Anchored, horigin]; exact h.anchored, hlike.recapped⟩
    rintro s₁ s₁' hgauged ⟨⟨hstays, hgauges, hcalls⟩, halike⟩
    have hinside₁ : inside s₁.current.point := hstays.point ▸ hinside
    rw [← hstays.origin, ← hstays.direction] at halike
    refine mirrors_rest hp halike ?_ hgauges hcalls hinside₁ ?_
    · rw [Anchored, hstays.origin]
      exact h.anchored
    · exact fun c b hc hb => hnext _ (turn_of_unmetered hgauged hc hb hp.unmetered)
  have hfirst := (h.proceeds.ensures_turn hp.proper).and (h.calls.ensures_turn hanswer hrefusal)
  refine (hturn.ensuring hfirst).mono ?_ ?_
  · rintro t t' ⟨⟨hproceeds, hcalls⟩, hanchored, halike⟩
    exact ⟨halike, hanchored, hproceeds, hcalls⟩
  · rintro t t' ⟨⟨ending, -, hcalls⟩, hanchored, halike⟩
    exact ⟨halike, hanchored, hcalls⟩

/-- A run that has come to its end, and has called its objective inside only. -/
def RunsInside (inside : Vec Exact n → Prop)
    (result : Outcome Exact n × State Exact σ (Strategy Exact) n m) : Prop :=
  result.1 ≠ .unfinished ∧ ∀ c ∈ result.2.transcript.evaluations, inside c.1

variable [Capacity m] {turns : ℕ}

theorem RunsInside.current (h : RunsInside inside (s.run p (turns + 1)))
    (hfree : p.feasible = .unconstrained) : inside s.current.point := by
  have hkept : p.feasible.projectVariables s.current.point = .ok s.current.point := by
    rw [hfree]
    rfl
  obtain ⟨answer, hmem⟩ : ∃ answer, (s.current.point, answer) ∈
    (s.run p (turns + 1)).2.transcript.evaluations := exists_call hkept
  exact h.2 _ hmem

theorem RunsInside.next {next : State Exact σ (Strategy Exact) n m}
    (h : RunsInside inside (s.run p (turns + 1))) (hfree : p.feasible = .unconstrained)
    (hturn : s.turn p = .ok next) : inside next.current.point := by
  unfold run at h
  rw [hturn] at h
  cases turns with
  | zero => exact absurd rfl h.1
  | succ turns => exact h.current hfree

/-- Two runs end for the same reason, if the first one stays inside. -/
theorem Alongside.runs_parted (hp : p.Unhindered S inside rule)
    (h : s.Alongside p inside rule objective s') (hinside : RunsInside inside (s.run p turns)) :
    ∃ (ending : Ending) (last last' : State Exact σ (Strategy Exact) n m),
      last.Parted p inside last' ∧ s.run p turns = last.finish p ending ∧
        s'.run { p with feasible := S } turns = last'.finish { p with feasible := S } ending := by
  have hturn : ∀ turns (s s' : State Exact σ (Strategy Exact) n m),
      RunsInside inside (s.run p (turns + 1)) → s.Alongside p inside rule objective s' →
      Mirrors (s.turn p) (s'.turn { p with feasible := S }) (Alongside p inside rule objective)
        (Parted p inside) := fun turns s s' hinside h =>
    h.mirrors_turn hp (hinside.current hp.unconstrained)
      fun next hnext => hinside.next hp.unconstrained hnext
  refine (runs_alike _ hturn turns s s' hinside h).resolve_left ?_
  rintro ⟨last, last', -, hrun, -⟩
  rw [hrun] at hinside
  exact hinside.1 rfl

theorem initial_alongside (hp : p.Proper (fun _ => Set.univ) rule) (x : Fin n → ℝ)
    (objective : σ) {search : Strategy Exact} (hrule : search.rule = rule) :
    (State.initial p (.ofReals x) objective search : State Exact σ (Strategy Exact) n m).Alongside
      p inside rule objective
      (State.initial { p with feasible := S } (.ofReals x) objective search) where
  alike := ⟨.intro (State.initial p (.ofReals x) objective search) objective _ trivial rfl,
    fun _ => ⟨_, (Strategy.withCap_self _).symm⟩, nofun⟩
  anchored := .inl rfl
  proceeds := initial_proceeds hp x objective hrule
  calls := ⟨[.searchReset], rfl, by simp [isCall]⟩

omit [Capacity m] in
theorem Parted.finish (hp : p.Unhindered S inside rule) (h : s.Parted p inside s')
    (ending : Ending) :
    (s'.finish { p with feasible := S } ending).1 = (s.finish p ending).1 ∧
      (s'.finish { p with feasible := S } ending).2.transcript.evaluations =
        (s.finish p ending).2.transcript.evaluations ∧
      (s.finish p ending).2.transcript.RealAnswers := by
  have hback : s.origin.value < s.current.value →
      S.AnswersLike p.feasible s.origin.point := by
    intro hworse
    refine hp.answers (h.anchored.resolve_left fun hnone => ?_)
    rw [hnone] at hworse
    exact OrderedScalar.not_infinity_lt _ hworse
  obtain ⟨houtcome, hlast⟩ := h.alike.finish ending hback
  refine ⟨houtcome, hlast.evaluations, ?_⟩
  exact finish_transcript (fun _ ht => ht.cons rfl) (fun _ _ ht => ht.cons rfl) ending
    h.calls.realAnswers

end State

section Problem

variable [Capacity m] {p : Problem Exact σ (Strategy Exact) n} {turns : ℕ} {x : Fin n → ℝ}
  {objective : σ} {search : Strategy Exact}

/-- A run that calls its objective inside a region only is like the run in a set that is
out of the way there. -/
theorem Problem.Unhindered.solve {S : FeasibleSet Exact n} {inside : Vec Exact n → Prop}
    (hp : p.Unhindered S inside search.rule)
    (hinside : State.RunsInside inside (p.solve m turns (.ofReals x) objective search)) :
    ({ p with feasible := S }.solve m turns (.ofReals x) objective search).1 =
        (p.solve m turns (.ofReals x) objective search).1 ∧
      ({ p with feasible := S }.solve m turns (.ofReals x) objective
          search).2.transcript.evaluations =
        (p.solve m turns (.ofReals x) objective search).2.transcript.evaluations ∧
      (p.solve m turns (.ofReals x) objective search).2.transcript.RealAnswers := by
  have hinitial : (State.initial p (.ofReals x) objective search :
      State Exact σ (Strategy Exact) n m).Alongside p inside search.rule objective
        (State.initial { p with feasible := S } (.ofReals x) objective search) :=
    State.initial_alongside hp.proper x objective rfl
  unfold Problem.solve at hinside ⊢
  obtain ⟨ending, last, last', hparted, hrun, hrun'⟩ := hinitial.runs_parted hp hinside
  rw [hrun, hrun']
  exact hparted.finish hp ending

/-- A run with limited iterations comes to an end.  If its objective computes real numbers,
it returns, unless no pairs can be kept of the variables. -/
theorem Problem.solve_returns {C : Fin n → Set ℝ} (hp : p.Proper C search.rule)
    (hlimit : 1 ≤ search.limit) (hbounded : 1 ≤ p.settings.maxIterations)
    (hturns : 1 + 2 * search.limit * p.settings.maxIterations.toNat ≤ turns)
    {outcome : Outcome Exact n} {last : State Exact σ (Strategy Exact) n m}
    (hrun : p.solve m turns (.ofReals x) objective search = (outcome, last)) :
    outcome ≠ .unfinished ∧ (last.transcript.RealAnswers → p.keepsPairs = true →
      ∃ solution, outcome = .returned solution) := by
  obtain ⟨uses, huses⟩ := hp.search
  obtain ⟨-, hspent⟩ := Problem.solve_spent huses hlimit hrun
  -- A run that is left unfinished has called its objective in every turn.
  have hended : outcome ≠ .unfinished := by
    intro hunfinished
    have hlast : p.settings.lastIteration = p.settings.maxIterations.toNat := by
      rw [Settings.lastIteration, max_eq_right hbounded]
    have hallowed := hspent hunfinished (by omega)
    rw [hlast, callsAllowed] at hallowed
    omega
  refine ⟨hended, fun hreal hkeeps => ?_⟩
  obtain ⟨-, -, hfails⟩ := Problem.solve_sound hp rfl hrun hreal.finite
  cases outcome with
  | returned solution => exact ⟨solution, rfl⟩
  | unfinished => exact absurd rfl hended
  | failed fault =>
    rcases hfails fault rfl with ⟨x, hrefused⟩ | hnone
    · obtain ⟨x', f', g', hanswer⟩ := hreal _ hrefused rfl
      cases hanswer
    · exact absurd hkeeps (by simp [hnone])

end Problem

/-- A box that surrounds every point at which a run in the whole space calls its objective
is never reached.  Both runs come to an end, call the objective at the same points in the
same order, and return the same, unless no pairs can be kept of the variables. -/
theorem Problem.solve_in_surrounding_box [Capacity m] {shape : Shape} {box : Box Exact}
    {p : Problem Exact σ (Strategy Exact) shape.size} {uses : Bool}
    {f : (Fin shape.size → ℝ) → ℝ} {g : (Fin shape.size → ℝ) → Fin shape.size → ℝ} {turns : ℕ}
    {x : Fin shape.size → ℝ} {objective : σ} {search : Strategy Exact}
    (hlower : box.lower.shape.broadcastsTo shape = true)
    (hupper : box.upper.shape.broadcastsTo shape = true)
    (hfree : p.feasible = .unconstrained) (hsearch : p.search = .ofStrategy uses)
    (hcomputes : p.objective.Computes f g) (hsettings : p.settings.Valid)
    (hrule : search.rule.Valid) (hbounded : 1 ≤ p.settings.maxIterations)
    (hunmetered : p.settings.maxEvaluations < 0)
    (hturns : 1 + 2 * search.limit * p.settings.maxIterations.toNat ≤ turns)
    (hinside : ∀ c ∈ (p.solve m turns (.ofReals x) objective search).2.transcript.evaluations,
      box.Surrounds shape c.1) :
    let free := p.solve m turns (.ofReals x) objective search
    let boxed := { p with feasible := box.toSet shape p.precision }.solve m turns (.ofReals x)
      objective search
    free.1 ≠ .unfinished ∧
      (p.keepsPairs = true → ∃ solution, free.1 = .returned solution) ∧
      boxed.1 = free.1 ∧
      boxed.2.transcript.evaluations = free.2.transcript.evaluations := by
  have hp : p.Unhindered (box.toSet shape p.precision) (box.Surrounds shape) search.rule :=
    { proper :=
        { feasible := hfree ▸ FeasibleSet.unconstrained_confines
          search := ⟨uses, hsearch⟩
          settings := hsettings
          rule := hrule.works }
      unconstrained := hfree
      free := Box.toSet_freeOn p.precision hlower hupper
      unmetered := hunmetered
      computes := ⟨f, g, hcomputes⟩ }
  obtain ⟨hended, hreturns⟩ := Problem.solve_returns (m := m) (x := x) hp.proper
    (Strategy.one_le_limit hrule) hbounded hturns Prod.mk.eta.symm
  obtain ⟨houtcome, hcalls, hreal⟩ := hp.solve ⟨hended, hinside⟩
  exact ⟨hended, hreturns hreal, houtcome, hcalls⟩

/-! ## A sample run

A parabola, from one step beside its minimum, in a box from minus one to two. -/

namespace Sample

def exactSingle (a : ℝ) : Tensor Exact := ⟨[], .floating .double, ⟨[.real a], rfl⟩⟩

def halving : Safeguard Exact := ⟨Scalar.half, Scalar.half, 0, 30⟩

theorem halving_valid : halving.Valid where
  ftol_pos := one_half_pos (α := ℝ)
  ftol_lt := one_half_lt_one (α := ℝ)
  amin_pos := one_half_pos (α := ℝ)
  amin_le := le_refl (1 / 2 : ℝ)
  stpmin := lt_irrefl (0 : ℝ)
  limit := by decide

def halvingBacktracking : Strategy Exact := .backtracking (Backtracking.new halving)

/-- Half of the square of the only variable. -/
def bowl : Objective Unit Exact (Shape.size [1]) where
  evaluate _ x _ := (.ok (Scalar.half * x.inner x, x), ())

def bowlProblem : Problem Exact Unit (Strategy Exact) (Shape.size [1]) where
  precision := .double
  keepsPairs := true
  objective := bowl
  feasible := .unconstrained
  search := .ofStrategy false
  settings := ⟨1, -1, (0, 0), (1, 0), 0⟩

def bowlBox : Box Exact := ⟨exactSingle (-1), exactSingle (1 + 1)⟩

abbrev BowlState := State Exact Unit (Strategy Exact) (Shape.size [1]) 1

theorem bowlProblem_settings : bowlProblem.settings.Valid where
  tolerance := ⟨⟨rfl, rfl⟩, lt_irrefl (0 : ℝ), lt_irrefl (0 : ℝ)⟩
  firstStep := ⟨⟨rfl, rfl⟩, not_lt.mpr (zero_le_one (α := ℝ)), lt_irrefl (0 : ℝ)⟩

theorem bowl_computes : bowl.Computes (fun x => 1 / 2 * (x ⬝ᵥ x)) id := by
  intro state x buffer
  show Except.ok (Scalar.half * (Vec.ofReals x).inner (Vec.ofReals x), Vec.ofReals x) = _
  rw [Vec.inner_ofReals]
  rfl

theorem bowlBox_surrounds {a : ℝ} (hlower : -1 < a) (hupper : a < 1 + 1) :
    bowlBox.Surrounds [1] (line a) := by
  have hspread : ∀ (c : ℝ) i, ((exactSingle c).spread [1]).get i = .real c := by
    intro c i
    have hmem : ((exactSingle c).spread [1]).get i ∈ (exactSingle c).toList :=
      (exactSingle c).get_spread_mem (Shape.fits_of_broadcastsTo rfl) i
    simpa [exactSingle, Tensor.toList] using hmem
  intro i
  rw [line, Vec.get_ofReals, show bowlBox.lower = exactSingle (-1) from rfl,
    show bowlBox.upper = exactSingle (1 + 1) from rfl, hspread, hspread]
  exact ⟨hlower, hupper⟩

def bowlIterate (a : ℝ) : Iterate Exact (Shape.size [1]) :=
  ⟨line a, Scalar.half * .real (a * a), line a⟩

theorem bowlIterate_value (a : ℝ) : (bowlIterate a).value = .real (1 / 2 * (a * a)) := rfl

def bowlMeasured (s : BowlState) (a : ℝ) : BowlState :=
  { s.answered (bowlIterate a) () with projected := line a, norm := .real |a| }

theorem bowl_gauge (s : BowlState) {a : ℝ} (hpoint : s.current.point = line a) :
    s.gauge bowlProblem = ((bowlMeasured s a).setThreshold bowlProblem).settle := by
  have hgauge := s.gauge_of_answer (p := bowlProblem) rfl rfl
  rw [hpoint, line_inner, line_norm] at hgauge
  exact hgauge

def bowlStart : BowlState := State.initial bowlProblem (line 1) () halvingBacktracking

def bowlGauged : BowlState :=
  { bowlMeasured bowlStart 1 with threshold := 0 + 0 * .real |1| }

theorem bowlGauged_threshold : bowlGauged.threshold = 0 := by
  show Exact.real (0 + 0 * |1|) = .real 0
  rw [zero_mul, add_zero]

theorem bowlStart_gauge : bowlStart.gauge bowlProblem = .ok bowlGauged := by
  have hset : (bowlMeasured bowlStart 1).setThreshold bowlProblem = bowlGauged := if_pos rfl
  have habove : ¬ bowlGauged.norm ≤ bowlGauged.threshold := by
    rw [bowlGauged_threshold]
    show ¬ Exact.real |1| ≤ 0
    rw [abs_one]
    exact not_le.mpr (one_pos (α := ℝ))
  rw [bowl_gauge bowlStart rfl, hset, State.settle_of_above habove]

theorem bowlGauged_direction : (bowlGauged.steered bowlProblem).direction = line (-1) :=
  line_opposite 1

theorem bowl_firstStep : FeasibleSet.firstStep (line 1) (line (-1)) (1, 0) = Exact.real 1 := by
  refine (line_firstStep (r := 1) (c := 0) (neg_ne_zero.mpr one_ne_zero) (by norm_num)).trans ?_
  norm_num

theorem bowlGauged_begin : ∃ pass search, bowlGauged.seek bowlProblem = .ok
    { ((bowlGauged.steered bowlProblem).chosen (.real (-1)) (.real 1) Scalar.infinity).begun
      pass ⟨.searching, .real 1, []⟩ search with searching := true } := by
  have happroach : bowlGauged.approach bowlProblem = .ok (-(Scalar.square (.real |1|)),
      FeasibleSet.firstStep (line 1) (bowlGauged.steered bowlProblem).direction (1, 0),
      bowlGauged.steered bowlProblem) := rfl
  have hslope : -(Scalar.square (Exact.real |1|)) = Exact.real (-1) := by
    show Exact.real (-(|1| * |1|)) = _
    rw [abs_one, one_mul]
  rw [bowlGauged_direction, bowl_firstStep, hslope] at happroach
  rw [State.seek_eq bowlProblem (s := bowlGauged) rfl, happroach]
  exact ⟨_, _, State.begin_of_descent (p := bowlProblem) rfl rfl bowlGauged_direction
    (line_ne_zero (neg_ne_zero.mpr one_ne_zero)) (bowlIterate_value 1) neg_one_lt_zero one_pos rfl⟩

/-- The first turn tries the minimum. -/
theorem bowl_first_turn : ∃ s : BowlState, bowlStart.turn bowlProblem = .ok s ∧
      s.current.point = line 0 ∧ s.evaluations = 1 ∧ s.threshold = 0 ∧
      s.transcript.evaluations = [(line 1, some (.real (1 / 2)))] := by
  have hconsult : bowlGauged.consult bowlProblem = .ok bowlGauged := rfl
  obtain ⟨pass, search, hseek⟩ := bowlGauged_begin
  have hturn := State.turn_of_unmetered bowlStart_gauge hconsult hseek (by decide)
  refine ⟨_, hturn, ?_, rfl, bowlGauged_threshold, ?_⟩
  · show Vec.combine .double 1 (line 1) (.real 1) (bowlGauged.steered bowlProblem).direction = _
    rw [bowlGauged_direction, line_combine, one_mul, add_neg_cancel]
  · refine (Likeness.evaluations_chosen_begun _ _ _ _ _ _ _).trans ?_
    show evaluations (.evaluated (bowlIterate 1) :: _) = _
    rw [evaluations_evaluated, bowlIterate_value]
    simp [bowlIterate, evaluations, collect, bowlStart, State.initial]

theorem bowl_last_turn {s : BowlState} (hpoint : s.current.point = line 0)
    (hcount : s.evaluations = 1) (hthreshold : s.threshold = 0) : ∃ last : BowlState,
    s.turn bowlProblem = .error (.status .convergence, last) ∧
      last.transcript.evaluations = s.transcript.evaluations ++
        [(line 0, some (.real 0))] := by
  have hmeasured : (bowlMeasured s 0).setThreshold bowlProblem = bowlMeasured s 0 :=
    if_neg (by show ¬ s.evaluations + 1 = 1; omega)
  have hbelow : (bowlMeasured s 0).norm ≤ (bowlMeasured s 0).threshold := by
    show Exact.real |0| ≤ s.threshold
    rw [hthreshold, abs_zero]
    exact le_refl (0 : ℝ)
  rw [State.turn_eq, bowl_gauge s hpoint, hmeasured, State.settle, if_pos hbelow]
  refine ⟨_, rfl, ?_⟩
  show evaluations (.evaluated (bowlIterate 0) :: s.transcript) = _
  rw [evaluations_evaluated, bowlIterate_value]
  simp [bowlIterate]

def bowlRun (m : ℕ) [Capacity m] (feasible : FeasibleSet Exact (Shape.size [1])) :
    Outcome Exact (Shape.size [1]) × State Exact Unit (Strategy Exact) (Shape.size [1]) m :=
  { bowlProblem with feasible }.solve m 61 (line 1) () halvingBacktracking

theorem bowlRun_evaluations : (bowlRun 1 .unconstrained).2.transcript.evaluations =
    [(line 1, some (.real (1 / 2))), (line 0, some (.real 0))] := by
  obtain ⟨s, hfirst, hpoint, hcount, hthreshold, hcalls⟩ := bowl_first_turn
  obtain ⟨last, hlast, hcalls'⟩ := bowl_last_turn hpoint hcount hthreshold
  have hrun : bowlRun 1 .unconstrained = last.finish bowlProblem (.status .convergence) := by
    show bowlStart.run bowlProblem (60 + 1) = _
    unfold State.run
    rw [hfirst]
    show s.run bowlProblem (59 + 1) = _
    unfold State.run
    rw [hlast]
  rw [hcalls] at hcalls'
  rw [hrun]
  refine State.finish_transcript (P := fun t => t.evaluations = _) (fun t ht => ?_)
    (fun row t ht => ?_) _ hcalls'
  · exact (evaluations_of_not_isCall rfl t).trans ht
  · exact (evaluations_of_not_isCall rfl t).trans ht

theorem bowlRun_in_box :
    bowlBox.lower.shape.broadcastsTo [1] = true ∧ bowlBox.upper.shape.broadcastsTo [1] = true ∧
      bowlProblem.objective.Computes (fun x => 1 / 2 * (x ⬝ᵥ x)) id ∧
      bowlProblem.settings.Valid ∧ halvingBacktracking.rule.Valid ∧
      1 ≤ bowlProblem.settings.maxIterations ∧ bowlProblem.settings.maxEvaluations < 0 ∧
      (bowlRun 1 .unconstrained).2.transcript.evaluations =
        [(line 1, some (.real (1 / 2))), (line 0, some (.real 0))] ∧
      (∀ c ∈ (bowlRun 1 .unconstrained).2.transcript.evaluations, bowlBox.Surrounds [1] c.1) ∧
      (bowlRun 1 .unconstrained).1 ≠ .unfinished ∧
      (∃ solution, (bowlRun 1 .unconstrained).1 = .returned solution) ∧
      (bowlRun 1 (bowlBox.toSet [1] .double)).1 = (bowlRun 1 .unconstrained).1 ∧
      (bowlRun 1 (bowlBox.toSet [1] .double)).2.transcript.evaluations =
        (bowlRun 1 .unconstrained).2.transcript.evaluations := by
  have hrule : halvingBacktracking.rule.Valid := halving_valid
  have hinside : ∀ c ∈ (bowlRun 1 .unconstrained).2.transcript.evaluations,
      bowlBox.Surrounds [1] c.1 := by
    rw [bowlRun_evaluations]
    intro c hc
    rcases List.mem_cons.mp hc with rfl | hc
    · exact bowlBox_surrounds (by norm_num) (by norm_num)
    · rw [List.mem_singleton.mp hc]
      exact bowlBox_surrounds (by norm_num) (by norm_num)
  have hbound : ∀ c, (exactSingle c).shape.broadcastsTo [1] = true := fun _ => rfl
  obtain ⟨hended, hreturns, houtcome, hcalls⟩ :=
    Problem.solve_in_surrounding_box (p := bowlProblem) (hbound (-1)) (hbound (1 + 1)) rfl rfl
      bowl_computes bowlProblem_settings hrule (by decide) (by decide) (by decide) hinside
  exact ⟨hbound (-1), hbound (1 + 1), bowl_computes, bowlProblem_settings, hrule, by decide,
    by decide, bowlRun_evaluations, hinside, hended, hreturns rfl, houtcome, hcalls⟩

end Sample

end

end VariableMetric
