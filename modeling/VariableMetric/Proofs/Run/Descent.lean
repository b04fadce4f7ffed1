import VariableMetric.Proofs.Run.Approach
import VariableMetric.Proofs.Run.Coherence
import VariableMetric.Proofs.Run.Growth
import VariableMetric.Proofs.Run.Remembered
import VariableMetric.Proofs.Run.Soundness

/-!
# Runs have a sound record

With a valid configuration, and as long as the objective answers with real numbers, a
run keeps its record sound.  Above the threshold the projected gradient does not vanish,
so the run has a direction that descends, and its strategy begins a search with a
positive step.  While the search is on, its origin, its slope and its direction stay
what they were, and the strategy compares each trial with the values at the last origins
on record.

The invariants below are those of a run that does not look at numbers, from which it is
known what was accepted and what the memory holds, together with what is said here.
-/

namespace VariableMetric

open Matrix

noncomputable section

variable {σ : Type} {n m : ℕ} {p : Problem Exact σ (Strategy Exact) n} {C : Fin n → Set ℝ}
  {rule : Rule Exact}

namespace State

/-! ## The invariants of a run -/

variable {s s' : State Exact σ (Strategy Exact) n m}

structure Kept (p : Problem Exact σ (Strategy Exact) n) (C : Fin n → Set ℝ)
    (rule : Rule Exact) (s : State Exact σ (Strategy Exact) n m) : Prop where
  sound : s.transcript.Sound p C rule
  rule_eq : s.search.rule = rule
  tracks : s.search.Tracks (s.transcript.origins.map Iterate.value)
  threshold : 0 ≤ s.threshold

/-- A search is under way, from an iterate whose projected gradient does not vanish. -/
structure Searches (C : Fin n → Set ℝ) (s : State Exact σ (Strategy Exact) n m) : Prop where
  origin : s.origin.Nonstationary C
  direction : ∃ d, s.direction = .ofReals d
  step : ∃ a, 0 < a ∧ s.step = .real a
  search : ∃ f df pass, s.origin.value = .real f ∧ s.search.Underway f df ∧
    s.transcript.lastSearch = some (s.origin, pass) ∧ pass.slope = .real df

structure Steady (p : Problem Exact σ (Strategy Exact) n) (C : Fin n → Set ℝ)
    (rule : Rule Exact) (s : State Exact σ (Strategy Exact) n m) : Prop
    extends s.Kept p C rule where
  search : s.searching = true → s.Searches C

/-- The gradient has been measured at a real iterate inside the set. -/
def Gauged (C : Fin n → Set ℝ) (s : State Exact σ (Strategy Exact) n m) : Prop :=
  ∃ (x : Fin n → ℝ) (f : ℝ) (g : Fin n → ℝ),
    s.current = ⟨.ofReals x, .real f, .ofReals g⟩ ∧ (∀ k, x k ∈ C k) ∧
      s.projected = .ofReals (loosened C x (-g) g) ∧ s.norm = s.projected.norm

def Stands (C : Fin n → Set ℝ) (s : State Exact σ (Strategy Exact) n m) : Prop :=
  ∃ (x : Fin n → ℝ) (f : ℝ) (g : Fin n → ℝ),
    s.current = ⟨.ofReals x, .real f, .ofReals g⟩ ∧ (∀ k, x k ∈ C k) ∧
      loosened C x (-g) g ≠ 0 ∧
      s.projected = .ofReals (loosened C x (-g) g) ∧ s.norm = s.projected.norm

/-- However a run ends, its record is sound, and it is not for want of a step. -/
structure EndsSound (p : Problem Exact σ (Strategy Exact) n) (C : Fin n → Set ℝ)
    (rule : Rule Exact) (ending : Ending) (s : State Exact σ (Strategy Exact) n m) : Prop where
  sound : s.transcript.Sound p C rule
  not_blocked : ending ≠ .status .wouldBlock := by rintro ⟨⟩
  mayFail : ∀ fault, ending = .fault fault → p.MayFail s.transcript := by rintro _ ⟨⟩

/-- Another state that keeps the same search, and of which the same origins are on
record. -/
structure KeepsLike (p : Problem Exact σ (Strategy Exact) n) (C : Fin n → Set ℝ)
    (rule : Rule Exact) (s other : State Exact σ (Strategy Exact) n m) : Prop where
  sound : s.transcript.Sound p C rule → other.transcript.Sound p C rule := by exact id
  origins : other.transcript.origins = s.transcript.origins := by rfl
  search : other.search = s.search := by rfl
  threshold : other.threshold = s.threshold := by rfl

/-- Another state in the midst of the same search. -/
structure SearchesLike (s other : State Exact σ (Strategy Exact) n m) : Prop where
  lastSearch : other.transcript.lastSearch = s.transcript.lastSearch := by rfl
  search : other.search = s.search := by rfl
  origin : other.origin = s.origin := by rfl
  direction : other.direction = s.direction := by rfl
  step : other.step = s.step := by rfl

theorem Kept.congr (h : s.Kept p C rule) (hlike : s.KeepsLike p C rule s') :
    s'.Kept p C rule where
  sound := hlike.sound h.sound
  rule_eq := by rw [hlike.search]; exact h.rule_eq
  tracks := by rw [hlike.search, hlike.origins]; exact h.tracks
  threshold := by rw [hlike.threshold]; exact h.threshold

theorem Searches.congr (h : s.Searches C) (hlike : s.SearchesLike s') : s'.Searches C where
  origin := by rw [hlike.origin]; exact h.origin
  direction := by rw [hlike.direction]; exact h.direction
  step := by rw [hlike.step]; exact h.step
  search := by rw [hlike.origin, hlike.search, hlike.lastSearch]; exact h.search

theorem Steady.congr (h : s.Steady p C rule) (hkeeps : s.KeepsLike p C rule s')
    (hsearches : s.SearchesLike s') (hsearching : s'.searching = s.searching) :
    s'.Steady p C rule where
  toKept := h.toKept.congr hkeeps
  search hbusy := (h.search (hsearching.symm.trans hbusy)).congr hsearches

theorem initial_steady (hp : p.Proper C rule) (x : Vec Exact n) (objective : σ)
    {search : Strategy Exact} (hrule : search.rule = rule) :
    (State.initial p x objective search : State Exact σ (Strategy Exact) n m).Steady p C
      rule := by
  obtain ⟨uses, huses⟩ := hp.search
  have hreset : (State.initial p x objective search :
      State Exact σ (Strategy Exact) n m).search = search.reset := by
    show p.search.reset search = search.reset
    rw [huses]
    rfl
  exact
    { sound :=
        { within := by
            intro i hi
            cases hi
          always := Transcript.always_nil.cons trivial }
      rule_eq := by rw [hreset, Strategy.rule_reset]; exact hrule
      tracks := by rw [hreset]; exact search.tracks_reset
      threshold := le_refl (0 : ℝ)
      search := nofun }

/-! ## Evaluating and measuring -/

theorem Steady.ensures_project (hp : p.Proper C rule) (h : s.Steady p C rule)
    (hpoint : ∃ x, s.current.point = .ofReals x) :
    Ensures (s.project p)
      (fun s => s.Steady p C rule ∧ ∃ x, s.current.point = .ofReals x ∧ ∀ k, x k ∈ C k)
      (fun e s => s.EndsSound p C rule e) := by
  obtain ⟨x, hx⟩ := hpoint
  obtain ⟨y, hproject, hmem, -⟩ := hp.feasible.point x
  refine State.ensures_project (fun z hz => ?_) fun fault hfault => ?_
  · rw [hx, hproject] at hz
    cases hz
    exact ⟨h.congr ⟨id, rfl, rfl, rfl⟩ ⟨rfl, rfl, rfl, rfl, rfl⟩ rfl, y, rfl, hmem⟩
  · rw [hx, hproject] at hfault
    cases hfault

/-- The first answer is the one without a search under way. -/
theorem Steady.ensures_evaluate [Capacity m] (hunderway : s.Underway p)
    (h : s.transcript.Finite →
      s.Steady p C rule ∧ ∃ x, s.current.point = .ofReals x ∧ ∀ k, x k ∈ C k) :
    Ensures (s.evaluate p)
      (fun s => s.transcript.Finite → s.Steady p C rule ∧ s.current.Within C)
      (fun e s => s.transcript.Finite → s.EndsSound p C rule e) := by
  refine State.ensures_evaluate (fun value gradient objective _ hfinite => ?_)
    fun fault objective _ hfinite => ?_
  · have hold : s.transcript.Finite := hfinite.of_suffix (List.suffix_cons _ _)
    obtain ⟨hsteady, x, hx, hmem⟩ := h hold
    obtain ⟨hvalue, hgradient⟩ := hfinite ⟨s.current.point, value, gradient⟩ (by
      simp [State.answered, record])
    obtain ⟨f, rfl⟩ := Exact.exists_real_of_isFinite hvalue
    obtain ⟨g, rfl⟩ := Vec.exists_ofReals hgradient
    have hwithin : Iterate.Within C ⟨s.current.point, .real f, .ofReals g⟩ :=
      ⟨x, f, g, by rw [hx], hmem⟩
    have hstarted : s.transcript.answers = [] ∨ s.transcript.origins ≠ [] := by
      by_cases hsearching : s.searching = true
      · obtain ⟨f, df, pass, -, -, hlast, -⟩ := (hsteady.search hsearching).search
        obtain ⟨older, horigins⟩ := Transcript.origins_of_lastSearch hlast
        exact .inr (by simp [horigins])
      · have hnil := hunderway.idle (by simpa using hsearching)
        exact .inl (Transcript.answers_eq_nil_of_accepted hnil)
    refine ⟨hsteady.congr ⟨?_, rfl, rfl, rfl⟩ ⟨rfl, rfl, rfl, rfl, rfl⟩ rfl, hwithin⟩
    exact fun hsound => hsound.evaluated hwithin hstarted
  · have hold : s.transcript.Finite := hfinite.of_suffix (List.suffix_cons _ _)
    exact
      { sound := (h hold).1.sound.cons rfl trivial
        mayFail := fun _ _ => .inl ⟨s.current.point, List.mem_cons_self⟩ }

theorem Steady.ensures_measure (hp : p.Proper C rule) (h : s.Steady p C rule)
    (hcurrent : s.current.Within C) :
    Ensures (s.measure p) (fun s => s.Steady p C rule ∧ s.Gauged C)
      (fun e s => s.EndsSound p C rule e) := by
  obtain ⟨x, f, g, hcurrent, hmem⟩ := hcurrent
  have hgradient := hp.feasible.gradient x g hmem
  refine State.ensures_measure (fun projected hprojected => ?_) fun fault hfault => ?_
  · rw [hcurrent, hgradient] at hprojected
    cases hprojected
    exact ⟨h.congr ⟨id, rfl, rfl, rfl⟩ ⟨rfl, rfl, rfl, rfl, rfl⟩ rfl,
      x, f, g, hcurrent, hmem, rfl, rfl⟩
  · rw [hcurrent, hgradient] at hfault
    cases hfault

theorem Gauged.exists_norm (h : s.Gauged C) : ∃ norm, 0 ≤ norm ∧ s.norm = .real norm := by
  obtain ⟨x, f, g, -, -, hprojected, hnorm⟩ := h
  rw [hprojected, Vec.norm_ofReals] at hnorm
  exact ⟨_, Real.sqrt_nonneg _, hnorm⟩

theorem Steady.setThreshold (hp : p.Proper C rule) (h : s.Steady p C rule)
    (hgauged : s.Gauged C) : (s.setThreshold p).Steady p C rule := by
  obtain ⟨a, b, ha, hb, htolerance⟩ := hp.settings.tolerance.exists_real
  obtain ⟨norm, hnonneg, hnorm⟩ := hgauged.exists_norm
  unfold State.setThreshold
  split
  · have hthreshold : p.settings.tolerance.1 + p.settings.tolerance.2 * s.norm =
        .real (a + b * norm) := by
      rw [htolerance, hnorm]
      rfl
    have hpositive : 0 ≤ p.settings.tolerance.1 + p.settings.tolerance.2 * s.norm := by
      rw [hthreshold]
      exact add_nonneg ha (mul_nonneg hb hnonneg)
    exact ⟨⟨h.sound, h.rule_eq, h.tracks, hpositive⟩, fun hsearching =>
      (h.search hsearching).congr ⟨rfl, rfl, rfl, rfl, rfl⟩⟩
  · exact h

/-- Above a threshold the projected gradient does not vanish. -/
theorem Steady.ensures_settle (hp : p.Proper C rule) (h : s.Steady p C rule)
    (hgauged : s.Gauged C) :
    Ensures (s.setThreshold p).settle (fun s => s.Steady p C rule ∧ s.Stands C)
      (fun e s => s.EndsSound p C rule e) := by
  have hset := h.setThreshold hp hgauged
  refine State.ensures_settle (fun _ => { sound := hset.sound }) fun habove => ⟨hset, ?_⟩
  have hgauged : (s.setThreshold p).Gauged C := by
    unfold State.setThreshold
    split
    · exact hgauged
    · exact hgauged
  obtain ⟨x, f, g, hcurrent, hmem, hprojected, hnorm⟩ := hgauged
  refine ⟨x, f, g, hcurrent, hmem, fun hzero => habove ?_, hprojected, hnorm⟩
  have hvanishes : (s.setThreshold p).norm = 0 := by
    rw [hnorm, hprojected, hzero, Vec.norm_ofReals, dotProduct_zero, Real.sqrt_zero]
    rfl
  rw [hvanishes]
  exact hset.threshold

/-! ## Following the line search -/

theorem Kept.decreases (h : s.Kept p C rule) (hrule : rule.Works) {i : Iterate Exact n}
    {pass : Pass Exact n} {a v df : ℝ} (ha : 0 < a) (hdf : df < 0)
    (hi : s.transcript.answers.getLast? = some i) (hvalue : i.value = .real v)
    (hlast : s.transcript.lastSearch = some (s.origin, pass))
    (horigin : s.transcript.accepted.head? = some s.origin) (hslope : pass.slope = .real df)
    (haccepts : ∃ r ∈ (s.transcript.origins.map Iterate.value).rtake rule.window,
      .real v ≤ r + rule.ftol * .real a * .real df) :
    s.transcript.Decreases rule (.real a) (.real v) := by
  obtain ⟨r, hr, hle⟩ := haccepts
  rw [List.rtake, List.length_map, ← List.map_drop] at hr
  obtain ⟨o, ho, rfl⟩ := List.mem_map.mp hr
  have hmem : o ∈ s.transcript.lastOrigins rule.window := ho
  -- With one origin in view the reference is that of the search itself.
  have hself : rule.window = 1 → o = s.origin := by
    intro hone
    obtain ⟨older, horigins⟩ := Transcript.origins_of_lastSearch hlast
    rw [hone, Transcript.lastOrigins, horigins, List.rtake_concat_succ, List.rtake_zero] at hmem
    simpa using hmem
  obtain ⟨x, fo, g, hreal, -⟩ := h.sound.within_of_origin (List.mem_of_mem_drop ho)
  obtain ⟨ftol, hftol, hfactor⟩ := hrule.exists_ftol
  refine ⟨i, s.origin, pass, hi, hvalue, hlast, horigin, o, ho, hself, ?_, ?_⟩
  · rw [hslope]
    exact hle
  · have hdecrease : ftol * a * df < 0 := mul_neg_of_pos_of_neg (mul_pos hftol ha) hdf
    rw [hslope, hfactor, hreal]
    show fo + ftol * a * df < fo
    linarith

structure Guided (p : Problem Exact σ (Strategy Exact) n) (C : Fin n → Set ℝ)
    (rule : Rule Exact) (s : State Exact σ (Strategy Exact) n m) : Prop
    extends s.Steady p C rule where
  stands : s.searching = false → s.Stands C

theorem Kept.sentBack (hp : p.Proper C rule) (h : s.Kept p C rule)
    (horigin : s.origin.Nonstationary C) {projected : Vec Exact n}
    (hprojected : p.feasible.projectGradient s.origin.point s.origin.gradient =
      .ok projected) :
    State.Guided p C rule (s.sentBack projected) := by
  obtain ⟨x, f, g, horigin, hmem, hne⟩ := horigin
  rw [horigin, hp.feasible.gradient x g hmem] at hprojected
  cases hprojected
  have hkeeps : s.KeepsLike p C rule
      (s.sentBack (.ofReals (loosened C x (-g) g))) :=
    ⟨fun hsound => (hsound.notices (by simp)).cons rfl trivial, rfl, rfl, rfl⟩
  exact
    { toKept := h.congr hkeeps
      search := nofun
      stands := fun _ => ⟨x, f, g, horigin, hmem, hne, rfl, rfl⟩ }

theorem Kept.ensures_follow (hp : p.Proper C rule) (h : s.Kept p C rule)
    (hstands : s.Stands C) (horigin : s.origin.Nonstationary C) {status : SearchStatus}
    (hsearches : status = .searching → s.searching = true ∧ s.Searches C) :
    Ensures (s.follow p status) (fun s => s.Guided p C rule)
      (fun e s => s.EndsSound p C rule e) := by
  cases status with
  | searching =>
    obtain ⟨hsearching, hsearches⟩ := hsearches rfl
    exact ⟨⟨h, fun _ => hsearches⟩, fun hidle => absurd hsearching (by simp [hidle])⟩
  | converged =>
    have haccepted : s.accepted.Kept p C rule := h.congr ⟨id, rfl, rfl, rfl⟩
    exact ensures_accept (fun _ _ => { sound := haccepted.sound })
      fun _ => ⟨⟨haccepted, nofun⟩, fun _ => hstands⟩
  | failed =>
    refine ensures_abandon (fun _ => { sound := h.sound })
      (fun _ projected hprojected => h.sentBack hp horigin hprojected) fun fault hfault => ?_
    obtain ⟨x, f, g, horigin, hmem, -⟩ := horigin
    rw [horigin, hp.feasible.gradient x g hmem] at hfault
    cases hfault

theorem Searches.exists_trialSlope (h : s.Searches C) : ∃ slope, s.trialSlope p = .ok slope := by
  obtain ⟨a, ha, hstep⟩ := h.step
  have hnonzero : ¬ Scalar.equal s.step 0 = true := by
    rw [hstep, Exact.equal_iff]
    rintro ⟨hle, -⟩
    exact absurd hle (not_le.mpr ha)
  simp only [trialSlope, if_neg hnonzero]
  split
  · exact ⟨_, rfl⟩
  · exact ⟨_, rfl⟩

theorem Steady.sound_iterated [Capacity m] (hp : p.Proper C rule) (h : s.Steady p C rule)
    (hreplied : s.Replied p) (hsearching : s.searching = true) {slope next : Exact}
    {status : SearchStatus} {f df a v : ℝ} {pass : Pass Exact n} (ha : 0 < a)
    (hstep : s.step = .real a) (hv : s.current.value = .real v)
    (hunderway : s.search.Underway f df)
    (hlast : s.transcript.lastSearch = some (s.origin, pass)) (hslope : pass.slope = .real df)
    (haccepts : status = .converged →
      ∃ r ∈ (s.transcript.origins.map Iterate.value).rtake rule.window,
        .real v ≤ r + rule.ftol * .real a * .real df) :
    Transcript.Sound p C rule
      (.iterated s.step s.current.value slope status next :: s.transcript) := by
  refine h.sound.cons rfl ?_
  cases status with
  | converged =>
    have hdecreases := h.decreases hp.rule ha hunderway.search.slope_neg hreplied.last hv hlast
      (hreplied.origin hsearching) hslope (haccepts rfl)
    rw [hstep, hv]
    exact hdecreases
  | _ => trivial

theorem Steady.told [Capacity m] (hp : p.Proper C rule) (h : s.Steady p C rule)
    (hstands : s.Stands C) (hreplied : s.Replied p) (hsearching : s.searching = true)
    {slope : Exact} {reply : Reply Exact} {search : Strategy Exact}
    (hiterate : s.search.iterate s.step s.current.value slope = (reply, search)) :
    (s.told slope reply search).Kept p C rule ∧
      (reply.status = .searching → (s.told slope reply search).Searches C) := by
  obtain ⟨horigin, hdirection, ⟨a, ha, hstep⟩, f, df, pass, hvalue, hunderway, hlast, hslope⟩ :=
    h.search hsearching
  -- The value at the origin of the search is the last one that the strategy refers to.
  obtain ⟨older, horigins⟩ := Transcript.origins_of_lastSearch hlast
  have hvalues : s.transcript.origins.map Iterate.value =
      older.map Iterate.value ++ [.real f] := by
    rw [horigins, List.map_append, List.map_singleton, hvalue]
  obtain ⟨x, v, g, hcurrent, -⟩ := hstands
  have htrial : s.search.iterate (.real a) (.real v) slope = (reply, search) := by
    rw [hstep, hcurrent] at hiterate
    exact hiterate
  obtain ⟨htracked, hnext, haccepted⟩ :=
    hunderway.iterate (h.rule_eq ▸ hp.rule) (hvalues ▸ h.tracks) ha v slope htrial
  rw [h.rule_eq, ← hvalues] at haccepted
  have hsound : Transcript.Sound p C rule
      (.iterated s.step s.current.value slope reply.status reply.step :: s.transcript) :=
    h.sound_iterated hp hreplied hsearching ha hstep (by rw [hcurrent]) hunderway hlast hslope
      haccepted
  have hnotices : ∀ refused, .directionRefused refused ∉ reply.notices := by
    intro refused
    have hnone := s.search.iterate_notices (.real a) (.real v) slope refused
    rw [htrial] at hnone
    exact hnone
  have hrecord := (Transcript.searchesLike_cons (e := .iterated s.step s.current.value slope
    reply.status reply.step) rfl s.transcript).trans
    (Transcript.searchesLike_notices reply.notices _)
  refine ⟨⟨hsound.notices hnotices, ?_, ?_, h.threshold⟩, fun hstatus => ?_⟩
  · have hsame := s.search.rule_iterate (.real a) (.real v) slope
    rw [htrial, h.rule_eq] at hsame
    exact hsame
  · have hsame : (s.told slope reply search).transcript.origins = s.transcript.origins :=
      hrecord.origins
    rw [hsame, hvalues]
    exact htracked
  · obtain ⟨hnextstep, hnextsearch⟩ := hnext hstatus
    exact ⟨horigin, hdirection, hnextstep, f, df, pass, hvalue, hnextsearch,
      hrecord.lastSearch.trans hlast, hslope⟩

theorem Steady.ensures_consult [Capacity m] (hp : p.Proper C rule) (h : s.Steady p C rule)
    (hstands : s.Stands C) (hreplied : s.Replied p) :
    Ensures (s.consult p) (fun s => s.Guided p C rule) (fun e s => s.EndsSound p C rule e) := by
  refine State.ensures_consult (fun _ => ⟨h, fun _ => hstands⟩) fun hsearching => ?_
  obtain ⟨uses, huses⟩ := hp.search
  have hsearches := h.search hsearching
  refine ensures_report (fun slope reply search _ hreply => ?_) (fun fault hfault => ?_)
    fun slope fault search hfault => ?_
  · have hiterate : s.search.iterate s.step s.current.value slope = (reply, search) := by
      rw [huses] at hreply
      cases hreply
      rfl
    obtain ⟨htold, hnext⟩ := h.told hp hstands hreplied hsearching hiterate
    exact htold.ensures_follow hp hstands hsearches.origin fun hstatus =>
      ⟨hsearching, hnext hstatus⟩
  · obtain ⟨slope, hslope⟩ := hsearches.exists_trialSlope (p := p)
    rw [hslope] at hfault
    cases hfault
  · rw [huses] at hfault
    cases hfault

/-! ## Beginning a search -/

/-- The run stands at the last accepted iterate, where it does not vanish. -/
structure Ready (p : Problem Exact σ (Strategy Exact) n) (C : Fin n → Set ℝ)
    (rule : Rule Exact) (s : State Exact σ (Strategy Exact) n m) : Prop
    extends s.Kept p C rule where
  accepted : s.transcript.accepted.head? = some s.current
  stands : s.Stands C

/-- A direction has been taken that descends with the given slope. -/
structure Aimed (p : Problem Exact σ (Strategy Exact) n) (C : Fin n → Set ℝ)
    (rule : Rule Exact) (s : State Exact σ (Strategy Exact) n m) (slope : Exact) : Prop
    extends s.Kept p C rule where
  accepted : s.transcript.accepted.head? = some s.current
  aim : ∃ (x : Fin n → ℝ) (f : ℝ) (g d : Fin n → ℝ),
    s.current = ⟨.ofReals x, .real f, .ofReals g⟩ ∧ (∀ k, x k ∈ C k) ∧
      loosened C x (-g) g ≠ 0 ∧ s.direction = .ofReals d ∧ slope = .real (d ⬝ᵥ g) ∧
      Descends C x g d

theorem Aimed.usable {slope cap : Exact} {b : ℝ} (hp : p.Proper C rule)
    (h : s.Aimed p C rule slope)
    (hcap : p.feasible.shortcutStep s.current.point s.direction = .ok cap) (hb : 0 < b)
    (hle : .real b ≤ cap) : Pass.Usable p C s.current (s.pass slope (.real b) cap) := by
  obtain ⟨x, f, g, d, hcurrent, hmem, -, hdirection, hslope, hdescends⟩ := h.aim
  exact
    { slope_eq := by
        show slope = s.direction.inner s.current.gradient
        rw [hslope, hdirection, hcurrent, Vec.inner_ofReals]
      slope_neg := by
        show slope < 0
        rw [hslope]
        exact hdescends.slope
      follows := ⟨x, d, by rw [hcurrent], hdirection,
        exists_pos_forall_mem hp.feasible.ordConnected hmem hdescends.loose⟩
      cap_eq := hcap
      step_pos := hb
      step_le := hle }

theorem Aimed.begun {slope cap : Exact} {b : ℝ} (hp : p.Proper C rule)
    (h : s.Aimed p C rule slope)
    (hcap : p.feasible.shortcutStep s.current.point s.direction = .ok cap) (hb : 0 < b)
    (hle : .real b ≤ cap) {reply : Reply Exact} {search : Strategy Exact}
    (hstart : s.search.start s.current.value slope (.real b) cap = (reply, search)) :
    reply.status = .searching ∧
      State.Steady p C rule { (s.chosen slope (.real b) cap).begun
        (s.pass slope (.real b) cap) reply search with searching := true } := by
  have husable := h.usable hp hcap hb hle
  obtain ⟨x, f, g, d, hcurrent, hmem, hne, hdirection, hslope, hdescends⟩ := h.aim
  obtain ⟨begun, hbegun, hunderway, htracked⟩ :=
    Strategy.start_underway h.tracks hdescends.slope hb hle f
  rw [hcurrent, hslope, hbegun] at hstart
  cases hstart
  have hchosen : Transcript.Sound p C rule
      (.chosen (s.pass slope (.real b) cap) :: s.transcript) :=
    h.sound.cons rfl ⟨s.current, h.accepted, husable⟩
  refine ⟨rfl, ⟨?_, ?_, ?_, h.threshold⟩, fun _ => ?_⟩
  · exact hchosen.started _ h.accepted husable
  · have hsame := s.search.rule_start (.real f) (.real (d ⬝ᵥ g)) (.real b) cap
    rw [hbegun, h.rule_eq] at hsame
    exact hsame
  · show Strategy.Tracks ((Transcript.origins (.started s.current _ _ _ :: _)).map _) _
    rw [Transcript.origins_started, List.map_append, List.map_singleton, hcurrent]
    exact htracked
  · exact
      { origin := ⟨x, f, g, hcurrent, hmem, hne⟩
        direction := ⟨d, hdirection⟩
        step := ⟨b, hb, rfl⟩
        search := ⟨f, _, _, congrArg Iterate.value hcurrent, hunderway, rfl, hslope⟩ }

theorem Aimed.ensures_begin (hp : p.Proper C rule) {slope : Exact}
    (h : s.Aimed p C rule slope) {a : ℝ} (ha : 0 < a) :
    Ensures (s.begin p slope (.real a)) (fun s => s.Steady p C rule ∧ s.searching = true)
      (fun e s => s.EndsSound p C rule e) := by
  obtain ⟨uses, huses⟩ := hp.search
  obtain ⟨x, f, g, d, hcurrent, hmem, -, hdirection, -, hdescends⟩ := h.aim
  obtain ⟨cap, hcap, hcappos⟩ := hp.feasible.shortcut x d hmem hdescends.loose hdescends.ne_zero
  -- The cap is positive, so a positive step stays positive when it is cut down to it.
  obtain ⟨b, hb, hleast, hle⟩ := Exact.exists_least_pos ha hcappos
  have hshortcut : p.feasible.shortcutStep s.current.point s.direction = .ok cap := by
    rw [hcurrent, hdirection, hcap]
  refine State.ensures_begin (fun cap' hcap' hblocked => ?_)
    (fun cap' reply search hcap' _ hstart => ?_) fun fault hfault => ?_
  · cases hshortcut.symm.trans hcap'
    rw [hleast] at hblocked
    exact absurd hblocked (not_le.mpr hb)
  · cases hshortcut.symm.trans hcap'
    rw [huses, hleast] at hstart
    rw [hleast]
    obtain ⟨hstatus, hsteady⟩ := h.begun hp hshortcut hb hle hstart
    exact ⟨fun _ => ⟨hsteady, rfl⟩, fun hrefused => absurd hstatus hrefused⟩
  · cases hshortcut.symm.trans hfault

/-- A slope, a first step and a state from which a search can be begun with them. -/
def Poises (p : Problem Exact σ (Strategy Exact) n) (C : Fin n → Set ℝ)
    (rule : Rule Exact) (a : Exact × Exact × State Exact σ (Strategy Exact) n m) : Prop :=
  a.2.2.Aimed p C rule a.1 ∧ ∃ first, 0 < first ∧ a.2.1 = .real first

theorem Ready.ensures_steer (hp : p.Proper C rule) (h : s.Ready p C rule) :
    Ensures (s.steer p) (Poises p C rule) (fun e s => s.EndsSound p C rule e) := by
  obtain ⟨x, f, g, hcurrent, hmem, hne, hprojected, hnorm⟩ := h.stands
  have hdescends := descends_steepest hne
  have hdirection : (s.steered p).direction = .ofReals (-(loosened C x (-g) g)) := by
    show s.projected.scale p.precision (-1) = _
    rw [hprojected, Exact.one_eq, Exact.neg_real, Vec.scale_ofReals, neg_one_smul]
  have hslope : -(Scalar.square s.norm) = Exact.real (-(loosened C x (-g) g) ⬝ᵥ g) := by
    have hnonneg : 0 ≤ loosened C x (-g) g ⬝ᵥ loosened C x (-g) g :=
      (dotProduct_self_pos hne).le
    rw [hnorm, hprojected, Vec.norm_ofReals, neg_loosened_dotProduct,
      ← congrArg Neg.neg (Real.mul_self_sqrt hnonneg)]
    rfl
  have haimed : State.Aimed p C rule (s.steered p) (-(Scalar.square s.norm)) :=
    { toKept := h.toKept.congr ⟨id, rfl, rfl, rfl⟩
      accepted := h.accepted
      aim := ⟨x, f, g, _, hcurrent, hmem, hne, hdirection, hslope, hdescends⟩ }
  obtain ⟨u, v, -, -, hlengths⟩ := hp.settings.firstStep.exists_real
  obtain ⟨a, ha, hstep⟩ := FeasibleSet.firstStep_pos x hdescends.ne_zero u v
  have hinitial : p.feasible.initialStep s.current.point (s.steered p).direction
      p.settings.firstStep = .ok (.real a) := by
    rw [hp.feasible.initial, hdirection, hcurrent, hlengths, hstep]
  refine ensures_attempt (fun first hfirst => ?_) fun fault hfault => ?_
  · cases hinitial.symm.trans hfirst
    exact ⟨haimed, a, ha, rfl⟩
  · cases hinitial.symm.trans hfault

section Capacity

variable [Capacity m]

theorem Ready.ensures_propose (hp : p.Proper C rule) (h : s.Ready p C rule)
    (hpoised : s.Poised p) :
    Ensures (s.propose p)
      (fun result => match result with
        | (some slope, s) => s.Aimed p C rule slope
        | (none, s) => s.Ready p C rule)
      (fun e s => s.EndsSound p C rule e) := by
  obtain ⟨x, f, g, hcurrent, hmem, hne, hprojected, hnorm⟩ := h.stands
  obtain ⟨pairs, hpairs⟩ := exists_stored_lastPairs h.sound p.precision m
  have hholds : s.memory.pairs = pairs.map Memory.stored := hpoised.holds.trans hpairs
  have hroom : s.memory.live ≤ m := by
    rw [← Memory.length_pairs, hpoised.holds, Transcript.lastPairs]
    exact (List.length_take_le _ _).trans (Nat.min_le_left _ _)
  obtain ⟨direction, memory, notices, hanswer, -, -, hnotices, hdescends⟩ :=
    Memory.direction_descends (p := p.precision) hp.feasible hmem hroom hholds hne s.direction
  have hkeeps : s.KeepsLike p C rule (s.asked memory notices) :=
    { sound := fun hsound =>
        (hsound.cons (e := .recalled s.memory.pairs) rfl trivial).notices hnotices
      origins := ((Transcript.searchesLike_cons (e := .recalled s.memory.pairs) rfl
        s.transcript).trans (Transcript.searchesLike_notices notices _)).origins }
  have haccepted : (s.asked memory notices).transcript.accepted.head? = some s.current := by
    rw [← h.accepted]
    exact congrArg List.head?
      (Transcript.accepted_notices notices (.recalled s.memory.pairs :: s.transcript))
  have hasked : State.Ready p C rule (s.asked memory notices) :=
    { toKept := h.toKept.congr hkeeps
      accepted := haccepted
      stands := ⟨x, f, g, hcurrent, hmem, hne, hprojected, hnorm⟩ }
  refine State.ensures_propose (fun d memory' notices' hanswer' => ?_)
    fun fault memory' notices' hanswer' => ?_
  · rw [hcurrent, hprojected, hanswer] at hanswer'
    cases hanswer'
    refine ⟨fun hd => ?_, fun _ => ?_⟩
    · obtain ⟨v, hvector, hslope, hv⟩ := hdescends hd
      exact
        { toKept := hasked.toKept.congr ⟨id, rfl, rfl, rfl⟩
          accepted := haccepted
          aim := ⟨x, f, g, v, hcurrent, hmem, hne, hvector, hslope, hv⟩ }
    · exact ⟨hasked.toKept.congr ⟨id, rfl, rfl, rfl⟩, haccepted, hasked.stands⟩
  · rw [hcurrent, hprojected, hanswer] at hanswer'
    cases hanswer'

theorem Ready.ensures_aim (hp : p.Proper C rule) (h : s.Ready p C rule)
    (hpoised : s.Poised p) :
    Ensures (s.aim p) (Poises p C rule) (fun e s => s.EndsSound p C rule e) :=
  State.ensures_aim (fun _ => h.ensures_steer hp) (fun _ => h.ensures_propose hp hpoised)
    (fun _ _ hs => ⟨hs, 1, one_pos, rfl⟩) fun _ hs => Ready.ensures_steer hp hs

omit [Capacity m] in
theorem Ready.printDue (h : s.Ready p C rule) : (s.printDue p).Ready p C rule := by
  refine printDue_of (·.Ready p C rule) (fun s h => ?_) (fun s row h => ?_) h
  · exact ⟨h.toKept.congr ⟨fun hsound => hsound.cons rfl trivial, rfl, rfl, rfl⟩,
      h.accepted, h.stands⟩
  · exact ⟨h.toKept.congr ⟨fun hsound => hsound.cons rfl trivial, rfl, rfl, rfl⟩,
      h.accepted, h.stands⟩

theorem Guided.ensures_approach (hp : p.Proper C rule) (h : s.Guided p C rule)
    (hfollowed : s.Followed p) (hidle : s.searching = false) :
    Ensures (s.approach p) (Poises p C rule) (fun e s => s.EndsSound p C rule e) := by
  have hready : State.Ready p C rule (s.printDue p) :=
    Ready.printDue ⟨h.toKept, hfollowed.current hidle, h.stands hidle⟩
  have hbooks := booksLike_printDue p s
  have hprinted := (hfollowed.congr hbooks (standsLike_printDue p s).current).ensures_remember
    (hbooks.searching.trans hidle)
  have hremember : Ensures ((s.printDue p).remember p) (fun s => s.Ready p C rule)
      (fun e s => s.EndsSound p C rule e) := by
    refine State.ensures_remember (fun _ _ => ?_) (fun _ => hready) fun hkeeps _ =>
      { sound := hready.sound, mayFail := fun _ _ => .inr hkeeps }
    exact ⟨hready.toKept.congr ⟨fun hsound => hsound.cons rfl trivial, rfl, rfl, rfl⟩,
      hready.accepted, hready.stands⟩
  refine ((hprinted.and hremember).mono (fun _ hs => hs) fun _ _ hs => hs.2).bind
    fun s' hs' => ?_
  have hready : State.Ready p C rule { s' with restored := false } :=
    ⟨hs'.2.toKept.congr ⟨id, rfl, rfl, rfl⟩, hs'.2.accepted, hs'.2.stands⟩
  exact hready.ensures_aim hp hs'.1

theorem Guided.ensures_seek (hp : p.Proper C rule) (h : s.Guided p C rule)
    (hfollowed : s.Followed p) :
    Ensures (s.seek p) (fun s => s.Steady p C rule ∧ s.searching = true)
      (fun e s => s.EndsSound p C rule e) := by
  refine ensures_seek_of_approach (fun hsearching => ⟨h.toSteady, hsearching⟩)
    (h.ensures_approach hp hfollowed) ?_
  rintro slope _ ready ⟨haimed, first, hfirst, rfl⟩
  exact haimed.ensures_begin hp hfirst

omit [Capacity m] in
theorem Steady.ensures_meter (h : s.Steady p C rule) (hsearching : s.searching = true) :
    Ensures (s.meter p)
      (fun s => (s.advance p).Steady p C rule ∧ ∃ x, (s.advance p).current.point = .ofReals x)
      (fun e s => s.EndsSound p C rule e) := by
  refine State.ensures_meter (fun _ _ => { sound := h.sound }) fun _ =>
    ⟨h.congr ⟨id, rfl, rfl, rfl⟩ ⟨rfl, rfl, rfl, rfl, rfl⟩ rfl, ?_⟩
  obtain ⟨⟨x, f, g, horigin, -⟩, ⟨d, hdirection⟩, ⟨a, -, hstep⟩, -⟩ := h.search hsearching
  refine ⟨x + a • d, ?_⟩
  show Vec.combine p.precision 1 s.origin.point s.step s.direction = _
  rw [horigin, hdirection, hstep, Vec.combine_ofReals]

/-! ## Turns and runs -/

omit [Capacity m] in
/-- A part that does what it should under the assumption that the answers on record are
finite, beside what it does in any case. -/
theorem ensures_while_finite {part : Progress Exact σ (Strategy Exact) n m
      (State Exact σ (Strategy Exact) n m)}
    {books onward : State Exact σ (Strategy Exact) n m → Prop}
    (hbooks : Ensures part books fun _ s => RecallsAccepted p.precision m s.transcript)
    (hgrows : Ensures part (fun s' => s'.Extends (fun _ => True) s.transcript)
      fun _ s' => s'.Extends (fun _ => True) s.transcript)
    (h : s.transcript.Finite → Ensures part onward fun e s => s.EndsSound p C rule e) :
    Ensures part (fun s => books s ∧ (s.transcript.Finite → onward s))
      (fun e s => s.transcript.Finite → s.EndsSound p C rule e) := by
  have hassuming := hgrows.assuming (fun hsuffix hfinite => hfinite.of_suffix hsuffix) h
  exact (hbooks.and hassuming).mono (fun _ hs => hs) fun _ _ hs => hs.2

/-- Between two turns. -/
structure Proceeds (p : Problem Exact σ (Strategy Exact) n) (C : Fin n → Set ℝ)
    (rule : Rule Exact) (objective : σ) (s : State Exact σ (Strategy Exact) n m) : Prop where
  recorded : s.Recorded p objective ∧ s.HasThreshold p
  underway : s.Underway p
  steady : s.transcript.Finite → s.Steady p C rule ∧ ∃ x, s.current.point = .ofReals x

theorem initial_proceeds (hp : p.Proper C rule) (x : Fin n → ℝ) (objective : σ)
    {search : Strategy Exact} (hrule : search.rule = rule) :
    (State.initial p (.ofReals x) objective search :
      State Exact σ (Strategy Exact) n m).Proceeds p C rule objective where
  recorded := ⟨initial_recorded p _ objective search, initial_hasThreshold p _ objective search⟩
  underway := initial_underway p _ objective search
  steady _ := ⟨initial_steady hp _ objective hrule, x, rfl⟩

/-- After the first half of a turn. -/
structure Gauges (p : Problem Exact σ (Strategy Exact) n) (C : Fin n → Set ℝ)
    (rule : Rule Exact) (s : State Exact σ (Strategy Exact) n m) : Prop where
  replied : s.Replied p
  steady : s.transcript.Finite → s.Steady p C rule ∧ s.Stands C

theorem Proceeds.ensures_gauge {objective : σ} (hp : p.Proper C rule)
    (h : s.Proceeds p C rule objective) :
    Ensures (s.gauge p) (fun s => s.Gauges p C rule)
      (fun e s => s.transcript.Finite → s.EndsSound p C rule e) := by
  have hself : ∀ s : State Exact σ (Strategy Exact) n m,
      s.Extends (fun _ => True) s.transcript := extends_self _
  refine State.ensures_gauge
    (ensures_while_finite h.underway.ensures_project (hself s).ensures_project
      fun hfinite => (h.steady hfinite).1.ensures_project hp (h.steady hfinite).2)
    (fun s hs => (hs.1.ensures_evaluate.and (Steady.ensures_evaluate hs.1 hs.2)).mono
      (fun _ hs => hs) fun _ _ hs => hs.2)
    (fun s hs => ensures_while_finite hs.1.ensures_measure (hself s).ensures_measure
      fun hfinite => (hs.2 hfinite).1.ensures_measure hp (hs.2 hfinite).2)
    (fun s hs => (ensures_while_finite hs.1.ensures_settle (hself s).ensures_settle
      fun hfinite => (hs.2 hfinite).1.ensures_settle hp (hs.2 hfinite).2).mono
        (fun _ hs => ⟨hs.1, hs.2⟩) fun _ _ hs => hs)

theorem Gauges.ensures_consult (hp : p.Proper C rule) (h : s.Gauges p C rule) :
    Ensures (s.consult p)
      (fun s => s.Followed p ∧ (s.transcript.Finite → s.Guided p C rule))
      (fun e s => s.transcript.Finite → s.EndsSound p C rule e) :=
  ensures_while_finite h.replied.ensures_consult (extends_self _ s).ensures_consult
    fun hfinite => (h.steady hfinite).1.ensures_consult hp (h.steady hfinite).2 h.replied

theorem Proceeds.ensures_turn {objective : σ} (hp : p.Proper C rule)
    (h : s.Proceeds p C rule objective) :
    Ensures (s.turn p) (fun s => s.Proceeds p C rule objective)
      (fun e s => s.EndsCoherent p objective e ∧
        (s.transcript.Finite → s.EndsSound p C rule e)) := by
  have hself : ∀ s : State Exact σ (Strategy Exact) n m,
      s.Extends (fun _ => True) s.transcript := extends_self _
  have hturn : Ensures (s.turn p)
      (fun s => s.Underway p ∧
        (s.transcript.Finite → s.Steady p C rule ∧ ∃ x, s.current.point = .ofReals x))
      (fun e s => s.transcript.Finite → s.EndsSound p C rule e) := by
    rw [turn_eq]
    refine (h.ensures_gauge hp).bind fun s hs => ?_
    refine (hs.ensures_consult hp).bind fun s hs => ?_
    refine (ensures_while_finite hs.1.ensures_seek (hself s).ensures_seek
      fun hfinite => (hs.2 hfinite).ensures_seek hp hs.1).bind fun s hs => ?_
    exact (ensures_while_finite hs.1.ensures_meter (hself s).ensures_meter
      fun hfinite => (hs.2 hfinite).1.ensures_meter (hs.2 hfinite).2).bind fun _ hs => hs
  exact ((Recorded.ensures_turn h.recorded).and hturn).mono
    (fun _ hs => ⟨hs.1, hs.2.1, hs.2.2⟩) fun _ _ hs => hs

omit [Capacity m] in
theorem EndsSound.finish {ending : Ending} (h : s.EndsSound p C rule ending) {objective : σ}
    (hcoherent : s.EndsCoherent p objective ending) {outcome : Outcome Exact n}
    {last : State Exact σ (Strategy Exact) n m}
    (hfinish : s.finish p ending = (outcome, last)) :
    (∀ solution, outcome = .returned solution → solution.status ≠ .wouldBlock) ∧
      ∀ fault, outcome = .failed fault → p.MayFail s.transcript := by
  refine ⟨?_, ?_⟩
  · rintro solution rfl hblocked
    obtain ⟨final, hstatus, -⟩ := finish_returned hfinish
    exact h.not_blocked (by rw [hstatus, hblocked])
  · rintro fault rfl
    rcases finish_failed hfinish with hfault | ⟨status, hstatus, hunsettled⟩
    · exact h.mayFail fault hfault
    · obtain ⟨final, hsettled⟩ := (hcoherent status hstatus).coherent.recorded.exists_settled
      cases hsettled.symm.trans hunsettled

end Capacity

end State

/-- A run whose answers are finite has a sound record.  It does not return for want of a
step, and it fails only for what lies outside of it. -/
theorem Problem.solve_sound [Capacity m] (hp : p.Proper C rule) {turns : ℕ}
    {x : Fin n → ℝ} {objective : σ} {search : Strategy Exact} (hrule : search.rule = rule)
    {outcome : Outcome Exact n} {last : State Exact σ (Strategy Exact) n m}
    (hrun : p.solve m turns (.ofReals x) objective search = (outcome, last))
    (hfinite : last.transcript.Finite) :
    last.transcript.Sound p C rule ∧
      (∀ solution, outcome = .returned solution → solution.status ≠ .wouldBlock) ∧
      ∀ fault, outcome = .failed fault → p.MayFail last.transcript := by
  unfold Problem.solve at hrun
  have hturn := fun (s : State Exact σ (Strategy Exact) n m)
    (hs : s.Proceeds p C rule objective) => hs.ensures_turn hp
  rcases State.run_cases hturn turns _ (State.initial_proceeds hp x objective hrule) with
    ⟨unfinished, hlast, hrun'⟩ | ⟨ending, s, ⟨hcoherent, hended⟩, hrun'⟩
  · cases hrun.symm.trans hrun'
    exact ⟨(hlast.steady hfinite).1.sound, nofun, nofun⟩
  · have hfinish := hrun'.symm.trans hrun
    have hkept : s.transcript <:+ (s.finish p ending).2.transcript :=
      State.suffix_finish (List.suffix_refl _)
    rw [hfinish] at hkept
    have hends := hended (hfinite.of_suffix hkept)
    have hsound := State.finish_transcript (p := p) (fun t h => h.cons rfl trivial)
      (fun _ t h => h.cons rfl trivial) ending hends.sound
    rw [hfinish] at hsound
    obtain ⟨hreturned, hfailed⟩ := hends.finish hcoherent hfinish
    exact ⟨hsound, hreturned, fun fault hfault => (hfailed fault hfault).of_suffix hkept⟩

end

end VariableMetric
