import VariableMetric.Proofs.Run.Inactive

/-!
# The curvature of the pairs of a Wolfe search

A Wolfe search accepts a step in two ways: its slope has risen to a fraction of the slope
at the origin, or it has come to the cap.  In the whole space nothing caps a search along
a direction that descends, so the slope at an accepted step has always risen.  The trial
was made along that direction, so the gradient has changed along the step by at least the
rest of the promised decrease.

The pair is pushed in the turn in which the step is accepted, before the next search
overwrites the origin; and nothing is pushed where a failed search has led back.
-/

namespace VariableMetric

open Matrix Transcript

noncomputable section

variable {σ : Type} {n m : ℕ}

/-! ## The step that was accepted last -/

namespace Transcript

variable {α : Type}

/-- The step that a search has accepted last, with the origin of that search and the pass
from there. -/
def lastAcceptance : Transcript α n → Option (Iterate α n × Pass α n × α)
  | [] => none
  | .iterated step _ _ .converged _ :: t =>
    (lastSearch t).map fun search => (search.1, search.2, step)
  | _ :: t => lastAcceptance t

theorem lastAcceptance_bookkeeping (e : Event α n) (t : Transcript α n)
    (h : isBookkeeping e = true) : lastAcceptance (e :: t) = lastAcceptance t := by
  cases e <;> first | rfl | cases h

def isPush : Event α n → Bool
  | .pushed .. => true
  | _ => false

end Transcript

/-! ## One accepted step -/

/-- Below its cap a search accepts a step only if the slope there is not too steep. -/
theorem Wolfe.not_tooSteep_of_converged {α : Type} [Scalar α] {b : Wolfe α}
    {step value slope : α} (hsearching : b.search.status = .searching)
    (hbelow : ¬ b.search.cap ≤ step)
    (h : (b.iterate step value slope).1.status = .converged) : ¬ b.tooSteep slope = true := by
  have hflat := ((converged_iff hsearching step value slope).mp h).2
  rw [hflat.resolve_right hbelow]
  exact Bool.false_ne_true

theorem WolfeRule.Works.exists_gtol {r : WolfeRule Exact} (h : r.Works) :
    ∃ γ, r.gtol = .real γ ∧ γ < 1 := by
  have hpos : 0 < r.gtol := Exact.lt_of_le_of_lt (Exact.le_of_lt h.ftol_pos) h.gtol_gt
  obtain ⟨γ, -, hγ⟩ := exists_real_of_pos hpos (ne_infinite_of_lt h.gtol_lt)
  have hlt := h.gtol_lt
  rw [hγ] at hlt
  exact ⟨γ, hγ, hlt⟩

/-- A search under way without a cap accepts a step only where the slope has risen. -/
theorem Strategy.Underway.not_steep_of_converged {s : Strategy Exact} {r : WolfeRule Exact}
    {f df a : ℝ} {step value slope : Exact} (h : s.Underway f df) (hrule : s.rule = .wolfe r)
    (hfree : s.search.cap = Scalar.infinity) (hstep : step = .real a)
    (hconverged : (s.iterate step value slope).1.status = .converged) :
    ¬ slope < r.gtol * .real df := by
  cases s with
  | wolfe b =>
    obtain rfl : b.rule = r := Rule.wolfe.inj hrule
    have hcap : b.search.cap = Scalar.infinity := hfree
    have hbelow : ¬ b.search.cap ≤ step := by
      rw [hcap, hstep]
      exact nofun
    have hsteep := Wolfe.not_tooSteep_of_converged h.search.searching hbelow hconverged
    have hslope : b.search.slope = .real df := h.search.slope
    rw [Wolfe.tooSteep, hslope, decide_eq_true_iff] at hsteep
    exact hsteep
  | backtracking b => cases hrule
  | nonmonotone b => cases hrule

/-- A pair whose product is at least the part of the promised decrease by which a search
from the origin asks the slope to rise. -/
structure Curved (gtol : Exact) (origin : Iterate Exact n) (pass : Pass Exact n)
    (step : Exact) (pair : Vec Exact n × Vec Exact n) : Prop where
  slope_eq : pass.slope = pass.direction.inner origin.gradient
  product : ∃ γ a df q : ℝ, gtol = .real γ ∧ step = .real a ∧ pass.slope = .real df ∧
    pair.1.inner pair.2 = .real q ∧ 0 < (1 - γ) * a * |df| ∧ (1 - γ) * a * |df| ≤ q

/-- Along a step on which the slope rises to a fraction of what it was, the gradient
changes by the rest of it. -/
theorem curvature_of_slope {d g g' : Fin n → ℝ} {a γ : ℝ} (ha : 0 < a) (hγ : γ < 1)
    (hdescends : d ⬝ᵥ g < 0) (hrisen : γ * (d ⬝ᵥ g) ≤ g' ⬝ᵥ (a • d) / a) :
    0 < (1 - γ) * a * |d ⬝ᵥ g| ∧ (1 - γ) * a * |d ⬝ᵥ g| ≤ (a • d) ⬝ᵥ (g' - g) := by
  have hrest : 0 < (1 - γ) * a := mul_pos (sub_pos.mpr hγ) ha
  refine ⟨mul_pos hrest (abs_pos.mpr hdescends.ne), ?_⟩
  have hslope : g' ⬝ᵥ (a • d) / a = d ⬝ᵥ g' := by
    rw [dotProduct_smul, smul_eq_mul, mul_div_cancel_left₀ _ ha.ne', dotProduct_comm]
  rw [hslope] at hrisen
  calc (1 - γ) * a * |d ⬝ᵥ g|
      = a * (γ * (d ⬝ᵥ g) - d ⬝ᵥ g) := by rw [abs_of_neg hdescends]; ring
    _ ≤ a * (d ⬝ᵥ g' - d ⬝ᵥ g) :=
        mul_le_mul_of_nonneg_left (sub_le_sub_right hrisen _) ha.le
    _ = (a • d) ⬝ᵥ (g' - g) := by rw [smul_dotProduct, smul_eq_mul, dotProduct_sub]

/-- What is on record when a pair is pushed: it leads to the last accepted iterate from the
one before, where the search began that accepted it. -/
def Event.Curves (precision : Precision) (gtol : Exact) :
    Event Exact n → Transcript Exact n → Prop
  | .pushed s y, older => ∃ i o iterates pass step, older.accepted = i :: o :: iterates ∧
      older.lastAcceptance = some (o, pass, step) ∧ (s, y) = i.pairFrom precision o ∧
      Curved gtol o pass step (s, y)
  | _, _ => True

theorem Event.curves_of_not_isPush {precision : Precision} {gtol : Exact}
    {e : Event Exact n} (h : isPush e = false) (t : Transcript Exact n) :
    e.Curves precision gtol t := by
  cases e with
  | pushed s y => cases h
  | _ => trivial

namespace State

/-! ## The invariants of a run -/

variable {p : Problem Exact σ (Strategy Exact) n} {r : WolfeRule Exact}
  {s s' : State Exact σ (Strategy Exact) n m}

/-- Every pair on record is curved. -/
def RecordsCurved (p : Problem Exact σ (Strategy Exact) n) (r : WolfeRule Exact)
    (s : State Exact σ (Strategy Exact) n m) : Prop :=
  s.transcript.Always (Event.Curves p.precision r.gtol)

/-- A search without a cap, along the direction of its pass. -/
structure Roams (s : State Exact σ (Strategy Exact) n m) : Prop where
  cap : s.search.search.cap = Scalar.infinity
  pass : ∃ pass, s.transcript.lastSearch = some (s.origin, pass) ∧
    pass.direction = s.direction ∧ pass.slope = pass.direction.inner s.origin.gradient

/-- Between two turns, and until the line search is told: the run stands where the step of
the search under way has led. -/
structure Ventures (p : Problem Exact σ (Strategy Exact) n) (r : WolfeRule Exact)
    (s : State Exact σ (Strategy Exact) n m) : Prop where
  curved : s.RecordsCurved p r
  roams : s.searching = true → s.Roams
  trial : s.searching = true →
    s.current.point = Vec.combine p.precision 1 s.origin.point s.step s.direction

/-- After the line search was told: the pair that is due is curved. -/
structure Gains (p : Problem Exact σ (Strategy Exact) n) (r : WolfeRule Exact)
    (s : State Exact σ (Strategy Exact) n m) : Prop where
  curved : s.RecordsCurved p r
  roams : s.searching = true → s.Roams
  due : s.searching = false → 1 ≤ s.iterations → s.restored = false →
    ∃ pass step, s.transcript.lastAcceptance = some (s.origin, pass, step) ∧
      Curved r.gtol s.origin pass step (s.current.pairFrom p.precision s.origin)

theorem RecordsCurved.record (h : s.RecordsCurved p r) {e : Event Exact n}
    (he : isPush e = false) : (s.record e).RecordsCurved p r :=
  h.cons (Event.curves_of_not_isPush he _)

theorem RecordsCurved.notify (h : s.RecordsCurved p r) (notices : List (Notice Exact)) :
    (s.notify notices).RecordsCurved p r :=
  h.notices fun _ _ _ => trivial

theorem RecordsCurved.printDue (h : s.RecordsCurved p r) : (s.printDue p).RecordsCurved p r :=
  printDue_of (·.RecordsCurved p r) (fun _ h => h.record rfl) (fun _ _ h => h.record rfl) h

theorem initial_ventures (x : Vec Exact n) (objective : σ) (search : Strategy Exact) :
    (State.initial p x objective search : State Exact σ (Strategy Exact) n m).Ventures p r where
  curved := always_nil.cons trivial
  roams := nofun
  trial := nofun

theorem Roams.congr (h : s.Roams) (hlike : s.SearchesLike s') : s'.Roams where
  cap := by rw [hlike.search]; exact h.cap
  pass := by rw [hlike.lastSearch, hlike.origin, hlike.direction]; exact h.pass

theorem Ventures.congr (h : s.Ventures p r) (hlike : s.SearchesLike s')
    (hcurved : s.RecordsCurved p r → s'.RecordsCurved p r := by exact id)
    (hsearching : s'.searching = s.searching := by rfl)
    (hpoint : s'.current.point = s.current.point := by rfl) : s'.Ventures p r where
  curved := hcurved h.curved
  roams hbusy := (h.roams (hsearching.symm.trans hbusy)).congr hlike
  trial hbusy := by
    rw [hpoint, hlike.origin, hlike.step, hlike.direction]
    exact h.trial (hsearching.symm.trans hbusy)

/-! ## The first half of a turn -/

theorem Ventures.ensures_project (hset : p.feasible = .unconstrained) (h : s.Ventures p r) :
    Ensures (s.project p) (fun s => s.Ventures p r) (fun _ s => s.RecordsCurved p r) := by
  refine State.ensures_project (fun x hx => ?_) fun _ _ => h.curved
  -- The whole space leaves the point where it is.
  rw [hset] at hx
  cases hx
  exact h.congr ⟨rfl, rfl, rfl, rfl, rfl⟩

theorem Ventures.ensures_evaluate (h : s.Ventures p r) :
    Ensures (s.evaluate p) (fun s => s.Ventures p r) (fun _ s => s.RecordsCurved p r) := by
  refine State.ensures_evaluate (fun value gradient objective _ => ?_) fun fault objective _ => ?_
  · exact h.congr ⟨rfl, rfl, rfl, rfl, rfl⟩ fun hcurved => hcurved.cons trivial
  · exact h.curved.cons trivial

theorem Ventures.ensures_gauge (hset : p.feasible = .unconstrained) (h : s.Ventures p r) :
    Ensures (s.gauge p) (fun s => s.Ventures p r) (fun _ s => s.RecordsCurved p r) := by
  refine State.ensures_gauge (h.ensures_project hset) (fun s hs => hs.ensures_evaluate)
    (fun s hs => ?_) fun s (hs : s.Ventures p r) => ?_
  · exact State.ensures_measure (fun projected _ => hs.congr ⟨rfl, rfl, rfl, rfl, rfl⟩)
      fun _ _ => hs.curved
  · have hthreshold : (s.setThreshold p).Ventures p r :=
      setThreshold_of (·.Ventures p r) fun _ => hs.congr ⟨rfl, rfl, rfl, rfl, rfl⟩
    exact State.ensures_settle (fun _ => hthreshold.curved) fun _ => hthreshold

/-! ## Following the line search -/

/-- A trial that a Wolfe search accepts without a cap makes a curved pair. -/
theorem Ventures.curved_of_converged (hp : p.Proper (fun _ => Set.univ) (.wolfe r))
    (hsearch : p.search = .ofStrategy true) (h : s.Ventures p r)
    (hsteady : s.Steady p (fun _ => Set.univ) (.wolfe r))
    (hstands : s.Stands fun _ => Set.univ) (hsearching : s.searching = true) {slope : Exact}
    (hslope : s.trialSlope p = .ok slope)
    (hconverged : (s.search.iterate s.step s.current.value slope).1.status = .converged) :
    ∃ pass, s.transcript.lastSearch = some (s.origin, pass) ∧
      Curved r.gtol s.origin pass s.step (s.current.pairFrom p.precision s.origin) := by
  obtain ⟨hfree, pass, hlast, hdirection, hslopeq⟩ := h.roams hsearching
  obtain ⟨⟨x, f, g, horigin, -⟩, ⟨d, hd⟩, ⟨a, ha, hstep⟩, f', df, pass', -, hunderway, hlast',
    hdf⟩ := hsteady.search hsearching
  obtain ⟨x', f'', g', hcurrent, -⟩ := hstands
  obtain rfl : pass' = pass := by
    rw [hlast] at hlast'
    exact (Prod.mk.inj (Option.some.inj hlast')).2.symm
  have hslopeq' : df = d ⬝ᵥ g := by
    rw [hdf, hdirection, hd, horigin, Vec.inner_ofReals] at hslopeq
    exact Exact.real.inj hslopeq
  -- The trial was made where the step led, and nothing has brought it elsewhere.
  have hpoint : x' = x + a • d := by
    have htrial := h.trial hsearching
    rw [hcurrent, horigin, hstep, hd, Vec.combine_ofReals] at htrial
    exact Vec.ofReals_injective htrial
  have hmoved : x' - x = a • d := by rw [hpoint, add_sub_cancel_left]
  have hmeasured : slope = .real (g' ⬝ᵥ (a • d) / a) := by
    have hnonzero : ¬ Scalar.equal (Exact.real a) 0 = true := by
      rw [Exact.zero_eq, Exact.equal_real]
      exact ha.ne'
    have huses : p.search.usesDerivative = true := by rw [hsearch]; rfl
    rw [trialSlope, if_pos huses, hcurrent, horigin, hstep] at hslope
    dsimp only at hslope
    rw [if_neg hnonzero, Vec.difference_ofReals, hmoved, Vec.inner_ofReals,
      Exact.real_div _ ha.ne'] at hslope
    exact (Except.ok.inj hslope).symm
  obtain ⟨γ, hγ, hlt⟩ := WolfeRule.Works.exists_gtol hp.rule
  have hrisen : γ * (d ⬝ᵥ g) ≤ g' ⬝ᵥ (a • d) / a := by
    have hsteep := hunderway.not_steep_of_converged hsteady.rule_eq hfree hstep hconverged
    rw [hmeasured, hγ, hslopeq'] at hsteep
    exact not_lt.mp hsteep
  obtain ⟨hpos, hle⟩ := curvature_of_slope ha hlt (hslopeq' ▸ hunderway.search.slope_neg) hrisen
  refine ⟨pass', hlast, hslopeq, γ, a, d ⬝ᵥ g, (a • d) ⬝ᵥ (g' - g), hγ, hstep, ?_, ?_, hpos, hle⟩
  · rw [hdf, hslopeq']
  · rw [Iterate.pairFrom, hcurrent, horigin, Vec.difference_ofReals, Vec.difference_ofReals, hmoved,
      Vec.inner_ofReals]

theorem Roams.told (h : s.Roams) (slope : Exact) {reply : Reply Exact}
    {search : Strategy Exact}
    (hiterate : s.search.iterate s.step s.current.value slope = (reply, search)) :
    (s.told slope reply search).Roams := by
  obtain ⟨hfree, pass, hlast, hpass⟩ := h
  have hsearch : search = (s.search.iterate s.step s.current.value slope).2 := by rw [hiterate]
  refine ⟨?_, pass, (searchesLike_notices reply.notices _).lastSearch.trans hlast, hpass⟩
  show search.search.cap = _
  rw [hsearch, Strategy.cap_iterate, hfree]

theorem RecordsCurved.told (h : s.RecordsCurved p r) (slope : Exact) (reply : Reply Exact)
    (search : Strategy Exact) : (s.told slope reply search).RecordsCurved p r := by
  have hiterated := h.record
    (e := .iterated s.step s.current.value slope reply.status reply.step) rfl
  exact hiterated.notify reply.notices

theorem Ventures.ensures_consult [Capacity m] (hp : p.Proper (fun _ => Set.univ) (.wolfe r))
    (hsearch : p.search = .ofStrategy true) (h : s.Ventures p r)
    (hsteady : s.Steady p (fun _ => Set.univ) (.wolfe r))
    (hstands : s.Stands fun _ => Set.univ) (hreplied : s.Replied p) :
    Ensures (s.consult p) (fun s => s.Gains p r) (fun _ s => s.RecordsCurved p r) := by
  have hquiet (hidle : s.searching = false) : s.Gains p r := by
    refine ⟨h.curved, fun hbusy => absurd (hidle.symm.trans hbusy) nofun, fun _ hiterations => ?_⟩
    -- Nothing has been accepted but the first answer.
    rw [hreplied.counted.iterations, hreplied.idle hidle] at hiterations
    exact absurd hiterations (Nat.not_succ_le_zero 0)
  refine State.ensures_consult hquiet fun hsearching => ?_
  refine ensures_report (fun slope reply search hslope hreply => ?_) (fun _ _ => h.curved)
    fun _ _ _ _ => h.curved.cons trivial
  have hiterate : s.search.iterate s.step s.current.value slope = (reply, search) := by
    rw [hsearch] at hreply
    cases hreply
    rfl
  have htold := h.curved.told slope reply search
  cases hstatus : reply.status with
  | searching =>
    exact ⟨htold, fun _ => (h.roams hsearching).told slope hiterate,
      fun hidle => absurd hsearching (Bool.eq_false_iff.mp hidle)⟩
  | converged =>
    have hconverged : (s.search.iterate s.step s.current.value slope).1.status = .converged := by
      rw [hiterate, hstatus]
    obtain ⟨pass, hlast, hcurved⟩ :=
      h.curved_of_converged hp hsearch hsteady hstands hsearching hslope hconverged
    have hacceptance : (s.told slope reply search).transcript.lastAcceptance =
        some (s.origin, pass, s.step) := by
      refine (leadsUpTo_told s slope reply search).view lastAcceptance_bookkeeping |>.trans ?_
      show lastAcceptance (.iterated _ _ _ reply.status _ :: s.transcript) = _
      rw [hstatus, lastAcceptance, hlast]
      rfl
    exact ensures_accept (fun _ _ => htold)
      fun _ => ⟨htold, nofun, fun _ _ _ => ⟨pass, s.step, hacceptance, hcurved⟩⟩
  | failed =>
    have hback := (htold.notify [.searchAbandoned s.iterations]).record (e := .restored) rfl
    exact ensures_abandon (fun _ => htold)
      (fun _ projected _ => ⟨hback, nofun, fun _ _ => nofun⟩) fun _ _ => hback

/-! ## Pushing the pair and beginning the next search -/

section Capacity

variable [Capacity m]

theorem Gains.ensures_remember (h : s.Gains p r) (hfollowed : s.Followed p)
    (hidle : s.searching = false) :
    Ensures ((s.printDue p).remember p) (fun s => s.RecordsCurved p r)
      (fun _ s => s.RecordsCurved p r) := by
  have hdue := leadsUpTo_printDue p s
  have hbooks := booksLike_printDue p s
  have hcurved := h.curved.printDue (p := p)
  refine State.ensures_remember (fun hiterations hrestored => ?_) (fun _ => hcurved)
    fun _ _ => hcurved
  rw [hbooks.iterations] at hiterations
  rw [hbooks.restored] at hrestored
  obtain ⟨pass, step, hacceptance, hpair⟩ := h.due hidle hiterations hrestored
  obtain ⟨iterates, haccepted, -⟩ := (hfollowed.owes hidle hiterations hrestored).pairs
  refine hcurved.cons ⟨s.current, s.origin, iterates, pass, step, ?_, ?_, ?_, ?_⟩
  · rw [hbooks.transcript.accepted, haccepted]
  · rw [hdue.view lastAcceptance_bookkeeping, hacceptance]
  · rw [hdue.current, hdue.origin]
    rfl
  · rw [hdue.current, hdue.origin]
    exact hpair

omit [Capacity m] in
theorem RecordsCurved.ensures_steer (h : s.RecordsCurved p r) :
    Ensures (s.steer p) (fun a => a.2.2.RecordsCurved p r) (fun _ s => s.RecordsCurved p r) :=
  ensures_attempt (fun _ _ => h) fun _ _ => h

theorem RecordsCurved.ensures_aim (h : s.RecordsCurved p r) :
    Ensures (s.aim p) (fun a => a.2.2.RecordsCurved p r) (fun _ s => s.RecordsCurved p r) := by
  have hasked : ∀ memory notices, (s.asked memory notices).RecordsCurved p r :=
    fun memory notices => RecordsCurved.notify
      (s := { s.record (.recalled s.memory.pairs) with memory }) (h.record rfl) notices
  have hproposed : Ensures (s.propose p) (fun a => a.2.RecordsCurved p r)
      (fun _ s => s.RecordsCurved p r) :=
    ensures_propose (fun _ memory notices _ => ⟨fun _ => hasked memory notices,
      fun _ => hasked memory notices⟩) fun _ memory notices _ => hasked memory notices
  exact State.ensures_aim (fun _ => h.ensures_steer) (fun _ => hproposed) (fun _ _ hs => hs)
    fun _ hs => RecordsCurved.ensures_steer hs

theorem Gains.ensures_approach (h : s.Gains p r) (hfollowed : s.Followed p)
    (hidle : s.searching = false) :
    Ensures (s.approach p) (fun a => a.2.2.RecordsCurved p r) (fun _ s => s.RecordsCurved p r) :=
  (h.ensures_remember hfollowed hidle).bind fun s' hs' =>
    RecordsCurved.ensures_aim (s := { s' with restored := false }) hs'

omit [Capacity m] in
/-- A search that is begun in the whole space has no cap. -/
theorem Aimed.ensures_begin_roaming (hp : p.Proper (fun _ => Set.univ) (.wolfe r))
    (hset : p.feasible = .unconstrained) {slope : Exact}
    (h : s.Aimed p (fun _ => Set.univ) (.wolfe r) slope) (hcurved : s.RecordsCurved p r) {a : ℝ}
    (ha : 0 < a) :
    Ensures (s.begin p slope (.real a)) (fun s => s.RecordsCurved p r ∧ s.Roams)
      (fun _ s => s.RecordsCurved p r) := by
  obtain ⟨x, f, g, d, hcurrent, -, -, hdirection, hslope, -⟩ := h.aim
  obtain ⟨reply, search, -, -, -, hfree, hbegin⟩ := h.begin_uncapped hp hset ha
  have hchosen := hcurved.record (e := .chosen (s.pass slope (.real a) Scalar.infinity)) rfl
  have hstarted := hchosen.record (e := .started s.current
    (s.pass slope (.real a) Scalar.infinity) reply.status reply.step) rfl
  rw [hbegin]
  refine ⟨hstarted.notify reply.notices, hfree, s.pass slope (.real a) Scalar.infinity,
    (searchesLike_notices reply.notices _).lastSearch, rfl, ?_⟩
  show slope = s.direction.inner s.current.gradient
  rw [hslope, hdirection, hcurrent, Vec.inner_ofReals]

theorem Gains.ensures_seek (hp : p.Proper (fun _ => Set.univ) (.wolfe r))
    (hset : p.feasible = .unconstrained) (h : s.Gains p r)
    (hguided : s.Guided p (fun _ => Set.univ) (.wolfe r)) (hfollowed : s.Followed p) :
    Ensures (s.seek p) (fun s => s.RecordsCurved p r ∧ s.Roams)
      (fun _ s => s.RecordsCurved p r) := by
  have happroach (hidle : s.searching = false) :=
    ((h.ensures_approach hfollowed hidle).and
      (hguided.ensures_approach hp hfollowed hidle)).mono (fun _ ha => ha) fun _ _ hs => hs.1
  refine ensures_seek_of_approach (fun hsearching => ⟨h.curved, h.roams hsearching⟩)
    happroach ?_
  rintro slope first ready ⟨hcurved, haimed, a, ha, rfl⟩
  exact haimed.ensures_begin_roaming hp hset hcurved ha

omit [Capacity m] in
theorem ensures_meter_ventures (hcurved : s.RecordsCurved p r) (hroams : s.Roams) :
    Ensures (s.meter p) (fun s => (s.advance p).Ventures p r) (fun _ s => s.RecordsCurved p r) :=
  State.ensures_meter (fun _ _ => hcurved)
    fun _ => ⟨hcurved, fun _ => hroams.congr ⟨rfl, rfl, rfl, rfl, rfl⟩, fun _ => rfl⟩

/-! ## Turns and runs -/

/-- Between two turns, as long as the answers are finite. -/
structure Explores (p : Problem Exact σ (Strategy Exact) n) (r : WolfeRule Exact)
    (objective : σ) (s : State Exact σ (Strategy Exact) n m) : Prop where
  proceeds : s.Proceeds p (fun _ => Set.univ) (.wolfe r) objective
  ventures : s.transcript.Finite → s.Ventures p r

theorem Explores.ensures_turn {objective : σ} (hp : p.Proper (fun _ => Set.univ) (.wolfe r))
    (hset : p.feasible = .unconstrained) (hsearch : p.search = .ofStrategy true)
    (h : s.Explores p r objective) :
    Ensures (s.turn p) (fun s => s.Explores p r objective)
      (fun _ s => s.transcript.Finite → s.RecordsCurved p r) := by
  have hself : ∀ s : State Exact σ (Strategy Exact) n m,
      s.Extends (fun _ => True) s.transcript := extends_self _
  have holder : ∀ {t t' : Transcript Exact n}, t <:+ t' → t'.Finite → t.Finite :=
    fun hsuffix hfinite => hfinite.of_suffix hsuffix
  have hturn : Ensures (s.turn p) (fun s => s.transcript.Finite → s.Ventures p r)
      (fun _ s => s.transcript.Finite → s.RecordsCurved p r) := by
    have hgauge := (h.proceeds.ensures_gauge hp).and
      (((hself s).ensures_gauge (fun _ _ _ _ _ _ _ _ => trivial)
        fun _ _ _ _ _ _ _ => trivial).assuming holder
          fun hfinite => (h.ventures hfinite).ensures_gauge hset)
    rw [turn_eq]
    refine (hgauge.mono (fun _ hs => hs) fun _ _ hs => hs.2).bind fun s hs => ?_
    have hconsult := (hs.1.ensures_consult hp).and
      ((hself s).ensures_consult.assuming holder fun hfinite =>
        (hs.2 hfinite).ensures_consult hp hsearch (hs.1.steady hfinite).1
          (hs.1.steady hfinite).2 hs.1.replied)
    refine (hconsult.mono (fun _ hs => hs) fun _ _ hs => hs.2).bind fun s hs => ?_
    have hseek := (hself s).ensures_seek.assuming holder fun hfinite =>
      (hs.2 hfinite).ensures_seek hp hset (hs.1.2 hfinite) hs.1.1
    refine hseek.bind fun s hs => ?_
    have hmeter := (hself s).ensures_meter.assuming holder fun hfinite =>
      ensures_meter_ventures (p := p) (hs hfinite).1 (hs hfinite).2
    exact hmeter.bind fun s hs => hs
  exact ((h.proceeds.ensures_turn hp).and hturn).mono (fun _ hs => ⟨hs.1, hs.2⟩)
    fun _ _ hs => hs.2

end Capacity

end State

/-- In the whole space, every pair that a run with a Wolfe search pushes leads from the
origin of the search that made it, and its product is at least the part of the promised
decrease by which that search asked the slope to rise. -/
theorem Problem.pushed_curved [Capacity m] {p : Problem Exact σ (Strategy Exact) n} {turns : ℕ}
    {x : Fin n → ℝ} {objective : σ} {b : Wolfe Exact} {outcome : Outcome Exact n}
    {last : State Exact σ (Strategy Exact) n m} (hset : p.feasible = .unconstrained)
    (hsearch : p.search = .ofStrategy true) (hsettings : p.settings.Valid)
    (hrule : b.rule.Works)
    (hrun : p.solve m turns (.ofReals x) objective (.wolfe b) = (outcome, last))
    (hfinite : last.transcript.Finite) :
    ∀ s y (older : Transcript Exact n), .pushed s y :: older <:+ last.transcript →
      ∃ i o iterates pass step, older.accepted = i :: o :: iterates ∧
        older.lastAcceptance = some (o, pass, step) ∧ (s, y) = i.pairFrom p.precision o ∧
        Curved b.rule.gtol o pass step (s, y) := by
  have hp : p.Proper (fun _ => Set.univ) (.wolfe b.rule) :=
    { feasible := hset ▸ FeasibleSet.unconstrained_confines
      search := ⟨true, hsearch⟩
      settings := hsettings
      rule := hrule }
  let curved : Transcript Exact n → Prop := fun t =>
    t.Finite → t.Always (Event.Curves p.precision b.rule.gtol)
  have hcons : ∀ e t, isPush e = false → curved t → curved (e :: t) := fun e t he h hfinite =>
    (h (hfinite.of_suffix (List.suffix_cons _ _))).cons (Event.curves_of_not_isPush he t)
  have hturn : ∀ s : State Exact σ (Strategy Exact) n m, s.Explores p b.rule objective →
      State.Ensures (s.turn p) (fun s => s.Explores p b.rule objective)
        fun _ s => curved s.transcript := fun s hs => hs.ensures_turn hp hset hsearch
  have hrecord : curved (p.solve m turns (.ofReals x) objective (.wolfe b)).2.transcript :=
    State.solve_transcript (fun t => hcons .headed t rfl) (fun row t => hcons (.printed row) t rfl)
      hturn (fun s hs hfinite => (hs.ventures hfinite).curved) turns _ objective _
      ⟨State.initial_proceeds hp x objective rfl, fun _ => State.initial_ventures _ objective _⟩
  rw [hrun] at hrecord
  exact fun s y older hsuffix => hrecord hfinite _ older hsuffix

/-! ## A sample run

The line with the bend again, where the pair of the accepted step is pushed. -/

namespace Sample

theorem bendRun_curved :
    bendProblem.settings.Valid ∧ bendSearch.rule.Works ∧ bendRun.2.transcript.Finite ∧
      (∃ older : Transcript Exact (Shape.size [1]),
        .pushed (line 1) (line (1 / 2)) :: older <:+ bendRun.2.transcript) ∧
      ∀ s y (older : Transcript Exact (Shape.size [1])),
        .pushed s y :: older <:+ bendRun.2.transcript →
        ∃ i o iterates pass step, older.accepted = i :: o :: iterates ∧
          older.lastAcceptance = some (o, pass, step) ∧ (s, y) = i.pairFrom .double o ∧
          Curved bendSearch.rule.gtol o pass step (s, y) := by
  have hrule : bendSearch.rule.Works := bendSearch_valid.works
  exact ⟨bendProblem_settings, hrule, bendRun_finite, ⟨_, bendRun_pushes⟩,
    Problem.pushed_curved rfl rfl bendProblem_settings hrule Prod.mk.eta.symm bendRun_finite⟩

end Sample

end

end VariableMetric
