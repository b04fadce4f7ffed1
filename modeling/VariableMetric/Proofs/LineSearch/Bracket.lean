import VariableMetric.Proofs.LineSearch.Trials

/-!
# The bracket of a Wolfe search

While a Wolfe search goes on, its step lies strictly inside its bracket and does not exceed the
cap.  The lower end of the bracket is the origin, or a trial that was low enough and still too
steep; the upper end is infinite, or a trial that was not low enough.  A rejected trial becomes
one of the ends.  Once there is an upper end the trial was in the middle, so a rejection halves
the bracket; before, the search doubles its step up to the cap, where a trial that is low
enough is accepted however steep it is.

The values of the trials are arbitrary, and need not be numbers.
-/

namespace VariableMetric

/-- A trial of a search: its step, and the value and the slope there. -/
structure Trial where
  step : Exact
  value : Exact
  slope : Exact

/-- What a search is started with: its rule, the value and the slope at the origin, and the
largest step allowed. -/
structure WolfeTask where
  rule : WolfeRule Exact
  value : Exact
  slope : Exact
  cap : Exact

noncomputable section

namespace WolfeTask

/-- The value that a step has to reach. -/
def target (o : WolfeTask) (step : Exact) : Exact := o.value + o.rule.ftol * step * o.slope

/-- A trial that is not low enough, or has no finite value. -/
def Misses (o : WolfeTask) (t : Trial) : Prop :=
  Scalar.isFinite t.value = false ∨ o.target t.step < t.value

/-- A trial with a sufficient decrease, wherever it is defined what that is. -/
def Meets (o : WolfeTask) (t : Trial) : Prop :=
  Scalar.isFinite t.value = true ∧ (o.target t.step ≠ .undefined → t.value ≤ o.target t.step)

def TooSteep (o : WolfeTask) (t : Trial) : Prop := t.slope < o.rule.gtol * o.slope

theorem meets_of_not_misses {o : WolfeTask} {t : Trial} (h : ¬ o.Misses t) : o.Meets t := by
  obtain ⟨hfinite, hlow⟩ := not_or.mp h
  rw [Bool.not_eq_false] at hfinite
  refine ⟨hfinite, fun hdefined => ?_⟩
  obtain ⟨v, hv⟩ := Exact.exists_real_of_isFinite hfinite
  have htarget : Scalar.isNaN (o.target t.step) = false := by
    rw [← Bool.not_eq_true, Exact.isNaN_iff]
    exact hdefined
  rw [hv] at hlow ⊢
  exact OrderedScalar.le_of_not_lt htarget (Exact.isNaN_real v) hlow

end WolfeTask

/-- A search with its last answer and the trials that it was told of, the last one first. -/
structure Pursuit where
  reply : Reply Exact
  search : Wolfe Exact
  trials : List Trial

namespace Pursuit

def begin (b : Wolfe Exact) (value slope step cap : Exact) : Pursuit :=
  ⟨(b.start value slope step cap).1, (b.start value slope step cap).2, []⟩

/-- The search is told of the value and the slope at the step that it asked for. -/
def tell (p : Pursuit) (value slope : Exact) : Pursuit :=
  ⟨(p.search.iterate p.reply.step value slope).1, (p.search.iterate p.reply.step value slope).2,
    ⟨p.reply.step, value, slope⟩ :: p.trials⟩

def after (p : Pursuit) (told : List (Exact × Exact)) : Pursuit :=
  told.foldl (fun p answer => p.tell answer.1 answer.2) p

end Pursuit

namespace Wolfe

variable {b : Wolfe Exact} {o : WolfeTask} {trials : List Trial} {lo : ℝ}

/-- A search that was started with a task. -/
structure Serves (b : Wolfe Exact) (o : WolfeTask) : Prop where
  rule : b.rule = o.rule
  value : b.search.value = o.value
  slope : b.search.slope = o.slope
  cap : b.search.cap = o.cap

theorem Serves.tooHigh_iff (h : b.Serves o) (t : Trial) :
    b.tooHigh t.step t.value = true ↔ o.Misses t := by
  rw [tooHigh, Search.target, h.rule, h.value, h.slope, Bool.or_eq_true, Bool.not_eq_true',
    decide_eq_true_iff]
  rfl

theorem Serves.tooSteep_iff (h : b.Serves o) (t : Trial) :
    b.tooSteep t.slope = true ↔ o.TooSteep t := by
  rw [tooSteep, h.rule, h.slope, decide_eq_true_iff]
  rfl

/-- The ends of a bracket are the origin, infinity, or trials that belong there. -/
structure Ends (b : Wolfe Exact) (o : WolfeTask) (trials : List Trial) (lo : ℝ) : Prop where
  lo_eq : b.lo = .real lo
  nonneg : 0 ≤ lo
  lower : lo = 0 ∨ ∃ t ∈ trials, t.step = .real lo ∧ o.Meets t ∧ o.TooSteep t
  upper : b.hi = .infinite false ∨ ∃ hi, b.hi = .real hi ∧ .real hi ≤ o.cap ∧
    ∃ t ∈ trials, t.step = .real hi ∧ o.Misses t

theorem Ends.congr {b' : Wolfe Exact} (h : b.Ends o trials lo) (hlo : b'.lo = b.lo)
    (hhi : b'.hi = b.hi) : b'.Ends o trials lo :=
  ⟨hlo.trans h.lo_eq, h.nonneg, h.lower, hhi ▸ h.upper⟩

/-- A step strictly inside the bracket, in the middle of it if there is one. -/
structure Inside (b : Wolfe Exact) (o : WolfeTask) (lo a : ℝ) : Prop where
  above : lo < a
  capped : .real a ≤ o.cap
  below : .real a < b.hi
  middle : ∀ hi, b.hi = .real hi → a = (lo + hi) / 2

theorem Inside.congr {b' : Wolfe Exact} {a : ℝ} (h : b.Inside o lo a) (hhi : b'.hi = b.hi) :
    b'.Inside o lo a :=
  ⟨h.above, h.capped, hhi ▸ h.below, hhi ▸ h.middle⟩

/-- A bracket that a trial has left has room for another one. -/
structure Open (b : Wolfe Exact) (o : WolfeTask) (lo : ℝ) : Prop where
  doubling : b.hi = .infinite false → 0 < lo ∧ .real lo < o.cap
  halving : ∀ hi, b.hi = .real hi → lo < hi

/-- Twice a number, cut down to something above it. -/
theorem exists_least_double {cap : Exact} (hpos : 0 < lo) (hroom : .real lo < cap) :
    ∃ a, Scalar.least (.real (2 * lo)) cap = .real a ∧ lo < a ∧ .real a ≤ cap := by
  cases cap with
  | real c =>
    rw [Exact.real_lt] at hroom
    refine ⟨min (2 * lo) c, Exact.least_real _ _, lt_min (by linarith) hroom, ?_⟩
    exact (Exact.real_le _ _).mpr (min_le_right _ _)
  | infinite negative =>
    obtain rfl : negative = false := hroom
    exact ⟨2 * lo, Exact.least_infinite_right _, by linarith, rfl⟩
  | undefined => exact absurd hroom id

theorem Open.nextStep (h : b.Open o lo) (hserves : b.Serves o) (hends : b.Ends o trials lo) :
    ∃ a, b.nextStep = .real a ∧ b.Inside o lo a := by
  unfold Wolfe.nextStep
  rcases hends.upper with hhi | ⟨hi, hhi, hcap, -⟩
  · obtain ⟨hpos, hroom⟩ := h.doubling hhi
    obtain ⟨a, ha, habove, hcapped⟩ := exists_least_double hpos hroom
    have hdouble : Scalar.two * b.lo = .real (2 * lo) := by
      rw [hends.lo_eq]
      rfl
    refine ⟨a, ?_, habove, hcapped, ?_, ?_⟩
    · rw [hhi, if_neg nofun, hdouble, hserves.cap, ha]
    · rw [hhi]
      rfl
    · intro hi hreal
      rw [hhi] at hreal
      cases hreal
  · have hlt := h.halving hi hhi
    refine ⟨1 / 2 * (lo + hi), ?_, by linarith, ?_, ?_, ?_⟩
    · rw [hhi, if_pos (Exact.isFinite_real hi), hends.lo_eq]
      rfl
    · refine Exact.le_trans ((Exact.real_le _ hi).mpr ?_) hcap
      linarith
    · rw [hhi, Exact.real_lt]
      linarith
    · intro hi' hreal
      rw [hhi] at hreal
      cases hreal
      ring

/-! ## Rejected trials -/

/-- What a rejection leaves as it is. -/
theorem reject_kept (b : Wolfe Exact) :
    b.reject.2.lo = b.lo ∧ b.reject.2.hi = b.hi ∧ b.reject.1.step = b.nextStep ∧
      b.reject.2.search.trials = b.search.trials + 1 ∧ (b.Serves o → b.reject.2.Serves o) := by
  rcases b.reject_cases with ⟨_, -, heq⟩ | ⟨-, -, heq⟩ <;> rw [heq] <;>
    exact ⟨rfl, rfl, rfl, rfl, fun h => ⟨h.rule, h.value, h.slope, h.cap⟩⟩

/-- A search is given up for the number of its trials, or for a step below the least one. -/
theorem failed_of_reject (h : b.reject.1.status = .failed) :
    b.rule.limit ≤ b.search.trials + 1 ∨ b.nextStep < b.rule.stpmin := by
  rcases b.reject_cases with ⟨_, hover, -⟩ | ⟨-, -, heq⟩
  · exact hover
  · rw [heq] at h
    cases h

theorem Ends.raise (h : b.Ends o trials lo) {t : Trial} {a : ℝ} (hstep : t.step = .real a)
    (hnonneg : 0 ≤ a) (hmeets : o.Meets t) (hsteep : o.TooSteep t) :
    Ends { b with lo := .real a } o (t :: trials) a where
  lo_eq := rfl
  nonneg := hnonneg
  lower := .inr ⟨t, List.mem_cons_self, hstep, hmeets, hsteep⟩
  upper := h.upper.imp_right fun ⟨hi, hhi, hcap, t', ht', hends⟩ =>
    ⟨hi, hhi, hcap, t', List.mem_cons_of_mem _ ht', hends⟩

theorem Ends.cut (h : b.Ends o trials lo) {t : Trial} {a : ℝ} (hstep : t.step = .real a)
    (hcapped : .real a ≤ o.cap) (hmisses : o.Misses t) :
    Ends { b with hi := .real a } o (t :: trials) lo where
  lo_eq := h.lo_eq
  nonneg := h.nonneg
  lower := h.lower.imp_right fun ⟨t', ht', hends⟩ => ⟨t', List.mem_cons_of_mem _ ht', hends⟩
  upper := .inr ⟨a, rfl, hcapped, t, List.mem_cons_self, hstep, hmisses⟩

end Wolfe

namespace Pursuit

variable {p : Pursuit} {o : WolfeTask} {lo a : ℝ}

/-- Between two trials. -/
structure Underway (p : Pursuit) (o : WolfeTask) (lo a : ℝ) : Prop where
  serves : p.search.Serves o
  counted : p.search.search.trials = p.trials.length
  step_eq : p.reply.step = .real a
  ends : p.search.Ends o p.trials lo
  inside : p.search.Inside o lo a

/-- The new bracket is one of the halves of the old one, if that had an upper end. -/
structure Halves (p : Pursuit) (lo : ℝ) (p' : Pursuit) (lo' : ℝ) : Prop where
  upper : ∀ hi, p.search.hi = .real hi → ∃ hi', p'.search.hi = .real hi' ∧
    hi' - lo' = (hi - lo) / 2 ∧ lo ≤ lo' ∧ hi' ≤ hi

/-- After a trial that was rejected. -/
structure Rejects (p : Pursuit) (o : WolfeTask) (lo : ℝ) (p' : Pursuit) (lo' : ℝ) : Prop where
  rejected : p'.reply.status ≠ .converged
  lo_eq : p'.search.lo = .real lo'
  halves : p.Halves lo p' lo'
  failed : p'.reply.status = .failed →
    o.rule.limit ≤ p'.trials.length ∨ p'.reply.step < o.rule.stpmin
  underway : ∃ a, p'.Underway o lo' a

/-- A trial is rejected into the bracket that it leaves. -/
theorem rejects_of_reject {b : Wolfe Exact} {t : Trial} {lo' : ℝ}
    (hserves : b.Serves o) (hcounted : b.search.trials = p.trials.length)
    (hends : b.Ends o (t :: p.trials) lo') (hopen : b.Open o lo')
    (hhalves : p.Halves lo ⟨b.reject.1, b, t :: p.trials⟩ lo') :
    p.Rejects o lo ⟨b.reject.1, b.reject.2, t :: p.trials⟩ lo' := by
  obtain ⟨hlo, hhi, hstep, htrials, hkept⟩ := b.reject_kept (o := o)
  obtain ⟨a, hnext, hinside⟩ := hopen.nextStep hserves hends
  have hlength : b.search.trials + 1 = (t :: p.trials).length := by
    rw [hcounted, List.length_cons]
  refine ⟨b.status_reject_ne_converged, hlo.trans hends.lo_eq, ⟨?_⟩, ?_, a, ?_⟩
  · intro hi heq
    obtain ⟨hi', heq', hhalf⟩ := hhalves.upper hi heq
    exact ⟨hi', hhi.trans heq', hhalf⟩
  · intro hfailed
    have hover := Wolfe.failed_of_reject hfailed
    rw [hlength, hserves.rule] at hover
    rwa [← hstep] at hover
  · exact ⟨hkept hserves, htrials.trans hlength, hstep.trans hnext, hends.congr hlo hhi,
      hinside.congr hhi⟩

/-- A trial that is not low enough becomes the upper end. -/
theorem Underway.cut (h : p.Underway o lo a) {value slope : Exact}
    (hmisses : o.Misses ⟨p.reply.step, value, slope⟩) :
    p.Rejects o lo ⟨(Wolfe.reject { p.search with hi := .real a }).1,
      (Wolfe.reject { p.search with hi := .real a }).2,
      ⟨p.reply.step, value, slope⟩ :: p.trials⟩ lo := by
  have habove := h.inside.above
  refine rejects_of_reject ⟨h.serves.rule, h.serves.value, h.serves.slope, h.serves.cap⟩
    h.counted (h.ends.cut h.step_eq h.inside.capped hmisses) ⟨nofun, ?_⟩ ⟨?_⟩
  · intro hi heq
    cases heq
    exact habove
  · intro hi heq
    have hmiddle := h.inside.middle hi heq
    exact ⟨a, rfl, by rw [hmiddle]; ring, le_refl lo, by linarith⟩

/-- A trial that is low enough and too steep becomes the lower end, if a longer step is
allowed. -/
theorem Underway.raise (h : p.Underway o lo a) {value slope : Exact}
    (hmeets : o.Meets ⟨p.reply.step, value, slope⟩)
    (hsteep : o.TooSteep ⟨p.reply.step, value, slope⟩) (hroom : .real a < o.cap) :
    p.Rejects o lo ⟨(Wolfe.reject { p.search with lo := .real a }).1,
      (Wolfe.reject { p.search with lo := .real a }).2,
      ⟨p.reply.step, value, slope⟩ :: p.trials⟩ a := by
  have habove := h.inside.above
  have hpos : 0 < a := h.ends.nonneg.trans_lt habove
  refine rejects_of_reject ⟨h.serves.rule, h.serves.value, h.serves.slope, h.serves.cap⟩
    h.counted (h.ends.raise h.step_eq hpos.le hmeets hsteep) ⟨fun _ => ⟨hpos, hroom⟩, ?_⟩ ⟨?_⟩
  · intro hi heq
    have hbelow := h.inside.below
    rw [show p.search.hi = .real hi from heq, Exact.real_lt] at hbelow
    exact hbelow
  · intro hi heq
    have hmiddle := h.inside.middle hi heq
    exact ⟨hi, heq, by rw [hmiddle]; ring, habove.le, le_refl hi⟩

/-- A trial is accepted, or else becomes an end of the bracket. -/
theorem Underway.tell (h : p.Underway o lo a) (hsearching : p.search.search.status = .searching)
    (value slope : Exact) :
    (p.tell value slope).reply.status = .converged ∨
      ∃ lo', p.Rejects o lo (p.tell value slope) lo' := by
  have hhigh := h.serves.tooHigh_iff ⟨p.reply.step, value, slope⟩
  have hsteep := h.serves.tooSteep_iff ⟨p.reply.step, value, slope⟩
  unfold Pursuit.tell
  rw [Wolfe.iterate, if_pos hsearching]
  by_cases hmisses : p.search.tooHigh p.reply.step value = true
  · right
    rw [if_pos hmisses, h.step_eq]
    exact ⟨lo, h.step_eq ▸ h.cut (hhigh.mp hmisses)⟩
  · rw [if_neg hmisses]
    by_cases hcurve : p.search.tooSteep slope = true
    · rw [if_pos hcurve]
      by_cases hcap : p.search.search.cap ≤ p.reply.step
      · left
        rw [if_pos hcap]
        rfl
      · have hmeets := WolfeTask.meets_of_not_misses fun hmiss => hmisses (hhigh.mpr hmiss)
        have hroom : .real a < o.cap := by
          rw [h.serves.cap, h.step_eq] at hcap
          exact Exact.lt_of_le_of_not_le h.inside.capped hcap
        right
        rw [if_neg hcap, h.step_eq]
        exact ⟨a, h.step_eq ▸ h.raise hmeets (hsteep.mp hcurve) hroom⟩
    · left
      rw [if_neg hcurve]
      rfl

/-! ## Whole searches -/

theorem start_of_searching {value slope step cap : Exact}
    (h : (Search.start value slope step cap).1.status = .searching) :
    0 < Scalar.least step cap ∧ Search.start value slope step cap =
      (⟨.searching, Scalar.least step cap, []⟩, ⟨.searching, value, slope, cap, 0⟩) := by
  rcases Search.start_cases value slope step cap with ⟨_, heq⟩ | ⟨-, hpos, heq⟩
  · rw [heq] at h
    cases h
  · exact ⟨hpos, heq⟩

theorem least_le {step cap : Exact} {a : ℝ} (h : Scalar.least step cap = .real a)
    (hcap : cap ≠ .undefined) : .real a ≤ cap := by
  unfold Scalar.least at h
  split at h
  · rw [h]
    exact (Exact.real_le a a).mpr le_rfl
  next hnot =>
    have hdefined : Scalar.isNaN cap = false := by
      rw [← Bool.not_eq_true, Exact.isNaN_iff]
      exact hcap
    rw [h] at hnot
    exact OrderedScalar.le_of_not_lt hdefined (Exact.isNaN_real a) hnot

/-- The first step lies in the bracket of all steps. -/
theorem underway_begin {b : Wolfe Exact} {value slope step cap : Exact}
    (hsearching : (begin b value slope step cap).reply.status = .searching)
    (hfinite : Scalar.isFinite (begin b value slope step cap).reply.step = true)
    (hcap : cap ≠ .undefined) :
    ∃ a, (begin b value slope step cap).Underway ⟨b.rule, value, slope, cap⟩ 0 a := by
  obtain ⟨hpos, hstart⟩ := start_of_searching hsearching
  obtain ⟨a, ha⟩ := Exact.exists_real_of_isFinite hfinite
  have hstep : Scalar.least step cap = .real a := by
    change (Search.start value slope step cap).1.step = .real a at ha
    rwa [hstart] at ha
  rw [hstep] at hpos
  unfold begin Wolfe.start
  rw [hstart]
  exact ⟨a, ⟨rfl, rfl, rfl, rfl⟩, rfl, hstep, ⟨rfl, le_rfl, .inl rfl, .inl rfl⟩,
    ⟨hpos, least_le hstep hcap, rfl, nofun⟩⟩

/-- A search under way has its step in its bracket. -/
structure Sound (p : Pursuit) (o : WolfeTask) : Prop where
  status : p.search.search.status = p.reply.status
  underway : p.reply.status = .searching → ∃ lo a, p.Underway o lo a

theorem Sound.tell (h : p.Sound o) (value slope : Exact) : (p.tell value slope).Sound o where
  status := p.search.status_iterate p.reply.step value slope
  underway hsearching := by
    have hbefore := (Wolfe.goesOn_iterate hsearching).before
    obtain ⟨lo, a, hunderway⟩ := h.underway (h.status.symm.trans hbefore)
    rcases hunderway.tell hbefore value slope with hconverged | ⟨lo', hrejects⟩
    · rw [hconverged] at hsearching
      cases hsearching
    · exact ⟨lo', hrejects.underway⟩

theorem Sound.after (h : p.Sound o) (told : List (Exact × Exact)) : (p.after told).Sound o := by
  induction told generalizing p with
  | nil => exact h
  | cons answer told ih => exact ih (h.tell answer.1 answer.2)

/-- While a Wolfe search goes on, its step is inside a bracket of trials that belong there, a
rejected trial halves a bracket that has an upper end, and the search is given up only for the
number of its trials or for a step below the least one. -/
theorem bracketed_of_searching {b : Wolfe Exact} {value₀ slope₀ step₀ cap : Exact}
    (hstart : (begin b value₀ slope₀ step₀ cap).reply.status = .searching)
    (hfinite : Scalar.isFinite (begin b value₀ slope₀ step₀ cap).reply.step = true)
    (hcap : cap ≠ .undefined) {told : List (Exact × Exact)}
    (hafter : (begin b value₀ slope₀ step₀ cap).after told = p)
    (hsearching : p.reply.status = .searching) :
    let o : WolfeTask := ⟨b.rule, value₀, slope₀, cap⟩
    ∃ lo a : ℝ, p.search.lo = .real lo ∧ p.reply.step = .real a ∧
      0 ≤ lo ∧ lo < a ∧ .real a ≤ cap ∧ .real a < p.search.hi ∧
      (lo = 0 ∨ ∃ t ∈ p.trials, t.step = .real lo ∧ o.Meets t ∧ o.TooSteep t) ∧
      (p.search.hi = .infinite false ∨ ∃ t ∈ p.trials, t.step = p.search.hi ∧ o.Misses t) ∧
      ∀ value slope, let p' := p.tell value slope
        (p'.reply.status ≠ .converged → ∀ hi, p.search.hi = .real hi →
          ∃ lo' hi', p'.search.lo = .real lo' ∧ p'.search.hi = .real hi' ∧
            hi' - lo' = (hi - lo) / 2 ∧ lo ≤ lo' ∧ hi' ≤ hi) ∧
        (p'.reply.status = .failed →
          b.rule.limit ≤ p'.trials.length ∨ p'.reply.step < b.rule.stpmin) := by
  subst hafter
  obtain ⟨a₀, hbegin⟩ := underway_begin hstart hfinite hcap
  have hstarted : (begin b value₀ slope₀ step₀ cap).Sound ⟨b.rule, value₀, slope₀, cap⟩ :=
    ⟨Search.status_start value₀ slope₀ step₀ cap, fun _ => ⟨0, a₀, hbegin⟩⟩
  have hsound := hstarted.after told
  obtain ⟨lo, a, h⟩ := hsound.underway hsearching
  have hupper := h.ends.upper
  refine ⟨lo, a, h.ends.lo_eq, h.step_eq, h.ends.nonneg, h.inside.above, h.inside.capped,
    h.inside.below, h.ends.lower, ?_, fun value slope => ?_⟩
  · rcases hupper with hinfinite | ⟨hi, heq, -, t, ht, hstep, hmisses⟩
    · exact .inl hinfinite
    · exact .inr ⟨t, ht, hstep.trans heq.symm, hmisses⟩
  · rcases h.tell (hsound.status.trans hsearching) value slope with hconverged | ⟨lo', hrejects⟩
    · refine ⟨fun hrejected => absurd hconverged hrejected, fun hfailed => ?_⟩
      rw [hconverged] at hfailed
      cases hfailed
    · refine ⟨fun _ hi heq => ?_, hrejects.failed⟩
      obtain ⟨hi', heq', hhalf⟩ := hrejects.halves.upper hi heq
      exact ⟨lo', hi', hrejects.lo_eq, heq', hhalf⟩

end Pursuit

namespace Sample

def bracketRule : WolfeRule Exact := ⟨Scalar.half * Scalar.half, Scalar.half, 0, 10⟩

/-- A trial without a value, and one that is low enough and too steep. -/
def bracketAnswers : List (Exact × Exact) := [(.undefined, .real 0), (.real (-1), .real (-1))]

def bracketPursuit : Pursuit :=
  Pursuit.begin (Wolfe.new bracketRule) (.real 0) (.real (-1)) (.real 1) (.infinite false)

/-- The search after some trials, with the ends of its bracket. -/
def bracketSearch (trials : ℕ) (lo hi : Exact) : Wolfe Exact :=
  ⟨bracketRule, ⟨.searching, .real 0, .real (-1), .infinite false, trials⟩, lo, hi⟩

theorem begin_bracketPursuit :
    bracketPursuit = ⟨⟨.searching, .real 1, []⟩, bracketSearch 0 (.real 0) (.infinite false),
      []⟩ := by
  have hdescends : Exact.real (-1) < 0 := (Exact.real_lt _ _).mpr (by norm_num)
  have hpos : (0 : Exact) < .real 1 := (Exact.real_lt _ _).mpr one_pos
  unfold bracketPursuit Pursuit.begin Wolfe.start Search.start
  dsimp only
  rw [Exact.least_infinite_right, if_pos hdescends, if_pos hpos]
  rfl

theorem iterate_valueless :
    (bracketSearch 0 (.real 0) (.infinite false)).iterate (.real 1) .undefined (.real 0) =
      (⟨.searching, .real (1 / 2 * (0 + 1)), []⟩, bracketSearch 1 (.real 0) (.real 1)) := by
  have hlong : ¬ Exact.real (1 / 2 * (0 + 1)) < .real 0 := by
    rw [Exact.real_lt]
    norm_num
  exact (if_pos rfl).trans ((if_pos rfl).trans (if_neg hlong))

theorem iterate_steep :
    (bracketSearch 1 (.real 0) (.real 1)).iterate (.real (1 / 2 * (0 + 1))) (.real (-1))
        (.real (-1)) =
      (⟨.searching, .real (1 / 2 * (1 / 2 * (0 + 1) + 1)), []⟩,
        bracketSearch 2 (.real (1 / 2 * (0 + 1))) (.real 1)) := by
  have hlow : ¬ Exact.real (0 + 1 / 2 * (1 / 2) * (1 / 2 * (0 + 1)) * (-1)) < .real (-1) := by
    rw [Exact.real_lt]
    norm_num
  have hsteep : Exact.real (-1) < .real (1 / 2 * (-1)) := by
    rw [Exact.real_lt]
    norm_num
  have hlong : ¬ Exact.real (1 / 2 * (1 / 2 * (0 + 1) + 1)) < .real 0 := by
    rw [Exact.real_lt]
    norm_num
  exact (if_pos rfl).trans ((if_neg fun h => hlow (of_decide_eq_true h)).trans
    ((if_pos (decide_eq_true hsteep)).trans ((if_neg nofun).trans (if_neg hlong))))

/-- After both answers the bracket goes from one half to one. -/
theorem after_bracketAnswers :
    (bracketPursuit.after bracketAnswers).reply = ⟨.searching, .real (3 / 4), []⟩ ∧
      (bracketPursuit.after bracketAnswers).search =
        bracketSearch 2 (.real (1 / 2)) (.real 1) := by
  have hlo : (1 / 2 * (0 + 1) : ℝ) = 1 / 2 := by norm_num
  have hmiddle : (1 / 2 * (1 / 2 + 1) : ℝ) = 3 / 4 := by norm_num
  rw [begin_bracketPursuit]
  unfold bracketAnswers Pursuit.after
  rw [List.foldl_cons, List.foldl_cons, List.foldl_nil]
  unfold Pursuit.tell
  dsimp only
  rw [iterate_valueless]
  dsimp only
  rw [iterate_steep, hlo, hmiddle]
  exact ⟨rfl, rfl⟩

theorem bracketPursuit_bracketed :
    bracketPursuit.reply.status = .searching ∧
      Scalar.isFinite bracketPursuit.reply.step = true ∧ Exact.infinite false ≠ .undefined ∧
      (bracketPursuit.after bracketAnswers).reply = ⟨.searching, .real (3 / 4), []⟩ ∧
      (bracketPursuit.after bracketAnswers).search =
        bracketSearch 2 (.real (1 / 2)) (.real 1) ∧
      let o : WolfeTask := ⟨bracketRule, .real 0, .real (-1), .infinite false⟩
      let p := bracketPursuit.after bracketAnswers
      ∃ lo a : ℝ, p.search.lo = .real lo ∧ p.reply.step = .real a ∧
        0 ≤ lo ∧ lo < a ∧ .real a ≤ Exact.infinite false ∧ .real a < p.search.hi ∧
        (lo = 0 ∨ ∃ t ∈ p.trials, t.step = .real lo ∧ o.Meets t ∧ o.TooSteep t) ∧
        (p.search.hi = .infinite false ∨ ∃ t ∈ p.trials, t.step = p.search.hi ∧ o.Misses t) ∧
        ∀ value slope, let p' := p.tell value slope
          (p'.reply.status ≠ .converged → ∀ hi, p.search.hi = .real hi →
            ∃ lo' hi', p'.search.lo = .real lo' ∧ p'.search.hi = .real hi' ∧
              hi' - lo' = (hi - lo) / 2 ∧ lo ≤ lo' ∧ hi' ≤ hi) ∧
          (p'.reply.status = .failed →
            bracketRule.limit ≤ p'.trials.length ∨ p'.reply.step < bracketRule.stpmin) := by
  have hstart : bracketPursuit.reply.status = .searching := by rw [begin_bracketPursuit]
  have hfinite : Scalar.isFinite bracketPursuit.reply.step = true := by
    rw [begin_bracketPursuit]
    rfl
  obtain ⟨hreply, hbracket⟩ := after_bracketAnswers
  have hsearching := congrArg Reply.status hreply
  exact ⟨hstart, hfinite, nofun, hreply, hbracket,
    Pursuit.bracketed_of_searching hstart hfinite nofun rfl hsearching⟩

end Sample

end

end VariableMetric
