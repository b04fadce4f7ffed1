import VariableMetric.Proofs.Run.Record
import VariableMetric.Proofs.ScalarOrder

/-!
# Coherence of a run

The point, the value, the gradient and the projected norm of a run are written
in different parts of a turn, and so are those of the origin of a search.  The
invariants below tie them together: wherever a run has measured its gradient,
they all belong to one answer of the objective, and the origin belongs to the
answer at which the last search was begun.

The threshold is set once, so an answer above it stays above it.  A search begins
above the threshold, and a run that is sent back to an origin is above it again.
-/

namespace VariableMetric.State

variable {α σ τ : Type} [Scalar α] {n m : Nat}

/-- What is on record of a run that was begun with the objective in a given
state. -/
structure Recorded (p : Problem α σ τ n) (objective : σ) (s : State α σ τ n m) : Prop where
  calls : p.objective.Calls objective (Transcript.answers s.transcript) s.objective
  evaluations : s.evaluations = (Transcript.answers s.transcript).length
  unstarted : Transcript.origins s.transcript = [] → s.origin.value = Scalar.infinity
  searching : s.searching = true → Transcript.origins s.transcript ≠ []
  started : ∀ o, (Transcript.origins s.transcript).getLast? = some o →
    s.origin = o ∧ o ∈ Transcript.answers s.transcript ∧
      ∃ norm, p.projectedNorm? o = some norm ∧ ¬ norm ≤ s.threshold

/-- The threshold belongs to the first answer. -/
def HasThreshold (p : Problem α σ τ n) (s : State α σ τ n m) : Prop :=
  ∀ first, (Transcript.answers s.transcript).head? = some first →
    ∃ norm, p.projectedNorm? first = some norm ∧
      s.threshold = p.settings.tolerance.1 + p.settings.tolerance.2 * norm

def AtLastAnswer (s : State α σ τ n m) : Prop :=
  (Transcript.answers s.transcript).getLast? = some s.current

/-- After an answer, before its gradient has been measured.  The threshold is
still open at the first answer, where no search has been begun. -/
structure Fresh (p : Problem α σ τ n) (objective : σ) (s : State α σ τ n m) : Prop where
  recorded : s.Recorded p objective
  standing : Transcript.standing s.transcript = some s.current
  last : s.AtLastAnswer
  first : s.evaluations = 1 → Transcript.origins s.transcript = []
  threshold : s.evaluations ≠ 1 → s.HasThreshold p

structure Measured (p : Problem α σ τ n) (objective : σ) (s : State α σ τ n m) : Prop where
  fresh : s.Fresh p objective
  norm : p.projectedNorm? s.current = some s.norm

/-- Point, value, gradient and projected norm belong to one answer. -/
structure Coherent (p : Problem α σ τ n) (objective : σ) (s : State α σ τ n m) : Prop where
  recorded : s.Recorded p objective
  threshold : s.HasThreshold p
  standing : Transcript.standing s.transcript = some s.current
  mem : s.current ∈ Transcript.answers s.transcript
  norm : p.projectedNorm? s.current = some s.norm

structure Unsettled (p : Problem α σ τ n) (objective : σ) (s : State α σ τ n m) : Prop where
  coherent : s.Coherent p objective
  above : ¬ s.norm ≤ s.threshold

/-- A run that ends with a status is coherent, and below the threshold exactly
if it has converged, which it does at its last answer. -/
structure Ended (p : Problem α σ τ n) (objective : σ) (status : Status)
    (s : State α σ τ n m) : Prop where
  coherent : s.Coherent p objective
  below : status = .convergence ↔ s.norm ≤ s.threshold
  last : status = .convergence → s.AtLastAnswer

def EndsCoherent (p : Problem α σ τ n) (objective : σ) (ending : Ending)
    (s : State α σ τ n m) : Prop :=
  ∀ status, ending = .status status → s.Ended p objective status

variable {p : Problem α σ τ n} {objective : σ} {s s' : State α σ τ n m}

theorem endsCoherent_fault (fault : Fault) : s.EndsCoherent p objective (.fault fault) := by
  intro status h
  cases h

theorem Unsettled.endsCoherent (h : s.Unsettled p objective) {status : Status}
    (hstatus : status ≠ .convergence) :
    s.EndsCoherent p objective (.status status) := by
  intro status' heq
  cases heq
  exact ⟨h.coherent, iff_of_false hstatus h.above, fun heq => absurd heq hstatus⟩

theorem projectedNorm?_of_ok {i : Iterate α n} {projected : Vec α n}
    (h : p.feasible.projectGradient i.point i.gradient = .ok projected) :
    p.projectedNorm? i = some projected.norm := by
  simp [Problem.projectedNorm?, h, Except.toOption]

/-! ## States that stand alike -/

theorem Recorded.congr (h : s.Recorded p objective) (hlike : s.RecordsLike s') :
    s'.Recorded p objective where
  calls := by rw [hlike.answers, hlike.objective]; exact h.calls
  evaluations := by rw [hlike.answers, hlike.evaluations]; exact h.evaluations
  unstarted := by rw [hlike.origins, hlike.origin]; exact h.unstarted
  searching hsearching := by
    rw [hlike.origins]
    exact h.searching (hlike.searching hsearching)
  started := by
    rw [hlike.origins, hlike.answers, hlike.origin, hlike.threshold]
    exact h.started

theorem HasThreshold.congr (h : s.HasThreshold p) (hlike : s.RecordsLike s') :
    s'.HasThreshold p := by
  unfold HasThreshold
  rw [hlike.answers, hlike.threshold]
  exact h

theorem Coherent.congr (h : s.Coherent p objective) (hlike : s.StandsLike s') :
    s'.Coherent p objective where
  recorded := h.recorded.congr hlike.toRecordsLike
  threshold := h.threshold.congr hlike.toRecordsLike
  standing := by rw [hlike.standing, hlike.current]; exact h.standing
  mem := by rw [hlike.answers, hlike.current]; exact h.mem
  norm := by rw [hlike.current, hlike.norm]; exact h.norm

theorem Unsettled.congr (h : s.Unsettled p objective) (hlike : s.StandsLike s') :
    s'.Unsettled p objective where
  coherent := h.coherent.congr hlike
  above := by rw [hlike.norm, hlike.threshold]; exact h.above

/-! ## Evaluating and measuring -/

theorem initial_recorded (p : Problem α σ τ n) (x : Vec α n) (objective : σ) (search : τ) :
    (State.initial p x objective search : State α σ τ n m).Recorded p objective where
  calls := .none objective
  evaluations := rfl
  unstarted _ := rfl
  searching h := by cases h
  started o h := by cases h

theorem initial_hasThreshold (p : Problem α σ τ n) (x : Vec α n) (objective : σ)
    (search : τ) :
    (State.initial p x objective search : State α σ τ n m).HasThreshold p := by
  intro first h
  cases h

theorem Recorded.ensures_project (hrecorded : s.Recorded p objective)
    (hthreshold : s.HasThreshold p) :
    Ensures (s.project p) (fun s => s.Recorded p objective ∧ s.HasThreshold p)
      (fun ending s => s.EndsCoherent p objective ending) := by
  refine State.ensures_project (fun x _ => ?_) fun fault _ => endsCoherent_fault fault
  exact ⟨hrecorded.congr (.of_eq rfl rfl), hthreshold.congr (.of_eq rfl rfl)⟩

theorem Recorded.origins_eq_nil (h : s.Recorded p objective)
    (hanswers : Transcript.answers s.transcript = []) :
    Transcript.origins s.transcript = [] := by
  by_contra hne
  obtain ⟨o, ho⟩ := Option.isSome_iff_exists.mp (List.getLast?_isSome.mpr hne)
  have hmem := (h.started o ho).2.1
  rw [hanswers] at hmem
  cases hmem

theorem Recorded.answered {next : σ} {value : α} {gradient : Vec α n}
    (h : s.Recorded p objective)
    (hanswer : p.objective.evaluate s.objective s.current.point s.current.gradient =
      (.ok (value, gradient), next)) :
    State.Recorded p objective (s.answered ⟨s.current.point, value, gradient⟩ next) where
  calls := by
    simp only [State.answered, record, Transcript.answers_evaluated]
    exact .call _ h.calls hanswer
  evaluations := by simp [State.answered, record, h.evaluations]
  unstarted := h.unstarted
  searching := h.searching
  started o ho := by
    obtain ⟨horigin, hmem, hnorm⟩ := h.started o ho
    refine ⟨horigin, ?_, hnorm⟩
    simp only [State.answered, record, Transcript.answers_evaluated]
    exact List.mem_append_left _ hmem

theorem Recorded.ensures_evaluate (hrecorded : s.Recorded p objective)
    (hthreshold : s.HasThreshold p) :
    Ensures (s.evaluate p) (fun s => s.Fresh p objective)
      (fun ending s => s.EndsCoherent p objective ending) := by
  refine State.ensures_evaluate (fun value gradient next hanswer => ?_)
    fun fault next _ => endsCoherent_fault fault
  refine ⟨hrecorded.answered hanswer, rfl, ?_, fun hone => ?_, fun hne first hfirst => ?_⟩
  · simp [AtLastAnswer, State.answered, record]
  · apply hrecorded.origins_eq_nil
    rw [← List.length_eq_zero_iff, ← hrecorded.evaluations]
    simpa [State.answered, record] using hone
  · apply hthreshold first
    simp only [State.answered, record, Transcript.answers_evaluated] at hfirst
    cases hanswers : Transcript.answers s.transcript with
    | nil =>
        have hzero := hrecorded.evaluations
        rw [hanswers] at hzero
        exact absurd (by simpa [State.answered, record] using hzero) hne
    | cons head rest => simpa [hanswers] using hfirst

theorem Fresh.ensures_measure (h : s.Fresh p objective) :
    Ensures (s.measure p) (fun s => s.Measured p objective)
      (fun ending s => s.EndsCoherent p objective ending) := by
  refine State.ensures_measure (fun projected hprojected => ?_)
    fun fault _ => endsCoherent_fault fault
  exact
    { fresh :=
        { recorded := h.recorded.congr (.of_eq rfl rfl)
          standing := h.standing
          last := h.last
          first := h.first
          threshold := h.threshold }
      norm := projectedNorm?_of_ok hprojected }

theorem Measured.setThreshold_atLastAnswer (h : s.Measured p objective) :
    (s.setThreshold p).AtLastAnswer := by
  unfold State.setThreshold
  split
  · exact h.fresh.last
  · exact h.fresh.last

/-- The threshold is set at the first answer and kept from then on. -/
theorem Measured.setThreshold_coherent (h : s.Measured p objective) :
    (s.setThreshold p).Coherent p objective := by
  have hmem := List.mem_of_getLast? h.fresh.last
  have hrecorded := h.fresh.recorded
  unfold State.setThreshold
  split
  next hone =>
    have horigins := h.fresh.first hone
    obtain ⟨i, hi⟩ := List.length_eq_one_iff.mp (hrecorded.evaluations.symm.trans hone)
    have hcurrent : s.current = i := by simpa [hi] using hmem
    refine ⟨⟨hrecorded.calls, hrecorded.evaluations, hrecorded.unstarted,
      hrecorded.searching, ?_⟩, ?_, h.fresh.standing, hmem, h.norm⟩
    · intro o ho
      simp [horigins] at ho
    · intro first hfirst
      have heq : i = first := by simpa [hi] using hfirst
      exact ⟨s.norm, by rw [← heq, ← hcurrent]; exact h.norm, rfl⟩
  next hne =>
    exact ⟨hrecorded, h.fresh.threshold hne, h.fresh.standing, hmem, h.norm⟩

theorem Coherent.ensures_settle (h : s.Coherent p objective) (hlast : s.AtLastAnswer) :
    Ensures s.settle (fun s => s.Unsettled p objective)
      (fun ending s => s.EndsCoherent p objective ending) := by
  refine State.ensures_settle (fun hbelow => ?_) fun habove => ⟨h, habove⟩
  rintro status ⟨⟩
  exact ⟨h.congr (.of_eq rfl rfl rfl), iff_of_true rfl hbelow, fun _ => hlast⟩

/-! ## Following the line search -/

/-- Once a search has been begun, the origin is an answer above the threshold. -/
theorem Recorded.origin_spec (h : s.Recorded p objective)
    (hne : Transcript.origins s.transcript ≠ []) {projected : Vec α n}
    (hprojected : p.feasible.projectGradient s.origin.point s.origin.gradient = .ok projected) :
    (Transcript.origins s.transcript).getLast? = some s.origin ∧
      s.origin ∈ Transcript.answers s.transcript ∧
      p.projectedNorm? s.origin = some projected.norm ∧ ¬ projected.norm ≤ s.threshold := by
  obtain ⟨o, ho⟩ := Option.isSome_iff_exists.mp (List.getLast?_isSome.mpr hne)
  obtain ⟨rfl, hmem, norm, hnorm, habove⟩ := h.started o ho
  have hprojectedNorm := projectedNorm?_of_ok hprojected
  have heq : norm = projected.norm := Option.some.inj (hnorm.symm.trans hprojectedNorm)
  exact ⟨ho, hmem, hprojectedNorm, heq ▸ habove⟩

theorem Unsettled.sentBack {projected : Vec α n} (h : s.Unsettled p objective)
    (hsearching : s.searching = true)
    (hprojected : p.feasible.projectGradient s.origin.point s.origin.gradient = .ok projected) :
    State.Unsettled p objective (s.sentBack projected) := by
  have hrecorded := h.coherent.recorded
  obtain ⟨horigin, hmem, hnorm, habove⟩ :=
    hrecorded.origin_spec (hrecorded.searching hsearching) hprojected
  have hnoticed := s.standsLike_notify [.searchAbandoned s.iterations]
  have hlike : s.RecordsLike (s.sentBack projected) :=
    { answers := hnoticed.answers
      origins := hnoticed.origins
      searching := nofun }
  refine ⟨⟨hrecorded.congr hlike, h.coherent.threshold.congr hlike, ?_, ?_, hnorm⟩, habove⟩
  · show (Transcript.origins (s.notify _).transcript).getLast? = some s.origin
    rw [hnoticed.origins, horigin]
  · show s.origin ∈ Transcript.answers (s.sentBack projected).transcript
    rw [hlike.answers]
    exact hmem

theorem Unsettled.ensures_follow (h : s.Unsettled p objective)
    (hsearching : s.searching = true) (status : SearchStatus) :
    Ensures (s.follow p status) (fun s => s.Unsettled p objective)
      (fun ending s => s.EndsCoherent p objective ending) := by
  cases status with
  | searching => exact h
  | converged =>
      have haccepted := h.congr s.standsLike_accepted
      exact ensures_accept (fun _ _ => haccepted.endsCoherent nofun) fun _ => haccepted
  | failed =>
      exact ensures_abandon (fun _ => h.endsCoherent nofun)
        (fun _ projected hprojected => h.sentBack hsearching hprojected)
        fun fault _ => endsCoherent_fault fault

theorem Unsettled.ensures_consult (h : s.Unsettled p objective) :
    Ensures (s.consult p) (fun s => s.Unsettled p objective)
      (fun ending s => s.EndsCoherent p objective ending) := by
  refine State.ensures_consult (fun _ => h) fun hsearching => ?_
  refine ensures_report (fun slope reply search _ _ => ?_)
    (fun fault _ => endsCoherent_fault fault) fun _ fault _ _ => endsCoherent_fault fault
  have htold := h.congr (s.standsLike_told slope reply search)
  exact htold.ensures_follow hsearching reply.status

/-! ## Beginning a search -/

/-- A search that is begun has the current iterate as its origin. -/
theorem Unsettled.begun (h : s.Unsettled p objective) (pass : Pass α n) (reply : Reply α)
    (search : τ) :
    State.Unsettled p objective (s.begun pass reply search) ∧
      Transcript.origins (s.begun pass reply search).transcript ≠ [] := by
  have hcoherent := h.coherent
  unfold State.begun
  constructor
  · refine Unsettled.congr ?_ (standsLike_notify _ _)
    refine ⟨⟨⟨hcoherent.recorded.calls, hcoherent.recorded.evaluations, ?_, ?_, ?_⟩,
      hcoherent.threshold, hcoherent.standing, hcoherent.mem, hcoherent.norm⟩, h.above⟩
    · simp [record]
    · simp [record]
    · intro o ho
      have heq : s.current = o := by simpa [record] using ho
      subst heq
      exact ⟨rfl, hcoherent.mem, s.norm, hcoherent.norm, h.above⟩
  · rw [(standsLike_notify _ _).origins]
    simp [record]

theorem Unsettled.searching (h : s.Unsettled p objective)
    (hne : Transcript.origins s.transcript ≠ []) :
    State.Unsettled p objective { s with searching := true } := by
  have hrecorded := h.coherent.recorded
  exact ⟨⟨⟨hrecorded.calls, hrecorded.evaluations, hrecorded.unstarted, fun _ => hne,
    hrecorded.started⟩, h.coherent.threshold, h.coherent.standing, h.coherent.mem,
    h.coherent.norm⟩, h.above⟩

theorem Unsettled.ensures_begin (h : s.Unsettled p objective) (slope first : α) :
    Ensures (s.begin p slope first) (fun s => s.Unsettled p objective)
      (fun ending s => s.EndsCoherent p objective ending) := by
  have hchosen := fun step cap => h.congr (s.standsLike_chosen slope step cap)
  refine State.ensures_begin (fun cap _ _ => (hchosen _ cap).endsCoherent nofun)
    (fun cap reply search _ _ _ => ?_) fun fault _ => endsCoherent_fault fault
  obtain ⟨hbegun, hne⟩ := (hchosen (Scalar.least first cap) cap).begun
    (s.pass slope (Scalar.least first cap) cap) reply search
  exact ⟨fun _ => hbegun.searching hne, fun _ => hbegun.endsCoherent nofun⟩

theorem Unsettled.ensures_descend (h : s.Unsettled p objective) :
    Ensures (s.descend p) (fun s => s.Unsettled p objective)
      (fun ending s => s.EndsCoherent p objective ending) := by
  have hsteered := h.congr (s.standsLike_steered p)
  exact State.ensures_descend (fun first _ => hsteered.ensures_begin _ first)
    fun fault _ => endsCoherent_fault fault

theorem Unsettled.ensures_propose [Capacity m] (h : s.Unsettled p objective) :
    Ensures (s.propose p) (fun result => result.2.Unsettled p objective)
      (fun ending s => s.EndsCoherent p objective ending) := by
  refine State.ensures_propose (fun d memory notices _ => ?_)
    fun fault _ _ _ => endsCoherent_fault fault
  have hasked := h.congr (s.standsLike_asked memory notices)
  exact ⟨fun _ => hasked.congr (.of_eq rfl rfl rfl), fun _ => hasked.congr (.of_eq rfl rfl rfl)⟩

theorem Unsettled.ensures_choose [Capacity m] (h : s.Unsettled p objective) :
    Ensures (s.choose p) (fun s => s.Unsettled p objective)
      (fun ending s => s.EndsCoherent p objective ending) :=
  State.ensures_choose (fun _ => h.ensures_descend) (fun _ => h.ensures_propose)
    (fun slope _ hs => hs.ensures_begin slope 1) fun _ hs => hs.ensures_descend

theorem Unsettled.ensures_seek [Capacity m] (h : s.Unsettled p objective) :
    Ensures (s.seek p) (fun s => s.Unsettled p objective)
      (fun ending s => s.EndsCoherent p objective ending) := by
  have hprinted := h.congr (standsLike_printDue p s)
  have hremember : Ensures ((s.printDue p).remember p)
      (fun s => s.Unsettled p objective)
      (fun ending s => s.EndsCoherent p objective ending) :=
    ensures_remember (fun _ _ => hprinted.congr (standsLike_enriched _ _ _))
      (fun _ => hprinted) fun _ _ => endsCoherent_fault _
  refine State.ensures_seek (fun _ => h) (fun _ => hremember) fun s' hs' => ?_
  have hready : State.Unsettled p objective { s' with restored := false } :=
    hs'.congr (.of_eq rfl rfl rfl)
  exact hready.ensures_choose

/-! ## Turns -/

theorem Unsettled.ensures_meter (h : s.Unsettled p objective) :
    Ensures (s.meter p)
      (fun s => (s.advance p).Recorded p objective ∧ (s.advance p).HasThreshold p)
      (fun ending s => s.EndsCoherent p objective ending) := by
  refine State.ensures_meter (fun _ _ => h.endsCoherent nofun) fun _ => ?_
  exact ⟨h.coherent.recorded.congr (.of_eq rfl rfl), h.coherent.threshold.congr (.of_eq rfl rfl)⟩

theorem Recorded.ensures_turn [Capacity m]
    (h : s.Recorded p objective ∧ s.HasThreshold p) :
    Ensures (s.turn p) (fun s => s.Recorded p objective ∧ s.HasThreshold p)
      (fun ending s => s.EndsCoherent p objective ending) :=
  State.ensures_turn (h.1.ensures_project h.2)
    (fun _ hs => hs.1.ensures_evaluate hs.2)
    (fun _ hs => hs.ensures_measure)
    (fun _ hs => hs.setThreshold_coherent.ensures_settle hs.setThreshold_atLastAnswer)
    (fun _ hs => hs.ensures_consult)
    (fun _ hs => hs.ensures_seek)
    (fun _ hs => hs.ensures_meter)

/-- The projected gradient at an origin has been measured once, so it can be measured
again. -/
theorem Recorded.exists_settled [OrderedScalar α] (h : s.Recorded p objective) :
    ∃ final, s.settled p = .ok final := by
  unfold settled
  split
  next hless =>
    have hne : Transcript.origins s.transcript ≠ [] := by
      intro hnil
      rw [h.unstarted hnil] at hless
      exact OrderedScalar.not_infinity_lt _ hless
    obtain ⟨o, ho⟩ := Option.isSome_iff_exists.mp (List.getLast?_isSome.mpr hne)
    obtain ⟨rfl, -, norm, hnorm, -⟩ := h.started o ho
    unfold measured atOrigin
    dsimp only
    cases hproject : p.feasible.projectGradient s.origin.point s.origin.gradient with
    | ok projected => exact ⟨_, rfl⟩
    | error fault => simp [Problem.projectedNorm?, hproject, Except.toOption] at hnorm
  next => exact ⟨s, rfl⟩

end VariableMetric.State
