import VariableMetric.Proofs.Run.Searches

/-!
# A run only adds to its record

No part of a turn takes anything back that is on record.  So what is assumed of the
record of a part when it is done may be assumed of the record before it as well, if it
is an assumption that holds of older records too.
-/

namespace VariableMetric

variable {α σ τ β : Type} {n m : ℕ}

namespace State

open Transcript

/-- What is on record is still there, and any call of the objective since then has a
property. -/
def Extends (ok : Event α n → Prop) (t : Transcript α n) (s : State α σ τ n m) : Prop :=
  ∃ added, s.transcript = added ++ t ∧ ∀ e ∈ added, isCall e = true → ok e

variable {ok : Event α n → Prop} {t : Transcript α n} {s : State α σ τ n m}
  {p : Problem α σ τ n}

theorem extends_self (ok : Event α n → Prop) (s : State α σ τ n m) :
    s.Extends ok s.transcript :=
  ⟨[], rfl, nofun⟩

theorem Extends.suffix (h : s.Extends ok t) : t <:+ s.transcript := by
  obtain ⟨added, heq, -⟩ := h
  rw [heq]
  exact List.suffix_append _ _

theorem Extends.record (h : s.Extends ok t) (e : Event α n)
    (he : isCall e = true → ok e := by exact nofun) : (s.record e).Extends ok t := by
  obtain ⟨added, heq, hok⟩ := h
  refine ⟨e :: added, congrArg (e :: ·) heq, fun e' he' => ?_⟩
  rcases List.mem_cons.mp he' with rfl | htail
  · exact he
  · exact hok e' htail

theorem Extends.notify (h : s.Extends ok t) (notices : List (Notice α)) :
    (s.notify notices).Extends ok t := by
  obtain ⟨added, heq, hok⟩ := h
  refine ⟨(notices.map Event.noticed).reverse ++ added, ?_, fun e he => ?_⟩
  · rw [List.append_assoc, ← heq]
    rfl
  · rcases List.mem_append.mp he with hnotice | hold
    · obtain ⟨notice, -, rfl⟩ := List.mem_map.mp (List.mem_reverse.mp hnotice)
      exact nofun
    · exact hok e hold

/-! ## Assumptions on the record -/

/-- A part that ensures something under an assumption on the record before it ensures it
under the same assumption on the record after it. -/
theorem Ensures.assuming {Assumed : Transcript α n → Prop}
    (holder : ∀ {t t'}, t <:+ t' → Assumed t' → Assumed t)
    {part : Progress α σ τ n m (State α σ τ n m)} {onward : State α σ τ n m → Prop}
    {ended : Ending → State α σ τ n m → Prop}
    (hgrows : Ensures part (fun s' => s'.Extends ok s.transcript)
      (fun _ s' => s'.Extends ok s.transcript))
    (h : Assumed s.transcript → Ensures part onward ended) :
    Ensures part (fun s' => Assumed s'.transcript → onward s')
      (fun e s' => Assumed s'.transcript → ended e s') := by
  cases part with
  | ok s' => exact fun hassumed => h (holder hgrows.suffix hassumed)
  | error result => exact fun hassumed => h (holder hgrows.suffix hassumed)

/-! ## The parts of a turn -/

theorem Extends.ensures_project (h : s.Extends ok t) :
    Ensures (s.project p) (fun s => s.Extends ok t) (fun _ s => s.Extends ok t) :=
  State.ensures_project (fun _ _ => h) fun _ _ => h

theorem Extends.ensures_evaluate (h : s.Extends ok t)
    (hanswer : ∀ value gradient objective,
      p.objective.evaluate s.objective s.current.point s.current.gradient =
        (.ok (value, gradient), objective) → ok (.evaluated ⟨s.current.point, value, gradient⟩))
    (hrefusal : ∀ fault objective,
      p.objective.evaluate s.objective s.current.point s.current.gradient =
        (.error fault, objective) → ok (.refused s.current.point)) :
    Ensures (s.evaluate p) (fun s => s.Extends ok t) (fun _ s => s.Extends ok t) := by
  refine State.ensures_evaluate (fun value gradient objective heq => ?_)
    fun fault objective heq => ?_
  · have hcounted : State.Extends ok t
        { s with current := ⟨s.current.point, value, gradient⟩, objective,
                 evaluations := s.evaluations + 1 } := h
    exact hcounted.record (.evaluated _) fun _ => hanswer value gradient objective heq
  · have hasked : State.Extends ok t { s with objective } := h
    exact hasked.record (.refused _) fun _ => hrefusal fault objective heq

variable [Scalar α]

theorem Extends.ensures_measure (h : s.Extends ok t) :
    Ensures (s.measure p) (fun s => s.Extends ok t) (fun _ s => s.Extends ok t) :=
  State.ensures_measure (fun _ _ => h) fun _ _ => h

theorem Extends.ensures_settle (h : s.Extends ok t) :
    Ensures (s.setThreshold p).settle (fun s => s.Extends ok t) (fun _ s => s.Extends ok t) := by
  have hset : (s.setThreshold p).Extends ok t := setThreshold_of (·.Extends ok t) fun _ => h
  exact State.ensures_settle (fun _ => hset) fun _ => hset

theorem Extends.ensures_follow (h : s.Extends ok t) (status : SearchStatus) :
    Ensures (s.follow p status) (fun s => s.Extends ok t) (fun _ s => s.Extends ok t) := by
  cases status with
  | searching => exact h
  | converged => exact ensures_accept (fun _ _ => h) fun _ => h
  | failed =>
    have hback := (h.notify [.searchAbandoned s.iterations]).record .restored
    exact ensures_abandon (fun _ => h) (fun _ _ _ => hback) fun _ _ => hback

theorem Extends.ensures_consult (h : s.Extends ok t) :
    Ensures (s.consult p) (fun s => s.Extends ok t) (fun _ s => s.Extends ok t) := by
  refine State.ensures_consult (fun _ => h) fun _ => ?_
  refine ensures_report (fun slope reply search _ _ => ?_) (fun _ _ => h)
    fun _ _ _ _ => h.record _
  have htold : (s.told slope reply search).Extends ok t := (h.record _).notify _
  exact htold.ensures_follow reply.status

theorem Extends.ensures_begin (h : s.Extends ok t) (slope first : α) :
    Ensures (s.begin p slope first) (fun s => s.Extends ok t) (fun _ s => s.Extends ok t) := by
  have hchosen : ∀ step cap, (s.chosen slope step cap).Extends ok t := fun _ _ => h.record _
  refine State.ensures_begin (fun _ _ _ => hchosen _ _) (fun cap reply search _ _ _ => ?_)
    fun _ _ => h
  have hbegun := ((hchosen (Scalar.least first cap) cap).record
    (.started s.current (s.pass slope (Scalar.least first cap) cap) reply.status
      reply.step)).notify reply.notices
  exact ⟨fun _ => hbegun, fun _ => hbegun⟩

theorem Extends.ensures_descend (h : s.Extends ok t) :
    Ensures (s.descend p) (fun s => s.Extends ok t) (fun _ s => s.Extends ok t) := by
  have hsteered : (s.steered p).Extends ok t := h
  exact State.ensures_descend (fun first _ => hsteered.ensures_begin _ first)
    fun _ _ => hsteered

variable [Capacity m]

theorem Extends.ensures_choose (h : s.Extends ok t) :
    Ensures (s.choose p) (fun s => s.Extends ok t) (fun _ s => s.Extends ok t) := by
  have hasked : ∀ memory notices, (s.asked memory notices).Extends ok t :=
    fun _ notices => (h.record _).notify notices
  have hproposed : Ensures (s.propose p) (fun proposed => proposed.2.Extends ok t)
      (fun _ s => s.Extends ok t) :=
    ensures_propose (fun _ memory notices _ =>
      ⟨fun _ => hasked memory notices, fun _ => hasked memory notices⟩)
      fun _ memory notices _ => hasked memory notices
  exact State.ensures_choose (fun _ => h.ensures_descend) (fun _ => hproposed)
    (fun slope _ hs => hs.ensures_begin slope 1) fun _ hs => hs.ensures_descend

theorem Extends.ensures_seek (h : s.Extends ok t) :
    Ensures (s.seek p) (fun s => s.Extends ok t) (fun _ s => s.Extends ok t) := by
  have hdue : (s.printDue p).Extends ok t :=
    printDue_of (·.Extends ok t) (fun _ h => h.record _) (fun _ _ h => h.record _) h
  have hremembered : Ensures ((s.printDue p).remember p) (fun s => s.Extends ok t)
      (fun _ s => s.Extends ok t) :=
    ensures_remember (fun _ _ => hdue.record _) (fun _ => hdue) fun _ _ => hdue
  refine State.ensures_seek (fun _ => h) (fun _ => hremembered) fun s' hs' => ?_
  have hready : State.Extends ok t { s' with restored := false } := hs'
  exact hready.ensures_choose

omit [Capacity m] in
theorem Extends.ensures_meter (h : s.Extends ok t) :
    Ensures (s.meter p) (fun s => (s.advance p).Extends ok t) (fun _ s => s.Extends ok t) :=
  State.ensures_meter (fun _ _ => h) fun _ => h

/-! ## Turns and runs -/

omit [Capacity m] in
/-- A turn calls the objective where it has brought the variables into the set. -/
theorem Extends.ensures_gauge (h : s.Extends ok t)
    (hanswer : ∀ state x buffer value gradient objective,
      p.feasible.projectVariables s.current.point = .ok x →
      p.objective.evaluate state x buffer = (.ok (value, gradient), objective) →
      ok (.evaluated ⟨x, value, gradient⟩))
    (hrefusal : ∀ state x buffer fault objective,
      p.feasible.projectVariables s.current.point = .ok x →
      p.objective.evaluate state x buffer = (.error fault, objective) → ok (.refused x)) :
    Ensures (s.gauge p) (fun s => s.Extends ok t) (fun _ s => s.Extends ok t) := by
  have hpoint : Ensures (s.project p)
      (fun s' => p.feasible.projectVariables s.current.point = .ok s'.current.point)
      fun _ _ => True := State.ensures_project (fun _ hx => hx) fun _ _ => trivial
  exact State.ensures_gauge
    ((hpoint.and h.ensures_project).mono (fun _ hs => hs) fun _ _ hs => hs.2)
    (fun _ hs => hs.2.ensures_evaluate (fun _ _ _ => hanswer _ _ _ _ _ _ hs.1)
      fun _ _ => hrefusal _ _ _ _ _ hs.1)
    (fun _ hs => hs.ensures_measure) fun _ hs => hs.ensures_settle

theorem Extends.ensures_turn (h : s.Extends ok t)
    (hanswer : ∀ state x buffer value gradient objective,
      p.feasible.projectVariables s.current.point = .ok x →
      p.objective.evaluate state x buffer = (.ok (value, gradient), objective) →
      ok (.evaluated ⟨x, value, gradient⟩))
    (hrefusal : ∀ state x buffer fault objective,
      p.feasible.projectVariables s.current.point = .ok x →
      p.objective.evaluate state x buffer = (.error fault, objective) → ok (.refused x)) :
    Ensures (s.turn p) (fun s => s.Extends ok t) (fun _ s => s.Extends ok t) := by
  rw [turn_eq]
  refine (h.ensures_gauge hanswer hrefusal).bind fun _ hs => ?_
  refine hs.ensures_consult.bind fun _ hs => ?_
  refine hs.ensures_seek.bind fun _ hs => ?_
  exact hs.ensures_meter.bind fun _ hs => hs

omit [Capacity m] in
theorem suffix_finish {ending : Ending} (h : t <:+ s.transcript) :
    t <:+ (s.finish p ending).2.transcript :=
  finish_transcript (P := fun t' => t <:+ t') (fun _ h => h.trans (List.suffix_cons _ _))
    (fun _ _ h => h.trans (List.suffix_cons _ _)) ending h

/-- What is on record when a run is taken up is on record when it ends. -/
theorem suffix_run (p : Problem α σ τ n) (turns : ℕ) (s : State α σ τ n m) :
    s.transcript <:+ (s.run p turns).2.transcript := by
  have hturn : ∀ s' : State α σ τ n m, s'.Extends (fun _ => True) s.transcript →
      Ensures (s'.turn p) (fun s' => s'.Extends (fun _ => True) s.transcript)
        fun _ s' => s'.Extends (fun _ => True) s.transcript :=
    fun _ hs => hs.ensures_turn (fun _ _ _ _ _ _ _ _ => trivial) fun _ _ _ _ _ _ _ => trivial
  rcases run_cases hturn turns s (extends_self _ s) with
    ⟨last, hlast, hrun⟩ | ⟨ending, last, hlast, hrun⟩
  · rw [hrun]
    exact hlast.suffix
  · rw [hrun]
    exact suffix_finish hlast.suffix

/-- A run that takes a turn calls its objective at the point that it has brought into the
set. -/
theorem exists_call {turns : ℕ} {x : Vec α n}
    (hx : p.feasible.projectVariables s.current.point = .ok x) :
    ∃ answer, (x, answer) ∈ (s.run p (turns + 1)).2.transcript.evaluations := by
  let shows : Transcript α n → Prop := fun t => ∃ answer, (x, answer) ∈ t.evaluations
  have hgrows : ∀ {t t'}, t <:+ t' → shows t → shows t' := fun hsuffix ⟨answer, hmem⟩ =>
    ⟨answer, (collect_prefix_of_suffix _ hsuffix).subset hmem⟩
  have hkeep : ∀ {s : State α σ τ n m} {part : Progress α σ τ n m (State α σ τ n m)},
      Ensures part (fun s' => s'.Extends (fun _ => True) s.transcript)
        (fun _ s' => s'.Extends (fun _ => True) s.transcript) → shows s.transcript →
      Ensures part (fun s' => shows s'.transcript) fun _ s' => shows s'.transcript :=
    fun hpart hshows => hpart.mono (fun _ h => hgrows h.suffix hshows)
      fun _ _ h => hgrows h.suffix hshows
  have hself : ∀ s : State α σ τ n m, s.Extends (fun _ => True) s.transcript := extends_self _
  have hproject : Ensures (s.project p) (fun s' => s'.current.point = x)
      fun _ s' => shows s'.transcript :=
    State.ensures_project (fun y hy => by cases hx.symm.trans hy; rfl)
      fun fault hfault => by cases hx.symm.trans hfault
  have hevaluate : ∀ s' : State α σ τ n m, s'.current.point = x →
      Ensures (s'.evaluate p) (fun s' => shows s'.transcript) fun _ s' => shows s'.transcript := by
    rintro s' rfl
    refine State.ensures_evaluate (fun value gradient _ _ => ⟨some value, ?_⟩)
      fun _ _ _ => ⟨none, ?_⟩
    · simp [answered, record]
    · simp [record]
  have hturn : Ensures (s.turn p) (fun s' => shows s'.transcript)
      fun _ s' => shows s'.transcript :=
    State.ensures_turn hproject hevaluate (fun s' => hkeep (hself s').ensures_measure)
      (fun s' => hkeep (hself s').ensures_settle) (fun s' => hkeep (hself s').ensures_consult)
      (fun s' => hkeep (hself s').ensures_seek) fun s' h =>
        (hself s').ensures_meter.mono (fun _ hs => hgrows hs.suffix h)
          fun _ _ hs => hgrows hs.suffix h
  unfold run
  cases hresult : s.turn p with
  | ok next =>
    rw [hresult] at hturn
    exact hgrows (suffix_run p turns next) hturn
  | error result =>
    rw [hresult] at hturn
    exact hgrows (suffix_finish (List.suffix_refl _)) hturn

end State

/-- If the objective only ever answers with a property, so does every answer that a run
has on record. -/
theorem Problem.answers_of_objective [Scalar α] [Capacity m] {ok : Iterate α n → Prop}
    {p : Problem α σ τ n}
    (hanswer : ∀ state x buffer value gradient objective,
      p.objective.evaluate state x buffer = (.ok (value, gradient), objective) →
      ok ⟨x, value, gradient⟩)
    (turns : ℕ) (x : Vec α n) (objective : σ) (search : τ) :
    ∀ i ∈ (p.solve m turns x objective search).2.transcript.answers, ok i := by
  let right : Event α n → Prop := fun e => ∀ i, e = .evaluated i → ok i
  have hextends : ∀ s : State α σ τ n m, s.Extends right [.searchReset] →
      ∀ i, .evaluated i ∈ s.transcript → ok i := by
    rintro s ⟨added, heq, hright⟩ i hi
    exact hright _ (by simpa [heq] using hi) rfl i rfl
  have hturn : ∀ s : State α σ τ n m, s.Extends right [.searchReset] →
      State.Ensures (s.turn p) (fun s => s.Extends right [.searchReset])
        fun _ s => ∀ i, .evaluated i ∈ s.transcript → ok i := fun s hs =>
    (hs.ensures_turn
      (fun _ _ _ _ _ _ _ h i hi => Event.evaluated.inj hi ▸ hanswer _ _ _ _ _ _ h)
      fun _ _ _ _ _ _ _ _ => nofun).mono (fun _ h => h) fun _ => hextends
  have hrun : ∀ i, .evaluated i ∈ (p.solve m turns x objective search).2.transcript → ok i :=
    State.solve_transcript (P := fun t => ∀ i, .evaluated i ∈ t → ok i)
      (fun t ht i hi => ht i (by simpa using hi)) (fun row t ht i hi => ht i (by simpa using hi))
      hturn hextends turns x objective search ⟨[], rfl, nofun⟩
  exact fun i hi => hrun i (Transcript.mem_answers.mp hi)

end VariableMetric
