import VariableMetric.Proofs.Run.Ensures

/-!
# What a run has on record

The transcript of a run holds every answer of the objective and every point at
which a search was begun.  From these alone it can be told where the run stands:
at the last answer, or back at the origin of the last search if that search has
failed and been undone since.

The answers on record are the ones that the objective gave, call by call, to the
state in which the run found it.
-/

namespace VariableMetric

variable {α σ τ : Type} {n m : Nat}

namespace Transcript

/-- The answers of the objective, oldest first, each with its point. -/
def answers (t : Transcript α n) : List (Iterate α n) :=
  t.collect fun e =>
    match e with
    | .evaluated i => some i
    | _ => none

/-- The iterates at which a search was begun, oldest first. -/
def origins (t : Transcript α n) : List (Iterate α n) :=
  t.collect fun e =>
    match e with
    | .started origin _ _ _ => some origin
    | _ => none

/-- Where a run stands: at the last answer, unless a failed search has sent it
back to its origin. -/
def standing : Transcript α n → Option (Iterate α n)
  | [] => none
  | .evaluated i :: _ => some i
  | .restored :: t => (origins t).getLast?
  | _ :: t => standing t

theorem collect_cons {β : Type} (select : Event α n → Option β) (e : Event α n)
    (t : Transcript α n) :
    collect select (e :: t) = collect select t ++ (select e).toList := by
  cases h : select e <;> simp [collect, h]

theorem mem_answers {i : Iterate α n} {t : Transcript α n} :
    i ∈ answers t ↔ .evaluated i ∈ t := by
  unfold answers collect
  rw [List.mem_reverse, List.mem_filterMap]
  constructor
  · rintro ⟨e, he, hanswer⟩
    cases e with
    | evaluated j =>
      obtain rfl := Option.some.inj hanswer
      exact he
    | _ => cases hanswer
  · exact fun h => ⟨_, h, rfl⟩

@[simp] theorem answers_evaluated (i : Iterate α n) (t : Transcript α n) :
    answers (.evaluated i :: t) = answers t ++ [i] :=
  collect_cons _ _ _

@[simp] theorem evaluations_evaluated (i : Iterate α n) (t : Transcript α n) :
    evaluations (.evaluated i :: t) = evaluations t ++ [(i.point, some i.value)] :=
  collect_cons _ _ _

@[simp] theorem evaluations_refused (x : Vec α n) (t : Transcript α n) :
    evaluations (.refused x :: t) = evaluations t ++ [(x, none)] :=
  collect_cons _ _ _

@[simp] theorem origins_started (origin : Iterate α n) (pass : Pass α n)
    (status : SearchStatus) (next : α) (t : Transcript α n) :
    origins (.started origin pass status next :: t) = origins t ++ [origin] :=
  collect_cons _ _ _

/-- Calls of the objective, whether it answered or refused. -/
def isCall : Event α n → Bool
  | .evaluated _ => true
  | .refused _ => true
  | _ => false

theorem evaluations_of_not_isCall {e : Event α n} (h : isCall e = false)
    (t : Transcript α n) : evaluations (e :: t) = evaluations t := by
  cases e <;> first | rfl | cases h

/-- Events that are neither answers, nor begun searches, nor returns to an
origin. -/
def isAside : Event α n → Bool
  | .evaluated _ => false
  | .started .. => false
  | .restored => false
  | _ => true

theorem answers_aside {e : Event α n} (h : isAside e = true) (t : Transcript α n) :
    answers (e :: t) = answers t := by
  cases e <;> first | rfl | cases h

theorem origins_aside {e : Event α n} (h : isAside e = true) (t : Transcript α n) :
    origins (e :: t) = origins t := by
  cases e <;> first | rfl | cases h

theorem standing_aside {e : Event α n} (h : isAside e = true) (t : Transcript α n) :
    standing (e :: t) = standing t := by
  cases e <;> first | rfl | cases h

end Transcript

/-- The objective, called from one state to another, gave these answers. -/
inductive Objective.Calls (f : Objective σ α n) : σ → List (Iterate α n) → σ → Prop
  | none (state : σ) : Calls f state [] state
  | call {first state next : σ} {answers : List (Iterate α n)} {i : Iterate α n}
      (buffer : Vec α n) (before : Calls f first answers state)
      (answer : f.evaluate state i.point buffer = (.ok (i.value, i.gradient), next)) :
      Calls f first (answers ++ [i]) next

/-- The norm of the projected gradient at an iterate, if the set can project
it. -/
def Problem.projectedNorm? [Scalar α] (p : Problem α σ τ n) (i : Iterate α n) : Option α :=
  ((p.feasible.projectGradient i.point i.gradient).toOption).map Vec.norm

/-! ## States that stand alike -/

namespace State

/-- Another state of which the same is on record. -/
structure RecordsLike (s other : State α σ τ n m) : Prop where
  threshold : other.threshold = s.threshold := by rfl
  origin : other.origin = s.origin := by rfl
  evaluations : other.evaluations = s.evaluations := by rfl
  objective : other.objective = s.objective := by rfl
  answers : Transcript.answers other.transcript = Transcript.answers s.transcript := by rfl
  origins : Transcript.origins other.transcript = Transcript.origins s.transcript := by rfl
  searching : other.searching = true → s.searching = true := by exact id

/-- It also stands at the same iterate. -/
structure StandsLike (s other : State α σ τ n m) : Prop extends RecordsLike s other where
  current : other.current = s.current := by rfl
  norm : other.norm = s.norm := by rfl
  standing : Transcript.standing other.transcript = Transcript.standing s.transcript := by rfl

/-- Nothing that is compared has changed. -/
theorem RecordsLike.of_eq {s s' : State α σ τ n m}
    (h : (s'.threshold, s'.origin, s'.evaluations, s'.objective, s'.searching) =
      (s.threshold, s.origin, s.evaluations, s.objective, s.searching))
    (htranscript : s'.transcript = s.transcript) : s.RecordsLike s' := by
  simp only [Prod.mk.injEq] at h
  obtain ⟨hthreshold, horigin, hevaluations, hobjective, hsearching⟩ := h
  exact ⟨hthreshold, horigin, hevaluations, hobjective, congrArg _ htranscript,
    congrArg _ htranscript, hsearching.symm.trans⟩

theorem StandsLike.of_eq {s s' : State α σ τ n m}
    (h : (s'.threshold, s'.origin, s'.evaluations, s'.objective, s'.searching) =
      (s.threshold, s.origin, s.evaluations, s.objective, s.searching))
    (htranscript : s'.transcript = s.transcript)
    (hplace : (s'.current, s'.norm) = (s.current, s.norm)) : s.StandsLike s' := by
  obtain ⟨hcurrent, hnorm⟩ := Prod.mk.inj hplace
  exact ⟨.of_eq h htranscript, hcurrent, hnorm, congrArg _ htranscript⟩

theorem StandsLike.refl (s : State α σ τ n m) : s.StandsLike s :=
  .of_eq rfl rfl rfl

theorem StandsLike.trans {s s' s'' : State α σ τ n m}
    (h : s.StandsLike s') (h' : s'.StandsLike s'') : s.StandsLike s'' where
  threshold := h'.threshold.trans h.threshold
  origin := h'.origin.trans h.origin
  evaluations := h'.evaluations.trans h.evaluations
  objective := h'.objective.trans h.objective
  answers := h'.answers.trans h.answers
  origins := h'.origins.trans h.origins
  searching hsearching := h.searching (h'.searching hsearching)
  current := h'.current.trans h.current
  norm := h'.norm.trans h.norm
  standing := h'.standing.trans h.standing

theorem standsLike_record (s : State α σ τ n m) {e : Event α n}
    (h : Transcript.isAside e = true) : s.StandsLike (s.record e) where
  answers := Transcript.answers_aside h _
  origins := Transcript.origins_aside h _
  standing := Transcript.standing_aside h _

theorem standsLike_notify (s : State α σ τ n m) (notices : List (Notice α)) :
    s.StandsLike (s.notify notices) := by
  induction notices generalizing s with
  | nil => exact .refl s
  | cons notice rest ih =>
      have hfirst := s.standsLike_record (e := .noticed notice) rfl
      have hrest := ih (s.record (.noticed notice))
      simpa [notify, record] using hfirst.trans hrest

theorem standsLike_printDue (p : Problem α σ τ n) (s : State α σ τ n m) :
    s.StandsLike (s.printDue p) :=
  printDue_of s.StandsLike (fun t h => h.trans (t.standsLike_record rfl))
    (fun t _ h => h.trans (t.standsLike_record rfl)) (.refl s)

theorem standsLike_printLast (p : Problem α σ τ n) (s : State α σ τ n m) :
    s.StandsLike (s.printLast p) :=
  printLast_of s.StandsLike (fun t h => h.trans (t.standsLike_record rfl))
    (fun t _ h => h.trans (t.standsLike_record rfl)) (.refl s)

theorem standsLike_told (s : State α σ τ n m) (slope : α) (reply : Reply α) (search : τ) :
    s.StandsLike (s.told slope reply search) := by
  have hiterated := s.standsLike_record
    (e := .iterated s.step s.current.value slope reply.status reply.step) rfl
  refine (hiterated.trans ?_).trans (standsLike_notify _ _)
  exact .of_eq rfl rfl rfl

theorem standsLike_accepted (s : State α σ τ n m) : s.StandsLike s.accepted where
  searching := nofun

theorem standsLike_enriched [Capacity m] (s : State α σ τ n m) (step change : Vec α n) :
    s.StandsLike (s.enriched step change) := by
  refine StandsLike.trans ?_ (standsLike_record _ rfl)
  exact .of_eq rfl rfl rfl

theorem standsLike_asked [Capacity m] (s : State α σ τ n m) (memory : Memory α n m)
    (notices : List (Notice α)) : s.StandsLike (s.asked memory notices) := by
  have hrecalled := s.standsLike_record (e := .recalled s.memory.pairs) rfl
  refine (hrecalled.trans ?_).trans (standsLike_notify _ _)
  exact .of_eq rfl rfl rfl

theorem standsLike_steered [Scalar α] (s : State α σ τ n m) (p : Problem α σ τ n) :
    s.StandsLike (s.steered p) :=
  .of_eq rfl rfl rfl

theorem standsLike_chosen (s : State α σ τ n m) (slope step cap : α) :
    s.StandsLike (s.chosen slope step cap) := by
  refine StandsLike.trans ?_ (standsLike_record _ rfl)
  exact .of_eq rfl rfl rfl

end State

end VariableMetric
