import VariableMetric.Proofs.Run.Returned
import VariableMetric.Proofs.Run.Usable

/-!
# Values decrease along a run

A run accepts an iterate only if its value lies below that at one of the last origins.
Each new origin is the iterate that was accepted last, so its value is at most the
largest one among the origins before it.  Hence that largest value never rises, however
often a failed search sends the run back to an origin that it has looked at already.
All accepted values, and the one that is returned, are at most the first one.
-/

namespace VariableMetric

noncomputable section

variable {σ : Type} {n m : ℕ} {p : Problem Exact σ (Strategy Exact) n} {C : Fin n → Set ℝ}
  {rule : Rule Exact}

theorem Iterate.Within.le_self {i : Iterate Exact n} (h : i.Within C) : i.value ≤ i.value := by
  obtain ⟨x, f, g, rfl, -⟩ := h
  exact le_refl f

namespace Transcript

variable {t older newer : Transcript Exact n} {k : ℕ}

/-! ## The last origins -/

theorem mem_lastOrigins_started {o r : Iterate Exact n} {pass : Pass Exact n}
    {status : SearchStatus} {next : Exact} (hk : 1 ≤ k)
    (hr : r ∈ lastOrigins k (.started o pass status next :: t)) :
    r ∈ lastOrigins k t ∨ r = o := by
  obtain ⟨k, rfl⟩ := Nat.exists_eq_add_one_of_ne_zero (Nat.one_le_iff_ne_zero.mp hk)
  rw [lastOrigins, origins_started, List.rtake_concat_succ] at hr
  rcases List.mem_append.mp hr with hold | hnew
  · have hshorter : (origins t).rtake k <:+ (origins t).rtake (k + 1) :=
      List.suffix_of_suffix_length_le (List.drop_suffix _ _) (List.drop_suffix _ _)
        (by simp only [List.rtake, List.length_drop]; omega)
    exact .inl (hshorter.subset hold)
  · exact .inr (List.mem_singleton.mp hnew)

theorem self_mem_lastOrigins_started (o : Iterate Exact n) (pass : Pass Exact n)
    (status : SearchStatus) (next : Exact) (hk : 1 ≤ k) :
    o ∈ lastOrigins k (.started o pass status next :: t) := by
  obtain ⟨k, rfl⟩ := Nat.exists_eq_add_one_of_ne_zero (Nat.one_le_iff_ne_zero.mp hk)
  rw [lastOrigins, origins_started, List.rtake_concat_succ]
  exact List.mem_append_right _ (List.mem_singleton_self o)

theorem lastOrigins_subset (k : ℕ) (t : Transcript Exact n) : t.lastOrigins k ⊆ t.origins :=
  (List.drop_suffix _ _).subset

/-- Where the step to the last answer may be accepted, that answer lies below one of the
last origins. -/
theorem Decreases.exists_lt {step value : Exact} (h : t.Decreases rule step value) :
    ∃ i, t.answers.getLast? = some i ∧ ∃ r ∈ t.lastOrigins rule.window, i.value ≤ r.value := by
  obtain ⟨i, o, pass, hi, rfl, -, -, r, hr, -, hle, hlt⟩ := h
  exact ⟨i, hi, r, hr, Exact.le_trans hle (Exact.le_of_lt hlt)⟩

/-! ## Sound records -/

theorem Sound.of_suffix (h : t.Sound p C rule) (hsuffix : older <:+ t) :
    older.Sound p C rule where
  within i hi := h.within i (answers_subset_of_suffix hsuffix hi)
  always := h.always.of_suffix hsuffix

theorem Sound.tail {e : Event Exact n} (h : Transcript.Sound p C rule (e :: t)) :
    t.Sound p C rule :=
  h.of_suffix (List.suffix_cons e t)

/-- Every search has an accepted iterate to begin at. -/
theorem Sound.origins_eq_nil (h : t.Sound p C rule) (hnil : t.accepted = []) :
    t.origins = [] := by
  apply List.eq_nil_of_subset_nil
  rw [← answers_eq_nil_of_accepted hnil]
  exact origins_subset_answers h.always

/-- The iterate that was accepted last does not lie above all of the last origins. -/
theorem Sound.exists_origin_ge (h : t.Sound p C rule) (hwindow : 1 ≤ rule.window)
    (hne : t.origins ≠ []) {a : Iterate Exact n} (ha : t.accepted.head? = some a) :
    ∃ r ∈ t.lastOrigins rule.window, a.value ≤ r.value := by
  induction t with
  | nil => exact absurd rfl hne
  | cons e t ih =>
    cases e with
    | evaluated i =>
      have haccepted : accepted t ≠ [] := fun hnil => hne (h.tail.origins_eq_nil hnil)
      rw [accepted_evaluated_of_ne_nil haccepted] at ha
      exact ih h.tail hne ha
    | started o pass status next =>
      obtain ⟨-, haccepted, -⟩ := h.always.head
      obtain rfl : o = a := Option.some.inj (haccepted.symm.trans ha)
      have ho := h.tail.within_of_accepted (List.mem_of_head? haccepted)
      exact ⟨o, self_mem_lastOrigins_started o pass status next hwindow, ho.le_self⟩
    | iterated step value slope status next =>
      cases status with
      | converged =>
        obtain ⟨i, hi, hbelow⟩ := h.always.head.exists_lt
        obtain rfl : i = a := by simpa [accepted, hi] using ha
        exact hbelow
      | _ => exact ih h.tail hne ha
    | _ => exact ih h.tail hne ha

/-- The largest value at the last origins never rises. -/
theorem Sound.lastOrigins_le (h : newer.Sound p C rule) (hwindow : 1 ≤ rule.window)
    (hsuffix : older <:+ newer) (hne : older.origins ≠ []) {r : Iterate Exact n}
    (hr : r ∈ newer.lastOrigins rule.window) :
    ∃ r' ∈ older.lastOrigins rule.window, r.value ≤ r'.value := by
  induction newer generalizing r with
  | nil =>
    rw [List.suffix_nil.mp hsuffix] at hne
    exact absurd rfl hne
  | cons e t ih =>
    rcases List.suffix_cons_iff.mp hsuffix with rfl | htail
    · exact ⟨r, hr, (h.within_of_origin (lastOrigins_subset _ _ hr)).le_self⟩
    · have hkept : ∀ {r}, r ∈ lastOrigins rule.window t →
          ∃ r' ∈ older.lastOrigins rule.window, r.value ≤ r'.value :=
        fun hr => ih h.tail htail hr
      cases e with
      | started o pass status next =>
        rcases mem_lastOrigins_started hwindow hr with hold | rfl
        · exact hkept hold
        · -- The new origin was accepted last, so one of those that it joins is no smaller.
          obtain ⟨o, ho⟩ := List.exists_mem_of_ne_nil _ hne
          have hnonempty : origins t ≠ [] :=
            List.ne_nil_of_mem (origins_subset_of_suffix htail ho)
          obtain ⟨-, haccepted, -⟩ := h.always.head
          obtain ⟨r', hr', hle⟩ := h.tail.exists_origin_ge hwindow hnonempty haccepted
          obtain ⟨r'', hr'', hle'⟩ := hkept hr'
          exact ⟨r'', hr'', Exact.le_trans hle hle'⟩
      | evaluated i => exact hkept hr
      | _ =>
        rw [lastOrigins, origins_silent rfl] at hr
        exact hkept hr

theorem exists_first_cons (e : Event Exact n) {i : Iterate Exact n}
    (h : ∃ first, t.answers.head? = some first ∧ i.value ≤ first.value) :
    ∃ first, (answers (e :: t)).head? = some first ∧ i.value ≤ first.value := by
  obtain ⟨first, hfirst, hle⟩ := h
  obtain ⟨later, hlater⟩ := answers_prefix_of_suffix (List.suffix_cons e t)
  refine ⟨first, ?_, hle⟩
  rw [← hlater, List.head?_append, hfirst]
  rfl

/-- Nothing that is accepted, and no origin, lies above the first answer. -/
theorem Sound.le_first (h : t.Sound p C rule) {i : Iterate Exact n}
    (hi : i ∈ t.accepted ∨ i ∈ t.origins) :
    ∃ first, t.answers.head? = some first ∧ i.value ≤ first.value := by
  -- Both at once: what is accepted lies below an origin, and an origin was accepted before.
  induction t generalizing i with
  | nil => simp [accepted, origins, collect] at hi
  | cons e t ih =>
    have hkept : ∀ {i : Iterate Exact n}, i ∈ accepted t ∨ i ∈ origins t →
        ∃ first, (answers (e :: t)).head? = some first ∧ i.value ≤ first.value :=
      fun hi => exists_first_cons e (ih h.tail hi)
    cases e with
    | evaluated j =>
      by_cases hnil : accepted t = []
      · have horigins : origins (.evaluated j :: t) = [] := h.tail.origins_eq_nil hnil
        rw [accepted_evaluated_of_eq_nil hnil, horigins] at hi
        obtain rfl : i = j := by simpa using hi
        refine ⟨i, by simp [answers_eq_nil_of_accepted hnil], ?_⟩
        exact (h.within i (by simp)).le_self
      · rw [accepted_evaluated_of_ne_nil hnil] at hi
        exact hkept hi
    | started o pass status next =>
      obtain ⟨-, haccepted, -⟩ := h.always.head
      rcases hi with hi | hi
      · exact hkept (.inl hi)
      · rw [origins_started] at hi
        rcases List.mem_append.mp hi with hold | hnew
        · exact hkept (.inr hold)
        · rw [List.mem_singleton.mp hnew]
          exact hkept (.inl (List.mem_of_head? haccepted))
    | iterated step value slope status next =>
      rw [origins_silent rfl] at hi
      cases status with
      | converged =>
        obtain ⟨j, hj, r, hr, hle⟩ := h.always.head.exists_lt
        obtain ⟨first, hfirst, hbelow⟩ := hkept (.inr (lastOrigins_subset _ _ hr))
        rw [accepted, hj] at hi
        rcases hi with hi | hi
        · rcases List.mem_append.mp hi with hnew | hold
          · obtain rfl : i = j := by simpa using hnew
            exact ⟨first, hfirst, Exact.le_trans hle hbelow⟩
          · exact hkept (.inl hold)
        · exact hkept (.inr hi)
      | _ => exact hkept hi
    | _ =>
      rw [origins_silent rfl] at hi
      exact hkept hi

/-- Before a search has been begun there is one answer at most. -/
theorem Sound.head_of_unstarted (h : t.Sound p C rule) (hnil : t.origins = [])
    {i : Iterate Exact n} (hi : i ∈ t.answers) : t.answers.head? = some i := by
  induction t with
  | nil => cases hi
  | cons e t ih =>
    cases e with
    | evaluated j =>
      have hanswers : answers t = [] := by
        rcases h.always.head with hnone | hstarted
        · exact hnone
        · exact absurd hnil hstarted
      rw [answers_evaluated, hanswers] at hi ⊢
      rw [List.mem_singleton.mp hi]
      rfl
    | started o pass status next => simp at hnil
    | _ =>
      rw [answers_silent rfl] at hi ⊢
      rw [origins_silent rfl] at hnil
      exact ih h.tail hnil hi

end Transcript

theorem State.Accounts.le_first {objective : σ} {s last : State Exact σ (Strategy Exact) n m}
    {solution : Solution Exact n} (h : State.Accounts p objective s last solution)
    (hsound : last.transcript.Sound p C rule) :
    ∃ first, last.transcript.answers.head? = some first ∧ solution.value ≤ first.value := by
  have hleads := h.leadsTo
  have hcurrent := h.ended.coherent.mem
  rw [← h.answers] at hcurrent
  cases hleads with
  | origin ho hmem hless hat habove =>
    rw [← h.origins] at ho
    rw [hat.value]
    exact hsound.le_first (.inr (List.mem_of_getLast? ho))
  | current hat hnorm hnotless =>
    rw [← h.origins] at hnotless
    rw [hat.value]
    obtain ⟨x, f, g, hreal, -⟩ := hsound.within _ hcurrent
    by_cases hnil : last.transcript.origins = []
    · exact ⟨s.current, hsound.head_of_unstarted hnil hcurrent,
        (hsound.within _ hcurrent).le_self⟩
    · obtain ⟨o, ho⟩ := Option.isSome_iff_exists.mp (List.getLast?_isSome.mpr hnil)
      have hmem := List.mem_of_getLast? ho
      obtain ⟨x', f', g', horigin, -⟩ := hsound.within_of_origin hmem
      have hle : s.current.value ≤ o.value := by
        have hnot := hnotless o ho
        rw [hreal, horigin, Exact.real_lt, not_lt] at hnot
        rw [hreal, horigin]
        exact hnot
      obtain ⟨first, hfirst, hbelow⟩ := hsound.le_first (.inr hmem)
      exact ⟨first, hfirst, Exact.le_trans hle hbelow⟩

section Decrease

variable [Capacity m] {shape : Shape} {domain : Domain Exact}
  {p : Problem Exact σ (Strategy Exact) shape.size} {uses : Bool} {turns : ℕ}
  {x : Fin shape.size → ℝ} {objective : σ} {search : Strategy Exact}
  {outcome : Outcome Exact shape.size} {last : State Exact σ (Strategy Exact) shape.size m}

/-- An iterate is accepted only if it lies below one of the last origins by the fraction
of the promised decrease that the rule asks for, below its own origin if the rule looks
at one only.  So the largest value at the last origins never rises, and neither an
accepted iterate nor the one that is returned lies above the first answer. -/
theorem Problem.accepted_values_decrease (hdomain : domain.Proper shape)
    (hset : p.feasible = domain.toSet shape p.precision) (hsearch : p.search = .ofStrategy uses)
    (hsettings : p.settings.Valid) (hrule : search.rule.Valid)
    (hrun : p.solve m turns (.ofReals x) objective search = (outcome, last))
    (hfinite : last.transcript.Finite) :
    (∀ step value slope next (older : Transcript Exact shape.size),
      .iterated step value slope .converged next :: older <:+ last.transcript →
        older.Decreases search.rule step value) ∧
      (∀ older newer : Transcript Exact shape.size, older <:+ newer →
        newer <:+ last.transcript → older.origins ≠ [] →
        ∀ r ∈ newer.lastOrigins search.rule.window,
          ∃ r' ∈ older.lastOrigins search.rule.window, r.value ≤ r'.value) ∧
      (∀ i ∈ last.transcript.accepted,
        ∃ first, last.transcript.answers.head? = some first ∧ i.value ≤ first.value) ∧
      ∀ solution, outcome = .returned solution →
        ∃ first, last.transcript.answers.head? = some first ∧
          solution.value ≤ first.value := by
  have hproper := hdomain.problem hset hsearch hsettings hrule
  obtain ⟨hsound, -⟩ := Problem.solve_sound hproper rfl hrun hfinite
  refine ⟨fun step value slope next older hsuffix => hsound.always _ older hsuffix,
    fun older newer hsuffix hnewer hne r hr => ?_, fun i hi => hsound.le_first (.inl hi), ?_⟩
  · exact (hsound.of_suffix hnewer).lastOrigins_le hrule.one_le_window hsuffix hne hr
  · rintro solution rfl
    obtain ⟨s, haccounts⟩ := exists_accounts hrun
    exact haccounts.le_first hsound

end Decrease

/-! ## A sample run

The line with the bend again: its second answer is accepted, and is an origin then. -/

namespace Sample

theorem bendRun_decreases :
    Domain.unconstrained.Proper [1] ∧ bendProblem.settings.Valid ∧
      (Strategy.wolfe bendSearch).rule.Valid ∧ bendRun.2.transcript.Finite ∧
      .iterated (.real 1) (.real (-1)) (.real (bendSlope 1)) .converged (.real 1) ::
        bendTried.transcript <:+ bendRun.2.transcript ∧
      (∃ solution, bendRun.1 = .returned solution ∧ solution.value = .real (-1)) ∧
      (∀ step value slope next (older : Transcript Exact (Shape.size [1])),
        .iterated step value slope .converged next :: older <:+ bendRun.2.transcript →
          older.Decreases (Strategy.wolfe bendSearch).rule step value) ∧
      (∀ older newer : Transcript Exact (Shape.size [1]), older <:+ newer →
        newer <:+ bendRun.2.transcript → older.origins ≠ [] →
        ∀ r ∈ newer.lastOrigins (Strategy.wolfe bendSearch).rule.window,
          ∃ r' ∈ older.lastOrigins (Strategy.wolfe bendSearch).rule.window,
            r.value ≤ r'.value) ∧
      (∀ i ∈ bendRun.2.transcript.accepted,
        ∃ first, bendRun.2.transcript.answers.head? = some first ∧ i.value ≤ first.value) ∧
      ∀ solution, bendRun.1 = .returned solution →
        ∃ first, bendRun.2.transcript.answers.head? = some first ∧
          solution.value ≤ first.value := by
  obtain ⟨memory, notices, search, hrun⟩ := bendRun_eq
  exact ⟨.unconstrained, bendProblem_settings, bendSearch_valid, bendRun_finite,
    (List.suffix_cons _ _).trans bendRun_pushes, ⟨_, congrArg Prod.fst hrun, rfl⟩,
    Problem.accepted_values_decrease .unconstrained rfl rfl bendProblem_settings bendSearch_valid
      Prod.mk.eta.symm bendRun_finite⟩

end Sample

end

end VariableMetric
