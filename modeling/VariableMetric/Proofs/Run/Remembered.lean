import VariableMetric.Objective.Samples
import VariableMetric.Proofs.Memory.Ring
import VariableMetric.Proofs.Run.Acceptance

/-!
# What the memory of a run holds

Whenever a run asks its memory for a direction, the memory holds the differences of
the iterates that were accepted since it was last emptied, the newest first and as
many as there is room for.

A pair is pushed from the origin of the last search, which is the last iterate that
was accepted before the present one.  After a failed search the run stands at that
origin itself; it pushes nothing, and has emptied its memory.
-/

namespace VariableMetric

namespace State

variable {α σ τ : Type} [Scalar α] {n m : ℕ}

/-! ## The invariants of a run -/

/-- Every request was answered from the pairs that the record asks for. -/
def RecallsAccepted (p : Precision) (m : ℕ) (t : Transcript α n) : Prop :=
  ∀ (pairs : List (Vec α n × Vec α n)) (older : Transcript α n),
    .recalled pairs :: older <:+ t →
      pairs = older.lastPairs p m ∧ pairs.length = min m older.acceptedSince

structure Counted (p : Problem α σ τ n) (s : State α σ τ n m) : Prop where
  iterations : s.iterations = s.transcript.accepted.length - 1
  since : s.transcript.acceptedSince ≤ s.transcript.accepted.length - 1
  recalls : RecallsAccepted p.precision m s.transcript

variable [Capacity m]

def Holds (p : Problem α σ τ n) (s : State α σ τ n m) : Prop :=
  s.memory.pairs = s.transcript.lastPairs p.precision m

/-- Between two turns: a search from the last accepted iterate is under way, unless
nothing has been evaluated. -/
structure Underway (p : Problem α σ τ n) (s : State α σ τ n m) : Prop where
  counted : s.Counted p
  holds : s.Holds p
  restored : s.restored = false
  idle : s.searching = false → s.transcript.accepted = []
  origin : s.searching = true → s.transcript.accepted.head? = some s.origin

/-- After an answer, which is accepted at once if it is the first one. -/
structure Replied (p : Problem α σ τ n) (s : State α σ τ n m) : Prop where
  counted : s.Counted p
  holds : s.Holds p
  restored : s.restored = false
  last : s.transcript.answers.getLast? = some s.current
  idle : s.searching = false → s.transcript.accepted = [s.current]
  origin : s.searching = true → s.transcript.accepted.head? = some s.origin

/-- The memory lacks the pair that leads to the current iterate. -/
structure Owes (p : Problem α σ τ n) (s : State α σ τ n m) : Prop where
  since : 0 < s.transcript.acceptedSince
  pairs : ∃ iterates, s.transcript.accepted = s.current :: s.origin :: iterates ∧
    s.memory.pairs = (Transcript.differences p.precision (s.origin :: iterates)).take
      (min m (s.transcript.acceptedSince - 1))

/-- After the line search was told of the answer.  Unless the search goes on, the run
stands at the last accepted iterate: at the answer, or back at the origin. -/
structure Followed (p : Problem α σ τ n) (s : State α σ τ n m) : Prop where
  counted : s.Counted p
  underway : s.searching = true → s.Underway p
  current : s.searching = false → s.transcript.accepted.head? = some s.current
  owes : s.searching = false → 1 ≤ s.iterations → s.restored = false → s.Owes p
  settled : s.searching = false → s.iterations < 1 ∨ s.restored = true → s.Holds p

/-- With a complete memory, before a direction is taken. -/
structure Poised (p : Problem α σ τ n) (s : State α σ τ n m) : Prop where
  counted : s.Counted p
  holds : s.Holds p
  restored : s.restored = false
  current : s.transcript.accepted.head? = some s.current

variable {p : Problem α σ τ n} {s s' : State α σ τ n m}

/-! ## States with the same record of what was accepted -/

structure BooksLike (s other : State α σ τ n m) : Prop where
  transcript : s.transcript.AcceptsLike other.transcript
  iterations : other.iterations = s.iterations := by rfl
  memory : other.memory = s.memory := by rfl
  searching : other.searching = s.searching := by rfl
  restored : other.restored = s.restored := by rfl
  origin : other.origin = s.origin := by rfl

omit [Scalar α] [Capacity m] in
theorem BooksLike.of_eq (htranscript : s.transcript.AcceptsLike s'.transcript)
    (h : (s'.iterations, s'.memory, s'.searching, s'.restored, s'.origin) =
      (s.iterations, s.memory, s.searching, s.restored, s.origin)) : s.BooksLike s' := by
  simp only [Prod.mk.injEq] at h
  obtain ⟨hiterations, hmemory, hsearching, hrestored, horigin⟩ := h
  exact ⟨htranscript, hiterations, hmemory, hsearching, hrestored, horigin⟩

omit [Scalar α] [Capacity m] in
theorem BooksLike.record (h : s.BooksLike s') {e : Event α n} (he : Transcript.isPlain e = true) :
    s.BooksLike (s'.record e) :=
  { h with transcript := h.transcript.trans (Transcript.acceptsLike_cons he s'.transcript) }

omit [Capacity m] in
theorem RecallsAccepted.congr {p : Precision} {t t' : Transcript α n}
    (h : RecallsAccepted p m t) (hlike : t.AcceptsLike t') : RecallsAccepted p m t' :=
  fun pairs older hsuffix => h pairs older (hlike.recalled pairs older hsuffix)

omit [Capacity m] in
theorem Counted.congr (h : s.Counted p) (hlike : s.transcript.AcceptsLike s'.transcript)
    (hiterations : s'.iterations = s.iterations) : s'.Counted p where
  iterations := by rw [hiterations, hlike.accepted]; exact h.iterations
  since := by rw [hlike.since, hlike.accepted]; exact h.since
  recalls := h.recalls.congr hlike

theorem Holds.congr (h : s.Holds p) (hlike : s.transcript.AcceptsLike s'.transcript)
    (hmemory : s'.memory = s.memory) : s'.Holds p := by
  unfold Holds Transcript.lastPairs
  rw [hmemory, hlike.accepted, hlike.since]
  exact h

theorem Underway.congr (h : s.Underway p) (hlike : s.BooksLike s') : s'.Underway p where
  counted := h.counted.congr hlike.transcript hlike.iterations
  holds := h.holds.congr hlike.transcript hlike.memory
  restored := hlike.restored.trans h.restored
  idle hsearching := by
    rw [hlike.transcript.accepted]
    exact h.idle (hlike.searching.symm.trans hsearching)
  origin hsearching := by
    rw [hlike.transcript.accepted, hlike.origin]
    exact h.origin (hlike.searching.symm.trans hsearching)

theorem Replied.congr (h : s.Replied p) (hlike : s.BooksLike s')
    (hcurrent : s'.current = s.current) : s'.Replied p where
  counted := h.counted.congr hlike.transcript hlike.iterations
  holds := h.holds.congr hlike.transcript hlike.memory
  restored := hlike.restored.trans h.restored
  last := by rw [hlike.transcript.answers, hcurrent]; exact h.last
  idle hsearching := by
    rw [hlike.transcript.accepted, hcurrent]
    exact h.idle (hlike.searching.symm.trans hsearching)
  origin hsearching := by
    rw [hlike.transcript.accepted, hlike.origin]
    exact h.origin (hlike.searching.symm.trans hsearching)

theorem Followed.congr (h : s.Followed p) (hlike : s.BooksLike s')
    (hcurrent : s'.current = s.current) : s'.Followed p := by
  obtain ⟨htranscript, hiterations, hmemory, hsearching, hrestored, horigin⟩ := hlike
  refine ⟨h.counted.congr htranscript hiterations, ?_, ?_, ?_, ?_⟩
  · rw [hsearching]
    exact fun hbusy => (h.underway hbusy).congr
      ⟨htranscript, hiterations, hmemory, hsearching, hrestored, horigin⟩
  · rw [hsearching, htranscript.accepted, hcurrent]
    exact h.current
  · rw [hsearching, hiterations, hrestored]
    intro hidle hcount hkept
    obtain ⟨hsince, hpairs⟩ := h.owes hidle hcount hkept
    refine ⟨?_, ?_⟩
    · rw [htranscript.since]
      exact hsince
    · rw [htranscript.accepted, htranscript.since, hmemory, hcurrent, horigin]
      exact hpairs
  · rw [hsearching, hiterations, hrestored]
    exact fun hidle hskip => (h.settled hidle hskip).congr htranscript hmemory

theorem Poised.congr (h : s.Poised p) (hlike : s.BooksLike s')
    (hcurrent : s'.current = s.current) : s'.Poised p where
  counted := h.counted.congr hlike.transcript hlike.iterations
  holds := h.holds.congr hlike.transcript hlike.memory
  restored := hlike.restored.trans h.restored
  current := by rw [hlike.transcript.accepted, hcurrent]; exact h.current

/-! ## Evaluating -/

theorem initial_underway (p : Problem α σ τ n) (x : Vec α n) (objective : σ) (search : τ) :
    (State.initial p x objective search : State α σ τ n m).Underway p where
  counted :=
    { iterations := rfl
      since := Nat.le_refl 0
      recalls := by
        intro pairs older h
        rcases List.suffix_cons_iff.mp h with heq | hnil
        · cases heq
        · simp at hnil }
  holds := by
    rw [Holds, Transcript.lastPairs_eq_nil _ _ rfl]
    exact Memory.pairs_eq_nil rfl
  restored := rfl
  idle _ := rfl
  origin h := by cases h

omit [Capacity m] in
theorem RecallsAccepted.evaluated {p : Precision} {t : Transcript α n}
    (h : RecallsAccepted p m t) (i : Iterate α n) : RecallsAccepted p m (.evaluated i :: t) :=
  fun pairs older hsuffix =>
    h pairs older (Transcript.recalled_suffix_of_cons (by rintro _ ⟨⟩) hsuffix)

/-- A trial that has been answered is not accepted yet. -/
theorem Underway.answered_trial (h : s.Underway p) (hsearching : s.searching = true)
    (value : α) (gradient : Vec α n) (next : σ) :
    (s.answered ⟨s.current.point, value, gradient⟩ next).Replied p := by
  let i : Iterate α n := ⟨s.current.point, value, gradient⟩
  have hne : s.transcript.accepted ≠ [] := by
    intro hnil
    have horigin := h.origin hsearching
    simp [hnil] at horigin
  have haccepted := Transcript.accepted_evaluated_of_ne_nil hne i
  have hlast : (Transcript.answers (.evaluated i :: s.transcript)).getLast? = some i := by
    simp
  refine ⟨⟨?_, ?_, h.counted.recalls.evaluated i⟩, ?_, h.restored, hlast, fun hidle => ?_,
    fun _ => ?_⟩
  · show s.iterations = (Transcript.accepted (.evaluated i :: s.transcript)).length - 1
    rw [haccepted]
    exact h.counted.iterations
  · show s.transcript.acceptedSince ≤
      (Transcript.accepted (.evaluated i :: s.transcript)).length - 1
    rw [haccepted]
    exact h.counted.since
  · show s.memory.pairs = Transcript.lastPairs p.precision m (.evaluated i :: s.transcript)
    unfold Transcript.lastPairs
    rw [haccepted]
    exact h.holds
  · exact absurd hsearching (Bool.eq_false_iff.mp hidle)
  · show (Transcript.accepted (.evaluated i :: s.transcript)).head? = some s.origin
    rw [haccepted]
    exact h.origin hsearching

/-- The first answer is accepted at once. -/
theorem Underway.answered_first (h : s.Underway p) (hidle : s.searching = false)
    (value : α) (gradient : Vec α n) (next : σ) :
    (s.answered ⟨s.current.point, value, gradient⟩ next).Replied p := by
  let i : Iterate α n := ⟨s.current.point, value, gradient⟩
  have hnil := h.idle hidle
  have hzero : s.transcript.acceptedSince = 0 := by
    have hsince := h.counted.since
    rw [hnil] at hsince
    simpa using hsince
  have haccepted := Transcript.accepted_evaluated_of_eq_nil hnil i
  have hlast : (Transcript.answers (.evaluated i :: s.transcript)).getLast? = some i := by
    simp
  refine ⟨⟨?_, ?_, h.counted.recalls.evaluated i⟩, ?_, h.restored, hlast, fun _ => haccepted,
    fun hbusy => ?_⟩
  · show s.iterations = (Transcript.accepted (.evaluated i :: s.transcript)).length - 1
    rw [haccepted, h.counted.iterations, hnil]
    rfl
  · show s.transcript.acceptedSince ≤
      (Transcript.accepted (.evaluated i :: s.transcript)).length - 1
    rw [hzero]
    exact Nat.zero_le _
  · show s.memory.pairs = Transcript.lastPairs p.precision m (.evaluated i :: s.transcript)
    rw [h.holds, Transcript.lastPairs_eq_nil _ _ hzero, Transcript.lastPairs_eq_nil]
    exact hzero
  · exact absurd (hidle.symm.trans hbusy) nofun

theorem Underway.ensures_evaluate (h : s.Underway p) :
    Ensures (s.evaluate p) (fun s => s.Replied p)
      (fun _ s => RecallsAccepted p.precision m s.transcript) := by
  refine State.ensures_evaluate (fun value gradient next _ => ?_) fun fault next _ =>
    h.counted.recalls.congr (Transcript.acceptsLike_cons rfl _)
  cases hsearching : s.searching with
  | true => exact h.answered_trial hsearching value gradient next
  | false => exact h.answered_first hsearching value gradient next

/-! ## Following the line search -/

theorem Replied.underway (h : s.Replied p) (hsearching : s.searching = true) :
    s.Underway p where
  counted := h.counted
  holds := h.holds
  restored := h.restored
  idle hidle := absurd hsearching (Bool.eq_false_iff.mp hidle)
  origin := h.origin

/-- The first answer was accepted without a search, so no pair leads to it. -/
theorem Replied.followed_of_idle (h : s.Replied p) (hsearching : s.searching = false) :
    s.Followed p where
  counted := h.counted
  underway hbusy := absurd hbusy (Bool.eq_false_iff.mp hsearching)
  current _ := by rw [h.idle hsearching]; rfl
  owes _ hiterations := by
    have hcount := h.counted.iterations
    rw [h.idle hsearching] at hcount
    exact absurd hiterations (by simp [hcount])
  settled _ _ := h.holds

omit [Scalar α] [Capacity m] in
theorem booksLike_told (s : State α σ τ n m) (slope : α) {reply : Reply α}
    (hstatus : reply.status ≠ .converged) (search : τ) :
    s.BooksLike (s.told slope reply search) := by
  have hiterated : s.transcript.AcceptsLike
      (.iterated s.step s.current.value slope reply.status reply.step :: s.transcript) := by
    apply Transcript.acceptsLike_cons
    cases hcase : reply.status with
    | converged => exact absurd hcase hstatus
    | _ => rfl
  exact .of_eq (hiterated.trans (Transcript.acceptsLike_notices (.inl rfl))) rfl

/-- An accepted answer is the newest iterate, and the origin of its search the one
before. -/
theorem Replied.accepted (h : s.Replied p) (hsearching : s.searching = true) (slope : α)
    {reply : Reply α} (hstatus : reply.status = .converged) (search : τ) :
    State.Followed p (s.told slope reply search).accepted := by
  obtain ⟨iterates, hiterates⟩ := List.head?_eq_some_iff.mp (h.origin hsearching)
  let e : Event α n := .iterated s.step s.current.value slope reply.status reply.step
  have hnotices : Transcript.AcceptsLike (e :: s.transcript)
      (s.told slope reply search).accepted.transcript :=
    Transcript.acceptsLike_notices (.inl rfl)
  have haccepted : (s.told slope reply search).accepted.transcript.accepted =
      s.current :: s.origin :: iterates := by
    rw [hnotices.accepted]
    simp [e, hstatus, Transcript.accepted, h.last, hiterates]
  have hsince : (s.told slope reply search).accepted.transcript.acceptedSince =
      s.transcript.acceptedSince + 1 := by
    rw [hnotices.since]
    simp [e, hstatus, Transcript.acceptedSince]
  have hcount := h.counted.iterations
  have hbound := h.counted.since
  have hpairs := h.holds
  unfold Holds Transcript.lastPairs at hpairs
  rw [hiterates] at hcount hbound hpairs
  refine ⟨⟨?_, ?_, ?_⟩, Bool.noConfusion, fun _ => ?_,
    fun _ _ _ => ⟨?_, iterates, haccepted, ?_⟩, fun _ hskip => ?_⟩
  · show s.iterations + 1 = _
    rw [haccepted, hcount]
    rfl
  · rw [haccepted, hsince]
    simpa using hbound
  · intro pairs older hsuffix
    have he : ∀ pairs, e ≠ .recalled pairs := fun pairs heq => by simp [e] at heq
    exact h.counted.recalls pairs older
      (Transcript.recalled_suffix_of_cons he (hnotices.recalled _ _ hsuffix))
  · rw [haccepted]
    rfl
  · rw [hsince]
    exact Nat.succ_pos _
  · rw [hsince]
    exact hpairs
  · rcases hskip with hnone | hrestored
    · exact absurd hnone (Nat.not_lt.mpr (Nat.succ_le_succ (Nat.zero_le _)))
    · exact absurd hrestored (Bool.eq_false_iff.mp h.restored)

omit [Capacity m] in
/-- The notice of a failed search and the return to its origin. -/
theorem RecallsAccepted.restored {p : Precision} {t : Transcript α n}
    (h : RecallsAccepted p m t) (iterations : ℕ) :
    RecallsAccepted p m (.restored :: .noticed (.searchAbandoned iterations) :: t) := by
  intro pairs older hsuffix
  have hnoticed := Transcript.recalled_suffix_of_cons (by rintro _ ⟨⟩) hsuffix
  exact h pairs older (Transcript.recalled_suffix_of_cons (by rintro _ ⟨⟩) hnoticed)

/-- A run that is sent back stands at the last accepted iterate with an empty
memory. -/
theorem Underway.sentBack (h : s.Underway p) (hsearching : s.searching = true)
    (projected : Vec α n) : State.Followed p (s.sentBack projected) where
  counted :=
    { iterations := h.counted.iterations
      since := Nat.zero_le _
      recalls := h.counted.recalls.restored s.iterations }
  underway := nofun
  current _ := h.origin hsearching
  owes _ _ := nofun
  settled _ _ := by
    rw [Holds, Transcript.lastPairs_eq_nil _ _ rfl]
    exact Memory.pairs_eq_nil rfl

theorem Underway.followed (h : s.Underway p) (hsearching : s.searching = true) :
    s.Followed p where
  counted := h.counted
  underway _ := h
  current hidle := absurd hsearching (Bool.eq_false_iff.mp hidle)
  owes hidle := absurd hsearching (Bool.eq_false_iff.mp hidle)
  settled hidle := absurd hsearching (Bool.eq_false_iff.mp hidle)

theorem Replied.ensures_consult (h : s.Replied p) :
    Ensures (s.consult p) (fun s => s.Followed p)
      (fun _ s => RecallsAccepted p.precision m s.transcript) := by
  refine State.ensures_consult h.followed_of_idle fun hsearching => ?_
  refine ensures_report (fun slope reply search _ _ => ?_) (fun _ _ => h.counted.recalls)
    fun slope fault search _ => h.counted.recalls.congr (Transcript.acceptsLike_cons rfl _)
  have htold : reply.status ≠ .converged → (s.told slope reply search).Underway p :=
    fun hstatus => (h.underway hsearching).congr (s.booksLike_told slope hstatus search)
  cases hstatus : reply.status with
  | searching => exact (htold (by simp [hstatus])).followed hsearching
  | converged =>
      have haccepted := h.accepted hsearching slope hstatus search
      exact ensures_accept (fun _ _ => haccepted.counted.recalls) fun _ => haccepted
  | failed =>
      have htold := htold (by simp [hstatus])
      exact ensures_abandon (fun _ => htold.counted.recalls)
        (fun _ projected _ => htold.sentBack hsearching projected)
        fun _ _ => htold.counted.recalls.restored _

/-! ## Pushing a pair -/

theorem Owes.enriched (h : s.Owes p) :
    State.Holds p (s.enriched (Vec.difference p.precision s.current.point s.origin.point)
      (Vec.difference p.precision s.current.gradient s.origin.gradient)) := by
  obtain ⟨iterates, haccepted, hpairs⟩ := h.pairs
  have hcount : min m (min m (s.transcript.acceptedSince - 1) + 1) =
      min m s.transcript.acceptedSince := by
    have hsince := h.since
    omega
  show (s.memory.push _ _).pairs = s.transcript.lastPairs p.precision m
  rw [Memory.pairs_push, hpairs, ← List.take_succ_cons, List.take_take, hcount,
    Transcript.lastPairs, haccepted]
  rfl

theorem Followed.ensures_remember (h : s.Followed p) (hsearching : s.searching = false) :
    Ensures (s.remember p) (fun s => State.Poised p { s with restored := false })
      (fun _ s => RecallsAccepted p.precision m s.transcript) := by
  refine State.ensures_remember (fun hiterations hrestored => ?_) (fun hskip => ?_)
    fun _ _ => h.counted.recalls
  · have hlike := Transcript.acceptsLike_cons (e := .pushed
      (Vec.difference p.precision s.current.point s.origin.point)
      (Vec.difference p.precision s.current.gradient s.origin.gradient)) rfl s.transcript
    exact
      { counted := h.counted.congr hlike rfl
        holds := (h.owes hsearching hiterations hrestored).enriched
        restored := rfl
        current := h.current hsearching }
  · exact
      { counted := h.counted.congr (.refl _) rfl
        holds := h.settled hsearching hskip
        restored := rfl
        current := h.current hsearching }

/-! ## Taking a direction -/

theorem Poised.recalls_asked (h : s.Poised p) (memory : Memory α n m)
    (notices : List (Notice α)) :
    RecallsAccepted p.precision m (s.asked memory notices).transcript := by
  intro pairs older hsuffix
  rcases List.suffix_cons_iff.mp (Transcript.recalled_suffix_of_notices hsuffix) with
    heq | hsuffix
  · injection heq with hevent holder
    injection hevent with hpairs
    subst holder hpairs
    refine ⟨h.holds, ?_⟩
    rw [h.holds]
    exact Transcript.length_lastPairs _ _ h.counted.since
  · exact h.counted.recalls pairs older hsuffix

/-- The memory keeps what it holds, or says that it refuses a direction and forgets
it. -/
theorem Poised.asked (h : s.Poised p) {answer : Except Fault (Direction α n)}
    {memory : Memory α n m} {notices : List (Notice α)}
    (hanswer : s.memory.direction p.precision (p.feasible.projectDirection s.current.point)
      s.direction s.current.gradient s.projected.support = (answer, memory, notices)) :
    State.Poised p (s.asked memory notices) := by
  have haccepted : (s.asked memory notices).transcript.accepted = s.transcript.accepted :=
    Transcript.accepted_notices notices (.recalled s.memory.pairs :: s.transcript)
  have hcases := s.memory.directionFrom_memory p.precision
    (p.feasible.projectDirection s.current.point) s.direction
    (s.current.gradient.scale p.precision (-1)) s.current.gradient s.projected.support
  unfold Memory.direction at hanswer
  rw [hanswer] at hcases
  have hkept : (s.asked memory notices).transcript.acceptedSince ≤ s.transcript.acceptedSince ∧
      State.Holds p (s.asked memory notices) := by
    rcases hcases with ⟨hnone, hpairs⟩ | ⟨hrefused, hpairs⟩
    · have hnotices : Transcript.AcceptsLike (.recalled s.memory.pairs :: s.transcript)
          (s.asked memory notices).transcript := Transcript.acceptsLike_notices (.inr hnone)
      have hlike : s.transcript.acceptedSince =
          (s.asked memory notices).transcript.acceptedSince := hnotices.since.symm
      refine ⟨hlike.ge, ?_⟩
      rw [Holds, Transcript.lastPairs, haccepted, ← hlike]
      exact hpairs.trans h.holds
    · have hzero : (s.asked memory notices).transcript.acceptedSince = 0 :=
        Transcript.acceptedSince_refused rfl hrefused
      refine ⟨hzero.trans_le (Nat.zero_le _), ?_⟩
      rw [Holds, Transcript.lastPairs_eq_nil _ _ hzero]
      exact hpairs
  exact
    { counted :=
        { iterations := by rw [haccepted]; exact h.counted.iterations
          since := by rw [haccepted]; exact hkept.1.trans h.counted.since
          recalls := h.recalls_asked memory notices }
      holds := hkept.2
      restored := h.restored
      current := by rw [haccepted]; exact h.current }

/-- A search that is begun has the last accepted iterate as its origin. -/
theorem Poised.begun (h : s.Poised p) (pass : Pass α n) (reply : Reply α) (search : τ) :
    State.Underway p { s.begun pass reply search with searching := true } := by
  have hstarted : s.transcript.AcceptsLike
      (.started s.current pass reply.status reply.step :: s.transcript) :=
    Transcript.acceptsLike_cons rfl _
  have hlike : s.transcript.AcceptsLike (s.begun pass reply search).transcript :=
    hstarted.trans (Transcript.acceptsLike_notices (.inl rfl))
  exact
    { counted := h.counted.congr hlike rfl
      holds := h.holds.congr hlike rfl
      restored := h.restored
      idle := nofun
      origin := fun _ => by rw [hlike.accepted]; exact h.current }

theorem Poised.ensures_begin (h : s.Poised p) (slope first : α) :
    Ensures (s.begin p slope first) (fun s => s.Underway p)
      (fun _ s => RecallsAccepted p.precision m s.transcript) := by
  have hchosen : ∀ step cap, State.Poised p (s.chosen slope step cap) := fun step cap =>
    h.congr (.of_eq (Transcript.acceptsLike_cons rfl _) rfl) rfl
  refine State.ensures_begin (fun cap _ _ => (hchosen _ cap).counted.recalls)
    (fun cap reply search _ _ _ => ?_) fun _ _ => h.counted.recalls
  have hbegun := (hchosen (Scalar.least first cap) cap).begun
    (s.pass slope (Scalar.least first cap) cap) reply search
  exact ⟨fun _ => hbegun, fun _ => hbegun.counted.recalls⟩

theorem Poised.ensures_descend (h : s.Poised p) :
    Ensures (s.descend p) (fun s => s.Underway p)
      (fun _ s => RecallsAccepted p.precision m s.transcript) := by
  have hsteered : State.Poised p (s.steered p) := h.congr (.of_eq (.refl _) rfl) rfl
  exact State.ensures_descend (fun first _ => hsteered.ensures_begin _ first)
    fun _ _ => h.counted.recalls

theorem Poised.ensures_propose (h : s.Poised p) :
    Ensures (s.propose p) (fun result => result.2.Poised p)
      (fun _ s => RecallsAccepted p.precision m s.transcript) := by
  refine State.ensures_propose (fun d memory notices hanswer => ?_)
    fun fault memory notices _ => h.recalls_asked memory notices
  have hasked := h.asked hanswer
  exact ⟨fun _ => hasked.congr (.of_eq (.refl _) rfl) rfl,
    fun _ => hasked.congr (.of_eq (.refl _) rfl) rfl⟩

theorem Poised.ensures_choose (h : s.Poised p) :
    Ensures (s.choose p) (fun s => s.Underway p)
      (fun _ s => RecallsAccepted p.precision m s.transcript) :=
  State.ensures_choose (fun _ => h.ensures_descend) (fun _ => h.ensures_propose)
    (fun slope _ hs => hs.ensures_begin slope 1) fun _ hs => hs.ensures_descend

omit [Scalar α] [Capacity m] in
theorem booksLike_printDue (p : Problem α σ τ n) (s : State α σ τ n m) :
    s.BooksLike (s.printDue p) :=
  printDue_of s.BooksLike (fun _ h => h.record rfl) (fun _ _ h => h.record rfl)
    (.of_eq (.refl _) rfl)

theorem Followed.ensures_seek (h : s.Followed p) :
    Ensures (s.seek p) (fun s => s.Underway p)
      (fun _ s => RecallsAccepted p.precision m s.transcript) := by
  have hlike := booksLike_printDue p s
  have hprinted := h.congr hlike (standsLike_printDue p s).current
  exact State.ensures_seek h.underway
    (fun hidle => hprinted.ensures_remember (hlike.searching.trans hidle))
    fun _ hs => hs.ensures_choose

/-! ## Turns and runs -/

theorem Underway.ensures_project (h : s.Underway p) :
    Ensures (s.project p) (fun s => s.Underway p)
      (fun _ s => RecallsAccepted p.precision m s.transcript) :=
  State.ensures_project (fun _ _ => h.congr (.of_eq (.refl _) rfl))
    fun _ _ => h.counted.recalls

theorem Replied.ensures_measure (h : s.Replied p) :
    Ensures (s.measure p) (fun s => s.Replied p)
      (fun _ s => RecallsAccepted p.precision m s.transcript) :=
  State.ensures_measure (fun _ _ => h.congr (.of_eq (.refl _) rfl) rfl)
    fun _ _ => h.counted.recalls

theorem Replied.ensures_settle (h : s.Replied p) :
    Ensures (s.setThreshold p).settle (fun s => s.Replied p)
      (fun _ s => RecallsAccepted p.precision m s.transcript) := by
  have hset : State.Replied p (s.setThreshold p) :=
    setThreshold_of (·.Replied p) fun _ => h.congr (.of_eq (.refl _) rfl) rfl
  exact State.ensures_settle (fun _ => hset.counted.recalls) fun _ => hset

theorem Underway.ensures_meter (h : s.Underway p) :
    Ensures (s.meter p) (fun s => (s.advance p).Underway p)
      (fun _ s => RecallsAccepted p.precision m s.transcript) :=
  State.ensures_meter (fun _ _ => h.counted.recalls) fun _ => h.congr (.of_eq (.refl _) rfl)

theorem Underway.ensures_turn (h : s.Underway p) :
    Ensures (s.turn p) (fun s => s.Underway p)
      (fun _ s => RecallsAccepted p.precision m s.transcript) :=
  State.ensures_turn h.ensures_project (fun _ hs => hs.ensures_evaluate)
    (fun _ hs => hs.ensures_measure) (fun _ hs => hs.ensures_settle)
    (fun _ hs => hs.ensures_consult) (fun _ hs => hs.ensures_seek)
    (fun _ hs => hs.ensures_meter)

end State

namespace Problem

open State

variable {α σ τ : Type} [Scalar α] {n m : ℕ} [Capacity m]

/-- Whenever a run asks its memory, the memory remembers the last pairs between
iterates that were accepted one after the other since it was last emptied, as many as
it has room for. -/
theorem recalled_eq_accepted_differences {p : Problem α σ τ n} {turns : ℕ} {x : Vec α n}
    {objective : σ} {search : τ} {pairs : List (Vec α n × Vec α n)}
    {older : Transcript α n}
    (h : .recalled pairs :: older <:+ (p.solve m turns x objective search).2.transcript) :
    pairs = (Transcript.differences p.precision older.accepted).take
        (min m older.acceptedSince) ∧
      pairs.length = min m older.acceptedSince := by
  have hrun : RecallsAccepted p.precision m
      (p.solve m turns x objective search).2.transcript :=
    solve_transcript (fun _ ht => ht.congr (Transcript.acceptsLike_cons rfl _))
      (fun _ _ ht => ht.congr (Transcript.acceptsLike_cons rfl _))
      (fun _ hs => Underway.ensures_turn hs) (fun _ hs => hs.counted.recalls) turns x objective
      search (initial_underway p x objective search)
  exact hrun pairs older h

end Problem

/-! ## A sample run

Its third search fails after two accepted trials, and the run goes on from the last
one with an empty memory. -/

def Sample.quartic : Sample := .polynomials [[0.0, -8.0, 0.0, 0.0, 0.25]]

/-- Accepts every trial but the third one. -/
def LineSearch.thirdFails : LineSearch Float ℕ where
  usesDerivative := false
  reset _ := 0
  start calls _ _ step _ := (⟨.searching, step, []⟩, calls)
  iterate calls step _ _ :=
    (.ok ⟨if calls = 2 then .failed else .converged, step, []⟩, calls + 1)

def Sample.quarticProblem : Problem Float ℕ ℕ 1 where
  precision := .double
  keepsPairs := true
  objective := quartic.objective none .double [1]
  feasible := .unconstrained
  search := .thirdFails
  settings := ⟨-1, 6, (0.0, 1e-6), (1.0, 0.0), 0⟩

def Sample.restartedRun (m : ℕ) [Capacity m] : Outcome Float 1 × State Float ℕ ℕ 1 m :=
  quarticProblem.solve m 10 (.replicate 1 0.0) 0 0

theorem Sample.restartedRun_recalled :
    ∃ older : Transcript Float 1,
      .recalled [(⟨[-8.0], rfl⟩, ⟨[-512.0], rfl⟩)] :: older <:+
        (restartedRun 2).2.transcript ∧
      older.accepted.length = 4 ∧ older.acceptedSince = 1 ∧
      [(⟨[-8.0], rfl⟩, ⟨[-512.0], rfl⟩)] =
        (Transcript.differences quarticProblem.precision older.accepted).take
          (min 2 older.acceptedSince) ∧
      [((⟨[-8.0], rfl⟩ : Vec Float 1), (⟨[-512.0], rfl⟩ : Vec Float 1))].length =
        min 2 older.acceptedSince := by
  have hevent : (restartedRun 2).2.transcript[8]? =
      some (.recalled [(⟨[-8.0], rfl⟩, ⟨[-512.0], rfl⟩)]) := by decide +kernel
  obtain ⟨hlt, heq⟩ := List.getElem?_eq_some_iff.mp hevent
  have hsuffix : .recalled [(⟨[-8.0], rfl⟩, ⟨[-512.0], rfl⟩)] ::
      (restartedRun 2).2.transcript.drop 9 <:+ (restartedRun 2).2.transcript := by
    rw [← heq, ← List.drop_eq_getElem_cons hlt]
    exact List.drop_suffix 8 _
  have hlength : (Transcript.accepted ((restartedRun 2).2.transcript.drop 9)).length = 4 := by
    decide +kernel
  have hsince : Transcript.acceptedSince ((restartedRun 2).2.transcript.drop 9) = 1 := by
    decide +kernel
  have hrun : restartedRun 2 = quarticProblem.solve 2 10 (.replicate 1 0.0) 0 0 := rfl
  refine ⟨(restartedRun 2).2.transcript.drop 9, hsuffix, hlength, hsince, ?_⟩
  rw [hrun] at hsuffix ⊢
  exact Problem.recalled_eq_accepted_differences hsuffix

end VariableMetric
