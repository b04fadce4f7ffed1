import VariableMetric.Proofs.Run.Searches

/-!
# The way to a search

A turn without a search under way prints the row that is due, pushes a pair, asks the
memory and takes a direction, and only then begins a search.  On this way the run stays
where it is and puts nothing on record but its bookkeeping.

A direction other than the steepest descent comes from a pair: one that the memory
remembered before, or one that was pushed on the way.  The steepest descent is counted as
a restart if there was such a pair, and it was of no use.
-/

namespace VariableMetric

variable {α σ τ β : Type} {n m : ℕ}

namespace Transcript

/-- Events that are neither calls of the objective or of the line search, nor returns to
an origin. -/
def isBookkeeping : Event α n → Bool
  | .searchReset => false
  | .evaluated _ => false
  | .refused _ => false
  | .iterated .. => false
  | .unanswered .. => false
  | .restored => false
  | .started .. => false
  | _ => true

/-- The passes in which a direction was taken, oldest first. -/
def passes (t : Transcript α n) : List (Pass α n) :=
  t.collect fun e =>
    match e with
    | .chosen pass => some pass
    | _ => none

def isPass : Event α n → Bool
  | .chosen _ => true
  | _ => false

variable {e : Event α n} {t added : Transcript α n}

theorem passes_chosen (pass : Pass α n) (t : Transcript α n) :
    passes (.chosen pass :: t) = passes t ++ [pass] :=
  collect_cons _ _ _

theorem passes_of_not_isPass (h : isPass e = false) (t : Transcript α n) :
    passes (e :: t) = passes t := by
  cases e <;> first | rfl | cases h

theorem bookkeeping_notices (notices : List (Notice α)) :
    ∀ e ∈ ((notices.map Event.noticed).reverse : Transcript α n), isBookkeeping e = true := by
  intro e he
  obtain ⟨notice, -, rfl⟩ := List.mem_map.mp (List.mem_reverse.mp he)
  rfl

theorem evaluations_bookkeeping (e : Event α n) (t : Transcript α n)
    (h : isBookkeeping e = true) : evaluations (e :: t) = evaluations t := by
  apply evaluations_of_not_isCall
  cases e <;> first | rfl | cases h

/-- What does not look at events of a kind is not changed by any number of them. -/
theorem view_append {view : Transcript α n → β} {unseen : Event α n → Prop}
    (hview : ∀ e t, unseen e → view (e :: t) = view t)
    (hadded : ∀ e ∈ added, unseen e) : view (added ++ t) = view t := by
  induction added with
  | nil => rfl
  | cons e added ih =>
    rw [List.cons_append, hview e _ (hadded e List.mem_cons_self)]
    exact ih fun e he => hadded e (List.mem_cons_of_mem _ he)

theorem passes_notices (notices : List (Notice α)) (t : Transcript α n) :
    passes ((notices.map Event.noticed).reverse ++ t) = passes t := by
  refine view_append (fun e t he => passes_of_not_isPass he t) fun e he => ?_
  obtain ⟨notice, -, rfl⟩ := List.mem_map.mp (List.mem_reverse.mp he)
  rfl

theorem passes_append (newer older : Transcript α n) :
    passes (newer ++ older) = passes older ++ passes newer := by
  unfold passes collect
  rw [List.filterMap_append, List.reverse_append]

theorem isPass_eq_false_of_passes_append (h : passes (added ++ t) = passes t) :
    ∀ e ∈ added, isPass e = false := by
  rw [passes_append, List.append_right_eq_self] at h
  unfold passes collect at h
  rw [List.reverse_eq_nil_iff, List.filterMap_eq_nil_iff] at h
  intro e he
  have hnone := h e he
  cases e with
  | chosen pass => cases hnone
  | _ => rfl

theorem Always.append {right : Event α n → Transcript α n → Prop} {unseen : Event α n → Prop}
    (h : Always right t) (hright : ∀ e t, unseen e → right e t)
    (hadded : ∀ e ∈ added, unseen e) : Always right (added ++ t) := by
  induction added with
  | nil => exact h
  | cons e added ih =>
    have hrest := ih fun e he => hadded e (List.mem_cons_of_mem _ he)
    exact hrest.cons (hright e _ (hadded e List.mem_cons_self))

end Transcript

namespace State

open Transcript

/-- A state in which the same search may be begun, with nothing but bookkeeping added to
the record. -/
structure LeadsUpTo (s ready : State α σ τ n m) : Prop where
  current : ready.current = s.current := by rfl
  origin : ready.origin = s.origin := by rfl
  iterations : ready.iterations = s.iterations := by rfl
  evaluations : ready.evaluations = s.evaluations := by rfl
  searching : ready.searching = s.searching := by rfl
  search : ready.search = s.search := by rfl
  projected : ready.projected = s.projected := by rfl
  added : ∃ added, ready.transcript = added ++ s.transcript ∧
    ∀ e ∈ added, isBookkeeping e = true := by exact ⟨[], rfl, nofun⟩

variable {s ready next : State α σ τ n m}

theorem LeadsUpTo.of_eq
    (h : (ready.current, ready.origin, ready.iterations, ready.evaluations, ready.searching,
        ready.search, ready.projected) =
      (s.current, s.origin, s.iterations, s.evaluations, s.searching, s.search, s.projected))
    {added : Transcript α n} (hadded : ∀ e ∈ added, isBookkeeping e = true)
    (htranscript : ready.transcript = added ++ s.transcript) : s.LeadsUpTo ready := by
  simp only [Prod.mk.injEq] at h
  obtain ⟨hcurrent, horigin, hiterations, hevaluations, hsearching, hsearch, hprojected⟩ := h
  exact ⟨hcurrent, horigin, hiterations, hevaluations, hsearching, hsearch, hprojected,
    added, htranscript, hadded⟩

/-- Nothing is added to the record. -/
theorem LeadsUpTo.of_same
    (h : (ready.current, ready.origin, ready.iterations, ready.evaluations, ready.searching,
        ready.search, ready.projected) =
      (s.current, s.origin, s.iterations, s.evaluations, s.searching, s.search, s.projected))
    (htranscript : ready.transcript = s.transcript) : s.LeadsUpTo ready :=
  .of_eq h (List.forall_mem_nil _) htranscript

theorem LeadsUpTo.refl (s : State α σ τ n m) : s.LeadsUpTo s :=
  .of_same rfl rfl

theorem LeadsUpTo.trans (h : s.LeadsUpTo ready) (h' : ready.LeadsUpTo next) :
    s.LeadsUpTo next where
  current := h'.current.trans h.current
  origin := h'.origin.trans h.origin
  iterations := h'.iterations.trans h.iterations
  evaluations := h'.evaluations.trans h.evaluations
  searching := h'.searching.trans h.searching
  search := h'.search.trans h.search
  projected := h'.projected.trans h.projected
  added := by
    obtain ⟨added, heq, hadded⟩ := h.added
    obtain ⟨added', heq', hadded'⟩ := h'.added
    refine ⟨added' ++ added, by rw [heq', heq, List.append_assoc], fun e he => ?_⟩
    exact (List.mem_append.mp he).elim (hadded' e) (hadded e)

theorem LeadsUpTo.view {view : Transcript α n → β} (h : s.LeadsUpTo ready)
    (hview : ∀ e t, isBookkeeping e = true → view (e :: t) = view t) :
    view ready.transcript = view s.transcript := by
  obtain ⟨added, heq, hadded⟩ := h.added
  rw [heq]
  exact view_append hview hadded

theorem leadsUpTo_record (s : State α σ τ n m) {e : Event α n} (h : isBookkeeping e = true) :
    s.LeadsUpTo (s.record e) := by
  have hadded : ∀ e' ∈ [e], isBookkeeping e' = true := List.forall_mem_singleton.mpr h
  exact .of_eq rfl hadded rfl

theorem leadsUpTo_notify (s : State α σ τ n m) (notices : List (Notice α)) :
    s.LeadsUpTo (s.notify notices) :=
  .of_eq rfl (bookkeeping_notices notices) rfl

theorem leadsUpTo_printDue (p : Problem α σ τ n) (s : State α σ τ n m) :
    s.LeadsUpTo (s.printDue p) :=
  printDue_of s.LeadsUpTo (fun t h => h.trans (t.leadsUpTo_record rfl))
    (fun t _ h => h.trans (t.leadsUpTo_record rfl)) (.refl s)

theorem leadsUpTo_enriched [Capacity m] (s : State α σ τ n m) (step change : Vec α n) :
    s.LeadsUpTo (s.enriched step change) := by
  refine LeadsUpTo.trans ?_ (leadsUpTo_record _ rfl)
  exact .of_same rfl rfl

theorem leadsUpTo_asked [Capacity m] (s : State α σ τ n m) (memory : Memory α n m)
    (notices : List (Notice α)) : s.LeadsUpTo (s.asked memory notices) := by
  have hrecalled := s.leadsUpTo_record (e := .recalled s.memory.pairs) rfl
  refine (hrecalled.trans ?_).trans (leadsUpTo_notify _ _)
  exact .of_same rfl rfl

theorem leadsUpTo_chosen (s : State α σ τ n m) (slope step cap : α) :
    s.LeadsUpTo (s.chosen slope step cap) := by
  refine LeadsUpTo.trans ?_ (leadsUpTo_record _ rfl)
  exact .of_same rfl rfl

theorem leadsUpTo_told (s : State α σ τ n m) (slope : α) (reply : Reply α) (search : τ) :
    LeadsUpTo
      { s.record (.iterated s.step s.current.value slope reply.status reply.step) with
        search
        step := reply.step } (s.told slope reply search) :=
  leadsUpTo_notify _ _

theorem leadsUpTo_begun (s : State α σ τ n m) (pass : Pass α n) (reply : Reply α)
    (search : τ) :
    LeadsUpTo
      ({ s with origin := s.current, search, step := reply.step }.record
        (.started s.current pass reply.status reply.step)) (s.begun pass reply search) :=
  leadsUpTo_notify _ _

variable [Scalar α] {p : Problem α σ τ n}

/-- Whether there is a pair to take a direction from: it is remembered, or about to be
pushed. -/
def HasPairs (s : State α σ τ n m) : Prop :=
  1 ≤ s.iterations ∧ s.restored = false ∨ 1 ≤ s.memory.live

/-! ## The way as one part -/

/-- Takes the steepest descent: its slope and the first step along it. -/
def steer (p : Problem α σ τ n) (s : State α σ τ n m) :
    Progress α σ τ n m (α × α × State α σ τ n m) := do
  let first ← (s.steered p).attempt
    (p.feasible.initialStep s.current.point (s.steered p).direction p.settings.firstStep)
  pure (-(Scalar.square s.norm), first, s.steered p)

variable [Capacity m]

/-- Takes a direction: its slope and the first step along it. -/
def aim (p : Problem α σ τ n) (s : State α σ τ n m) :
    Progress α σ τ n m (α × α × State α σ τ n m) :=
  if s.memory.live < 1 then s.steer p
  else do
    let (slope, s) ← s.propose p
    match slope with
    | some slope => pure (slope, 1, s)
    | none => s.steer p

/-- All that a turn without a search under way does before it begins one. -/
def approach (p : Problem α σ τ n) (s : State α σ τ n m) :
    Progress α σ τ n m (α × α × State α σ τ n m) := do
  let s ← (s.printDue p).remember p
  { s with restored := false }.aim p

omit [Capacity m] in
theorem descend_eq (p : Problem α σ τ n) (s : State α σ τ n m) :
    s.descend p = s.steer p >>= fun (slope, first, s) => s.begin p slope first := by
  unfold descend steer
  rw [bind_assoc]
  rfl

theorem choose_eq (p : Problem α σ τ n) (s : State α σ τ n m) :
    s.choose p = s.aim p >>= fun (slope, first, s) => s.begin p slope first := by
  unfold choose aim
  split
  · exact descend_eq p s
  · rw [bind_assoc]
    apply bind_congr
    rintro ⟨slope, s⟩
    cases slope with
    | some slope => rfl
    | none => exact descend_eq p s

theorem seek_eq (p : Problem α σ τ n) (hidle : s.searching = false) :
    s.seek p = s.approach p >>= fun (slope, first, s) => s.begin p slope first := by
  unfold approach
  rw [seek_of_idle hidle, bind_assoc]
  exact bind_congr fun s => choose_eq p _

section Rules

variable {aimed : α × α × State α σ τ n m → Prop} {onward : State α σ τ n m → Prop}
  {ended : Ending → State α σ τ n m → Prop}

theorem ensures_aim {proposed : Option α × State α σ τ n m → Prop}
    (hempty : s.memory.live < 1 → Ensures (s.steer p) aimed ended)
    (hpropose : ¬ s.memory.live < 1 → Ensures (s.propose p) proposed ended)
    (htaken : ∀ slope s, proposed (some slope, s) → aimed (slope, 1, s))
    (hrefused : ∀ s, proposed (none, s) → Ensures (s.steer p) aimed ended) :
    Ensures (s.aim p) aimed ended := by
  unfold aim
  split
  next h => exact hempty h
  next h =>
    refine (hpropose h).bind ?_
    rintro ⟨slope, s'⟩ hs'
    cases slope with
    | some slope => exact htaken slope s' hs'
    | none => exact hrefused s' hs'

/-- A search is begun where the way to it has led, unless one is under way. -/
theorem ensures_seek_of_approach (hbusy : s.searching = true → onward s)
    (happroach : s.searching = false → Ensures (s.approach p) aimed ended)
    (hbegin : ∀ slope first ready, aimed (slope, first, ready) →
      Ensures (ready.begin p slope first) onward ended) :
    Ensures (s.seek p) onward ended := by
  cases hsearching : s.searching with
  | true =>
    rw [seek_of_searching hsearching]
    exact hbusy hsearching
  | false =>
    rw [seek_eq p hsearching]
    exact (happroach hsearching).bind fun (slope, first, ready) => hbegin slope first ready

end Rules

/-- However the way to a search ends too soon, it is for a fault. -/
def StopsShort (s : State α σ τ n m) (ending : Ending) (last : State α σ τ n m) : Prop :=
  (∃ fault, ending = .fault fault) ∧ s.LeadsUpTo last

omit [Scalar α] [Capacity m] in
theorem StopsShort.of_leadsUpTo {ending : Ending} (h : ready.StopsShort ending next)
    (hready : s.LeadsUpTo ready) : s.StopsShort ending next :=
  ⟨h.1, hready.trans h.2⟩

/-- A state in which the memory has answered: with the slope of its direction, or, if that
was of no use, with nothing. -/
structure Proposes (s : State α σ τ n m) (slope : Option α) (ready : State α σ τ n m) : Prop
    extends s.LeadsUpTo ready where
  passes : passes ready.transcript = passes s.transcript
  restored : ready.restored = s.restored
  taken : slope.isSome = true → ready.steepest = false ∧ ready.restarts = s.restarts
  refused : slope = none → ready.restarts = s.restarts + 1

/-- A state in which a direction has been taken, with or without a pair to take it from. -/
structure Steers (p : Problem α σ τ n) (paired : Prop) (s ready : State α σ τ n m) : Prop
    extends s.LeadsUpTo ready where
  passes : passes ready.transcript = passes s.transcript
  restored : ready.restored = false
  pairs : ready.steepest = false → paired ∧ ready.restarts = s.restarts
  descent : ready.steepest = true → ready.direction = s.projected.scale p.precision (-1)
  first : ready.steepest = true → ¬ paired → ready.restarts = s.restarts
  restart : ready.steepest = true → paired → ready.restarts = s.restarts + 1

theorem ensures_proposes : Ensures (s.propose p) (fun a => s.Proposes a.1 a.2) s.StopsShort := by
  apply ensures_propose
  · intro d memory notices _
    have hasked := s.leadsUpTo_asked memory notices
    have hpasses : passes (s.asked memory notices).transcript = passes s.transcript :=
      (passes_notices notices _).trans (passes_of_not_isPass rfl _)
    constructor
    · intro _
      exact
        { hasked.trans (.of_same rfl rfl) with
          passes := hpasses
          restored := rfl
          taken := fun _ => ⟨rfl, rfl⟩
          refused := nofun }
    · intro _
      exact
        { hasked.trans (.of_same rfl rfl) with
          passes := hpasses
          restored := rfl
          taken := nofun
          refused := fun _ => rfl }
  · exact fun fault memory notices _ => ⟨⟨fault, rfl⟩, s.leadsUpTo_asked memory notices⟩

omit [Capacity m] in
theorem ensures_steer {steered : State α σ τ n m → Prop} (h : steered (s.steered p)) :
    Ensures (s.steer p) (fun a => steered a.2.2) s.StopsShort :=
  ensures_attempt (fun _ _ => h) fun fault _ => ⟨⟨fault, rfl⟩, .of_same rfl rfl⟩

/-- A direction is taken from the memory only if it remembers a pair. -/
theorem ensures_aim_steers (hrestored : s.restored = false) :
    Ensures (s.aim p) (fun a => s.Steers p (1 ≤ s.memory.live) a.2.2) s.StopsShort := by
  have hproposed (hlive : ¬ s.memory.live < 1) :
      Ensures (s.propose p) (fun a => 1 ≤ s.memory.live ∧ s.Proposes a.1 a.2) s.StopsShort :=
    ensures_proposes.mono (fun _ ha => ⟨Nat.le_of_not_lt hlive, ha⟩) fun _ _ h => h
  refine ensures_aim (fun hlive => ?_) hproposed ?_ ?_
  · apply ensures_steer
    exact
      { passes := rfl
        restored := hrestored
        pairs := nofun
        descent := fun _ => rfl
        first := fun _ _ => rfl
        restart := fun _ hpaired => absurd hpaired (Nat.not_le_of_lt hlive) }
  · rintro slope s' ⟨hpaired, hs'⟩
    obtain ⟨hsteepest, hrestarts⟩ := hs'.taken rfl
    have hnot : s'.steepest ≠ true := by simpa using hsteepest
    exact
      { hs'.toLeadsUpTo with
        passes := hs'.passes
        restored := hs'.restored.trans hrestored
        pairs := fun _ => ⟨hpaired, hrestarts⟩
        descent := fun h => absurd h hnot
        first := fun h => absurd h hnot
        restart := fun h => absurd h hnot }
  · rintro s' ⟨hpaired, hs'⟩
    refine (ensures_steer ?_).mono
      (fun _ h => h) fun _ _ h => h.of_leadsUpTo hs'.toLeadsUpTo
    have hsteered : s.LeadsUpTo (s'.steered p) := hs'.toLeadsUpTo.trans (.of_same rfl rfl)
    exact
      { hsteered with
        passes := hs'.passes
        restored := hs'.restored.trans hrestored
        pairs := nofun
        descent := fun _ => congrArg (fun g : Vec α n => g.scale p.precision (-1)) hs'.projected
        first := fun _ hnot => absurd hpaired hnot
        restart := fun _ _ => hs'.refused rfl }

omit [Scalar α] [Capacity m] in
theorem printDue_kept (p : Problem α σ τ n) (s : State α σ τ n m) :
    (s.printDue p).restored = s.restored ∧ (s.printDue p).memory = s.memory ∧
      (s.printDue p).restarts = s.restarts ∧
      passes (s.printDue p).transcript = passes s.transcript := by
  apply printDue_of fun t : State α σ τ n m => t.restored = s.restored ∧ t.memory = s.memory ∧
    t.restarts = s.restarts ∧ passes t.transcript = passes s.transcript
  · rintro t ⟨hrestored, hmemory, hrestarts, hpasses⟩
    exact ⟨hrestored, hmemory, hrestarts, (passes_of_not_isPass rfl _).trans hpasses⟩
  · rintro t row ⟨hrestored, hmemory, hrestarts, hpasses⟩
    exact ⟨hrestored, hmemory, hrestarts, (passes_of_not_isPass rfl _).trans hpasses⟩
  · exact ⟨rfl, rfl, rfl, rfl⟩

/-- After a pair has been pushed, or skipped, there is a pair exactly if there was one, or one
was due. -/
theorem ensures_remember_pairs : Ensures ((s.printDue p).remember p)
    (fun s' => s.LeadsUpTo s' ∧ s'.restarts = s.restarts ∧
      passes s'.transcript = passes s.transcript ∧ (1 ≤ s'.memory.live ↔ s.HasPairs))
    s.StopsShort := by
  have hdue := leadsUpTo_printDue p s
  obtain ⟨hrestored, hmemory, hrestarts, hpasses⟩ := printDue_kept p s
  apply ensures_remember
  · intro hiterations hnot
    have hlive : 1 ≤ min ((s.printDue p).memory.live + 1) m :=
      le_min (Nat.le_add_left _ _) (Nat.one_le_iff_ne_zero.mpr Capacity.ne_zero)
    refine ⟨hdue.trans (leadsUpTo_enriched _ _ _), hrestarts,
      (passes_of_not_isPass rfl _).trans hpasses, iff_of_true hlive (.inl ⟨?_, ?_⟩)⟩
    · exact hdue.iterations ▸ hiterations
    · exact hrestored.symm.trans hnot
  · intro hskip
    refine ⟨hdue, hrestarts, hpasses, ?_⟩
    rw [hrestored, hdue.iterations] at hskip
    unfold HasPairs
    rw [hmemory]
    constructor
    · exact .inr
    · rintro (⟨hiterations, hnot⟩ | hlive)
      · rcases hskip with hskip | hskip
        · omega
        · simp [hnot] at hskip
      · exact hlive
  · exact fun _ _ => ⟨⟨_, rfl⟩, hdue⟩

theorem ensures_approach :
    Ensures (s.approach p) (fun a => s.Steers p s.HasPairs a.2.2) s.StopsShort := by
  refine ensures_remember_pairs.bind fun s' ⟨hs', hrestarts, hpasses, hpairs⟩ => ?_
  have hready : s.LeadsUpTo { s' with restored := false } :=
    hs'.trans (.of_same rfl rfl)
  have haimed : Ensures (State.aim p { s' with restored := false })
      (fun a => State.Steers p (1 ≤ s'.memory.live) { s' with restored := false } a.2.2)
      (State.StopsShort { s' with restored := false }) := ensures_aim_steers rfl
  refine haimed.mono (fun a ha => ?_) fun _ _ h => h.of_leadsUpTo hready
  exact
    { hready.trans ha.toLeadsUpTo with
      passes := ha.passes.trans hpasses
      restored := ha.restored
      pairs := fun h => ⟨hpairs.mp (ha.pairs h).1, (ha.pairs h).2.trans hrestarts⟩
      descent := fun h =>
        (ha.descent h).trans (congrArg (fun g : Vec α n => g.scale p.precision (-1)) hs'.projected)
      first := fun h hnot => (ha.first h (hpairs.not.mpr hnot)).trans hrestarts
      restart := fun h hpaired =>
        (ha.restart h (hpairs.mpr hpaired)).trans (congrArg (· + 1) hrestarts) }

variable {onward : State α σ τ n m → Prop} {ended : Ending → State α σ τ n m → Prop}

/-- A turn without a search under way begins one where the run stands, unless it faults
before. -/
theorem ensures_seek_steers (hbusy : s.searching = true → onward s)
    (hbegin : s.searching = false → ∀ ready slope first, s.Steers p s.HasPairs ready →
      Ensures (ready.begin p slope first) onward ended)
    (hfault : s.searching = false → ∀ fault ready, s.LeadsUpTo ready →
      ended (.fault fault) ready) :
    Ensures (s.seek p) onward ended := by
  have happroach (hidle : s.searching = false) :
      Ensures (s.approach p) (fun a => s.searching = false ∧ s.Steers p s.HasPairs a.2.2)
        ended := by
    refine ensures_approach.mono (fun _ ha => ⟨hidle, ha⟩) ?_
    rintro _ last ⟨⟨fault, rfl⟩, hlast⟩
    exact hfault hidle fault last hlast
  exact ensures_seek_of_approach hbusy happroach fun slope first ready hready =>
    hbegin hready.1 ready slope first hready.2

end State

end VariableMetric
