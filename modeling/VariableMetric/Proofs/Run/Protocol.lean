import VariableMetric.Proofs.Run.Approach
import VariableMetric.Proofs.Run.Feasible

/-!
# The protocol between a run and its line search

A run resets its line search once, before all else.  It starts a search only when none
is under way, and tells the line search of a trial only when the line search has asked
for one: at the step that was asked for, with the value of the one evaluation made
since then.  That evaluation was made where the step leads from the origin of the
search, along the direction with which it was started, brought into the feasible set.

Nothing is asked of the line search for this: it may answer what it likes.
-/

namespace VariableMetric

variable {α σ τ : Type} {n m : ℕ}

/-! ## The calls on record -/

namespace Transcript

def isSearchCall : Event α n → Bool
  | .searchReset => true
  | .started .. => true
  | .iterated .. => true
  | .unanswered .. => true
  | _ => false

/-- What the line search answered last, and the step in its answer; nothing if its last
call had no answer. -/
def lastReply : Transcript α n → Option (SearchStatus × α)
  | [] => none
  | .started _ _ status next :: _ => some (status, next)
  | .iterated _ _ _ status next :: _ => some (status, next)
  | .unanswered .. :: _ => none
  | _ :: t => lastReply t

/-- The calls of the objective since the last call of the line search, oldest first. -/
def callsSinceReply : Transcript α n → List (Vec α n × Option α)
  | [] => []
  | .evaluated i :: t => callsSinceReply t ++ [(i.point, some i.value)]
  | .refused x :: t => callsSinceReply t ++ [(x, none)]
  | .searchReset :: _ => []
  | .started .. :: _ => []
  | .iterated .. :: _ => []
  | .unanswered .. :: _ => []
  | _ :: t => callsSinceReply t

/-- The line search has not asked for a trial. -/
def IsIdle (t : Transcript α n) : Prop := ∀ reply, lastReply t = some reply → reply.1 ≠ .searching

variable {e : Event α n}

theorem lastReply_of_not_isSearchCall (h : isSearchCall e = false) (t : Transcript α n) :
    lastReply (e :: t) = lastReply t := by
  cases e <;> first | rfl | cases h

theorem isCall_of_isBookkeeping (h : isBookkeeping e = true) : isCall e = false := by
  cases e <;> first | rfl | cases h

theorem isSearchCall_of_isBookkeeping (h : isBookkeeping e = true) : isSearchCall e = false := by
  cases e <;> first | rfl | cases h

theorem lastReply_bookkeeping (e : Event α n) (t : Transcript α n)
    (h : isBookkeeping e = true) : lastReply (e :: t) = lastReply t :=
  lastReply_of_not_isSearchCall (isSearchCall_of_isBookkeeping h) t

theorem callsSinceReply_bookkeeping (e : Event α n) (t : Transcript α n)
    (h : isBookkeeping e = true) : callsSinceReply (e :: t) = callsSinceReply t := by
  cases e <;> first | rfl | cases h

theorem lastSearch_bookkeeping (e : Event α n) (t : Transcript α n)
    (h : isBookkeeping e = true) : lastSearch (e :: t) = lastSearch t := by
  cases e <;> first | rfl | cases h

end Transcript

open Transcript

/-- The line search, called as it is on record, gave the answers on record and was left in
some state. -/
inductive LineSearch.Answers (search : LineSearch α τ) (first : τ) : Transcript α n → τ → Prop
  | reset : Answers search first [.searchReset] (search.reset first)
  | start {t : Transcript α n} {state next : τ} {reply : Reply α} {origin : Iterate α n}
      {pass : Pass α n} (before : Answers search first t state)
      (call : search.start state origin.value pass.slope pass.step pass.cap = (reply, next)) :
      Answers search first (.started origin pass reply.status reply.step :: t) next
  | iterate {t : Transcript α n} {state next : τ} {step value slope : α} {reply : Reply α}
      (before : Answers search first t state)
      (call : search.iterate state step value slope = (.ok reply, next)) :
      Answers search first (.iterated step value slope reply.status reply.step :: t) next
  | silent {t : Transcript α n} {state next : τ} {step value slope : α} {fault : Fault}
      (before : Answers search first t state)
      (call : search.iterate state step value slope = (.error fault, next)) :
      Answers search first (.unanswered step value slope :: t) next
  | aside {t : Transcript α n} {state : τ} {e : Event α n} (before : Answers search first t state)
      (other : isSearchCall e = false) : Answers search first (e :: t) state

/-- A trial that a line search may be told of. -/
structure Problem.Tried [Scalar α] (p : Problem α σ τ n) (older : Transcript α n)
    (step value : α) : Prop where
  /-- The line search has asked for this step. -/
  asked : lastReply older = some (.searching, step)
  /-- The value was found where the step leads in the last search that was started. -/
  evaluated : ∃ origin pass x, lastSearch older = some (origin, pass) ∧
    p.feasible.projectVariables
      (Vec.combine p.precision 1 origin.point step pass.direction) = .ok x ∧
    callsSinceReply older = [(x, some value)]

/-- Whether an event may follow what was on record before it. -/
def Problem.Obeys [Scalar α] (p : Problem α σ τ n) : Event α n → Transcript α n → Prop
  | .searchReset, older => older = []
  | .started .., older => IsIdle older
  | .iterated step value _ _ _, older => p.Tried older step value
  | .unanswered step value _, older => p.Tried older step value
  | _, _ => True

section Record

variable [Scalar α] {p : Problem α σ τ n} {search : LineSearch α τ} {first state : τ}
  {t added : Transcript α n} {e : Event α n}

theorem Problem.obeys_of_not_isSearchCall (h : isSearchCall e = false) (t : Transcript α n) :
    p.Obeys e t := by
  cases e with
  | searchReset => cases h
  | started => cases h
  | iterated => cases h
  | unanswered => cases h
  | _ => trivial

omit [Scalar α] in
theorem LineSearch.Answers.append (h : search.Answers first t state)
    (hadded : ∀ e ∈ added, isBookkeeping e = true) :
    search.Answers first (added ++ t) state := by
  induction added with
  | nil => exact h
  | cons e added ih =>
    have hrest := ih fun e he => hadded e (List.mem_cons_of_mem _ he)
    exact hrest.aside (isSearchCall_of_isBookkeeping (hadded e List.mem_cons_self))

omit [Scalar α] in
theorem LineSearch.Answers.reset_once (h : search.Answers first t state) :
    ∃ newer, t = newer ++ [.searchReset] ∧ .searchReset ∉ newer := by
  induction h with
  | reset => exact ⟨[], rfl, List.not_mem_nil⟩
  | start _ _ ih | iterate _ _ ih | silent _ _ ih =>
    obtain ⟨newer, rfl, hnot⟩ := ih
    exact ⟨_ :: newer, rfl, List.not_mem_cons_of_ne_of_not_mem nofun hnot⟩
  | aside _ hother ih =>
    obtain ⟨newer, rfl, hnot⟩ := ih
    refine ⟨_ :: newer, rfl, List.not_mem_cons_of_ne_of_not_mem ?_ hnot⟩
    rintro rfl
    cases hother

end Record

namespace State

variable [Scalar α] {p : Problem α σ τ n} {first : τ} {s ready : State α σ τ n m}

/-! ## The places inside a turn -/

/-- The protocol was kept so far. -/
structure Lawful (p : Problem α σ τ n) (first : τ) (s : State α σ τ n m) : Prop where
  answers : p.search.Answers first s.transcript s.search
  obeys : Always p.Obeys s.transcript

/-- The line search has asked for the step that the run is about to try, from the origin
and along the direction where the run searches. -/
structure Asked (s : State α σ τ n m) : Prop where
  reply : lastReply s.transcript = some (.searching, s.step)
  start : ∃ pass, lastSearch s.transcript = some (s.origin, pass) ∧
    pass.direction = s.direction

/-- The line search has had its say. -/
structure Heard (p : Problem α σ τ n) (first : τ) (s : State α σ τ n m) : Prop
    extends s.Lawful p first where
  idle : s.searching = false → IsIdle s.transcript
  asked : s.searching = true → s.Asked ∧ callsSinceReply s.transcript = []

/-- The run has moved to the trial that the line search has asked for. -/
structure Trying (p : Problem α σ τ n) (first : τ) (s : State α σ τ n m) : Prop
    extends s.Heard p first where
  point : s.searching = true →
    s.current.point = Vec.combine p.precision 1 s.origin.point s.step s.direction

/-- The trial has been brought into the set. -/
structure Placed (p : Problem α σ τ n) (first : τ) (s : State α σ τ n m) : Prop
    extends s.Heard p first where
  point : s.searching = true → p.feasible.projectVariables
    (Vec.combine p.precision 1 s.origin.point s.step s.direction) = .ok s.current.point

/-- The trial has been evaluated, and the line search is to be told. -/
structure Tried (p : Problem α σ τ n) (first : τ) (s : State α σ τ n m) : Prop
    extends s.Lawful p first where
  idle : s.searching = false → IsIdle s.transcript
  asked : s.searching = true → s.Asked
  trial : s.searching = true → p.Tried s.transcript s.step s.current.value

theorem initial_trying (p : Problem α σ τ n) (x : Vec α n) (objective : σ) (search : τ) :
    (State.initial p x objective search : State α σ τ n m).Trying p search where
  answers := .reset
  obeys := always_nil.cons rfl
  idle _ := nofun
  asked := nofun
  point := nofun

theorem Lawful.leadsUpTo (h : s.Lawful p first) (hready : s.LeadsUpTo ready) :
    ready.Lawful p first := by
  obtain ⟨added, heq, hadded⟩ := hready.added
  refine ⟨?_, ?_⟩
  · rw [heq, hready.search]
    exact h.answers.append hadded
  · rw [heq]
    refine h.obeys.append (fun e t he => ?_) hadded
    exact Problem.obeys_of_not_isSearchCall (isSearchCall_of_isBookkeeping he) t

omit [Scalar α] in
theorem isIdle_leadsUpTo (h : IsIdle s.transcript) (hready : s.LeadsUpTo ready) :
    IsIdle ready.transcript := by
  unfold IsIdle
  rw [hready.view lastReply_bookkeeping]
  exact h

/-! ## The trial -/

theorem Trying.ensures_project (h : s.Trying p first) :
    Ensures (s.project p) (fun s => s.Placed p first) (fun _ s => s.Lawful p first) := by
  refine State.ensures_project (fun x hx => ?_) fun _ _ => h.toLawful
  exact
    { answers := h.answers
      obeys := h.obeys
      idle := h.idle
      asked := fun hsearching => ⟨⟨(h.asked hsearching).1.reply, (h.asked hsearching).1.start⟩,
        (h.asked hsearching).2⟩
      point := fun hsearching => h.point hsearching ▸ hx }

theorem Placed.ensures_evaluate (h : s.Placed p first) :
    Ensures (s.evaluate p) (fun s => s.Tried p first) (fun _ s => s.Lawful p first) := by
  refine State.ensures_evaluate (fun value gradient objective _ => ?_) fun _ _ _ => ?_
  · refine
      { answers := h.answers.aside rfl
        obeys := h.obeys.cons trivial
        idle := h.idle
        asked := fun hsearching => ?_
        trial := fun hsearching => ?_ }
    · exact ⟨(h.asked hsearching).1.reply, (h.asked hsearching).1.start⟩
    · obtain ⟨⟨hreply, pass, hpass, hdirection⟩, hquiet⟩ := h.asked hsearching
      refine ⟨hreply, s.origin, pass, s.current.point, hpass, ?_, ?_⟩
      · rw [hdirection]
        exact h.point hsearching
      · show callsSinceReply s.transcript ++ [(s.current.point, some value)] = _
        rw [hquiet]
        rfl
  · exact ⟨h.answers.aside rfl, h.obeys.cons trivial⟩

theorem Tried.congr (h : s.Tried p first) {s' : State α σ τ n m}
    (hcurrent : s'.current = s.current) (horigin : s'.origin = s.origin)
    (hdirection : s'.direction = s.direction) (hstep : s'.step = s.step)
    (hsearching : s'.searching = s.searching) (hsearch : s'.search = s.search)
    (htranscript : s'.transcript = s.transcript) : s'.Tried p first where
  answers := by rw [htranscript, hsearch]; exact h.answers
  obeys := by rw [htranscript]; exact h.obeys
  idle hidle := by rw [htranscript]; exact h.idle (hsearching ▸ hidle)
  asked hon := by
    obtain ⟨hreply, hstart⟩ := h.asked (hsearching ▸ hon)
    refine ⟨?_, ?_⟩
    · rw [htranscript, hstep]; exact hreply
    · rw [htranscript, horigin, hdirection]; exact hstart
  trial hon := by
    rw [htranscript, hstep, hcurrent]
    exact h.trial (hsearching ▸ hon)

theorem Tried.ensures_measure (h : s.Tried p first) :
    Ensures (s.measure p) (fun s => s.Tried p first) (fun _ s => s.Lawful p first) :=
  State.ensures_measure (fun _ _ => h.congr rfl rfl rfl rfl rfl rfl rfl)
    fun _ _ => h.toLawful

theorem Tried.ensures_settle (h : s.Tried p first) :
    Ensures (s.setThreshold p).settle (fun s => s.Tried p first)
      (fun _ s => s.Lawful p first) := by
  have hset : (s.setThreshold p).Tried p first :=
    setThreshold_of (·.Tried p first) fun _ => h.congr rfl rfl rfl rfl rfl rfl rfl
  exact State.ensures_settle (fun _ => ⟨hset.answers, hset.obeys⟩) fun _ => hset

/-! ## The answer -/

section Told

variable {slope : α} {reply : Reply α} {search : τ}

omit [Scalar α] in
theorem isIdle_told (hstatus : reply.status ≠ .searching) :
    IsIdle (s.told slope reply search).transcript := by
  have hreply : lastReply (s.told slope reply search).transcript =
      some (reply.status, reply.step) :=
    (s.leadsUpTo_told slope reply search).view lastReply_bookkeeping
  intro other hother
  rw [hreply] at hother
  cases hother
  exact hstatus

theorem Tried.told (h : s.Tried p first) (hsearching : s.searching = true)
    (hcall : p.search.iterate s.search s.step s.current.value slope = (.ok reply, search)) :
    (s.told slope reply search).Lawful p first := by
  refine Lawful.leadsUpTo ⟨h.answers.iterate hcall, ?_⟩ (s.leadsUpTo_told slope reply search)
  exact h.obeys.cons (h.trial hsearching)

/-- The line search asks for another trial, in the same search. -/
theorem Tried.told_searching (h : s.Tried p first) (hsearching : s.searching = true)
    (hcall : p.search.iterate s.search s.step s.current.value slope = (.ok reply, search))
    (hstatus : reply.status = .searching) : (s.told slope reply search).Heard p first := by
  have hnotified := s.leadsUpTo_told slope reply search
  obtain ⟨pass, hpass, hdirection⟩ := (h.asked hsearching).start
  refine
    { toLawful := h.told hsearching hcall
      idle := fun hidle => absurd (hsearching.symm.trans hidle) nofun
      asked := fun _ => ⟨⟨?_, ?_⟩, hnotified.view callsSinceReply_bookkeeping⟩ }
  · exact (hnotified.view lastReply_bookkeeping).trans (by rw [← hstatus]; rfl)
  · exact ⟨pass, (hnotified.view lastSearch_bookkeeping).trans hpass, hdirection⟩

end Told

theorem Lawful.ensures_accept (h : s.Lawful p first) (hidle : IsIdle s.transcript) :
    Ensures (s.accept p) (fun s => s.Heard p first) (fun _ s => s.Lawful p first) := by
  have haccepted : s.accepted.Heard p first :=
    { answers := h.answers
      obeys := h.obeys
      idle := fun _ => hidle
      asked := nofun }
  exact State.ensures_accept (fun _ _ => haccepted.toLawful) fun _ => haccepted

theorem Lawful.ensures_abandon (h : s.Lawful p first) (hidle : IsIdle s.transcript) :
    Ensures (s.abandon p) (fun s => s.Heard p first) (fun _ s => s.Lawful p first) := by
  have hnotified := h.leadsUpTo (s.leadsUpTo_notify [.searchAbandoned s.iterations])
  refine State.ensures_abandon (fun _ => h) (fun _ projected _ => ?_) fun _ _ => ?_
  · exact
      { answers := hnotified.answers.aside rfl
        obeys := hnotified.obeys.cons trivial
        idle := fun _ => hidle
        asked := nofun }
  · exact ⟨hnotified.answers.aside rfl, hnotified.obeys.cons trivial⟩

theorem Tried.ensures_consult (h : s.Tried p first) :
    Ensures (s.consult p) (fun s => s.Heard p first) (fun _ s => s.Lawful p first) := by
  have hquiet (hidle : s.searching = false) : s.Heard p first :=
    { toLawful := h.toLawful
      idle := h.idle
      asked := fun hsearching => absurd (hidle.symm.trans hsearching) nofun }
  refine State.ensures_consult hquiet fun hsearching => ?_
  refine ensures_report (fun slope reply search _ hcall => ?_) (fun _ _ => h.toLawful)
    fun slope fault search hcall => ?_
  · have htold := h.told hsearching hcall
    cases hstatus : reply.status with
    | searching => exact h.told_searching hsearching hcall hstatus
    | converged => exact htold.ensures_accept (isIdle_told (by rw [hstatus]; nofun))
    | failed => exact htold.ensures_abandon (isIdle_told (by rw [hstatus]; nofun))
  · exact ⟨h.answers.silent hcall, h.obeys.cons (h.trial hsearching)⟩

/-! ## The next search -/

theorem Lawful.begun (h : s.Lawful p first) (hidle : IsIdle s.transcript) (pass : Pass α n)
    {reply : Reply α} {search : τ}
    (hcall : p.search.start s.search s.current.value pass.slope pass.step pass.cap =
      (reply, search)) : (s.begun pass reply search).Lawful p first := by
  refine Lawful.leadsUpTo ⟨h.answers.start hcall, ?_⟩ (s.leadsUpTo_begun pass reply search)
  exact h.obeys.cons hidle

theorem Lawful.ensures_begin (h : s.Lawful p first) (hidle : IsIdle s.transcript)
    (slope cut : α) :
    Ensures (s.begin p slope cut) (fun s => s.Heard p first) (fun _ s => s.Lawful p first) := by
  have hchosen : ∀ step cap, (s.chosen slope step cap).Lawful p first :=
    fun step cap => h.leadsUpTo (s.leadsUpTo_chosen slope step cap)
  refine State.ensures_begin (fun cap _ _ => hchosen _ cap)
    (fun cap reply search _ _ hcall => ?_) fun _ _ => h
  have hready := hchosen (Scalar.least cut cap) cap
  have hquiet := isIdle_leadsUpTo hidle
    (s.leadsUpTo_chosen slope (Scalar.least cut cap) cap)
  have hlawful := hready.begun hquiet (s.pass slope (Scalar.least cut cap) cap) hcall
  have hnotified := (s.chosen slope (Scalar.least cut cap) cap).leadsUpTo_begun
    (s.pass slope (Scalar.least cut cap) cap) reply search
  refine ⟨fun hstatus => ?_, fun _ => hlawful⟩
  exact
    { answers := hlawful.answers
      obeys := hlawful.obeys
      idle := nofun
      asked := fun _ =>
        ⟨⟨(hnotified.view lastReply_bookkeeping).trans (by rw [← hstatus]; rfl),
          ⟨_, hnotified.view lastSearch_bookkeeping, rfl⟩⟩,
        hnotified.view callsSinceReply_bookkeeping⟩ }

theorem Heard.ensures_seek [Capacity m] (h : s.Heard p first) :
    Ensures (s.seek p) (fun s => s.Heard p first) (fun _ s => s.Lawful p first) := by
  refine ensures_seek_steers (fun _ => h) (fun hidle ready slope cut hready => ?_)
    fun _ _ ready hready => h.toLawful.leadsUpTo hready
  exact (h.toLawful.leadsUpTo hready.toLeadsUpTo).ensures_begin
    (isIdle_leadsUpTo (h.idle hidle) hready.toLeadsUpTo) slope cut

theorem Heard.ensures_meter (h : s.Heard p first) :
    Ensures (s.meter p) (fun s => (s.advance p).Trying p first)
      (fun _ s => s.Lawful p first) := by
  refine State.ensures_meter (fun _ _ => h.toLawful) fun _ => ?_
  exact
    { answers := h.answers
      obeys := h.obeys
      idle := h.idle
      asked := fun hsearching => ⟨⟨(h.asked hsearching).1.reply, (h.asked hsearching).1.start⟩,
        (h.asked hsearching).2⟩
      point := fun _ => rfl }

theorem Trying.ensures_turn [Capacity m] (h : s.Trying p first) :
    Ensures (s.turn p) (fun s => s.Trying p first) (fun _ s => s.Lawful p first) :=
  State.ensures_turn h.ensures_project (fun _ hs => hs.ensures_evaluate)
    (fun _ hs => hs.ensures_measure) (fun _ hs => hs.ensures_settle)
    (fun _ hs => hs.ensures_consult) (fun _ hs => hs.ensures_seek)
    (fun _ hs => hs.ensures_meter)

end State

namespace Problem

variable [Scalar α] [Capacity m] {p : Problem α σ τ n}

/-- A run keeps the protocol with its line search, whatever the line search answers. -/
theorem line_search_protocol {turns : ℕ} {x : Vec α n} {objective : σ} {search : τ}
    {t : Transcript α n} (ht : (p.solve m turns x objective search).2.transcript = t) :
    (∃ last, p.search.Answers search t last) ∧
      (∃ newer, t = newer ++ [.searchReset] ∧ .searchReset ∉ newer) ∧
      (∀ step value slope status next older,
        .iterated step value slope status next :: older <:+ t → p.Tried older step value) ∧
      (∀ step value slope older,
        .unanswered step value slope :: older <:+ t → p.Tried older step value) ∧
      ∀ call older status next, call :: older <:+ t → isSearchCall call = true →
        lastReply older = some (status, next) →
          ((∃ origin pass reply first, call = .started origin pass reply first) ↔
            status ≠ .searching) := by
  -- The rows that are printed at the end are no calls, so the record stays lawful.
  have hrun : (∃ last, p.search.Answers search t last) ∧ Always p.Obeys t := by
    rw [← ht]
    refine State.solve_transcript
      (P := fun t => (∃ last, p.search.Answers search t last) ∧ Always p.Obeys t)
      (fun t ⟨⟨last, hlast⟩, hobeys⟩ => ⟨⟨last, hlast.aside rfl⟩, hobeys.cons trivial⟩)
      (fun _ t ⟨⟨last, hlast⟩, hobeys⟩ => ⟨⟨last, hlast.aside rfl⟩, hobeys.cons trivial⟩)
      (fun s (hs : s.Trying p search) =>
        hs.ensures_turn.mono (fun _ h => h) fun _ s hs => ⟨⟨_, hs.answers⟩, hs.obeys⟩)
      (fun s hs => ⟨⟨_, hs.answers⟩, hs.obeys⟩) turns x objective search
      (State.initial_trying p x objective search)
  obtain ⟨⟨last, hanswers⟩, hobeys⟩ := hrun
  refine ⟨⟨last, hanswers⟩, hanswers.reset_once, ?_, ?_, ?_⟩
  · intro step value slope status next older hsuffix
    exact hobeys _ _ hsuffix
  · intro step value slope older hsuffix
    exact hobeys _ _ hsuffix
  · intro call older status next hsuffix hcall hreply
    have hright := hobeys call older hsuffix
    cases call with
    | searchReset =>
      cases hright
      cases hreply
    | started origin pass reply first =>
      exact iff_of_true ⟨origin, pass, reply, first, rfl⟩ (hright _ hreply)
    | iterated step value slope status' next' =>
      cases hright.asked.symm.trans hreply
      exact iff_of_false (by rintro ⟨_, _, _, _, ⟨⟩⟩) fun hne => hne rfl
    | unanswered step value slope =>
      cases hright.asked.symm.trans hreply
      exact iff_of_false (by rintro ⟨_, _, _, _, ⟨⟩⟩) fun hne => hne rfl
    | _ => cases hcall

end Problem

theorem Sample.tightRun_protocol :
    ∃ older : Transcript Float (Shape.size [1]),
      .iterated 0.034482758000546225 3.9199999916553496 0.0 .searching Scalar.infinity :: older <:+
        (tightRun 1).2.transcript ∧
      callsSinceReply older = [(⟨[0.20000000298023224], rfl⟩, some 3.9199999916553496)] ∧
      tightProblem.Tried older 0.034482758000546225 3.9199999916553496 ∧
      .searchReset ∉ (tightRun 1).2.transcript.dropLast := by
  have hevent : (tightRun 1).2.transcript[1]? =
      some (.iterated 0.034482758000546225 3.9199999916553496 0.0 .searching Scalar.infinity) := by
    decide +kernel
  obtain ⟨hlt, heq⟩ := List.getElem?_eq_some_iff.mp hevent
  have hsuffix : .iterated 0.034482758000546225 3.9199999916553496 0.0 .searching
      Scalar.infinity :: (tightRun 1).2.transcript.drop 2 <:+ (tightRun 1).2.transcript := by
    rw [← heq, ← List.drop_eq_getElem_cons hlt]
    exact List.drop_suffix 1 _
  have hrun : tightProblem.solve 1 5 (.replicate _ 0.0) 0 () = tightRun 1 := rfl
  obtain ⟨-, ⟨newer, hreset, honce⟩, htried, -, -⟩ :=
    Problem.line_search_protocol (congrArg (fun run => run.2.transcript) hrun)
  refine ⟨(tightRun 1).2.transcript.drop 2, hsuffix, by decide +kernel, ?_, ?_⟩
  · exact htried _ _ _ _ _ _ hsuffix
  · rw [hreset, List.dropLast_concat]
    exact honce

end VariableMetric
