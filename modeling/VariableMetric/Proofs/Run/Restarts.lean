import VariableMetric.Proofs.Memory.Ring
import VariableMetric.Proofs.Run.Counters

/-!
# Restarts along the steepest descent

The first direction of a run is the steepest descent.  It is taken again only if the
memory has none to offer that descends, or if the last search has failed and the memory
was emptied for it; either counts as a restart.  A pass never counts twice, for there is
no pair to ask the memory for in the pass after a failed search.

A search along the steepest descent that fails ends the run, so that no two searches fail
one after the other and the run goes on.
-/

namespace VariableMetric

variable {α σ τ : Type} {n m : ℕ}

namespace Transcript

/-- How many passes went along the steepest descent. -/
def steepestPasses (t : Transcript α n) : ℕ := (passes t).countP Pass.steepest

/-- How many searches have failed since one was accepted. -/
def failedInARow : Transcript α n → ℕ
  | [] => 0
  | .iterated _ _ _ .converged _ :: _ => 0
  | .iterated _ _ _ .failed _ :: t => failedInARow t + 1
  | .started _ _ .converged _ :: t => failedInARow t + 1
  | .started _ _ .failed _ :: t => failedInARow t + 1
  | _ :: t => failedInARow t

variable {e : Event α n} {t : Transcript α n}

theorem steepestPasses_chosen (pass : Pass α n) (t : Transcript α n) :
    steepestPasses (.chosen pass :: t) =
      steepestPasses t + if pass.steepest then 1 else 0 := by
  unfold steepestPasses
  rw [passes_chosen, List.countP_append]
  simp

theorem failedInARow_of_not_isSearchCall (h : isSearchCall e = false) (t : Transcript α n) :
    failedInARow (e :: t) = failedInARow t := by
  cases e <;> first | rfl | cases h

theorem failedInARow_bookkeeping (e : Event α n) (t : Transcript α n)
    (h : isBookkeeping e = true) : failedInARow (e :: t) = failedInARow t :=
  failedInARow_of_not_isSearchCall (isSearchCall_of_isBookkeeping h) t

theorem isPass_of_isTable (h : isTable e = true) : isPass e = false := by
  cases e <;> first | rfl | cases h

theorem isAside_of_isBookkeeping (h : isBookkeeping e = true) : isAside e = true := by
  cases e <;> first | rfl | cases h

end Transcript

open Transcript

/-- A pass along the opposite of the projected gradient where the run stands. -/
def Problem.IsSteepest [Scalar α] (p : Problem α σ τ n) (older : Transcript α n)
    (pass : Pass α n) : Prop :=
  ∃ i projected, standing older = some i ∧
    p.feasible.projectGradient i.point i.gradient = .ok projected ∧
    pass.direction = projected.scale p.precision (-1)

/-- Whether an event may follow what was on record before it. -/
structure Problem.Restarts [Scalar α] (p : Problem α σ τ n) (e : Event α n)
    (older : Transcript α n) : Prop where
  steepest : ∀ pass, e = .chosen pass → pass.steepest = true → p.IsSteepest older pass
  call : isCall e = true ∨ isSearchCall e = true → failedInARow older ≤ 1

section Record

variable [Scalar α] {p : Problem α σ τ n} {e : Event α n} {t added : Transcript α n}

theorem Problem.restarts_call (h : isPass e = false) (hfailed : failedInARow t ≤ 1) :
    p.Restarts e t where
  steepest := by
    rintro pass rfl
    cases h
  call _ := hfailed

theorem Problem.restarts_aside (h : isPass e = false) (hbookkeeping : isBookkeeping e = true)
    (t : Transcript α n) : p.Restarts e t where
  steepest := by
    rintro pass rfl
    cases h
  call hcall := by
    rcases hcall with hcall | hcall
    · rw [isCall_of_isBookkeeping hbookkeeping] at hcall
      cases hcall
    · rw [isSearchCall_of_isBookkeeping hbookkeeping] at hcall
      cases hcall

/-- Once two searches have failed in a row, nothing is called any more. -/
theorem Transcript.Always.no_call {newer older : Transcript α n}
    (h : Always p.Restarts (newer ++ older)) (hfailed : 2 ≤ failedInARow older) :
    (∀ e ∈ newer, isCall e = false ∧ isSearchCall e = false) ∧
      failedInARow (newer ++ older) = failedInARow older := by
  induction newer with
  | nil => exact ⟨nofun, rfl⟩
  | cons e newer ih =>
    obtain ⟨hnone, hsame⟩ := ih h.tail
    have hquiet : ¬ (isCall e = true ∨ isSearchCall e = true) := by
      intro hcall
      have hle : failedInARow (newer ++ older) ≤ 1 := h.head.call hcall
      rw [hsame] at hle
      omega
    have he : isCall e = false ∧ isSearchCall e = false := by simpa using hquiet
    constructor
    · intro e' he'
      rcases List.mem_cons.mp he' with rfl | he'
      · exact he
      · exact hnone e' he'
    · rw [List.cons_append, failedInARow_of_not_isSearchCall he.2, hsame]

end Record

namespace State

variable [Scalar α] {p : Problem α σ τ n} {first : τ} {s ready : State α σ τ n m}

/-! ## The invariants of a run -/

/-- A search is under way, along the steepest descent if the last one has failed. -/
structure Relaunched (s : State α σ τ n m) : Prop where
  passes : steepestPasses s.transcript = s.restarts + 1
  failed : failedInARow s.transcript ≤ if s.steepest then 1 else 0

/-- No search has been begun. -/
structure Unlaunched (s : State α σ τ n m) : Prop where
  passes : passes s.transcript = []
  restarts : s.restarts = 0
  iterations : s.iterations = 0
  live : s.memory.live = 0
  failed : failedInARow s.transcript = 0
  reply : lastReply s.transcript = none

/-- Until the line search is told of a trial. -/
structure Resting (p : Problem α σ τ n) (s : State α σ τ n m) : Prop where
  always : Always p.Restarts s.transcript
  restored : s.restored = false
  busy : s.searching = true → s.Relaunched
  idle : s.searching = false → s.Unlaunched

/-- The objective has answered where the run stands. -/
structure Stationed (p : Problem α σ τ n) (s : State α σ τ n m) : Prop
    extends s.Resting p where
  standing : standing s.transcript = some s.current

/-- The gradient has been projected there. -/
structure Surveyed (p : Problem α σ τ n) (s : State α σ τ n m) : Prop
    extends s.Stationed p where
  projected : p.feasible.projectGradient s.current.point s.current.gradient = .ok s.projected

/-- A direction is to be taken.  The last pass has been made good by a restart unless there
is a pair to take the direction from. -/
structure Prepared (p : Problem α σ τ n) (s : State α σ τ n m) : Prop where
  always : Always p.Restarts s.transcript
  standing : standing s.transcript = some s.current
  projected : p.feasible.projectGradient s.current.point s.current.gradient = .ok s.projected
  failed : failedInARow s.transcript ≤ 1
  paired : s.HasPairs →
    steepestPasses s.transcript = s.restarts + 1 ∧ failedInARow s.transcript = 0
  unpaired : ¬ s.HasPairs → steepestPasses s.transcript = s.restarts

/-- The line search has had its say. -/
structure Advised (p : Problem α σ τ n) (s : State α σ τ n m) : Prop where
  always : Always p.Restarts s.transcript
  restored : s.searching = true → s.restored = false
  busy : s.searching = true → s.Relaunched
  idle : s.searching = false → s.Prepared p

/-- A search has been begun. -/
structure Launched (p : Problem α σ τ n) (s : State α σ τ n m) : Prop where
  always : Always p.Restarts s.transcript
  restored : s.restored = false
  searching : s.searching = true
  relaunched : s.Relaunched

/-- The passes of a run that has ended with a status. -/
structure Settles (p : Problem α σ τ n) (status : Status) (s : State α σ τ n m) : Prop where
  always : Always p.Restarts s.transcript
  passes : passes s.transcript ≠ [] → steepestPasses s.transcript = s.restarts + 1
  failed : 2 ≤ failedInARow s.transcript → status = .lineSearchFailure

/-- However a turn ends, unless it is for a fault. -/
abbrev EndsSettled (p : Problem α σ τ n) (ending : Ending) (s : State α σ τ n m) : Prop :=
  ∀ status, ending = .status status → s.Settles p status

theorem endsSettled_fault (fault : Fault) (s : State α σ τ n m) :
    s.EndsSettled p (.fault fault) :=
  nofun

theorem Settles.ends {status : Status} (h : s.Settles p status) :
    s.EndsSettled p (.status status) := by
  intro status' heq
  cases heq
  exact h

theorem Relaunched.settles (h : s.Relaunched) (halways : Always p.Restarts s.transcript)
    {status : Status} (hfailed : s.steepest = true → 2 ≤ failedInARow s.transcript →
      status = .lineSearchFailure) : s.EndsSettled p (.status status) := by
  apply Settles.ends
  refine ⟨halways, fun _ => h.passes, fun htwo => ?_⟩
  cases hsteepest : s.steepest with
  | true => exact hfailed hsteepest htwo
  | false =>
    have hnone := h.failed
    simp only [hsteepest, Bool.false_eq_true, if_false] at hnone
    omega

omit [Scalar α] in
theorem Relaunched.failed_le (h : s.Relaunched) : failedInARow s.transcript ≤ 1 := by
  have hfailed := h.failed
  split at hfailed <;> omega

theorem Resting.failed_le (h : s.Resting p) : failedInARow s.transcript ≤ 1 := by
  cases hsearching : s.searching with
  | true => exact (h.busy hsearching).failed_le
  | false => exact (h.idle hsearching).failed.le.trans (Nat.zero_le 1)

theorem Resting.settles (h : s.Resting p) (status : Status) :
    s.EndsSettled p (.status status) := by
  have hfailed := h.failed_le
  apply Settles.ends
  refine ⟨h.always, fun hpassed => ?_, fun htwo => by omega⟩
  cases hsearching : s.searching with
  | true => exact (h.busy hsearching).passes
  | false => exact absurd (h.idle hsearching).passes hpassed

theorem initial_resting (p : Problem α σ τ n) (x : Vec α n) (objective : σ) (search : τ) :
    (State.initial p x objective search : State α σ τ n m).Resting p where
  always := always_nil.cons (Problem.restarts_call rfl (Nat.zero_le 1))
  restored := rfl
  busy := nofun
  idle _ := ⟨rfl, rfl, rfl, rfl, rfl, rfl⟩

/-! ## The call -/

theorem Resting.ensures_project (h : s.Resting p) :
    Ensures (s.project p) (fun s => s.Resting p) (fun e s => s.EndsSettled p e) := by
  apply State.ensures_project
  · intro x _
    exact ⟨h.always, h.restored, fun hon => { h.busy hon with }, fun hon => { h.idle hon with }⟩
  · exact fun _ _ => endsSettled_fault _ _

theorem Resting.ensures_evaluate (h : s.Resting p) :
    Ensures (s.evaluate p) (fun s => s.Stationed p) (fun e s => s.EndsSettled p e) := by
  apply State.ensures_evaluate
  · intro value gradient objective _
    have hpasses (i : Iterate α n) :
        passes (.evaluated i :: s.transcript) = passes s.transcript :=
      passes_of_not_isPass rfl _
    exact
      { always := h.always.cons (Problem.restarts_call rfl h.failed_le)
        restored := h.restored
        busy := fun hon =>
          ⟨(congrArg (List.countP Pass.steepest) (hpasses _)).trans (h.busy hon).passes,
            (h.busy hon).failed⟩
        idle := fun hon => { h.idle hon with passes := (hpasses _).trans (h.idle hon).passes }
        standing := rfl }
  · exact fun _ _ _ => endsSettled_fault _ _

theorem Stationed.ensures_measure (h : s.Stationed p) :
    Ensures (s.measure p) (fun s => s.Surveyed p) (fun e s => s.EndsSettled p e) := by
  apply State.ensures_measure
  · intro projected hprojected
    exact
      { always := h.always
        restored := h.restored
        busy := fun hon => { h.busy hon with }
        idle := fun hon => { h.idle hon with }
        standing := h.standing
        projected := hprojected }
  · exact fun _ _ => endsSettled_fault _ _

theorem Surveyed.ensures_settle (h : s.Surveyed p) :
    Ensures (s.setThreshold p).settle (fun s => s.Surveyed p) (fun e s => s.EndsSettled p e) := by
  have hset : (s.setThreshold p).Surveyed p :=
    setThreshold_of (·.Surveyed p) fun _ =>
      { always := h.always
        restored := h.restored
        busy := fun hon => { h.busy hon with }
        idle := fun hon => { h.idle hon with }
        standing := h.standing
        projected := h.projected }
  apply State.ensures_settle
  · intro _ status hstatus
    have hended := hset.settles status status rfl
    exact { hended with }
  · exact fun _ => hset

/-! ## The answer of the line search -/

section Told

variable {slope : α} {reply : Reply α} {search : τ}

omit [Scalar α] in
theorem steepestPasses_told :
    steepestPasses (s.told slope reply search).transcript = steepestPasses s.transcript := by
  have hpasses : passes (s.told slope reply search).transcript = passes s.transcript :=
    (passes_notices reply.notices _).trans (passes_of_not_isPass rfl _)
  exact congrArg (List.countP Pass.steepest) hpasses

omit [Scalar α] in
theorem standing_told :
    standing (s.told slope reply search).transcript = standing s.transcript :=
  (s.standsLike_told slope reply search).standing

omit [Scalar α] in
theorem failedInARow_told : failedInARow (s.told slope reply search).transcript =
    failedInARow
      (.iterated s.step s.current.value slope reply.status reply.step :: s.transcript) :=
  (s.leadsUpTo_told slope reply search).view failedInARow_bookkeeping

theorem Resting.told (h : s.Resting p) :
    Always p.Restarts (s.told slope reply search).transcript := by
  have hiterated := h.always.cons (e := .iterated s.step s.current.value slope reply.status
    reply.step) (Problem.restarts_call rfl h.failed_le)
  exact hiterated.notices fun _ _ => Problem.restarts_aside rfl rfl

/-- The pair that leads to an accepted iterate is due, so that there is something to ask the
memory for. -/
theorem Surveyed.ensures_accept (h : s.Surveyed p) (hsearching : s.searching = true)
    (hstatus : reply.status = .converged) :
    Ensures ((s.told slope reply search).accept p) (fun s => s.Advised p)
      (fun e s => s.EndsSettled p e) := by
  have hfailed : failedInARow (s.told slope reply search).transcript = 0 := by
    rw [failedInARow_told, hstatus]
    rfl
  have hpasses : steepestPasses (s.told slope reply search).transcript = s.restarts + 1 :=
    steepestPasses_told.trans (h.busy hsearching).passes
  apply State.ensures_accept
  · intro _ _
    apply Settles.ends
    exact ⟨h.told, fun _ => hpasses, fun htwo => absurd htwo (by
      show ¬ 2 ≤ failedInARow (s.told slope reply search).transcript
      omega)⟩
  · intro _
    have hpaired : (s.told slope reply search).accepted.HasPairs :=
      .inl ⟨Nat.le_add_left 1 _, h.restored⟩
    exact
      { always := h.told
        restored := nofun
        busy := nofun
        idle := fun _ =>
          { always := h.told
            standing := standing_told.trans h.standing
            projected := h.projected
            failed := hfailed.le.trans (Nat.zero_le 1)
            paired := fun _ => ⟨hpasses, hfailed⟩
            unpaired := fun hnot => absurd hpaired hnot } }

/-- A search that is undone leaves no pair, and its restart makes its pass good. -/
theorem Surveyed.sentBack (h : s.Surveyed p) (htried : s.Tried p first)
    (hsearching : s.searching = true) (hstatus : reply.status = .failed)
    (hsteepest : s.steepest = false) {projected : Vec α n}
    (hprojected : p.feasible.projectGradient s.origin.point s.origin.gradient = .ok projected) :
    ((s.told slope reply search).sentBack projected).Advised p := by
  have hbusy := h.busy hsearching
  have hnone : failedInARow s.transcript = 0 := by
    have hle := hbusy.failed
    simpa [hsteepest] using hle
  have horigin : (origins (s.told slope reply search).transcript).getLast? = some s.origin := by
    obtain ⟨pass, hpass, -⟩ := (htried.asked hsearching).start
    obtain ⟨older, heq⟩ := origins_of_lastSearch hpass
    rw [(s.standsLike_told slope reply search).origins, heq, List.getLast?_concat]
  have hone : failedInARow (.noticed (.searchAbandoned s.iterations) ::
      (s.told slope reply search).transcript) ≤ 1 := by
    rw [failedInARow_of_not_isSearchCall rfl, failedInARow_told, hstatus, failedInARow, hnone]
  have halways : Always p.Restarts ((s.told slope reply search).sentBack projected).transcript :=
    (h.told.cons (Problem.restarts_aside rfl rfl _)).cons (Problem.restarts_call rfl hone)
  have hunpaired : ¬ ((s.told slope reply search).sentBack projected).HasPairs := by
    rintro (⟨-, hrestored⟩ | hlive)
    · cases hrestored
    · cases hlive
  exact
    { always := halways
      restored := nofun
      busy := nofun
      idle := fun _ =>
        { always := halways
          standing := (congrArg List.getLast? (origins_aside rfl _)).trans horigin
          projected := hprojected
          failed := hone
          paired := fun hpaired => absurd hpaired hunpaired
          unpaired := fun _ => steepestPasses_told.trans hbusy.passes } }

theorem Surveyed.ensures_abandon (h : s.Surveyed p) (htried : s.Tried p first)
    (hsearching : s.searching = true) (hstatus : reply.status = .failed) :
    Ensures ((s.told slope reply search).abandon p) (fun s => s.Advised p)
      (fun e s => s.EndsSettled p e) := by
  apply State.ensures_abandon
  · intro _
    apply Settles.ends
    exact ⟨h.told, fun _ => steepestPasses_told.trans (h.busy hsearching).passes, fun _ => rfl⟩
  · intro hsteepest projected hprojected
    exact h.sentBack htried hsearching hstatus hsteepest hprojected
  · exact fun _ _ => endsSettled_fault _ _

end Told

theorem Unlaunched.prepared (h : s.Unlaunched) (hsurveyed : s.Surveyed p) : s.Prepared p where
  always := hsurveyed.always
  standing := hsurveyed.standing
  projected := hsurveyed.projected
  failed := h.failed.le.trans (Nat.zero_le 1)
  paired hpaired := by
    rcases hpaired with ⟨hiterations, -⟩ | hlive
    · exact absurd hiterations (by rw [h.iterations]; omega)
    · exact absurd hlive (by rw [h.live]; omega)
  unpaired _ := by
    rw [steepestPasses, h.passes, h.restarts]
    rfl

theorem Surveyed.ensures_consult (h : s.Surveyed p) (htried : s.Tried p first) :
    Ensures (s.consult p) (fun s => s.Advised p) (fun e s => s.EndsSettled p e) := by
  have hquiet (hidle : s.searching = false) : s.Advised p :=
    ⟨h.always, fun _ => h.restored, h.busy, fun _ => (h.idle hidle).prepared h⟩
  refine State.ensures_consult hquiet fun hsearching => ?_
  apply ensures_report
  · intro slope reply search _ _
    cases hstatus : reply.status with
    | searching =>
      have hbusy := h.busy hsearching
      have hfailed : failedInARow (s.told slope reply search).transcript =
          failedInARow s.transcript := by
        rw [failedInARow_told, hstatus]
        rfl
      have hrelaunched : (s.told slope reply search).Relaunched :=
        ⟨steepestPasses_told.trans hbusy.passes,
          hfailed.le.trans hbusy.failed⟩
      exact ⟨h.told, fun _ => h.restored, fun _ => hrelaunched,
        fun hidle => absurd (hsearching.symm.trans hidle) nofun⟩
    | converged => exact h.ensures_accept hsearching hstatus
    | failed => exact h.ensures_abandon htried hsearching hstatus
  · exact fun _ _ => endsSettled_fault _ _
  · exact fun _ _ _ _ => endsSettled_fault _ _

/-! ## The next search -/

/-- A direction has been taken.  The steepest descent counts as one more pass. -/
structure Turned (p : Problem α σ τ n) (s : State α σ τ n m) : Prop where
  always : Always p.Restarts s.transcript
  restored : s.restored = false
  passes : steepestPasses s.transcript + (if s.steepest then 1 else 0) = s.restarts + 1
  failed : failedInARow s.transcript ≤ if s.steepest then 1 else 0
  descent : s.steepest = true → ∃ i projected, standing s.transcript = some i ∧
    p.feasible.projectGradient i.point i.gradient = .ok projected ∧
    s.direction = projected.scale p.precision (-1)

theorem Prepared.steers (h : s.Prepared p) (hready : s.Steers p s.HasPairs ready) :
    ready.Turned p := by
  obtain ⟨added, heq, hadded⟩ := hready.added
  have hnone : ∀ e ∈ added, isPass e = false :=
    isPass_eq_false_of_passes_append (heq ▸ hready.passes)
  have hpasses : steepestPasses ready.transcript = steepestPasses s.transcript :=
    congrArg (List.countP Pass.steepest) hready.passes
  have hfailed := hready.view failedInARow_bookkeeping
  constructor
  · rw [heq]
    exact h.always.append
      (fun e t (he : isPass e = false ∧ isBookkeeping e = true) =>
        Problem.restarts_aside he.1 he.2 t)
      fun e he => ⟨hnone e he, hadded e he⟩
  · exact hready.restored
  · rw [hpasses]
    cases hsteepest : ready.steepest with
    | false =>
      obtain ⟨hpaired, hrestarts⟩ := hready.pairs hsteepest
      rw [(h.paired hpaired).1, hrestarts]
      rfl
    | true =>
      by_cases hpaired : s.HasPairs
      · rw [(h.paired hpaired).1, hready.restart hsteepest hpaired]
        rfl
      · rw [h.unpaired hpaired, hready.first hsteepest hpaired]
        rfl
  · rw [hfailed]
    cases hsteepest : ready.steepest with
    | false => exact (h.paired (hready.pairs hsteepest).1).2.le
    | true => exact h.failed
  · intro hsteepest
    refine ⟨s.current, s.projected, ?_, h.projected, hready.descent hsteepest⟩
    exact (hready.view fun e t he => standing_aside (isAside_of_isBookkeeping he) t).trans
      h.standing

theorem Turned.chosen (h : s.Turned p) (slope step cap : α) :
    Always p.Restarts (s.chosen slope step cap).transcript ∧
      (s.chosen slope step cap).Relaunched := by
  constructor
  · apply h.always.cons
    constructor
    · rintro pass ⟨⟩ hsteepest
      exact h.descent hsteepest
    · rintro (hcall | hcall) <;> cases hcall
  · constructor
    · show steepestPasses (.chosen (s.pass slope step cap) :: s.transcript) = s.restarts + 1
      rw [steepestPasses_chosen]
      exact h.passes
    · exact (failedInARow_of_not_isSearchCall rfl s.transcript).le.trans h.failed

theorem Relaunched.begun (h : s.Relaunched) (halways : Always p.Restarts s.transcript)
    (pass : Pass α n) (reply : Reply α) (search : τ) :
    Always p.Restarts (s.begun pass reply search).transcript ∧
      steepestPasses (s.begun pass reply search).transcript = s.restarts + 1 ∧
      failedInARow (s.begun pass reply search).transcript =
        failedInARow (.started s.current pass reply.status reply.step :: s.transcript) := by
  have hnotified := s.leadsUpTo_begun pass reply search
  have hpasses : Transcript.passes (s.begun pass reply search).transcript =
      Transcript.passes s.transcript :=
    (passes_notices reply.notices _).trans (passes_of_not_isPass rfl _)
  have hstarted := halways.cons (e := .started s.current pass reply.status reply.step)
    (Problem.restarts_call rfl h.failed_le)
  exact ⟨hstarted.notices fun _ _ => Problem.restarts_aside rfl rfl,
    (congrArg (List.countP Pass.steepest) hpasses).trans h.passes,
    hnotified.view failedInARow_bookkeeping⟩

theorem Turned.ensures_begin (h : s.Turned p) (slope cut : α) :
    Ensures (s.begin p slope cut) (fun s => s.Launched p) (fun e s => s.EndsSettled p e) := by
  apply State.ensures_begin
  · intro cap _ _
    obtain ⟨halways, hrelaunched⟩ := h.chosen slope (Scalar.least cut cap) cap
    have hfailed := hrelaunched.failed_le
    exact hrelaunched.settles halways fun _ htwo => by omega
  · intro cap reply search _ _ _
    obtain ⟨halways, hrelaunched⟩ := h.chosen slope (Scalar.least cut cap) cap
    obtain ⟨hbegun, hpasses, hfailed⟩ :=
      hrelaunched.begun halways (s.pass slope (Scalar.least cut cap) cap) reply search
    constructor
    · intro hstatus
      rw [hstatus] at hfailed
      exact ⟨hbegun, h.restored, rfl, hpasses, hfailed.le.trans hrelaunched.failed⟩
    · intro _
      apply Settles.ends
      exact ⟨hbegun, fun _ => hpasses, fun _ => rfl⟩
  · exact fun _ _ => endsSettled_fault _ _

theorem Advised.ensures_seek [Capacity m] (h : s.Advised p) :
    Ensures (s.seek p) (fun s => s.Launched p) (fun e s => s.EndsSettled p e) := by
  apply ensures_seek_steers
  · exact fun hsearching => ⟨h.always, h.restored hsearching, hsearching, h.busy hsearching⟩
  · intro hidle ready slope cut hready
    exact ((h.idle hidle).steers hready).ensures_begin slope cut
  · exact fun _ _ _ _ => endsSettled_fault _ _

theorem Launched.ensures_meter (h : s.Launched p) :
    Ensures (s.meter p) (fun s => (s.advance p).Resting p) (fun e s => s.EndsSettled p e) := by
  apply State.ensures_meter
  · intro _ _
    have hfailed := h.relaunched.failed_le
    exact h.relaunched.settles h.always fun _ htwo => by omega
  · intro _
    exact ⟨h.always, h.restored, fun _ => { h.relaunched with },
      fun hidle => absurd (h.searching.symm.trans hidle) nofun⟩

/-! ## After a failed search -/

/-- The run has gone back to where the search began, and has forgotten its pairs. -/
structure Undone (p : Problem α σ τ n) (told sent : State α σ τ n m) : Prop where
  current : sent.current = told.origin
  projected : p.feasible.projectGradient told.origin.point told.origin.gradient =
    .ok sent.projected
  live : sent.memory.live = 0
  restored : sent.restored = true
  searching : sent.searching = false
  began : ∃ pass, lastSearch told.transcript = some (told.origin, pass)

theorem Surveyed.ensures_consult_undone (h : s.Surveyed p) (htried : s.Tried p first) :
    Ensures (s.consult p)
      (fun sent => ∀ next, lastReply sent.transcript = some (.failed, next) → s.Undone p sent)
      fun _ _ => True := by
  have hquiet (hidle : s.searching = false) (next : α)
      (hnext : lastReply s.transcript = some (.failed, next)) : s.Undone p s := by
    rw [(h.idle hidle).reply] at hnext
    cases hnext
  refine State.ensures_consult hquiet fun hsearching => ?_
  apply ensures_report
  · intro slope reply search _ _
    have hreply : lastReply (s.told slope reply search).transcript =
        some (reply.status, reply.step) :=
      (s.leadsUpTo_told slope reply search).view lastReply_bookkeeping
    cases hstatus : reply.status with
    | searching =>
      rintro next hnext
      rw [hreply, hstatus] at hnext
      cases hnext
    | converged =>
      apply State.ensures_accept
      · exact fun _ _ => trivial
      · intro _ next hnext
        rw [accepted, hreply, hstatus] at hnext
        cases hnext
    | failed =>
      apply State.ensures_abandon
      · exact fun _ => trivial
      · intro _ projected hprojected _ _
        obtain ⟨pass, hpass, -⟩ := (htried.asked hsearching).start
        exact ⟨rfl, hprojected, rfl, rfl, rfl, pass, hpass⟩
      · exact fun _ _ => trivial
  · exact fun _ _ => trivial
  · exact fun _ _ _ _ => trivial

/-- Where a failed search has been undone, nothing is printed, pushed or asked for, and the
steepest descent is taken. -/
theorem Undone.seek_eq [Capacity m] {sent : State α σ τ n m} (h : s.Undone p sent) :
    sent.seek p = State.descend p { sent with restored := false } := by
  have hprinted : sent.printDue p = sent := by
    unfold printDue
    simp [h.restored]
  have hremembered : sent.remember p = .ok sent := by
    unfold remember
    simp [h.restored]
  rw [seek_of_idle h.searching, hprinted, hremembered]
  show State.choose p { sent with restored := false } = _
  unfold choose
  exact if_pos (by simp [h.live])

/-! ## Turns and runs -/

/-- A run between two turns that keeps the protocol with its line search. -/
structure Restful (p : Problem α σ τ n) (first : τ) (s : State α σ τ n m) : Prop where
  resting : s.Resting p
  trying : s.Trying p first

theorem Restful.ensures_gauge (h : s.Restful p first) :
    Ensures (s.gauge p) (fun s => s.Surveyed p ∧ s.Tried p first)
      (fun e s => s.EndsSettled p e ∧ s.Lawful p first) :=
  State.ensures_gauge (h.resting.ensures_project.and h.trying.ensures_project)
    (fun _ hs => hs.1.ensures_evaluate.and hs.2.ensures_evaluate)
    (fun _ hs => hs.1.ensures_measure.and hs.2.ensures_measure)
    (fun _ hs => hs.1.ensures_settle.and hs.2.ensures_settle)

variable [Capacity m]

theorem Restful.ensures_turn (h : s.Restful p first) :
    Ensures (s.turn p) (fun s => s.Restful p first) (fun e s => s.EndsSettled p e) := by
  rw [turn_eq]
  have hturn : Ensures (s.gauge p >>= fun s => s.consult p >>= fun s => s.seek p >>= fun s =>
      s.meter p >>= fun s => pure (s.advance p)) (fun s => s.Restful p first)
      (fun e s => s.EndsSettled p e ∧ s.Lawful p first) := by
    refine h.ensures_gauge.bind fun s hs => ?_
    refine ((hs.1.ensures_consult hs.2).and hs.2.ensures_consult).bind fun s hs => ?_
    refine (hs.1.ensures_seek.and hs.2.ensures_seek).bind fun s hs => ?_
    exact (hs.1.ensures_meter.and hs.2.ensures_meter).bind fun s hs => ⟨hs.1, hs.2⟩
  exact hturn.mono (fun _ hs => hs) fun _ _ hs => hs.1

theorem solve_restful {turns : ℕ} {x : Vec α n} {objective : σ} {search : τ}
    {outcome : Outcome α n} {last : State α σ τ n m}
    (h : p.solve m turns x objective search = (outcome, last)) :
    (outcome = .unfinished → last.Restful p search) ∧
      ∀ solution, outcome = .returned solution →
        ∃ s : State α σ τ n m, s.Settles p solution.status ∧ s.Closes last solution :=
  solve_closes (fun _ s (hs : s.Restful p search) => hs.ensures_turn)
    ⟨initial_resting p x objective search, initial_trying p x objective search⟩ h

end State

namespace Problem

variable [Scalar α] [Capacity m] {p : Problem α σ τ n} {turns : ℕ} {x : Vec α n}
  {objective : σ} {search : τ} {solution : Solution α n} {last : State α σ τ n m}

/-- In a run that has taken a direction and returns, the steepest descent was taken once at
first and once for every restart, always where the run stood.  After a failed search the run
is back at the origin of it, remembers no pair, pushes none, and takes the steepest descent.
When two searches have failed one after the other, nothing is called any more, and the run
ends for it. -/
theorem steepest_passes_eq (h : p.solve m turns x objective search = (.returned solution, last))
    (hpassed : passes last.transcript ≠ []) :
    (steepestPasses last.transcript = 1 + solution.restarts ∧
        ∀ pass older, .chosen pass :: older <:+ last.transcript → pass.steepest = true →
          p.IsSteepest older pass) ∧
      (∀ (k : ℕ) (s told sent : State α σ τ n m) (next : α),
        p.solve m k x objective search = (.unfinished, s) → s.gauge p = .ok told →
        told.consult p = .ok sent → lastReply sent.transcript = some (.failed, next) →
          (∃ pass, lastSearch told.transcript = some (told.origin, pass)) ∧
          sent.current = told.origin ∧
          p.feasible.projectGradient told.origin.point told.origin.gradient =
            .ok sent.projected ∧
          sent.memory.pairs = [] ∧
          sent.seek p = State.descend p { sent with restored := false }) ∧
      ∀ newer older, last.transcript = newer ++ older → 2 ≤ failedInARow older →
        solution.status = .lineSearchFailure ∧
          ∀ e ∈ newer, isCall e = false ∧ isSearchCall e = false := by
  obtain ⟨s, hsettles, hcloses⟩ := (State.solve_restful h).2 solution rfl
  obtain ⟨rows, heq, hrows⟩ := hcloses.table
  have halways : Always p.Restarts last.transcript := by
    rw [heq]
    refine hsettles.always.append (fun e t he => ?_) hrows
    exact restarts_aside (isPass_of_isTable he) (isBookkeeping_of_isTable he) t
  have hpasses : passes last.transcript = passes s.transcript :=
    hcloses.view fun e t he => passes_of_not_isPass (isPass_of_isTable he) t
  have hfailed : failedInARow last.transcript = failedInARow s.transcript :=
    hcloses.view fun e t he => failedInARow_bookkeeping e t (isBookkeeping_of_isTable he)
  refine ⟨⟨?_, ?_⟩, ?_, ?_⟩
  · rw [hpasses] at hpassed
    rw [steepestPasses, hpasses, hcloses.restarts, Nat.add_comm]
    exact hsettles.passes hpassed
  · intro pass older hsuffix
    exact (halways _ _ hsuffix).steepest pass rfl
  · intro k s told sent next hrun hgauge hconsult hreply
    have hrestful := (State.solve_restful hrun).1 rfl
    have htold := hrestful.ensures_gauge
    rw [hgauge] at htold
    have hsent := State.Surveyed.ensures_consult_undone htold.1 htold.2
    rw [hconsult] at hsent
    have hundone := hsent next hreply
    exact ⟨hundone.began, hundone.current, hundone.projected,
      Memory.pairs_eq_nil hundone.live, hundone.seek_eq⟩
  · intro newer older hsplit htwo
    rw [hsplit] at halways hfailed
    obtain ⟨hnone, hsame⟩ := halways.no_call htwo
    refine ⟨hsettles.failed ?_, hnone⟩
    rw [← hfailed, hsame]
    exact htwo

end Problem

/-! ## A sample run

Its first search is accepted, and no other one is: the second search fails, and so does
the one along the steepest descent that makes it good. -/

def LineSearch.firstAccepted : LineSearch Float ℕ where
  usesDerivative := false
  reset _ := 0
  start calls _ _ step _ := (⟨.searching, step, []⟩, calls)
  iterate calls step _ _ :=
    (.ok ⟨if calls = 0 then .converged else .failed, step, []⟩, calls + 1)

namespace Sample

def stuckProblem : Problem Float ℕ ℕ 1 :=
  { quarticProblem with
    search := .firstAccepted
    settings := ⟨-1, 6, (0.0, 1e-6), (0.5, 0.0), 1⟩ }

def stuckRun (turns : ℕ) : Outcome Float 1 × State Float ℕ ℕ 1 1 :=
  stuckProblem.solve 1 turns (.replicate 1 0.0) 0 0

def stuckSolution : Solution Float 1 :=
  ⟨⟨[1.5], rfl⟩, -10.734375, .lineSearchFailure, 1, 4, 1, 4.625⟩

theorem stuckRun_steepest :
    stuckRun 9 = (.returned stuckSolution, (stuckRun 9).2) ∧
      passes (stuckRun 9).2.transcript ≠ [] ∧
      steepestPasses (stuckRun 9).2.transcript = 1 + stuckSolution.restarts ∧
      (∃ told sent : State Float ℕ ℕ 1 1,
        stuckRun 2 = (.unfinished, (stuckRun 2).2) ∧
        (stuckRun 2).2.gauge stuckProblem = .ok told ∧
        told.consult stuckProblem = .ok sent ∧
        lastReply sent.transcript = some (.failed, 1.0) ∧ sent.current = told.origin ∧
        sent.memory.pairs = [] ∧
        sent.seek stuckProblem = State.descend stuckProblem { sent with restored := false }) ∧
      2 ≤ failedInARow ((stuckRun 9).2.transcript.drop 1) ∧
      stuckSolution.status = .lineSearchFailure ∧
      ∀ e ∈ (stuckRun 9).2.transcript.take 1, isCall e = false ∧ isSearchCall e = false := by
  have hreturned : stuckRun 9 = (.returned stuckSolution, (stuckRun 9).2) :=
    Outcome.eq_returned (by decide +kernel)
  have hpassed : passes (stuckRun 9).2.transcript ≠ [] := by decide +kernel
  have hrun : stuckRun 2 = (.unfinished, (stuckRun 2).2) :=
    Outcome.eq_unfinished (by decide +kernel)
  have hfailed : 2 ≤ failedInARow ((stuckRun 9).2.transcript.drop 1) := by decide +kernel
  -- The second search fails in the third turn.
  have hturn : (((stuckRun 2).2.gauge stuckProblem >>= State.consult stuckProblem).toOption.map
      fun sent => lastReply sent.transcript) = some (some (.failed, 1.0)) := by decide +kernel
  obtain ⟨hcount, hundone, hended⟩ := Problem.steepest_passes_eq hreturned hpassed
  obtain ⟨hstatus, hnone⟩ := hended _ _ (List.take_append_drop 1 _).symm hfailed
  refine ⟨hreturned, hpassed, hcount.1, ?_, hfailed, hstatus, hnone⟩
  obtain ⟨sent, hsent, hreply⟩ := Option.map_eq_some_iff.mp hturn
  cases hgauge : (stuckRun 2).2.gauge stuckProblem with
  | error result =>
    rw [hgauge] at hsent
    cases hsent
  | ok told =>
    rw [hgauge] at hsent
    have hconsult : told.consult stuckProblem = .ok sent := by
      change (told.consult stuckProblem).toOption = some sent at hsent
      cases hresult : told.consult stuckProblem with
      | error result =>
        rw [hresult] at hsent
        cases hsent
      | ok sent' =>
        rw [hresult] at hsent
        cases hsent
        rfl
    obtain ⟨-, hcurrent, -, hpairs, hseek⟩ := hundone 2 _ told sent _ hrun hgauge hconsult hreply
    exact ⟨told, sent, hrun, rfl, hconsult, hreply, hcurrent, hpairs, hseek⟩

end Sample

end VariableMetric
