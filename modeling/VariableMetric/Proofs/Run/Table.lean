import VariableMetric.Proofs.Run.Printed
import VariableMetric.Proofs.Run.Restarts

/-!
# The table that a run prints

A row is printed before a direction is taken from an iterate whose number is a multiple of
the interval, unless a failed search has led back there, and one more row when the run has
ended.  So the rows before the last one belong to the multiples of the interval, in order and
each of them once.

The head is printed above every row that tells one evaluation.  The first row of a run is such
a row, and the last one is too if the run ends before its second evaluation.  Unless such a run
has converged at its start, it prints the head twice.
-/

namespace VariableMetric

variable {α σ τ : Type} {n m : ℕ}

open Transcript

namespace State

variable {p : Problem α σ τ n} {first : τ} {k calls : ℕ} {s ready : State α σ τ n m}

/-! ## What is printed -/

theorem print_transcript (s : State α σ τ n m) : s.print.transcript =
    .printed s.row :: if s.evaluations = 1 then .headed :: s.transcript else s.transcript := by
  unfold print
  dsimp only
  split <;> rfl

theorem table_print (s : State α σ τ n m) : table s.print.transcript =
    (if s.evaluations = 1 then table s.transcript ++ [.headed] else table s.transcript) ++
      [.printed s.row] := by
  rw [print_transcript, table_of_isTable rfl]
  split
  · rw [table_of_isTable rfl]
  · rfl

theorem printedRows_print (s : State α σ τ n m) :
    printedRows s.print.transcript = printedRows s.transcript ++ [s.row] := by
  rw [print_transcript, printedRows_printed]
  split
  · rw [printedRows_headed]
  · rfl

theorem lastDeparture_print (s : State α σ τ n m) :
    lastDeparture s.print.transcript = lastDeparture s.transcript := by
  rw [print_transcript, lastDeparture_of_not_isPass rfl]
  split <;> rfl

theorem arrivals_print (s : State α σ τ n m) :
    arrivals s.print.transcript = arrivals s.transcript := by
  rw [print_transcript, arrivals_of_not_isEntry rfl]
  split <;> rfl

/-- No direction has been taken, and nothing is printed. -/
structure Untabled (s : State α σ τ n m) : Prop where
  table : table s.transcript = []
  departure : lastDeparture s.transcript = none
  iterations : s.iterations = 0

/-- The last direction was taken from the iterate with the number of the state, and the table
shows what is due up to it. -/
structure Tabled (p : Problem α σ τ n) (s : State α σ τ n m) : Prop where
  ruled : Ruled p.settings.verbosity s.iterations s.transcript
  departure : lastDeparture s.transcript = some s.iterations

/-- Until the line search is told of a trial, with a number of calls for the start. -/
structure Listing (p : Problem α σ τ n) (calls : ℕ) (s : State α σ τ n m) : Prop where
  restored : s.restored = false
  busy : s.searching = true → s.Tabled p ∧ calls < s.evaluations
  idle : s.searching = false → s.Untabled ∧ s.evaluations = calls

/-- How a run came to where it is to take a direction. -/
inductive Departs (p : Problem α σ τ n) (s : State α σ τ n m) : Prop
  | start (untabled : s.Untabled) (evaluations : s.evaluations = 1) (restored : s.restored = false)
  | accepted (q : ℕ) (ruled : Ruled p.settings.verbosity q s.transcript)
      (iterations : s.iterations = q + 1)
      (arrived : (arrivals s.transcript)[q + 1]? = some s.evaluations)
      (again : s.evaluations ≠ 1) (restored : s.restored = false)
  | sentBack (tabled : s.Tabled p) (restored : s.restored = true)

/-- The line search has had its say. -/
structure Resolved (p : Problem α σ τ n) (s : State α σ τ n m) : Prop where
  busy : s.searching = true → s.restored = false ∧ s.Tabled p ∧ 0 < s.evaluations
  idle : s.searching = false → s.Departs p

/-- The table of a run that has ended with a status: nothing yet if it has converged at its
start, and the iterates that are due up to the last from which a direction was taken. -/
inductive Tables (p : Problem α σ τ n) (status : Status) (s : State α σ τ n m) : Prop
  | start (untabled : s.Untabled) (converged : status = .convergence)
      (evaluations : s.evaluations = 1)
  | onward (q : ℕ) (ruled : Ruled p.settings.verbosity q s.transcript)
      (departure : lastDeparture s.transcript = some q) (le : q ≤ s.iterations)
      (again : status = .convergence → 2 ≤ s.evaluations)

/-- However a turn ends, unless it is for a fault. -/
abbrev EndsTabled (p : Problem α σ τ n) (ending : Ending) (s : State α σ τ n m) : Prop :=
  ∀ status, ending = .status status → s.Tables p status

theorem endsTabled_fault (fault : Fault) (s : State α σ τ n m) : s.EndsTabled p (.fault fault) :=
  nofun

theorem Tables.ends {status : Status} (h : s.Tables p status) :
    s.EndsTabled p (.status status) := by
  intro status' heq
  cases heq
  exact h

theorem Tabled.ends (h : s.Tabled p) {status : Status} (hstatus : status ≠ .convergence) :
    s.EndsTabled p (.status status) :=
  (Tables.onward _ h.ruled h.departure le_rfl fun heq => absurd heq hstatus).ends

section Print

variable {final : State α σ τ n m} {status : Status}

/-- Where the last row does not tell the first evaluation, or is the only one, all rows stand
below one head. -/
theorem Tables.headed_once (h : s.Tables p status) (hsame : final.transcript = s.transcript)
    (hevaluations : final.evaluations = s.evaluations)
    (honce : status = .convergence ∨ 2 ≤ s.evaluations) :
    ∃ rows : List (Row α), table final.print.transcript = .headed :: rows.map .printed := by
  cases h with
  | start huntabled hconverged hone =>
    refine ⟨[final.row], ?_⟩
    rw [table_print, hevaluations, if_pos hone, hsame, huntabled.table]
    rfl
  | onward q hruled hdeparture hle hagain =>
    have hmore : final.evaluations ≠ 1 := by
      have htwo : 2 ≤ s.evaluations := honce.elim hagain id
      omega
    refine ⟨printedRows s.transcript ++ [final.row], ?_⟩
    rw [table_print, if_neg hmore, hsame, hruled.table, List.map_append]
    rfl

/-- Where both rows tell the first evaluation, either stands below a head of its own. -/
theorem Tables.headed_twice (h : s.Tables p status) (hbalanced : s.Balanced p status)
    (hsame : final.transcript = s.transcript) (hevaluations : final.evaluations = s.evaluations)
    (hnot : ¬ (status = .convergence ∨ 2 ≤ s.evaluations)) :
    ∃ initial : Row α, table final.print.transcript =
      [.headed, .printed initial, .headed, .printed final.row] := by
  rw [not_or] at hnot
  have hfewer := hbalanced.fewer
  cases h with
  | start huntabled hconverged => exact absurd hconverged hnot.1
  | onward q hruled hdeparture hle =>
    -- No search can have been accepted at the first evaluation.
    have hzero : q = 0 := by omega
    have hone : final.evaluations = 1 := by omega
    have hnumbers : (printedRows s.transcript).map Row.iterations = [0] := by
      rw [hruled.numbers, hzero, due_zero]
    obtain ⟨initial, hinitial, -⟩ := List.map_eq_singleton_iff.mp hnumbers
    refine ⟨initial, ?_⟩
    rw [table_print, if_pos hone, hsame, hruled.table, hinitial]
    rfl

end Print

theorem Untabled.congr (h : s.Untabled) {s' : State α σ τ n m}
    (hiterations : s'.iterations = s.iterations)
    (htable : Transcript.table s'.transcript = Transcript.table s.transcript)
    (hdeparture : lastDeparture s'.transcript = lastDeparture s.transcript) : s'.Untabled :=
  ⟨htable.trans h.table, hdeparture.trans h.departure, hiterations.trans h.iterations⟩

theorem Tabled.append (h : s.Tabled p) (added : Transcript α n) {s' : State α σ τ n m}
    (hiterations : s'.iterations = s.iterations)
    (htranscript : s'.transcript = added ++ s.transcript)
    (hadded : ∀ e ∈ added, isTable e = false ∧ isPass e = false) : s'.Tabled p where
  ruled := by
    rw [htranscript, hiterations]
    exact h.ruled.append fun e he => (hadded e he).1
  departure := by
    rw [htranscript, hiterations, ← h.departure]
    exact view_append (fun e t he => lastDeparture_of_not_isPass he t)
      fun e he => (hadded e he).2

theorem Tabled.notify (h : s.Tabled p) (notices : List (Notice α)) :
    (s.notify notices).Tabled p :=
  h.append _ rfl rfl (apart_notices notices)

/-! ## The call -/

section Call

theorem Listing.congr (h : s.Listing p calls) {s' : State α σ τ n m}
    (hrestored : s'.restored = s.restored) (hsearching : s'.searching = s.searching)
    (hiterations : s'.iterations = s.iterations) (hevaluations : s'.evaluations = s.evaluations)
    (htranscript : s'.transcript = s.transcript) : s'.Listing p calls where
  restored := hrestored.trans h.restored
  busy hon := by
    obtain ⟨htabled, hcalls⟩ := h.busy (hsearching ▸ hon)
    rw [hevaluations]
    exact ⟨htabled.append [] hiterations htranscript nofun, hcalls⟩
  idle hoff := by
    obtain ⟨huntabled, hcalls⟩ := h.idle (hsearching ▸ hoff)
    rw [hevaluations]
    exact ⟨huntabled.congr hiterations (congrArg _ htranscript) (congrArg _ htranscript), hcalls⟩

theorem Listing.ensures_project (h : s.Listing p calls) :
    Ensures (s.project p) (fun s => s.Listing p calls) (fun e s => s.EndsTabled p e) :=
  State.ensures_project (fun _ _ => h.congr rfl rfl rfl rfl rfl) fun _ _ => endsTabled_fault _ _

theorem Listing.ensures_evaluate (h : s.Listing p calls) :
    Ensures (s.evaluate p) (fun s => s.Listing p (calls + 1)) (fun e s => s.EndsTabled p e) := by
  apply State.ensures_evaluate
  · intro value gradient objective _
    constructor
    · exact h.restored
    · intro hon
      obtain ⟨htabled, hcalls⟩ := h.busy hon
      refine ⟨htabled.append [.evaluated _] rfl rfl ?_, Nat.succ_lt_succ hcalls⟩
      exact List.forall_mem_singleton.mpr ⟨rfl, rfl⟩
    · intro hoff
      obtain ⟨huntabled, hcalls⟩ := h.idle hoff
      refine ⟨huntabled.congr rfl ?_ rfl, congrArg (· + 1) hcalls⟩
      exact table_of_not_isTable rfl _
  · exact fun _ _ _ => endsTabled_fault _ _

variable [Scalar α]

theorem initial_listing (p : Problem α σ τ n) (x : Vec α n) (objective : σ) (search : τ) :
    (State.initial p x objective search : State α σ τ n m).Listing p 0 where
  restored := rfl
  busy := nofun
  idle _ := ⟨⟨rfl, rfl, rfl⟩, rfl⟩

theorem Listing.ensures_measure (h : s.Listing p calls) :
    Ensures (s.measure p) (fun s => s.Listing p calls) (fun e s => s.EndsTabled p e) :=
  State.ensures_measure (fun _ _ => h.congr rfl rfl rfl rfl rfl) fun _ _ => endsTabled_fault _ _

/-- A run that converges at its start has printed nothing; one that converges at a trial has
evaluated twice. -/
theorem Listing.ensures_settle (h : s.Listing p 1) :
    Ensures (s.setThreshold p).settle (fun s => s.Listing p 1) (fun e s => s.EndsTabled p e) := by
  have hset : (s.setThreshold p).Listing p 1 :=
    setThreshold_of (·.Listing p 1) fun _ => h.congr rfl rfl rfl rfl rfl
  generalize s.setThreshold p = s at hset ⊢
  apply State.ensures_settle
  · intro _
    apply Tables.ends
    cases hsearching : s.searching with
    | true =>
      obtain ⟨htabled, hcalls⟩ := hset.busy hsearching
      exact .onward _ htabled.ruled htabled.departure (Nat.le_succ _) fun _ => hcalls
    | false =>
      obtain ⟨huntabled, hcalls⟩ := hset.idle hsearching
      exact .start { huntabled with } rfl hcalls
  · exact fun _ => hset

end Call

/-! ## The answer of the line search -/

section Told

variable {slope : α} {reply : Reply α} {search : τ}

theorem Tabled.told (h : s.Tabled p) : (s.told slope reply search).Tabled p := by
  have hiterated : State.Tabled p
      { s.record (.iterated s.step s.current.value slope reply.status reply.step) with
        search, step := reply.step } :=
    h.append [.iterated _ _ _ _ _] rfl rfl (List.forall_mem_singleton.mpr ⟨rfl, rfl⟩)
  exact hiterated.notify reply.notices

/-- The evaluation that has just been made is the one at which the next iterate was accepted. -/
theorem arrivals_told (htallied : s.Tallied k) (hstatus : reply.status = .converged) :
    (arrivals (s.told slope reply search).transcript)[s.iterations + 1]? =
      some s.evaluations := by
  have harrivals : arrivals (s.told slope reply search).transcript =
      arrivals s.transcript ++ [s.evaluations] := by
    have hnotified := s.leadsUpTo_told slope reply search
    rw [hnotified.view fun e t he => arrivals_of_not_isEntry (isEntry_of_isBookkeeping he) t,
      hstatus, htallied.evaluations, ← htallied.calls]
    exact arrivals_iterated _ _ _ _ _
  have hlength : (arrivals s.transcript).length = s.iterations + 1 := by
    rw [length_arrivals, htallied.iterations]
  rw [harrivals, ← hlength, List.getElem?_concat_length]

theorem Listing.ensures_accept (h : s.Listing p 1) (hsearching : s.searching = true)
    (htallied : s.Tallied k) (hstatus : reply.status = .converged) :
    Ensures ((s.told slope reply search).accept p) (fun s => s.Resolved p)
      (fun e s => s.EndsTabled p e) := by
  obtain ⟨htabled, hcalls⟩ := h.busy hsearching
  have htold : (s.told slope reply search).Tabled p := htabled.told
  apply State.ensures_accept
  · intro _ _
    apply Tables.ends
    exact .onward s.iterations htold.ruled htold.departure (Nat.le_succ _) nofun
  · intro _
    refine ⟨nofun, fun _ => ?_⟩
    exact .accepted s.iterations htold.ruled rfl (arrivals_told htallied hstatus)
      (Nat.ne_of_gt hcalls) h.restored

variable [Scalar α]

theorem Tabled.ensures_abandon (h : s.Tabled p) :
    Ensures (s.abandon p) (fun s => s.Resolved p) (fun e s => s.EndsTabled p e) := by
  apply State.ensures_abandon
  · exact fun _ => h.ends nofun
  · intro _ projected _
    refine ⟨nofun, fun _ => .sentBack ?_ rfl⟩
    refine h.append [.restored, .noticed (.searchAbandoned s.iterations)] rfl rfl ?_
    simp [isTable, isPass]
  · exact fun _ _ => endsTabled_fault _ _

theorem Listing.ensures_consult (h : s.Listing p 1) (htallied : s.Tallied k) :
    Ensures (s.consult p) (fun s => s.Resolved p) (fun e s => s.EndsTabled p e) := by
  have hquiet (hidle : s.searching = false) : s.Resolved p := by
    obtain ⟨huntabled, hcalls⟩ := h.idle hidle
    exact ⟨fun hon => absurd (hidle.symm.trans hon) nofun,
      fun _ => .start huntabled hcalls h.restored⟩
  refine State.ensures_consult hquiet fun hsearching => ?_
  obtain ⟨htabled, hcalls⟩ := h.busy hsearching
  apply ensures_report
  · intro slope reply search _ _
    cases hstatus : reply.status with
    | searching =>
      exact ⟨fun _ => ⟨h.restored, htabled.told, Nat.zero_lt_of_lt hcalls⟩,
        fun hidle => absurd (hsearching.symm.trans hidle) nofun⟩
    | converged => exact h.ensures_accept hsearching htallied hstatus
    | failed => exact htabled.told.ensures_abandon
  · exact fun _ _ => endsTabled_fault _ _
  · exact fun _ _ _ _ => endsTabled_fault _ _

end Told

/-! ## The next search -/

theorem printDue_of_dvd (hverbose : 0 < p.settings.verbosity)
    (hdvd : p.settings.verbosity ∣ s.iterations) (hrestored : s.restored = false) :
    s.printDue p = s.print := by
  have hunrestored : (!s.restored) = true := by rw [hrestored]; rfl
  exact if_pos ⟨hverbose, Nat.mod_eq_zero_of_dvd hdvd, hunrestored⟩

theorem printDue_of_not_dvd (h : ¬ p.settings.verbosity ∣ s.iterations) : s.printDue p = s :=
  if_neg fun hdue => h (Nat.dvd_of_mod_eq_zero hdue.2.1)

theorem printDue_of_restored (h : s.restored = true) : s.printDue p = s :=
  if_neg fun hdue => by simp [h] at hdue

/-- Before a direction is taken, the table shows what is due up to where the run stands. -/
theorem Departs.ruled (h : s.Departs p) (hverbose : 0 < p.settings.verbosity) :
    Ruled p.settings.verbosity s.iterations (s.printDue p).transcript := by
  cases h with
  | start huntabled hevaluations hrestored =>
    have hdvd : p.settings.verbosity ∣ s.iterations := huntabled.iterations ▸ dvd_zero _
    rw [printDue_of_dvd hverbose hdvd hrestored, print_transcript, if_pos hevaluations,
      huntabled.iterations]
    exact ruled_first huntabled.table huntabled.iterations
      ((arrivals_zero s.transcript).trans (congrArg some hevaluations.symm)) _
  | accepted q hruled hiterations harrived hagain hrestored =>
    by_cases hdvd : p.settings.verbosity ∣ s.iterations
    · rw [printDue_of_dvd hverbose hdvd hrestored, print_transcript, if_neg hagain, hiterations]
      exact hruled.printed (hiterations ▸ hdvd) hiterations harrived
    · rw [printDue_of_not_dvd hdvd, hiterations]
      exact hruled.skipped (hiterations ▸ hdvd)
  | sentBack htabled hrestored =>
    -- The iterate led back to is the one from which the failed search was begun.
    rw [printDue_of_restored hrestored]
    exact htabled.ruled

/-- The state has nothing more on record but events apart from the table. -/
def SilentSince (s : State α σ τ n m) (t : Transcript α n) : Prop :=
  ∃ added, s.transcript = added ++ t ∧ ∀ e ∈ added, isTable e = false ∧ isPass e = false

theorem SilentSince.trans {t : Transcript α n} (h : s.SilentSince t)
    (h' : ready.SilentSince s.transcript) : ready.SilentSince t := by
  obtain ⟨added, heq, hadded⟩ := h
  obtain ⟨added', heq', hadded'⟩ := h'
  refine ⟨added' ++ added, by rw [heq', heq, List.append_assoc], fun e he => ?_⟩
  exact (List.mem_append.mp he).elim (hadded' e) (hadded e)

theorem silentSince_self (s : State α σ τ n m) : s.SilentSince s.transcript :=
  ⟨[], rfl, nofun⟩

/-- A direction is to be taken where the table ends. -/
structure Departing (p : Problem α σ τ n) (s : State α σ τ n m) : Prop where
  ruled : Ruled p.settings.verbosity s.iterations s.transcript
  restored : s.restored = false
  evaluations : 0 < s.evaluations
  iterations : s.iterations = acceptedSearches s.transcript

theorem Departing.chosen (h : s.Departing p) (slope step cap : α) :
    (s.chosen slope step cap).Tabled p where
  ruled := h.ruled.append (List.forall_mem_singleton.mpr rfl)
  departure := congrArg some h.iterations.symm

variable [Scalar α]

section Approach

variable [Capacity m]

theorem ensures_remember_silent :
    Ensures (s.remember p) (fun s' => s'.SilentSince s.transcript) fun _ _ => True := by
  apply ensures_remember
  · intro _ _
    exact ⟨[.pushed _ _], rfl, List.forall_mem_singleton.mpr ⟨rfl, rfl⟩⟩
  · exact fun _ => s.silentSince_self
  · exact fun _ _ => trivial

theorem ensures_propose_silent :
    Ensures (s.propose p) (fun a => a.2.SilentSince s.transcript) fun _ _ => True := by
  apply ensures_propose
  · intro d memory notices _
    have hasked : (s.asked memory notices).SilentSince s.transcript := by
      refine ⟨(notices.map Event.noticed).reverse ++ [.recalled s.memory.pairs], ?_, ?_⟩
      · exact (List.append_assoc _ [_] _).symm
      · intro e he
        rcases List.mem_append.mp he with he | he
        · exact apart_notices notices e he
        · obtain rfl := List.mem_singleton.mp he
          exact ⟨rfl, rfl⟩
    exact ⟨fun _ => hasked, fun _ => hasked⟩
  · exact fun _ _ _ _ => trivial

theorem ensures_aim_silent :
    Ensures (s.aim p) (fun a => a.2.2.SilentSince s.transcript) fun _ _ => True := by
  have hsteer (s : State α σ τ n m) :
      Ensures (s.steer p) (fun a => a.2.2.SilentSince s.transcript) fun _ _ => True :=
    ensures_attempt (fun _ _ => (s.steered p).silentSince_self) fun _ _ => trivial
  exact ensures_aim (fun _ => hsteer s) (fun _ => ensures_propose_silent) (fun _ _ hs => hs)
    fun s' hs => (hsteer s').mono (fun _ h => hs.trans h) fun _ _ _ => trivial

/-- Once the row that is due has been printed, nothing is printed until a search is begun. -/
theorem ensures_approach_silent :
    Ensures (s.approach p) (fun a => a.2.2.SilentSince (s.printDue p).transcript)
      fun _ _ => True := by
  refine ensures_remember_silent.bind fun s' hs' => ?_
  have haimed : Ensures (State.aim p { s' with restored := false })
      (fun a => a.2.2.SilentSince s'.transcript) fun _ _ => True := ensures_aim_silent
  exact haimed.mono (fun _ h => hs'.trans h) fun _ _ _ => trivial

end Approach

/-- A search is under way. -/
structure Sought (p : Problem α σ τ n) (s : State α σ τ n m) : Prop where
  tabled : s.Tabled p
  restored : s.restored = false
  searching : s.searching = true
  evaluations : 0 < s.evaluations

theorem Departing.ensures_begin (h : s.Departing p) (slope cut : α) :
    Ensures (s.begin p slope cut) (fun s => s.Sought p) (fun e s => s.EndsTabled p e) := by
  apply State.ensures_begin
  · exact fun cap _ _ => (h.chosen slope _ cap).ends nofun
  · intro cap reply search _ _ _
    have hchosen := h.chosen slope (Scalar.least cut cap) cap
    have hbegun : ((s.chosen slope (Scalar.least cut cap) cap).begun
        (s.pass slope (Scalar.least cut cap) cap) reply search).Tabled p := by
      have hstarted : State.Tabled p
          ({ s.chosen slope (Scalar.least cut cap) cap with
            origin := s.current, search, step := reply.step }.record
            (.started s.current (s.pass slope (Scalar.least cut cap) cap) reply.status
              reply.step)) :=
        hchosen.append [.started _ _ _ _] rfl rfl (List.forall_mem_singleton.mpr ⟨rfl, rfl⟩)
      exact hstarted.notify reply.notices
    exact ⟨fun _ => ⟨{ hbegun with }, h.restored, rfl, h.evaluations⟩, fun _ => hbegun.ends nofun⟩
  · exact fun _ _ => endsTabled_fault _ _

theorem Resolved.ensures_seek [Capacity m] (h : s.Resolved p) (htallied : s.Tallied k)
    (hcalls : 0 < k) (hverbose : 0 < p.settings.verbosity) :
    Ensures (s.seek p) (fun s => s.Sought p) (fun e s => s.EndsTabled p e) := by
  have happroach (hidle : s.searching = false) :
      Ensures (s.approach p) (fun a => a.2.2.Departing p) (fun e s => s.EndsTabled p e) := by
    have hruled := (h.idle hidle).ruled hverbose
    refine (ensures_approach.and ensures_approach_silent).mono ?_ ?_
    · rintro ⟨slope, cut, ready⟩ ⟨hsteers, added, heq, hadded⟩
      -- What the approach adds to the record lies apart from the table.
      have hready := htallied.leadsUpTo hsteers.toLeadsUpTo
      refine ⟨?_, hsteers.restored, hready.evaluations ▸ hcalls, hready.iterations⟩
      show Ruled _ ready.iterations ready.transcript
      rw [hsteers.iterations, heq]
      exact hruled.append fun e he => (hadded e he).1
    · rintro _ _ ⟨⟨⟨fault, rfl⟩, -⟩, -⟩
      exact endsTabled_fault _ _
  apply ensures_seek_of_approach
  · intro hsearching
    obtain ⟨hrestored, htabled, hevaluations⟩ := h.busy hsearching
    exact ⟨htabled, hrestored, hsearching, hevaluations⟩
  · exact happroach
  · exact fun slope cut ready hready => hready.ensures_begin slope cut

theorem Sought.ensures_meter (h : s.Sought p) :
    Ensures (s.meter p) (fun s => (s.advance p).Listing p 0) (fun e s => s.EndsTabled p e) := by
  apply State.ensures_meter
  · exact fun _ _ => h.tabled.ends nofun
  · intro _
    exact ⟨h.restored, fun _ => ⟨{ h.tabled with }, h.evaluations⟩,
      fun hidle => absurd (h.searching.symm.trans hidle) nofun⟩

/-! ## Turns and runs -/

/-- A run between two turns, after `k` calls, with its table. -/
structure Listed (p : Problem α σ τ n) (first : τ) (k : ℕ) (s : State α σ τ n m) : Prop where
  listing : s.Listing p 0
  metered : s.Metered p k
  trying : s.Trying p first

theorem Listed.ensures_gauge (h : s.Listed p first k) :
    Ensures (s.gauge p)
      (fun s => (s.Listing p 1 ∧ s.Ticked p (k + 1)) ∧ s.Tried p first)
      (fun e s => (s.EndsTabled p e ∧ s.Balances p e) ∧ s.Lawful p first) :=
  State.ensures_gauge
    ((h.listing.ensures_project.and h.metered.ensures_project).and h.trying.ensures_project)
    (fun _ hs => (hs.1.1.ensures_evaluate.and hs.1.2.ensures_evaluate).and hs.2.ensures_evaluate)
    (fun _ hs => (hs.1.1.ensures_measure.and hs.1.2.ensures_measure).and hs.2.ensures_measure)
    (fun _ hs =>
      (hs.1.1.ensures_settle.and (hs.1.2.ensures_settle hs.2)).and hs.2.ensures_settle)

variable [Capacity m]

theorem Listed.ensures_turn (h : s.Listed p first k) (hverbose : 0 < p.settings.verbosity) :
    Ensures (s.turn p) (fun s => s.Listed p first (k + 1))
      (fun e s => ∀ status, e = .status status → s.Tables p status ∧ s.Balanced p status) := by
  rw [turn_eq]
  have hturn : Ensures (s.gauge p >>= fun s => s.consult p >>= fun s => s.seek p >>= fun s =>
      s.meter p >>= fun s => pure (s.advance p)) (fun s => s.Listed p first (k + 1))
      (fun e s => (s.EndsTabled p e ∧ s.Balances p e) ∧ s.Lawful p first) := by
    refine h.ensures_gauge.bind fun s hs => ?_
    refine (((hs.1.1.ensures_consult hs.1.2.toTallied).and hs.1.2.ensures_consult).and
      hs.2.ensures_consult).bind fun s hs => ?_
    refine (((hs.1.1.ensures_seek hs.1.2.toTallied (Nat.succ_pos k) hverbose).and
      hs.1.2.ensures_seek).and hs.2.ensures_seek).bind fun s hs => ?_
    refine ((hs.1.1.ensures_meter.and hs.1.2.ensures_meter).and
      hs.2.ensures_meter).bind fun s hs => ?_
    exact ⟨hs.1.1, hs.1.2, hs.2⟩
  exact hturn.mono (fun _ hs => hs) fun e s hs status heq => ⟨hs.1.1 status heq, hs.1.2 status heq⟩

/-- A run that returns prints its last row for the state that it returns. -/
theorem solve_tables {turns : ℕ} {x : Vec α n} {objective : σ} {search : τ}
    {solution : Solution α n} {last : State α σ τ n m} (hverbose : 0 < p.settings.verbosity)
    (h : p.solve m turns x objective search = (.returned solution, last)) :
    ∃ s final : State α σ τ n m, s.Tables p solution.status ∧ s.Balanced p solution.status ∧
      s.settled p = .ok final ∧ solution = final.solution solution.status ∧
      last.transcript = final.print.transcript := by
  have hinitial : (State.initial p x objective search : State α σ τ n m).Listed p search 0 :=
    ⟨initial_listing p x objective search, initial_metered p x objective search,
      initial_trying p x objective search⟩
  unfold Problem.solve at h
  rcases run_counted (fun _ s hs => Listed.ensures_turn hs hverbose) turns 0 _ hinitial with
    ⟨unfinished, -, hrun⟩ | ⟨ending, s, hended, hrun⟩
  · rw [hrun] at h
    cases h
  · rw [hrun] at h
    obtain ⟨final, hending, hsettled, hsolution, rfl⟩ := finish_returned h
    obtain ⟨htables, hbalanced⟩ := hended solution.status hending
    refine ⟨s, final, htables, hbalanced, hsettled, hsolution, ?_⟩
    unfold printLast
    rw [if_pos hverbose]

end State

/-! ## Sample runs

The run down the parabola is ended by its budget of evaluations, and prints all its rows. -/

namespace Sample

def headedProblem (maxEvaluations : ℤ) : Problem Float ℕ ℕ 1 :=
  { parabolaProblem (-1) with settings := ⟨-1, maxEvaluations, (0.0, 1e-6), (1.0, 0.0), 1⟩ }

def headedRun (maxEvaluations : ℤ) : Outcome Float 1 × State Float ℕ ℕ 1 3 :=
  (headedProblem maxEvaluations).solve 3 5 (.replicate 1 0.0) 0 0

def headedSolution : Solution Float 1 :=
  ⟨.replicate 1 1.0, 2.0, .tooManyEvaluations, 1, 2, 0, 2.0⟩

theorem headedRun_two_returned :
    headedRun 2 = (.returned headedSolution, (headedRun 2).2) :=
  Outcome.eq_returned (by decide +kernel)

end Sample

section Returned

variable [Capacity m] {p : Problem Float σ τ n} {turns : ℕ} {x : Vec Float n} {objective : σ}
  {search : τ} {solution : Solution Float n} {last : State Float σ τ n m}

/-- The rows that a run prints before the last one belong to the iterates that are due, up to
the last one from which a direction was taken, and tell at which evaluation they were accepted.
The last row tells what is returned. -/
theorem Problem.printed_rows_due
    (h : p.solve m turns x objective search = (.returned solution, last))
    (hverbose : 0 < p.settings.verbosity) :
    ∃ before final, printedRows last.transcript = before ++ [final] ∧
      (last.transcript.lines m).filter (· ∉ Row.head n m) =
        (before ++ [final]).map Row.text ∧
      before.map Row.iterations =
        (lastDeparture last.transcript).elim [] (due p.settings.verbosity) ∧
      (∀ r ∈ before, (arrivals last.transcript)[r.iterations]? = some r.evaluations) ∧
      final.iterations = solution.iterations ∧ final.evaluations = solution.evaluations ∧
      final.restarts = solution.restarts ∧ final.value = solution.value ∧
      final.norm = solution.norm := by
  obtain ⟨s, final, htables, -, hsettled, hsolution, htranscript⟩ := State.solve_tables hverbose h
  obtain ⟨hsame, -⟩ := State.settled_record hsettled
  have hrows : printedRows last.transcript = printedRows s.transcript ++ [final.row] := by
    rw [htranscript, State.printedRows_print, hsame]
  refine ⟨printedRows s.transcript, final.row, hrows, ?_, ?_, ?_, ?_⟩
  · rw [filter_lines, hrows]
  · rw [htranscript, State.lastDeparture_print, hsame]
    cases htables with
    | start huntabled =>
      rw [huntabled.departure, printedRows, huntabled.table]
      rfl
    | onward q hruled hdeparture =>
      rw [hdeparture, hruled.numbers]
      rfl
  · rw [htranscript, State.arrivals_print, hsame]
    cases htables with
    | start huntabled =>
      rw [printedRows, huntabled.table]
      exact List.forall_mem_nil _
    | onward q hruled => exact hruled.calls
  · rw [hsolution]
    exact ⟨rfl, rfl, rfl, rfl, rfl⟩

theorem Sample.stuckRun_rows_due :
    stuckRun 9 = (.returned stuckSolution, (stuckRun 9).2) ∧
      0 < stuckProblem.settings.verbosity ∧
      ∃ before final, printedRows (stuckRun 9).2.transcript = before ++ [final] ∧
        ((stuckRun 9).2.transcript.lines 1).filter (· ∉ Row.head 1 1) =
          (before ++ [final]).map Row.text ∧
        before.map Row.iterations = (lastDeparture (stuckRun 9).2.transcript).elim []
          (due stuckProblem.settings.verbosity) ∧
        (∀ r ∈ before,
          (arrivals (stuckRun 9).2.transcript)[r.iterations]? = some r.evaluations) ∧
        final.iterations = stuckSolution.iterations ∧
        final.evaluations = stuckSolution.evaluations ∧
        final.restarts = stuckSolution.restarts ∧ final.value = stuckSolution.value ∧
        final.norm = stuckSolution.norm := by
  have hreturned : stuckRun 9 = (.returned stuckSolution, (stuckRun 9).2) :=
    Outcome.eq_returned (by decide +kernel)
  exact ⟨hreturned, by decide, Problem.printed_rows_due hreturned (by decide)⟩

/-- A run prints its head once, above all its rows, unless it ends after one evaluation and
has not converged.  Then it prints it twice, once above either row. -/
theorem Problem.headed_once_iff
    (h : p.solve m turns x objective search = (.returned solution, last))
    (hverbose : 0 < p.settings.verbosity) :
    ((∃ rows : List (Row Float),
        last.transcript.lines m = Row.head n m ++ rows.map Row.text) ↔
      solution.status = .convergence ∨ 2 ≤ solution.evaluations) ∧
    (¬ (solution.status = .convergence ∨ 2 ≤ solution.evaluations) →
      ∃ initial final : Row Float, last.transcript.lines m =
        Row.head n m ++ initial.text :: (Row.head n m ++ [final.text])) := by
  obtain ⟨s, final, htables, hbalanced, hsettled, hsolution, htranscript⟩ :=
    State.solve_tables hverbose h
  obtain ⟨hsame, -, hevaluations, -⟩ := State.settled_record hsettled
  have hcalls : solution.evaluations = s.evaluations := by
    rw [hsolution]
    exact hevaluations
  rw [htranscript, hcalls]
  by_cases honce : solution.status = .convergence ∨ 2 ≤ s.evaluations
  · refine ⟨iff_of_true ?_ honce, fun hnot => absurd honce hnot⟩
    obtain ⟨rows, hrows⟩ := htables.headed_once hsame hevaluations honce
    exact ⟨rows, lines_of_table hrows m⟩
  · obtain ⟨initial, htwice⟩ := htables.headed_twice hbalanced hsame hevaluations honce
    obtain ⟨hlines, hnot⟩ := lines_of_table_twice htwice m
    exact ⟨iff_of_false hnot honce, fun _ => ⟨initial, final.row, hlines⟩⟩

theorem Sample.headedRun_headed_once_iff :
    headedRun 2 = (.returned headedSolution, (headedRun 2).2) ∧
      0 < (headedProblem 2).settings.verbosity ∧
      ((∃ rows : List (Row Float),
          (headedRun 2).2.transcript.lines 3 = Row.head 1 3 ++ rows.map Row.text) ↔
        headedSolution.status = .convergence ∨ 2 ≤ headedSolution.evaluations) ∧
      (¬ (headedSolution.status = .convergence ∨ 2 ≤ headedSolution.evaluations) →
        ∃ initial final : Row Float, (headedRun 2).2.transcript.lines 3 =
          Row.head 1 3 ++ initial.text :: (Row.head 1 3 ++ [final.text])) :=
  ⟨headedRun_two_returned, by decide,
    Problem.headed_once_iff headedRun_two_returned (by decide)⟩

/-- Both rows tell the only evaluation of this run. -/
theorem Sample.headedRun_headed_twice :
    headedRun 1 = (.returned ⟨.replicate 1 0.0, 4.5, .tooManyEvaluations, 0, 1, 0, 3.0⟩,
        (headedRun 1).2) ∧
      0 < (headedProblem 1).settings.verbosity ∧
      ¬ ∃ rows : List (Row Float),
        (headedRun 1).2.transcript.lines 3 = Row.head 1 3 ++ rows.map Row.text := by
  have htable : Transcript.table (headedRun 1).2.transcript =
      [.headed, .printed ⟨0, 1, 0, 4.5, 3.0, 0.0⟩, .headed,
        .printed ⟨0, 1, 0, 4.5, 3.0, 0.3333333333333333⟩] := by
    decide +kernel
  refine ⟨Outcome.eq_returned (by decide +kernel), by decide, ?_⟩
  exact (lines_of_table_twice htable 3).2

end Returned

end VariableMetric
