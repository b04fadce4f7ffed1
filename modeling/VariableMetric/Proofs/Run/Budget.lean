import VariableMetric.Proofs.LineSearch.Trials
import VariableMetric.Proofs.Run.Approach
import VariableMetric.Proofs.Run.Feasible

/-!
# How much work a run does

A run that is driven by one of the strategies calls its objective at most twice as often
as a search may try between one accepted iterate and the next.  A search that fails is
undone, and the memory is emptied with it, so that the next search goes along the
steepest descent; if that fails as well, the run ends.

So a run with a limit on its iterations ends, even if its evaluations are not limited.
-/

namespace VariableMetric

variable {α σ : Type} {n m : ℕ}

namespace Transcript

/-- How often the objective was called since an iterate was last accepted.  The call that
finds an iterate counts for it, and the first answer is accepted at once. -/
def callsSinceAccepted : Transcript α n → ℕ
  | [] => 0
  | .evaluated _ :: t =>
    match accepted t with
    | [] => 0
    | _ => callsSinceAccepted t + 1
  | .refused _ :: t => callsSinceAccepted t + 1
  | .iterated _ _ _ .converged _ :: _ => 0
  | _ :: t => callsSinceAccepted t

variable {t : Transcript α n}

theorem callsSinceAccepted_evaluated_of_ne_nil (h : accepted t ≠ []) (i : Iterate α n) :
    callsSinceAccepted (.evaluated i :: t) = callsSinceAccepted t + 1 := by
  cases haccepted : accepted t with
  | nil => exact absurd haccepted h
  | cons head rest => simp [callsSinceAccepted, haccepted]

theorem callsSinceAccepted_evaluated_of_eq_nil (h : accepted t = []) (i : Iterate α n) :
    callsSinceAccepted (.evaluated i :: t) = 0 := by
  simp [callsSinceAccepted, h]

theorem callsSinceAccepted_evaluated_le (i : Iterate α n) (t : Transcript α n) :
    callsSinceAccepted (.evaluated i :: t) ≤ callsSinceAccepted t + 1 := by
  by_cases haccepted : accepted t = []
  · rw [callsSinceAccepted_evaluated_of_eq_nil haccepted]
    omega
  · rw [callsSinceAccepted_evaluated_of_ne_nil haccepted]

theorem accepted_evaluated_ne_nil (i : Iterate α n) (t : Transcript α n) :
    accepted (.evaluated i :: t) ≠ [] := by
  by_cases haccepted : accepted t = []
  · rw [accepted_evaluated_of_eq_nil haccepted]
    exact List.cons_ne_nil _ _
  · rw [accepted_evaluated_of_ne_nil haccepted]
    exact haccepted

theorem length_evaluations_evaluated (i : Iterate α n) (t : Transcript α n) :
    (evaluations (.evaluated i :: t)).length = (evaluations t).length + 1 := by
  simp

theorem length_evaluations_refused (x : Vec α n) (t : Transcript α n) :
    (evaluations (.refused x :: t)).length = (evaluations t).length + 1 := by
  simp

/-- Events that change the account of a run: a call of the objective, or an iterate that
is accepted. -/
def isEntry : Event α n → Bool
  | .evaluated _ => true
  | .refused _ => true
  | .iterated _ _ _ .converged _ => true
  | _ => false

variable {e : Event α n}

theorem isEntry_of_isBookkeeping (h : isBookkeeping e = true) : isEntry e = false := by
  cases e <;> first | rfl | cases h

theorem isEntry_iterated {status : SearchStatus} (h : status ≠ .converged)
    (step value slope next : α) :
    isEntry (.iterated step value slope status next : Event α n) = false := by
  cases status with
  | converged => exact absurd rfl h
  | _ => rfl

theorem callsSinceAccepted_of_not_isEntry (h : isEntry e = false) (t : Transcript α n) :
    callsSinceAccepted (e :: t) = callsSinceAccepted t := by
  cases e with
  | evaluated i => cases h
  | refused x => cases h
  | iterated step value slope status next =>
    cases status with
    | converged => cases h
    | _ => rfl
  | _ => rfl

theorem accepted_of_not_isEntry (h : isEntry e = false) (t : Transcript α n) :
    accepted (e :: t) = accepted t := by
  cases e with
  | evaluated i => cases h
  | iterated step value slope status next =>
    cases status with
    | converged => cases h
    | _ => rfl
  | _ => rfl

theorem isCall_of_not_isEntry (h : isEntry e = false) : isCall e = false := by
  cases e with
  | evaluated => cases h
  | refused => cases h
  | _ => rfl

end Transcript

open Transcript

/-- The calls that a run may make until it has accepted a number of iterates after the
first one, if a search tries at most `limit` steps. -/
def callsAllowed (limit iterations : ℕ) : ℕ := 1 + 2 * limit * iterations

/-- The number of iterations after which a run ends, if there is one. -/
def Settings.lastIteration (settings : Settings α) : ℕ := (max 1 settings.maxIterations).toNat

namespace Transcript

/-- A record on which no more calls were made than the trials of a search and of the one
that follows it allow. -/
def Frugal (limit : ℕ) (t : Transcript α n) : Prop :=
  ∀ older, older <:+ t → callsSinceAccepted older ≤ 2 * limit

variable {limit : ℕ} {t added : Transcript α n}

theorem Frugal.cons (h : Frugal limit t) {e : Event α n}
    (he : callsSinceAccepted (e :: t) ≤ 2 * limit) : Frugal limit (e :: t) := by
  intro older hsuffix
  rcases List.suffix_cons_iff.mp hsuffix with rfl | hsuffix
  · exact he
  · exact h older hsuffix

end Transcript

namespace State

variable {p : Problem α σ (Strategy α) n} {limit k : ℕ} {s ready : State α σ (Strategy α) n m}

/-! ## The account of a run -/

/-- What a run has to show for its calls when it ends. -/
structure Spent (p : Problem α σ (Strategy α) n) (limit : ℕ) (t : Transcript α n) : Prop where
  frugal : t.Frugal limit
  calls : 0 ≤ p.settings.maxIterations →
    t.evaluations.length ≤ callsAllowed limit p.settings.lastIteration

/-- A run that has called its objective `k` times, and not more often than the iterates that
it has accepted allow. -/
structure Ledger (limit k : ℕ) (s : State α σ (Strategy α) n m) : Prop where
  limited : s.search.limit = limit
  frugal : s.transcript.Frugal limit
  calls : s.transcript.evaluations.length = k
  allowed : k ≤ callsAllowed limit s.iterations + s.transcript.callsSinceAccepted
  fresh : s.transcript.accepted = [] → k = 0

/-- It may accept another iterate. -/
structure Solvent (p : Problem α σ (Strategy α) n) (limit k : ℕ)
    (s : State α σ (Strategy α) n m) : Prop extends s.Ledger limit k where
  left : 0 ≤ p.settings.maxIterations → s.iterations < p.settings.lastIteration

/-- The trials that have been charged so far: those of the search under way, and those of
the one that it makes good. -/
def charged (limit : ℕ) (s : State α σ (Strategy α) n m) : ℕ :=
  (if s.steepest then limit else 0) + s.search.search.trials

/-- A search is under way that may try another step. -/
structure Pending (limit : ℕ) (s : State α σ (Strategy α) n m) : Prop where
  trials : s.search.search.trials < limit
  since : s.transcript.callsSinceAccepted ≤ s.charged limit

/-- A run that has taken `k` turns. -/
structure Funded (p : Problem α σ (Strategy α) n) (limit k : ℕ)
    (s : State α σ (Strategy α) n m) : Prop extends s.Solvent p limit k where
  pending : s.searching = true → s.Pending limit
  first : s.searching = false →
    s.transcript.accepted = [] ∧ s.transcript.callsSinceAccepted = 0

/-- The objective has been called, and the call is not charged yet. -/
structure Billed (p : Problem α σ (Strategy α) n) (limit k : ℕ)
    (s : State α σ (Strategy α) n m) : Prop extends s.Solvent p limit k where
  trials : s.searching = true → s.search.search.trials < limit
  since : s.searching = true → s.transcript.callsSinceAccepted ≤ s.charged limit + 1
  first : s.searching = false → s.transcript.callsSinceAccepted = 0

/-- The strategy has had its say.  If no search is under way, there is nothing to pay, or
the last search was undone and nothing is remembered. -/
structure Cleared (p : Problem α σ (Strategy α) n) (limit k : ℕ)
    (s : State α σ (Strategy α) n m) : Prop extends s.Solvent p limit k where
  pending : s.searching = true → s.Pending limit
  undone : s.searching = false → s.transcript.callsSinceAccepted ≤ limit
  paid : s.searching = false → s.HasPairs → s.transcript.callsSinceAccepted = 0

/-- A run that goes on does so with a search under way. -/
structure Active (p : Problem α σ (Strategy α) n) (limit k : ℕ)
    (s : State α σ (Strategy α) n m) : Prop extends s.Solvent p limit k where
  searching : s.searching = true
  pending : s.Pending limit

theorem callsAllowed_succ (limit iterations : ℕ) :
    callsAllowed limit (iterations + 1) = callsAllowed limit iterations + 2 * limit := by
  unfold callsAllowed
  ring

theorem callsAllowed_mono (limit : ℕ) {a b : ℕ} (h : a ≤ b) :
    callsAllowed limit a ≤ callsAllowed limit b := by
  unfold callsAllowed
  gcongr

theorem one_le_lastIteration (settings : Settings α) : 1 ≤ settings.lastIteration := by
  unfold Settings.lastIteration
  omega

theorem Solvent.callsAllowed_le (h : s.Solvent p limit k)
    (hlimited : 0 ≤ p.settings.maxIterations) :
    callsAllowed limit s.iterations + 2 * limit ≤
      callsAllowed limit p.settings.lastIteration := by
  rw [← callsAllowed_succ]
  exact callsAllowed_mono limit (Nat.succ_le_of_lt (h.left hlimited))

theorem Solvent.spent (h : s.Solvent p limit k) : Spent p limit s.transcript where
  frugal := h.frugal
  calls hlimited := by
    have hsince := h.frugal _ (List.suffix_refl _)
    have hmay := h.callsAllowed_le hlimited
    have hallowed := h.allowed
    rw [h.calls]
    omega

theorem Spent.cons {t : Transcript α n} (h : Spent p limit t) {e : Event α n}
    (he : isEntry e = false) : Spent p limit (e :: t) where
  frugal := by
    refine h.frugal.cons ?_
    rw [callsSinceAccepted_of_not_isEntry he]
    exact h.frugal _ (List.suffix_refl _)
  calls := by
    rw [evaluations_of_not_isCall (isCall_of_not_isEntry he)]
    exact h.calls

theorem Ledger.congr (h : s.Ledger limit k) {s' : State α σ (Strategy α) n m}
    (hlimit : s'.search.limit = s.search.limit) (htranscript : s'.transcript = s.transcript)
    (hiterations : s'.iterations = s.iterations) : s'.Ledger limit k where
  limited := hlimit.trans h.limited
  frugal := htranscript ▸ h.frugal
  calls := htranscript ▸ h.calls
  allowed := by rw [htranscript, hiterations]; exact h.allowed
  fresh := by rw [htranscript]; exact h.fresh

theorem Ledger.record (h : s.Ledger limit k) {e : Event α n} (he : isEntry e = false) :
    (s.record e).Ledger limit k where
  limited := h.limited
  frugal := by
    refine h.frugal.cons ?_
    rw [callsSinceAccepted_of_not_isEntry he]
    exact h.frugal _ (List.suffix_refl _)
  calls := by
    show (Transcript.evaluations (e :: s.transcript)).length = k
    rw [evaluations_of_not_isCall (isCall_of_not_isEntry he), h.calls]
  allowed := by
    show k ≤ _ + Transcript.callsSinceAccepted (e :: s.transcript)
    rw [callsSinceAccepted_of_not_isEntry he]
    exact h.allowed
  fresh := by
    show Transcript.accepted (e :: s.transcript) = [] → k = 0
    rw [accepted_of_not_isEntry he]
    exact h.fresh

theorem LeadsUpTo.callsSinceAccepted (h : s.LeadsUpTo ready) :
    ready.transcript.callsSinceAccepted = s.transcript.callsSinceAccepted :=
  h.view fun _ t he => callsSinceAccepted_of_not_isEntry (isEntry_of_isBookkeeping he) t

theorem Ledger.leadsUpTo (h : s.Ledger limit k) (hready : s.LeadsUpTo ready) :
    ready.Ledger limit k := by
  obtain ⟨added, heq, hadded⟩ := hready.added
  have hadd : ∀ added : Transcript α n, (∀ e ∈ added, isBookkeeping e = true) →
      State.Ledger limit k { s with transcript := added ++ s.transcript } := by
    intro added hadded
    induction added with
    | nil => exact h
    | cons e added ih =>
      have hrest := ih fun e he => hadded e (List.mem_cons_of_mem _ he)
      exact hrest.record (isEntry_of_isBookkeeping (hadded e List.mem_cons_self))
  exact (hadd added hadded).congr (congrArg Strategy.limit hready.search) heq hready.iterations

theorem Solvent.leadsUpTo (h : s.Solvent p limit k) (hready : s.LeadsUpTo ready) :
    ready.Solvent p limit k :=
  { h.toLedger.leadsUpTo hready with left := hready.iterations ▸ h.left }

/-! ## The call -/

theorem Funded.lt (h : s.Funded p limit k) (hlimit : 1 ≤ limit) :
    s.transcript.callsSinceAccepted < 2 * limit := by
  cases hsearching : s.searching with
  | true =>
    have hpending := h.pending hsearching
    have htrials := hpending.trials
    have hsince := hpending.since
    unfold charged at hsince
    split at hsince <;> omega
  | false =>
    rw [(h.first hsearching).2]
    omega

theorem Funded.ensures_project (h : s.Funded p limit k) :
    Ensures (s.project p) (fun s => s.Funded p limit k)
      (fun _ s => Spent p limit s.transcript) := by
  refine State.ensures_project (fun x _ => ?_) fun _ _ => h.spent
  exact
    { h.toLedger.congr rfl rfl rfl with
      left := h.left
      pending := fun hsearching => ⟨(h.pending hsearching).trials, (h.pending hsearching).since⟩
      first := h.first }

theorem Funded.answered (h : s.Funded p limit k) (hlimit : 1 ≤ limit) (i : Iterate α n)
    (objective : σ) : (s.answered i objective).Billed p limit (k + 1) := by
  have hlt := h.lt hlimit
  have hsince := callsSinceAccepted_evaluated_le i s.transcript
  have hallowed : k + 1 ≤ callsAllowed limit s.iterations +
      Transcript.callsSinceAccepted (.evaluated i :: s.transcript) := by
    by_cases haccepted : s.transcript.accepted = []
    · rw [h.fresh haccepted]
      unfold callsAllowed
      omega
    · rw [callsSinceAccepted_evaluated_of_ne_nil haccepted, ← Nat.add_assoc]
      exact Nat.succ_le_succ h.allowed
  exact
    { limited := h.limited
      frugal := h.frugal.cons (by omega)
      calls := (length_evaluations_evaluated i s.transcript).trans (congrArg (· + 1) h.calls)
      allowed := hallowed
      left := h.left
      fresh := fun hnil => absurd hnil (accepted_evaluated_ne_nil i s.transcript)
      trials := fun hsearching => (h.pending hsearching).trials
      since := fun hsearching => hsince.trans (Nat.succ_le_succ (h.pending hsearching).since)
      first := fun hidle => callsSinceAccepted_evaluated_of_eq_nil (h.first hidle).1 i }

theorem Funded.refused (h : s.Funded p limit k) (hlimit : 1 ≤ limit) (x : Vec α n) :
    Spent p limit (.refused x :: s.transcript) where
  frugal := h.frugal.cons (h.lt hlimit)
  calls hlimited := by
    have hlt := h.lt hlimit
    have hallowed := h.allowed
    have hmay := h.callsAllowed_le hlimited
    rw [length_evaluations_refused, h.calls]
    omega

theorem Funded.ensures_evaluate (h : s.Funded p limit k) (hlimit : 1 ≤ limit) :
    Ensures (s.evaluate p) (fun s => s.Billed p limit (k + 1))
      (fun _ s => Spent p limit s.transcript) :=
  State.ensures_evaluate (fun _ _ _ _ => h.answered hlimit _ _) fun _ _ _ => h.refused hlimit _

theorem Billed.congr (h : s.Billed p limit k) {s' : State α σ (Strategy α) n m}
    (hsearch : s'.search = s.search) (htranscript : s'.transcript = s.transcript)
    (hiterations : s'.iterations = s.iterations) (hsearching : s'.searching = s.searching)
    (hsteepest : s'.steepest = s.steepest) : s'.Billed p limit k :=
  { h.toLedger.congr (congrArg Strategy.limit hsearch) htranscript hiterations with
    left := by rw [hiterations]; exact h.left
    trials := by rw [hsearching, hsearch]; exact h.trials
    since := by
      unfold charged
      rw [hsearching, htranscript, hsteepest, hsearch]
      exact h.since
    first := by rw [hsearching, htranscript]; exact h.first }

variable [Scalar α]

theorem initial_funded {uses : Bool} (hsearch : p.search = .ofStrategy uses) (x : Vec α n)
    (objective : σ) (search : Strategy α) :
    (State.initial p x objective search : State α σ (Strategy α) n m).Funded p search.limit 0
      where
  limited := by
    show (p.search.reset search).limit = search.limit
    rw [hsearch]
    exact search.limit_reset
  frugal older hsuffix := by
    have hnone : callsSinceAccepted older = 0 := by
      rcases List.suffix_cons_iff.mp hsuffix with rfl | hnil
      · rfl
      · rw [List.suffix_nil.mp hnil]
        rfl
    omega
  calls := rfl
  allowed := Nat.zero_le _
  left _ := one_le_lastIteration _
  fresh _ := rfl
  pending := nofun
  first _ := ⟨rfl, rfl⟩

theorem Billed.ensures_measure (h : s.Billed p limit k) :
    Ensures (s.measure p) (fun s => s.Billed p limit k)
      (fun _ s => Spent p limit s.transcript) :=
  State.ensures_measure (fun _ _ => h.congr rfl rfl rfl rfl rfl) fun _ _ => h.spent

theorem Billed.ensures_settle (h : s.Billed p limit k) :
    Ensures (s.setThreshold p).settle (fun s => s.Billed p limit k)
      (fun _ s => Spent p limit s.transcript) := by
  have hset : (s.setThreshold p).Billed p limit k :=
    setThreshold_of (·.Billed p limit k) fun _ => h.congr rfl rfl rfl rfl rfl
  exact State.ensures_settle (fun _ => ⟨hset.spent.frugal, hset.spent.calls⟩) fun _ => hset

/-! ## The answer of the strategy -/

variable {reply : Reply α} {search : Strategy α}

omit [Scalar α] in
theorem Ledger.told (h : s.Ledger limit k) (slope : α) (hlimited : search.limit = limit)
    (hstatus : reply.status ≠ .converged) :
    (s.told slope reply search).Ledger limit k ∧
      (s.told slope reply search).transcript.callsSinceAccepted =
        s.transcript.callsSinceAccepted := by
  have hentry := isEntry_iterated (n := n) hstatus s.step s.current.value slope reply.step
  have hiterated : State.Ledger limit k
      { s.record (.iterated s.step s.current.value slope reply.status reply.step) with
        search, step := reply.step } :=
    (h.record hentry).congr (hlimited.trans h.limited.symm) rfl rfl
  have hnotified := s.leadsUpTo_told slope reply search
  exact ⟨hiterated.leadsUpTo hnotified, hnotified.callsSinceAccepted.trans
    (callsSinceAccepted_of_not_isEntry hentry s.transcript)⟩

omit [Scalar α] in
/-- An iterate that is accepted settles the account, and gives credit for another one. -/
theorem Ledger.accepted (h : s.Ledger limit k) (slope : α) (hlimited : search.limit = limit)
    (hstatus : reply.status = .converged) :
    (s.told slope reply search).accepted.Ledger limit k ∧
      (s.told slope reply search).accepted.transcript.callsSinceAccepted = 0 := by
  let closed : State α σ (Strategy α) n m :=
    { s.record (.iterated s.step s.current.value slope .converged reply.step) with
      search
      step := reply.step
      iterations := s.iterations + 1
      searching := false }
  have hclosed : closed.Ledger limit k :=
    { limited := hlimited
      frugal := h.frugal.cons (Nat.zero_le _)
      calls := (congrArg List.length (evaluations_of_not_isCall rfl _)).trans h.calls
      allowed := by
        have hsince := h.frugal _ (List.suffix_refl _)
        have hallowed := h.allowed
        show k ≤ callsAllowed limit (s.iterations + 1) + 0
        rw [callsAllowed_succ]
        omega
      fresh := fun hnil => h.fresh (List.append_eq_nil_iff.mp hnil).2 }
  have hready : closed.LeadsUpTo (s.told slope reply search).accepted :=
    { added := ⟨(reply.notices.map Event.noticed).reverse, by
        show _ ++ _ :: s.transcript = _
        rw [hstatus]
        rfl, bookkeeping_notices _⟩ }
  exact ⟨hclosed.leadsUpTo hready, hready.callsSinceAccepted⟩

omit [Scalar α] in
theorem lt_lastIteration {settings : Settings α} {iterations : ℕ}
    (h : iterations < settings.maxIterations) : iterations < settings.lastIteration := by
  unfold Settings.lastIteration
  omega

omit [Scalar α] in
theorem Billed.ensures_accept (h : s.Billed p limit k) (slope : α)
    (hlimited : search.limit = limit)
    (hstatus : reply.status = .converged) :
    Ensures ((s.told slope reply search).accept p) (fun s => s.Cleared p limit k)
      (fun _ s => Spent p limit s.transcript) := by
  obtain ⟨hledger, hsince⟩ := h.toLedger.accepted slope hlimited hstatus
  refine State.ensures_accept (fun _ _ => ⟨hledger.frugal, fun hbounded => ?_⟩) fun hleft => ?_
  · have hallowed := hledger.allowed
    have hmono := callsAllowed_mono limit (Nat.succ_le_of_lt (h.left hbounded))
    rw [hledger.calls]
    rw [hsince] at hallowed
    exact hallowed.trans hmono
  · exact
      { hledger with
        left := fun hbounded => lt_lastIteration (hleft hbounded)
        pending := nofun
        undone := fun _ => hsince.le.trans (Nat.zero_le _)
        paid := fun _ _ => hsince }

/-- A search that is undone leaves no more to pay than its own trials, and nothing is
remembered then. -/
theorem Billed.ensures_abandon (h : s.Billed p limit k) (hsearching : s.searching = true)
    (slope : α) (hlimited : search.limit = limit) (hstatus : reply.status ≠ .converged) :
    Ensures ((s.told slope reply search).abandon p) (fun s => s.Cleared p limit k)
      (fun _ s => Spent p limit s.transcript) := by
  obtain ⟨hledger, hsince⟩ := h.toLedger.told slope hlimited hstatus
  have htold : (s.told slope reply search).Solvent p limit k := { hledger with left := h.left }
  have hnotified := htold.leadsUpTo
    (leadsUpTo_notify _ [.searchAbandoned (s.told slope reply search).iterations])
  have hback : (((s.told slope reply search).notify
      [.searchAbandoned s.iterations]).record .restored).Ledger limit k :=
    hnotified.toLedger.record rfl
  refine State.ensures_abandon (fun _ => htold.spent) (fun hsteepest projected _ => ?_)
    fun _ _ => ?_
  · -- The search that is undone was not the steepest descent, so it made no other one good.
    have hcharged : s.transcript.callsSinceAccepted ≤ limit := by
      have htrials := h.trials hsearching
      have hcharged := h.since hsearching
      have hsteepest : s.steepest = false := hsteepest
      rw [charged, hsteepest] at hcharged
      simp only [Bool.false_eq_true, if_false] at hcharged
      omega
    exact
      { hback.congr rfl rfl rfl with
        left := h.left
        pending := nofun
        undone := fun _ => hsince.le.trans hcharged
        -- The memory has been emptied, and nothing is pushed after a return.
        paid := fun _ hpairs => by
          rcases hpairs with ⟨-, hrestored⟩ | hlive
          · cases hrestored
          · cases hlive }
  · exact (Solvent.mk hback htold.left).spent

theorem Billed.ensures_consult {uses : Bool} (hstrategy : p.search = .ofStrategy uses)
    (h : s.Billed p limit k) :
    Ensures (s.consult p) (fun s => s.Cleared p limit k)
      (fun _ s => Spent p limit s.transcript) := by
  have hquiet (hidle : s.searching = false) : s.Cleared p limit k :=
    have hnone := h.first hidle
    { h.toSolvent with
      pending := fun hsearching => absurd (hidle.symm.trans hsearching) nofun
      undone := fun _ => hnone.le.trans (Nat.zero_le _)
      paid := fun _ _ => hnone }
  refine State.ensures_consult hquiet fun hsearching => ?_
  refine ensures_report (fun slope reply search _ hcall => ?_) (fun _ _ => h.spent)
    fun slope fault search hcall => ?_
  · rw [hstrategy, LineSearch.ofStrategy_iterate] at hcall
    obtain ⟨hreply, rfl⟩ := Prod.mk.inj hcall
    obtain rfl := Except.ok.inj hreply
    have hlimited := (s.search.limit_iterate s.step s.current.value slope).trans h.limited
    cases hstatus : (s.search.iterate s.step s.current.value slope).1.status with
    | searching =>
      show Cleared p limit k _
      have hgoesOn := Strategy.goesOn_iterate hstatus
      obtain ⟨hledger, hsince⟩ :=
        h.toLedger.told slope hlimited (by rw [hstatus]; nofun)
      refine
        { hledger with
          left := h.left
          pending := fun _ => ⟨h.limited ▸ hgoesOn.below, ?_⟩
          undone := fun hidle => absurd (hsearching.symm.trans hidle) nofun
          paid := fun hidle => absurd (hsearching.symm.trans hidle) nofun }
      have hcharged := h.since hsearching
      rw [charged, Nat.add_assoc, ← hgoesOn.trials] at hcharged
      exact hsince.le.trans hcharged
    | converged => exact h.ensures_accept slope hlimited hstatus
    | failed => exact h.ensures_abandon hsearching slope hlimited (by rw [hstatus]; nofun)
  · rw [hstrategy] at hcall
    cases hcall

/-! ## The next search -/

omit [Scalar α] in
theorem Solvent.begun (h : s.Solvent p limit k) (hlimited : search.limit = limit)
    (pass : Pass α n) (reply : Reply α) :
    (s.begun pass reply search).Solvent p limit k ∧
      (s.begun pass reply search).transcript.callsSinceAccepted =
        s.transcript.callsSinceAccepted := by
  have hentry : isEntry (.started s.current pass reply.status reply.step) = false := rfl
  have hstarted : State.Ledger limit k
      ({ s with origin := s.current, search, step := reply.step }.record
        (.started s.current pass reply.status reply.step)) :=
    (h.toLedger.record hentry).congr (hlimited.trans h.limited.symm) rfl rfl
  have hready := s.leadsUpTo_begun pass reply search
  exact ⟨{ hstarted.leadsUpTo hready with left := h.left },
    hready.callsSinceAccepted.trans (callsSinceAccepted_of_not_isEntry hentry s.transcript)⟩

/-- A search along the steepest descent may be the second one since an iterate was
accepted, any other one is the first. -/
theorem Solvent.ensures_begin {uses : Bool} (hstrategy : p.search = .ofStrategy uses)
    (h : s.Solvent p limit k) (hlimit : 1 ≤ limit)
    (hsince : s.transcript.callsSinceAccepted ≤ if s.steepest then limit else 0)
    (slope first : α) :
    Ensures (s.begin p slope first) (fun s => s.Active p limit k)
      (fun _ s => Spent p limit s.transcript) := by
  have hchosen : ∀ step cap, (s.chosen slope step cap).Solvent p limit k :=
    fun step cap => h.leadsUpTo (s.leadsUpTo_chosen slope step cap)
  refine State.ensures_begin (fun cap _ _ => (hchosen _ cap).spent)
    (fun cap reply search _ _ hcall => ?_) fun _ _ => h.spent
  rw [hstrategy, LineSearch.ofStrategy_start] at hcall
  have hlimited := s.search.limit_start s.current.value slope (Scalar.least first cap) cap
  have htrials := s.search.trials_start s.current.value slope (Scalar.least first cap) cap
  rw [hcall] at hlimited htrials
  obtain ⟨hbegun, hsame⟩ := (hchosen (Scalar.least first cap) cap).begun
    (hlimited.trans h.limited) (s.pass slope (Scalar.least first cap) cap) reply
  have hpending : ((s.chosen slope (Scalar.least first cap) cap).begun
      (s.pass slope (Scalar.least first cap) cap) reply search).Pending limit := by
    refine ⟨htrials.trans_lt hlimit, ?_⟩
    rw [hsame, (s.leadsUpTo_chosen slope _ cap).callsSinceAccepted]
    exact hsince.trans (Nat.le_add_right _ _)
  refine ⟨fun _ => ?_, fun _ => hbegun.spent⟩
  exact
    { hbegun.toLedger.congr rfl rfl rfl with
      left := h.left
      searching := rfl
      pending := ⟨hpending.trials, hpending.since⟩ }

theorem Cleared.ensures_seek [Capacity m] {uses : Bool} (hstrategy : p.search = .ofStrategy uses)
    (h : s.Cleared p limit k) (hlimit : 1 ≤ limit) :
    Ensures (s.seek p) (fun s => s.Active p limit k)
      (fun _ s => Spent p limit s.transcript) := by
  refine ensures_seek_steers (fun hsearching => ?_) (fun hidle ready slope first hready => ?_)
    fun _ _ ready hready => (h.toSolvent.leadsUpTo hready).spent
  · exact { h.toSolvent with searching := hsearching, pending := h.pending hsearching }
  · refine (h.toSolvent.leadsUpTo hready.toLeadsUpTo).ensures_begin hstrategy hlimit ?_ slope first
    rw [hready.toLeadsUpTo.callsSinceAccepted]
    cases hsteepest : ready.steepest with
    | true => exact h.undone hidle
    | false => exact (h.paid hidle (hready.pairs hsteepest).1).le

/-! ## Turns and runs -/

theorem Active.ensures_meter (h : s.Active p limit k) :
    Ensures (s.meter p) (fun s => (s.advance p).Funded p limit k)
      (fun _ s => Spent p limit s.transcript) := by
  refine State.ensures_meter (fun _ _ => h.spent) fun _ => ?_
  exact
    { h.toLedger.congr rfl rfl rfl with
      left := h.left
      pending := fun _ => ⟨h.pending.trials, h.pending.since⟩
      first := fun hidle => absurd (h.searching.symm.trans hidle) nofun }

theorem Funded.ensures_turn [Capacity m] {uses : Bool} (hstrategy : p.search = .ofStrategy uses)
    (hlimit : 1 ≤ limit) (h : s.Funded p limit k) :
    Ensures (s.turn p) (fun s => s.Funded p limit (k + 1))
      (fun _ s => Spent p limit s.transcript) :=
  State.ensures_turn h.ensures_project (fun _ hs => hs.ensures_evaluate hlimit)
    (fun _ hs => hs.ensures_measure) (fun _ hs => hs.ensures_settle)
    (fun _ hs => hs.ensures_consult hstrategy) (fun _ hs => hs.ensures_seek hstrategy hlimit)
    (fun _ hs => hs.ensures_meter)

end State

namespace Problem

variable [Scalar α] [Capacity m] {p : Problem α σ (Strategy α) n} {uses : Bool}
  {search : Strategy α}

/-- A run keeps within its account, and is not left unfinished for want of turns. -/
theorem solve_spent (hstrategy : p.search = .ofStrategy uses) (hlimit : 1 ≤ search.limit)
    {turns : ℕ} {x : Vec α n} {objective : σ} {outcome : Outcome α n}
    {last : State α σ (Strategy α) n m}
    (hrun : p.solve m turns x objective search = (outcome, last)) :
    State.Spent p search.limit last.transcript ∧
      (outcome = .unfinished → 0 ≤ p.settings.maxIterations →
        turns < callsAllowed search.limit p.settings.lastIteration) := by
  have hinitial := State.initial_funded hstrategy x objective search (m := m)
  have hcounted := State.run_counted
    (fun k s (hs : s.Funded p search.limit k) => hs.ensures_turn hstrategy hlimit) turns 0 _
    hinitial
  unfold Problem.solve at hrun
  rcases hcounted with ⟨left, hleft, heq⟩ | ⟨ending, ended, hended, heq⟩
  · -- Every turn made one call, so the calls that are allowed bound the turns.
    obtain ⟨rfl, rfl⟩ := Prod.mk.inj (heq.symm.trans hrun)
    refine ⟨hleft.spent, fun _ hbounded => ?_⟩
    have hlt := hleft.lt hlimit
    have hallowed := hleft.allowed
    have hmay := hleft.callsAllowed_le hbounded
    omega
  · have hfinished := ended.finish_ne_unfinished p ending
    have hspent := State.finish_transcript (P := State.Spent p search.limit) (p := p)
      (fun _ ht => ht.cons rfl) (fun _ _ ht => ht.cons rfl) ending hended
    rw [heq.symm.trans hrun] at hfinished hspent
    exact ⟨hspent, fun hunfinished => absurd hunfinished hfinished⟩

/-- A search is over after as many trials as its limit allows.  Between two iterates that
are accepted one after the other, and after the last one, a run calls its objective at most
twice as often; and a run with a limit on its iterations ends within the calls that these
allow. -/
theorem work_bounded (hstrategy : p.search = .ofStrategy uses) (hlimit : 1 ≤ search.limit)
    {turns : ℕ} {x : Vec α n} {objective : σ} {outcome : Outcome α n}
    {last : State α σ (Strategy α) n m}
    (hrun : p.solve m turns x objective search = (outcome, last)) :
    (∀ (s : Strategy α) (value slope step cap : α) (trials : List (α × α × α))
        (trial : α × α × α), s.limit ≤ trials.length + 1 →
        (((s.start value slope step cap).2.after trials).iterate trial.1 trial.2.1
          trial.2.2).1.status ≠ .searching) ∧
      (∀ older, older <:+ last.transcript →
        callsSinceAccepted older ≤ 2 * search.limit) ∧
      (0 ≤ p.settings.maxIterations →
        last.transcript.evaluations.length ≤
            1 + 2 * search.limit * (max 1 p.settings.maxIterations).toNat ∧
          (1 + 2 * search.limit * (max 1 p.settings.maxIterations).toNat ≤ turns →
            outcome ≠ .unfinished)) := by
  have hspent := solve_spent hstrategy hlimit hrun
  refine ⟨fun s value slope step cap trials trial h => ?_, hspent.1.frugal, fun hbounded => ?_⟩
  · exact s.over_after_limit value slope step cap h trial
  · exact ⟨hspent.1.calls hbounded, fun hturns hunfinished =>
      absurd (hspent.2 hunfinished hbounded) (Nat.not_lt_of_le hturns)⟩

end Problem

/-! ## A sample run

An objective that is no number any more after its second answer.  The search from there
fails, and so does the one along the steepest descent that makes it good. -/

namespace Sample

def fading : Sample :=
  .scripted [some (10.0, [-1.0]), some (5.0, [-0.5]), some (0.0 / 0.0, [-1.0])]

def twoTrials : Strategy Float := .backtracking (Backtracking.new ⟨1e-4, 0.1, 1e-20, 2⟩)

def fadingProblem : Problem Float ℕ (Strategy Float) 1 where
  precision := .double
  keepsPairs := true
  objective := fading.objective none .double [1]
  feasible := .unconstrained
  search := .ofStrategy false
  settings := ⟨2, -1, (0.0, 1e-6), (1.0, 0.0), 0⟩

def fadingRun (m : ℕ) [Capacity m] : Outcome Float 1 × State Float ℕ (Strategy Float) 1 m :=
  fadingProblem.solve m 9 (.replicate 1 0.0) 0 twoTrials

theorem fadingRun_bounded :
    fadingProblem.search = .ofStrategy false ∧ 1 ≤ twoTrials.limit ∧
      ((twoTrials.start 10.0 (-1.0) 1.0 Scalar.infinity).2.iterate 1.0 (0.0 / 0.0) 0.0).1.status =
        .searching ∧
      (((twoTrials.start 10.0 (-1.0) 1.0 Scalar.infinity).2.after [(1.0, 0.0 / 0.0, 0.0)]).iterate
        0.1 (0.0 / 0.0) 0.0).1.status ≠ .searching ∧
      (∀ older, older <:+ (fadingRun 1).2.transcript →
        Transcript.callsSinceAccepted older ≤ 2 * twoTrials.limit) ∧
      0 ≤ fadingProblem.settings.maxIterations ∧
      (fadingRun 1).2.transcript.evaluations.length ≤
        1 + 2 * twoTrials.limit * (max 1 fadingProblem.settings.maxIterations).toNat ∧
      (fadingRun 1).1 ≠ .unfinished := by
  have hlimit : 1 ≤ twoTrials.limit := by decide
  have hrun : fadingProblem.solve 1 9 (.replicate 1 0.0) 0 twoTrials = fadingRun 1 := rfl
  have hbounded : 0 ≤ fadingProblem.settings.maxIterations := by decide
  obtain ⟨hover, hfrugal, hcalls⟩ :=
    Problem.work_bounded rfl hlimit (hrun.trans Prod.mk.eta.symm)
  obtain ⟨hlength, hended⟩ := hcalls hbounded
  refine ⟨rfl, hlimit, by decide +kernel, ?_, hfrugal, hbounded, hlength, hended (by decide)⟩
  exact hover twoTrials 10.0 (-1.0) 1.0 Scalar.infinity [(1.0, 0.0 / 0.0, 0.0)]
    (0.1, 0.0 / 0.0, 0.0) (by decide)

end Sample

end VariableMetric
