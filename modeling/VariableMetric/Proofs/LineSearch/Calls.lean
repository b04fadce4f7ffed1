import VariableMetric.Proofs.LineSearch.Trials

/-!
# The calls of a strategy

A strategy can be called in any order: it is reset, it is asked to begin searches, some of
which it refuses, and it is told of trials, whether or not a search is on.  The record of its
calls and answers tells where the search that is on began, how many of its trials were
rejected, and from which values a nonmonotone strategy takes its reference.
-/

namespace VariableMetric

variable {α : Type}

inductive SearchCall (α : Type) where
  | reset
  | start (value slope step cap : α)
  | iterate (step value slope : α)

/-- A call with its answer; a reset has none. -/
structure SearchEntry (α : Type) where
  call : SearchCall α
  reply? : Option (Reply α)

/-- Where a search began, and the largest step that it was allowed. -/
structure Origin (α : Type) where
  value : α
  slope : α
  cap : α

def Search.origin (s : Search α) : Origin α := ⟨s.value, s.slope, s.cap⟩

namespace SearchEntry

def isReset (entry : SearchEntry α) : Bool :=
  match entry.call with
  | .reset => true
  | _ => false

def isStart (entry : SearchEntry α) : Bool :=
  match entry.call with
  | .start .. => true
  | _ => false

/-- The origin of a search that was begun, and not refused. -/
def origin? (entry : SearchEntry α) : Option (Origin α) :=
  match entry.call, entry.reply? with
  | .start value slope _ cap, some ⟨.searching, _, _⟩ => some ⟨value, slope, cap⟩
  | _, _ => none

/-- A trial that was not accepted. -/
def isRejection (entry : SearchEntry α) : Bool :=
  match entry.call, entry.reply? with
  | .iterate .., some ⟨.converged, _, _⟩ => false
  | .iterate .., some _ => true
  | _, _ => false

end SearchEntry

/-- The origins of the searches that were begun since the last reset, the last one first. -/
def originsSince (log : List (SearchEntry α)) : List (Origin α) :=
  (log.takeWhile fun entry => !entry.isReset).filterMap SearchEntry.origin?

/-- How many trials were rejected since a search was last asked for. -/
def rejectionsSince (log : List (SearchEntry α)) : ℕ :=
  (log.takeWhile fun entry => !entry.isStart).countP SearchEntry.isRejection

theorem originsSince_cons (entry : SearchEntry α) (log : List (SearchEntry α)) :
    originsSince (entry :: log) =
      if entry.isReset then [] else entry.origin?.toList ++ originsSince log := by
  unfold originsSince
  cases hreset : entry.isReset with
  | true =>
    rw [List.takeWhile_cons_of_neg (by simp [hreset])]
    rfl
  | false =>
    rw [List.takeWhile_cons_of_pos (by simp [hreset]), List.filterMap_cons]
    cases entry.origin? <;> rfl

theorem rejectionsSince_cons (entry : SearchEntry α) (log : List (SearchEntry α)) :
    rejectionsSince (entry :: log) =
      if entry.isStart then 0
      else rejectionsSince log + if entry.isRejection then 1 else 0 := by
  unfold rejectionsSince
  cases hstart : entry.isStart with
  | true =>
    rw [List.takeWhile_cons_of_neg (by simp [hstart])]
    rfl
  | false =>
    rw [List.takeWhile_cons_of_pos (by simp [hstart]), List.countP_cons]
    rfl

theorem rejectionsSince_of_rejected (log : List (SearchEntry α)) {step value slope : α}
    {reply : Reply α} (h : reply.status ≠ .converged) :
    rejectionsSince (⟨.iterate step value slope, some reply⟩ :: log) = rejectionsSince log + 1 := by
  have hrejection : SearchEntry.isRejection ⟨.iterate step value slope, some reply⟩ = true := by
    obtain ⟨status, next, notices⟩ := reply
    cases status with
    | converged => exact absurd rfl h
    | _ => rfl
  rw [rejectionsSince_cons, hrejection]
  rfl

/-- A strategy with the record of the calls that it has served, the last one first. -/
structure SearchSession (α : Type) where
  strategy : Strategy α
  log : List (SearchEntry α)

variable [Scalar α]

def Rule.new : Rule α → Strategy α
  | backtracking r => .backtracking (.new r)
  | nonmonotone r window => .nonmonotone (.new r window)
  | wolfe r => .wolfe (.new r)

def Strategy.perform (s : Strategy α) : SearchCall α → Option (Reply α) × Strategy α
  | .reset => (none, s.reset)
  | .start value slope step cap =>
    let (reply, s) := s.start value slope step cap
    (some reply, s)
  | .iterate step value slope =>
    let (reply, s) := s.iterate step value slope
    (some reply, s)

def SearchSession.serve (t : SearchSession α) (call : SearchCall α) : SearchSession α :=
  let (reply?, strategy) := t.strategy.perform call
  ⟨strategy, ⟨call, reply?⟩ :: t.log⟩

def Strategy.serve (s : Strategy α) (calls : List (SearchCall α)) : SearchSession α :=
  calls.foldl SearchSession.serve ⟨s, []⟩

/-! ## One call -/

namespace Search

theorem origin_backtrack (s : Search α) (rule : Safeguard α) (reference step value : α) :
    (s.backtrack rule reference step value).2.origin = s.origin := by
  rcases s.backtrack_cases rule reference step value with
    ⟨-, heq⟩ | ⟨-, -, heq⟩ | ⟨-, -, _, _, -, -, heq⟩ <;> rw [heq] <;> rfl

end Search

theorem Wolfe.origin_reject (b : Wolfe α) : b.reject.2.search.origin = b.search.origin := by
  rcases b.reject_cases with ⟨_, -, heq⟩ | ⟨-, -, heq⟩ <;> rw [heq] <;> rfl

namespace Strategy

theorem origin_iterate (s : Strategy α) (step value slope : α) :
    (s.iterate step value slope).2.search.origin = s.search.origin := by
  cases s with
  | backtracking b => exact b.search.origin_backtrack _ _ _ _
  | nonmonotone b => exact b.search.origin_backtrack _ _ _ _
  | wolfe b =>
    show (b.iterate step value slope).2.search.origin = b.search.origin
    rcases b.iterate_cases step value slope with ⟨-, heq⟩ | ⟨-, heq | ⟨b', hsearch, -, heq⟩⟩
    · rw [heq]
    · rw [heq]
      rfl
    · rw [heq, Wolfe.origin_reject, hsearch]

omit [Scalar α] in
theorem status_reset (s : Strategy α) : s.reset.search.status = .failed := by
  cases s <;> rfl

end Strategy

namespace Nonmonotone

theorem history_start (b : Nonmonotone α) (value slope step cap : α) :
    (b.start value slope step cap).2.history =
      if (Search.start value slope step cap).1.status = .searching then b.remember value
      else b.history := by
  unfold start
  dsimp only
  split <;> rfl

theorem window_start (b : Nonmonotone α) (value slope step cap : α) :
    (b.start value slope step cap).2.window = b.window := by
  unfold start
  dsimp only
  split <;> rfl

omit [Scalar α] in
/-- A history of the last values becomes the history with one more of them. -/
theorem remember_eq {b : Nonmonotone α} {older : List α}
    (h : b.history = (older.take b.window).reverse) (value : α) :
    b.remember value = ((value :: older).take b.window).reverse := by
  have hremember : b.remember value = (b.history ++ [value]).rtake b.window := rfl
  rw [hremember, h, List.rtake_eq_reverse_take_reverse, List.reverse_append,
    List.reverse_reverse]
  cases b.window with
  | zero => rfl
  | succ k =>
    simp only [List.reverse_singleton, List.singleton_append, List.take_succ_cons, List.take_take,
      Nat.min_eq_left k.le_succ]

end Nonmonotone

/-! ## What the record tells -/

namespace Strategy

variable {s : Strategy α} {rule : Rule α} {log : List (SearchEntry α)}

/-- A nonmonotone strategy remembers the last of some values, given the last one first, as many
as its window holds. -/
def Remembers (values : List α) : Strategy α → Prop
  | nonmonotone b => b.history = (values.take b.window).reverse
  | _ => True

omit [Scalar α] in
theorem remembers_nonmonotone {b : Nonmonotone α} {values : List α} :
    (nonmonotone b).Remembers values ↔ b.history = (values.take b.window).reverse := Iff.rfl

/-- What a strategy holds is what the record of its calls tells. -/
structure Recalls (rule : Rule α) (log : List (SearchEntry α)) (s : Strategy α) : Prop where
  rule_eq : s.rule = rule
  remembers : s.Remembers ((originsSince log).map Origin.value)
  origin : s.search.status = .searching → (originsSince log).head? = some s.search.origin
  descends : s.search.status = .searching → s.search.slope < 0
  trials : s.search.status = .searching → s.search.trials = rejectionsSince log

theorem Recalls.of_idle (hrule : s.rule = rule)
    (hremembers : s.Remembers ((originsSince log).map Origin.value))
    (hidle : s.search.status ≠ .searching) : s.Recalls rule log :=
  ⟨hrule, hremembers, fun hon => absurd hon hidle, fun hon => absurd hon hidle,
    fun hon => absurd hon hidle⟩

theorem recalls_new (rule : Rule α) : rule.new.Recalls rule [] := by
  cases rule with
  | nonmonotone r window => exact .of_idle rfl (congrArg List.reverse List.take_nil).symm nofun
  | _ => exact .of_idle rfl trivial nofun

theorem Recalls.reset (h : s.Recalls rule log) :
    s.reset.Recalls rule (⟨.reset, none⟩ :: log) := by
  refine .of_idle (s.rule_reset.trans h.rule_eq) ?_ ?_
  · cases s with
    | nonmonotone b => exact (congrArg List.reverse List.take_nil).symm
    | _ => trivial
  · rw [s.status_reset]
    exact nofun

theorem Remembers.start {values : List α} (h : s.Remembers values) (value slope step cap : α) :
    (s.start value slope step cap).2.Remembers
      (if (s.start value slope step cap).1.status = .searching then value :: values
        else values) := by
  rw [(s.start_search value slope step cap).1]
  cases s with
  | nonmonotone b =>
    change (nonmonotone (b.start value slope step cap).2).Remembers _
    rw [remembers_nonmonotone, b.history_start, b.window_start]
    split
    · exact b.remember_eq h value
    · exact h
  | _ => trivial

theorem Recalls.start (h : s.Recalls rule log) (value slope step cap : α) :
    (s.start value slope step cap).2.Recalls rule
      (⟨.start value slope step cap, some (s.start value slope step cap).1⟩ :: log) := by
  obtain ⟨hreply, hsearch⟩ := s.start_search value slope step cap
  have hremembers := h.remembers.start value slope step cap
  have hrule := (s.rule_start value slope step cap).trans h.rule_eq
  rw [hreply] at hremembers ⊢
  rcases Search.start_cases value slope step cap with ⟨notices, heq⟩ | ⟨hslope, -, heq⟩
  · rw [heq] at hsearch hremembers ⊢
    refine .of_idle hrule hremembers ?_
    rw [hsearch]
    exact nofun
  · rw [heq] at hsearch hremembers ⊢
    refine ⟨hrule, hremembers, fun _ => ?_, fun _ => ?_, fun _ => ?_⟩
    · rw [hsearch]
      rfl
    · rw [hsearch]
      exact hslope
    · rw [hsearch]
      rfl

theorem Recalls.iterate (h : s.Recalls rule log) (step value slope : α) :
    (s.iterate step value slope).2.Recalls rule
      (⟨.iterate step value slope, some (s.iterate step value slope).1⟩ :: log) := by
  have horigin := s.origin_iterate step value slope
  have hrule := (s.rule_iterate step value slope).trans h.rule_eq
  have horigins : originsSince
      (⟨.iterate step value slope, some (s.iterate step value slope).1⟩ :: log) =
        originsSince log := originsSince_cons _ _
  have hremembers : (s.iterate step value slope).2.Remembers
      ((originsSince log).map Origin.value) := by
    have hremembers := h.remembers
    cases s with
    | nonmonotone b => exact hremembers
    | _ => trivial
  by_cases hstatus : (s.iterate step value slope).1.status = .searching
  · have hgoesOn := goesOn_iterate hstatus
    refine ⟨hrule, horigins ▸ hremembers, fun _ => ?_, fun _ => ?_, fun _ => ?_⟩
    · rw [horigins, horigin]
      exact h.origin hgoesOn.before
    · exact lt_of_eq_of_lt (congrArg Origin.slope horigin) (h.descends hgoesOn.before)
    · have hrejected : (s.iterate step value slope).1.status ≠ .converged := by
        rw [hstatus]
        exact nofun
      rw [hgoesOn.trials, h.trials hgoesOn.before, rejectionsSince_of_rejected _ hrejected]
  · rw [← status_iterate] at hstatus
    exact .of_idle hrule (horigins ▸ hremembers) hstatus

/-- After any calls a strategy holds what the record tells. -/
theorem recalls_serve (rule : Rule α) (calls : List (SearchCall α)) :
    (rule.new.serve calls).strategy.Recalls rule (rule.new.serve calls).log := by
  have hserves (t : SearchSession α) (h : t.strategy.Recalls rule t.log) :
      (calls.foldl SearchSession.serve t).strategy.Recalls rule
        (calls.foldl SearchSession.serve t).log := by
    induction calls generalizing t with
    | nil => exact h
    | cons call calls ih =>
      apply ih
      cases call with
      | reset => exact h.reset
      | start value slope step cap => exact h.start value slope step cap
      | iterate step value slope => exact h.iterate step value slope
  exact hserves ⟨rule.new, []⟩ (recalls_new rule)

end Strategy

/-- The record of the calls that were made. -/
theorem Strategy.calls_serve (s : Strategy α) (calls : List (SearchCall α)) :
    (s.serve calls).log.map SearchEntry.call = calls.reverse := by
  have hserves (t : SearchSession α) :
      (calls.foldl SearchSession.serve t).log.map SearchEntry.call =
        calls.reverse ++ t.log.map SearchEntry.call := by
    induction calls generalizing t with
    | nil => rfl
    | cons call calls ih =>
      rw [List.foldl_cons, ih, List.reverse_cons, List.append_assoc]
      rfl
  exact (hserves ⟨s, []⟩).trans (List.append_nil _)

end VariableMetric
