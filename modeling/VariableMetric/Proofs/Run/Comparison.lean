import VariableMetric.Proofs.Run.Approach

/-!
# Two runs compared

Two runs are compared part by part: related parts go on with related results, or end
for the same reason in related states.  The rules take the two turns apart together,
so that a relation between two runs is put together from what each part does to it.

Here the runs have the same data except for the set, and their states agree except for
the states of the objective and of the line search, the steps and the records.  Where
the sets answer alike, every part of a turn keeps such states together; what becomes of
the search is left to the relation.
-/

namespace VariableMetric

variable {α σ σ' τ β β' γ γ' : Type} {n m : ℕ}

/-- An objective whose answers depend on the point only. -/
def Objective.IsFunction (f : Objective σ α n) : Prop :=
  ∃ answer : Vec α n → Except Fault (α × Vec α n),
    ∀ objective x gradient, (f.evaluate objective x gradient).1 = answer x

/-- One that always gives the same answer at a point. -/
def Objective.IsFunctionAt (f : Objective σ α n) (x : Vec α n) : Prop :=
  ∃ answer, ∀ objective gradient, (f.evaluate objective x gradient).1 = answer

theorem Objective.IsFunction.isFunctionAt {f : Objective σ α n} (h : f.IsFunction) (x : Vec α n) :
    f.IsFunctionAt x := by
  obtain ⟨answer, hanswer⟩ := h
  exact ⟨answer x, fun objective gradient => hanswer objective x gradient⟩

/-- A set that does at a point what another one does, but for the step at which a path
rests. -/
structure FeasibleSet.AnswersLike (S T : FeasibleSet α n) (x : Vec α n) : Prop where
  point : S.projectVariables x = T.projectVariables x
  gradient : S.projectGradient x = T.projectGradient x
  direction : S.projectDirection x = T.projectDirection x
  initialStep : S.initialStep x = T.initialStep x

theorem FeasibleSet.AnswersLike.refl (S : FeasibleSet α n) (x : Vec α n) :
    S.AnswersLike S x := ⟨rfl, rfl, rfl, rfl⟩

namespace State

/-! ## Parts side by side -/

/-- Both parts go on, with results that are related, or both end for the same reason in
related states. -/
def Mirrors (part : Progress α σ τ n m β) (part' : Progress α σ' τ n m β') (onward : β → β' → Prop)
    (ended : State α σ τ n m → State α σ' τ n m → Prop) : Prop :=
  match part, part' with
  | .ok b, .ok b' => onward b b'
  | .error (ending, s), .error (ending', s') => ending' = ending ∧ ended s s'
  | _, _ => False

variable {s : State α σ τ n m} {s' : State α σ' τ n m} {part : Progress α σ τ n m β}
  {part' : Progress α σ' τ n m β'} {onward : β → β' → Prop}
  {ended : State α σ τ n m → State α σ' τ n m → Prop}

theorem Mirrors.bind {next : β → Progress α σ τ n m γ} {next' : β' → Progress α σ' τ n m γ'}
    {onward' : γ → γ' → Prop}
    (hpart : Mirrors part part' onward ended)
    (hnext : ∀ b b', part = .ok b → onward b b' →
      Mirrors (next b) (next' b') onward' ended) :
    Mirrors (part >>= next) (part' >>= next') onward' ended := by
  cases part with
  | ok b => cases part' with
    | ok b' => exact hnext b b' rfl hpart
    | error result' => exact hpart.elim
  | error result => cases part' with
    | ok b' => exact hpart.elim
    | error result' => exact hpart

theorem Mirrors.mono {onward' : β → β' → Prop}
    {ended' : State α σ τ n m → State α σ' τ n m → Prop} (h : Mirrors part part' onward ended)
    (honward : ∀ b b', onward b b' → onward' b b')
    (hended : ∀ s s', ended s s' → ended' s s') : Mirrors part part' onward' ended' := by
  cases part with
  | ok b => cases part' with
    | ok b' => exact honward b b' h
    | error result' => exact h
  | error result => cases part' with
    | ok b' => exact h
    | error result' => exact ⟨h.1, hended _ _ h.2⟩

/-- What one of the parts ensures may be used as well. -/
theorem Mirrors.ensuring {first : β → Prop} {last : Ending → State α σ τ n m → Prop}
    (h : Mirrors part part' onward ended) (hfirst : Ensures part first last) :
    Mirrors part part' (fun b b' => first b ∧ onward b b')
      (fun s s' => (∃ ending, last ending s) ∧ ended s s') := by
  cases part with
  | ok b => cases part' with
    | ok b' => exact ⟨hfirst, h⟩
    | error result' => exact h
  | error result => cases part' with
    | ok b' => exact h
    | error result' => exact ⟨h.1, ⟨_, hfirst⟩, h.2⟩

theorem mirrors_attempt {result result' : Except Fault γ} {next : γ → Progress α σ τ n m β}
    {next' : γ → Progress α σ' τ n m β'} (hresult : result' = result)
    (hok : ∀ b, result = .ok b → Mirrors (next b) (next' b) onward ended)
    (hfault : ended s s') :
    Mirrors (s.attempt result >>= next) (s'.attempt result' >>= next') onward ended := by
  subst hresult
  cases result' with
  | ok b => exact hok b rfl
  | error fault => exact ⟨rfl, hfault⟩

end State

/-! ## Likeness -/

/-- How two runs are alike: how the steps and the records are related, and how the
states of the line searches are before a search is begun and, together with the steps,
while one is on. -/
structure Likeness (α τ : Type) (n : ℕ) where
  steps : α → α → Prop
  records : Transcript α n → Transcript α n → Prop
  idle : τ → τ → Prop
  busy : α → τ → α → τ → Prop
  cons : ∀ (e : Event α n) {t t' : Transcript α n}, records t t' → records (e :: t) (e :: t')
  printed : ∀ (row : Row α) {step step' : α} {t t' : Transcript α n}, steps step step' →
    records t t' →
    records (.printed { row with step } :: t) (.printed { row with step := step' } :: t')

namespace Likeness

open State

variable (l : Likeness α τ n)

/-- The states agree in all that an objective or a line search does not hold. -/
inductive Resembles : State α σ τ n m → State α σ τ n m → Prop
  | intro (s : State α σ τ n m) {step : α} (objective : σ) (search : τ)
    {transcript : Transcript α n} (hstep : l.steps s.step step)
    (hrecord : l.records s.transcript transcript) :
    Resembles s { s with step, objective, search, transcript }

structure Matches (s s' : State α σ τ n m) : Prop where
  resembles : l.Resembles s s'
  idle : s.searching = false → l.idle s.search s'.search
  busy : s.searching = true → l.busy s.step s.search s'.step s'.search

variable {l} {s s' : State α σ τ n m}

theorem Resembles.record (h : l.Resembles s s') (e : Event α n) :
    l.Resembles (s.record e) (s'.record e) := by
  obtain ⟨objective, search, hstep, hrecord⟩ := h
  exact .intro (s.record e) objective search hstep (l.cons e hrecord)

theorem records_notices (notices : List (Notice α)) {t t' : Transcript α n}
    (h : l.records t t') :
    l.records ((notices.map Event.noticed).reverse ++ t)
      ((notices.map Event.noticed).reverse ++ t') := by
  induction notices generalizing t t' with
  | nil => exact h
  | cons notice notices ih => simpa using ih (l.cons (.noticed notice) h)

theorem Resembles.notify (h : l.Resembles s s') (notices : List (Notice α)) :
    l.Resembles (s.notify notices) (s'.notify notices) := by
  obtain ⟨objective, search, hstep, hrecord⟩ := h
  exact .intro (s.notify notices) objective search hstep (records_notices notices hrecord)

theorem Resembles.print (h : l.Resembles s s') : l.Resembles s.print s'.print := by
  have hprinted : ∀ s s' : State α σ τ n m, l.Resembles s s' →
      l.Resembles (s.record (.printed s.row)) (s'.record (.printed s'.row)) := by
    rintro s _ ⟨objective, search, hstep, hrecord⟩
    exact .intro _ objective search hstep (l.printed s.row hstep hrecord)
  have hhead : s'.evaluations = s.evaluations := by
    obtain ⟨objective, search, hstep, hrecord⟩ := h
    rfl
  unfold State.print
  rw [hhead]
  split
  · exact hprinted _ _ (h.record .headed)
  · exact hprinted _ _ h

theorem Resembles.atOrigin (h : l.Resembles s s') : l.Resembles s.atOrigin s'.atOrigin := by
  obtain ⟨objective, search, hstep, hrecord⟩ := h
  exact .intro s.atOrigin objective search hstep hrecord

/-! ## The parts of a turn -/

variable {p : Problem α σ τ n} {S : FeasibleSet α n}

theorem Matches.mirrors_project (h : l.Matches s s')
    (hset : S.AnswersLike p.feasible s.current.point) :
    Mirrors (s.project p) (s'.project { p with feasible := S }) l.Matches l.Resembles := by
  obtain ⟨⟨objective, search, hstep, hrecord⟩, hidle, hbusy⟩ := h
  refine mirrors_attempt hset.point (fun x _ => ?_) (.intro _ _ _ hstep hrecord)
  exact ⟨.intro { s with current := { s.current with point := x } } _ _ hstep hrecord, hidle,
    hbusy⟩

theorem Matches.mirrors_evaluate (h : l.Matches s s')
    (hfunction : p.objective.IsFunctionAt s.current.point) :
    Mirrors (s.evaluate p) (s'.evaluate { p with feasible := S }) l.Matches l.Resembles := by
  obtain ⟨⟨objective, search, hstep, hrecord⟩, hidle, hbusy⟩ := h
  obtain ⟨answer, hanswer⟩ := hfunction
  have hfirst := hanswer s.objective s.current.gradient
  have hsecond := hanswer objective s.current.gradient
  unfold evaluate
  dsimp only
  rcases hanswers : p.objective.evaluate s.objective s.current.point s.current.gradient with
    ⟨result, objective₁⟩
  rcases hanswers' : p.objective.evaluate objective s.current.point s.current.gradient with
    ⟨result', objective₂⟩
  rw [hanswers] at hfirst
  rw [hanswers'] at hsecond
  obtain rfl : result' = result := hsecond.trans hfirst.symm
  cases result' with
  | error fault =>
    exact ⟨rfl, (Resembles.intro { s with objective := objective₁ } objective₂ search hstep
      hrecord).record _⟩
  | ok pair =>
    exact ⟨(Resembles.intro
        { s with
          current := ⟨s.current.point, pair.1, pair.2⟩
          objective := objective₁
          evaluations := s.evaluations + 1 } objective₂ search hstep hrecord).record _,
      hidle, hbusy⟩

variable [Scalar α]

theorem Matches.mirrors_measure (h : l.Matches s s')
    (hset : S.AnswersLike p.feasible s.current.point) :
    Mirrors (s.measure p) (s'.measure { p with feasible := S }) l.Matches l.Resembles := by
  obtain ⟨⟨objective, search, hstep, hrecord⟩, hidle, hbusy⟩ := h
  unfold State.measure measured
  dsimp only
  rw [hset.gradient]
  cases p.feasible.projectGradient s.current.point s.current.gradient with
  | error fault => exact ⟨rfl, .intro s objective search hstep hrecord⟩
  | ok projected =>
    exact ⟨.intro { s with projected, norm := projected.norm } objective search hstep hrecord,
      hidle, hbusy⟩

theorem Matches.setThreshold (h : l.Matches s s') :
    l.Matches (s.setThreshold p) (s'.setThreshold { p with feasible := S }) := by
  obtain ⟨⟨objective, search, hstep, hrecord⟩, hidle, hbusy⟩ := h
  unfold State.setThreshold
  dsimp only
  split
  · exact ⟨.intro { s with
      threshold := p.settings.tolerance.1 + p.settings.tolerance.2 * s.norm } objective search
      hstep hrecord, hidle, hbusy⟩
  · exact ⟨.intro s objective search hstep hrecord, hidle, hbusy⟩

theorem Matches.mirrors_settle (h : l.Matches s s') :
    Mirrors s.settle s'.settle l.Matches l.Resembles := by
  obtain ⟨⟨objective, search, hstep, hrecord⟩, hidle, hbusy⟩ := h
  unfold settle
  dsimp only
  split
  · exact ⟨rfl, .intro { s with
      iterations := if s.searching then s.iterations + 1 else s.iterations } objective search
      hstep hrecord⟩
  · exact ⟨.intro s objective search hstep hrecord, hidle, hbusy⟩

/-- The first half of a turn, at the point that is brought into the set. -/
theorem Matches.mirrors_gauge (h : l.Matches s s')
    (hset : S.AnswersLike p.feasible s.current.point)
    (hpoint : ∀ x, p.feasible.projectVariables s.current.point = .ok x →
      p.objective.IsFunctionAt x ∧ S.AnswersLike p.feasible x) :
    Mirrors (s.gauge p) (s'.gauge { p with feasible := S }) l.Matches l.Resembles := by
  have hbrought : Ensures (s.project p)
      (fun s₁ => p.feasible.projectVariables s.current.point = .ok s₁.current.point)
      fun _ _ => True := ensures_project (fun _ hx => hx) fun _ _ => trivial
  have hstays : ∀ s₁ : State α σ τ n m, Ensures (s₁.evaluate p)
      (fun s₂ => s₂.current.point = s₁.current.point) fun _ _ => True := fun _ =>
    ensures_evaluate (fun _ _ _ _ => rfl) fun _ _ _ => trivial
  unfold State.gauge
  refine (((h.mirrors_project hset).ensuring hbrought).mono (fun _ _ h => h) fun _ _ h => h.2).bind
    fun s₁ _ _ ⟨hx, h₁⟩ => ?_
  obtain ⟨hfunction, hset₁⟩ := hpoint _ hx
  refine (((h₁.mirrors_evaluate hfunction).ensuring (hstays s₁)).mono (fun _ _ h => h)
    fun _ _ h => h.2).bind fun s₂ _ _ ⟨hplace, h₂⟩ => ?_
  exact (h₂.mirrors_measure (hplace ▸ hset₁)).bind fun _ _ _ h₃ => h₃.setThreshold.mirrors_settle

omit [Scalar α] in
theorem Resembles.mirrors_accept (h : l.Resembles s s') (hidle : l.idle s.search s'.search) :
    Mirrors (s.accept p) (s'.accept { p with feasible := S }) l.Matches l.Resembles := by
  obtain ⟨objective, search, hstep, hrecord⟩ := h
  have haccepted := Resembles.intro s.accepted objective search hstep hrecord
  unfold accept
  dsimp only
  split
  · exact ⟨rfl, haccepted⟩
  · exact ⟨haccepted, fun _ => hidle, nofun⟩

theorem Resembles.mirrors_abandon (h : l.Resembles s s') (hidle : l.idle s.search s'.search)
    (hset : S.AnswersLike p.feasible s.origin.point) :
    Mirrors (s.abandon p) (s'.abandon { p with feasible := S }) l.Matches l.Resembles := by
  have hback := ((h.notify [.searchAbandoned s.iterations]).record .restored).atOrigin
  obtain ⟨objective, search, hstep, hrecord⟩ := h
  unfold abandon
  dsimp only
  split
  · exact ⟨rfl, .intro s objective search hstep hrecord⟩
  · unfold State.measure measured
    simp only [State.atOrigin, State.record, State.notify]
    rw [hset.gradient]
    cases p.feasible.projectGradient s.origin.point s.origin.gradient with
    | error fault => exact ⟨rfl, hback⟩
    | ok projected =>
      refine ⟨?_, fun _ => hidle, fun hbusy => by cases hbusy⟩
      exact .intro (s.sentBack projected) objective search hstep
        (l.cons .restored (l.cons (.noticed (.searchAbandoned s.iterations)) hrecord))

theorem Resembles.mirrors_follow (h : l.Resembles s s') (hidle : l.idle s.search s'.search)
    (hset : S.AnswersLike p.feasible s.origin.point) {status : SearchStatus}
    (hsearching : status = .searching → l.Matches s s') :
    Mirrors (s.follow p status) (s'.follow { p with feasible := S } status) l.Matches
      l.Resembles := by
  cases status with
  | searching => exact hsearching rfl
  | converged => exact h.mirrors_accept hidle
  | failed => exact h.mirrors_abandon hidle hset

omit [Scalar α] in
theorem Matches.print (h : l.Matches s s') : l.Matches s.print s'.print := by
  have hsame : ∀ s : State α σ τ n m, s.print = { s with transcript := s.print.transcript } := by
    intro s
    unfold State.print record
    split <;> rfl
  refine ⟨h.resembles.print, ?_, ?_⟩
  · rw [hsame s, hsame s']
    exact h.idle
  · rw [hsame s, hsame s']
    exact h.busy

omit [Scalar α] in
theorem Matches.printDue (h : l.Matches s s') :
    l.Matches (s.printDue p) (s'.printDue { p with feasible := S }) := by
  have hprinted := h.print
  obtain ⟨⟨objective, search, hstep, hrecord⟩, hidle, hbusy⟩ := h
  unfold State.printDue
  dsimp only
  split
  · exact hprinted
  · exact ⟨.intro s objective search hstep hrecord, hidle, hbusy⟩

variable [Capacity m]

theorem Matches.mirrors_remember (h : l.Matches s s') :
    Mirrors (s.remember p) (s'.remember { p with feasible := S })
      (fun b b' => b.current = s.current ∧ l.Matches b b') l.Resembles := by
  obtain ⟨⟨objective, search, hstep, hrecord⟩, hidle, hbusy⟩ := h
  unfold remember
  dsimp only
  split
  · split
    · exact ⟨rfl, .intro (s.enriched (Vec.difference p.precision s.current.point s.origin.point)
        (Vec.difference p.precision s.current.gradient s.origin.gradient)) objective search
        hstep (l.cons _ hrecord), hidle, hbusy⟩
    · exact ⟨rfl, .intro s objective search hstep hrecord⟩
  · exact ⟨rfl, .intro s objective search hstep hrecord, hidle, hbusy⟩

/-- Two ways to a search that lead to the same slope and the same first step. -/
def AimsAlike (l : Likeness α τ n) (a a' : α × α × State α σ τ n m) : Prop :=
  a'.1 = a.1 ∧ a'.2.1 = a.2.1 ∧ l.Matches a.2.2 a'.2.2

omit [Capacity m] in
theorem Matches.mirrors_steer (h : l.Matches s s')
    (hset : S.AnswersLike p.feasible s.current.point) :
    Mirrors (s.steer p) (s'.steer { p with feasible := S }) (AimsAlike l) l.Resembles := by
  obtain ⟨⟨objective, search, hstep, hrecord⟩, hidle, hbusy⟩ := h
  have hsteered := Resembles.intro (s.steered p) objective search hstep hrecord
  refine mirrors_attempt ?_ (fun first _ => ⟨rfl, rfl, hsteered, hidle, hbusy⟩) hsteered
  exact congrFun (congrFun hset.initialStep _) _

/-- Which direction is proposed, and that the run stays where it is. -/
theorem Matches.mirrors_propose (h : l.Matches s s')
    (hset : S.AnswersLike p.feasible s.current.point) :
    Mirrors (s.propose p) (s'.propose { p with feasible := S })
      (fun b b' => b'.1 = b.1 ∧ b.2.current = s.current ∧ l.Matches b.2 b'.2) l.Resembles := by
  obtain ⟨⟨objective, search, hstep, hrecord⟩, hidle, hbusy⟩ := h
  unfold propose
  dsimp only [State.record]
  rw [hset.direction]
  rcases s.memory.direction p.precision (p.feasible.projectDirection s.current.point)
    s.direction s.current.gradient s.projected.support with ⟨answer, memory, notices⟩
  have hrecords := records_notices notices (l.cons (.recalled s.memory.pairs) hrecord)
  cases answer with
  | error fault =>
    exact ⟨rfl, .intro (s.asked memory notices) objective search hstep hrecords⟩
  | ok d =>
    show Mirrors (if d.descends = true then _ else _) (if d.descends = true then _ else _) _ _
    split
    · exact ⟨rfl, rfl, .intro { s.asked memory notices with
        direction := d.vector
        steepest := false } objective search hstep hrecords, hidle, hbusy⟩
    · exact ⟨rfl, rfl, .intro { s.asked memory notices with
        direction := d.vector
        restarts := s.restarts + 1 } objective search hstep hrecords, hidle, hbusy⟩

theorem Matches.mirrors_aim (h : l.Matches s s')
    (hset : S.AnswersLike p.feasible s.current.point) :
    Mirrors (s.aim p) (s'.aim { p with feasible := S }) (AimsAlike l) l.Resembles := by
  have hsteer := h.mirrors_steer hset
  have hproposed := h.mirrors_propose hset
  have hmemory : s'.memory = s.memory := by
    obtain ⟨⟨objective, search, hstep, hrecord⟩, -, -⟩ := h
    rfl
  unfold aim
  rw [hmemory]
  split
  · exact hsteer
  · refine hproposed.bind ?_
    rintro ⟨slope, ready⟩ ⟨slope', ready'⟩ - ⟨hslope, hcurrent, hready⟩
    obtain rfl : slope' = slope := hslope
    cases slope' with
    | some slope => exact ⟨rfl, rfl, hready⟩
    | none => exact hready.mirrors_steer (hcurrent ▸ hset)

theorem Matches.mirrors_approach (h : l.Matches s s')
    (hset : S.AnswersLike p.feasible s.current.point) :
    Mirrors (s.approach p) (s'.approach { p with feasible := S }) (AimsAlike l)
      l.Resembles := by
  have hdue := h.printDue (p := p) (S := S)
  have hplace := (leadsUpTo_printDue p s).current
  refine hdue.mirrors_remember.bind fun ready ready' _ ⟨hcurrent, hready⟩ => ?_
  have hcleared : l.Matches { ready with restored := false } { ready' with restored := false } := by
    obtain ⟨⟨objective, search, hstep, hrecord⟩, hidle, hbusy⟩ := hready
    exact ⟨.intro { ready with restored := false } objective search hstep hrecord, hidle, hbusy⟩
  apply hcleared.mirrors_aim
  rw [show ({ ready with restored := false } : State α σ τ n m).current = s.current from
    hcurrent.trans hplace]
  exact hset

omit [Scalar α] [Capacity m] in
theorem Matches.mirrors_meter (h : l.Matches s s') :
    Mirrors (s.meter p) (s'.meter { p with feasible := S }) l.Matches l.Resembles := by
  obtain ⟨⟨objective, search, hstep, hrecord⟩, hidle, hbusy⟩ := h
  unfold meter
  dsimp only
  split
  · exact ⟨rfl, .intro s objective search hstep hrecord⟩
  · exact ⟨.intro s objective search hstep hrecord, hidle, hbusy⟩

/-! ## Endings -/

omit [Capacity m] [Scalar α] in
theorem Resembles.printLast (h : l.Resembles s s') :
    l.Resembles (s.printLast p) (s'.printLast { p with feasible := S }) := by
  unfold State.printLast
  split
  · exact h.print
  · exact h

omit [Capacity m] in
/-- Two runs that end alike come to the same outcome, if the sets answer alike where the
run may go back to. -/
theorem Resembles.finish (h : l.Resembles s s') (ending : Ending)
    (hset : s.origin.value < s.current.value → S.AnswersLike p.feasible s.origin.point) :
    (s'.finish { p with feasible := S } ending).1 = (s.finish p ending).1 ∧
      l.Resembles (s.finish p ending).2 (s'.finish { p with feasible := S } ending).2 := by
  have hback := h.atOrigin
  obtain ⟨objective, search, hstep, hrecord⟩ := h
  cases ending with
  | fault fault => exact ⟨rfl, .intro s objective search hstep hrecord⟩
  | status status =>
    unfold State.finish settled
    dsimp only
    by_cases hworse : s.origin.value < s.current.value
    · rw [if_pos hworse, if_pos hworse]
      simp only [State.atOrigin, measured]
      rw [(hset hworse).gradient]
      cases p.feasible.projectGradient s.origin.point s.origin.gradient with
      | error fault => exact ⟨rfl, hback⟩
      | ok projected =>
        have hmeasured := Resembles.intro
          { s with current := s.origin, projected, norm := projected.norm } objective search
          hstep hrecord
        exact ⟨rfl, hmeasured.printLast⟩
    · rw [if_neg hworse, if_neg hworse]
      exact ⟨rfl, (Resembles.intro s objective search hstep hrecord).printLast⟩

end Likeness

namespace State

variable [Scalar α]

/-! ## Parts that are known to go on -/

section Known

variable {p : Problem α σ τ n} {s : State α σ τ n m} {slope first : α}

/-- What is found at a point in the whole space, once the objective has answered there. -/
theorem gauge_of_answer (hset : p.feasible = .unconstrained) {value : α} {gradient : Vec α n}
    {objective : σ}
    (hanswer : p.objective.evaluate s.objective s.current.point s.current.gradient =
      (.ok (value, gradient), objective)) :
    s.gauge p =
      (State.setThreshold p { s.answered ⟨s.current.point, value, gradient⟩ objective with
        projected := gradient, norm := gradient.norm }).settle := by
  unfold gauge project measure measured
  rw [hset]
  show (s.evaluate p >>= _) = _
  unfold evaluate
  rw [hanswer]
  rfl

theorem settle_of_above (habove : ¬ s.norm ≤ s.threshold) : s.settle = .ok s :=
  if_neg habove

theorem consult_of_reply (hsearching : s.searching = true) {reply : Reply α} {search : τ}
    (hslope : s.trialSlope p = .ok slope)
    (hreply : p.search.iterate s.search s.step s.current.value slope = (.ok reply, search)) :
    s.consult p = (s.told slope reply search).follow p reply.status := by
  rw [consult_of_searching hsearching]
  unfold report
  rw [hslope]
  dsimp only [attempt, bind, Except.bind]
  rw [hreply]
  rfl

theorem consult_of_fault (hsearching : s.searching = true) {fault : Fault}
    (hslope : s.trialSlope p = .error fault) :
    s.consult p = .error (.fault fault, s) := by
  rw [consult_of_searching hsearching]
  unfold report
  rw [hslope]
  rfl

/-- What is begun once it is known where the path rests. -/
theorem begin_of_ok {cap : α}
    (hcap : p.feasible.shortcutStep s.current.point s.direction = .ok cap) :
    s.begin p slope first =
      let step := Scalar.least first cap
      let chosen := s.chosen slope step cap
      let answer := p.search.start s.search s.current.value slope step cap
      let begun := chosen.begun (s.pass slope step cap) answer.1 answer.2
      if step ≤ 0 then .error (.status .wouldBlock, chosen)
      else if answer.1.status = .searching then .ok { begun with searching := true }
      else .error (.status .lineSearchFailure, begun) := by
  unfold begin
  rw [hcap]
  rfl

theorem begin_of_searching {cap step : α} {reply : Reply α} {search : τ}
    (hcap : p.feasible.shortcutStep s.current.point s.direction = .ok cap)
    (hleast : Scalar.least first cap = step) (hpositive : ¬ step ≤ 0)
    (hstart : p.search.start s.search s.current.value slope step cap = (reply, search))
    (hstatus : reply.status = .searching) :
    s.begin p slope first =
      .ok { (s.chosen slope step cap).begun (s.pass slope step cap) reply search with
        searching := true } := by
  rw [begin_of_ok hcap, hleast]
  dsimp only
  rw [hstart, if_neg hpositive, if_pos hstatus]

/-- A direction that descends is taken from the memory, with a step of one to begin with. -/
theorem choose_of_descent [Capacity m] {d : Vec α n} {memory : Memory α n m}
    {notices : List (Notice α)} (hlive : ¬ s.memory.live < 1)
    (hanswer : s.memory.direction p.precision (p.feasible.projectDirection s.current.point)
        s.direction s.current.gradient s.projected.support =
      (.ok ⟨true, slope, d⟩, memory, notices)) :
    s.choose p =
      State.begin p slope 1
        { s.asked memory notices with direction := d, steepest := false } := by
  unfold choose propose
  dsimp only [record]
  rw [if_neg hlive, hanswer]
  rfl

/-- A turn, up to the limit on the evaluations. -/
theorem turn_of_sought [Capacity m] {gauged consulted sought : State α σ τ n m}
    (hgauge : s.gauge p = .ok gauged) (hconsult : gauged.consult p = .ok consulted)
    (hseek : consulted.seek p = .ok sought) :
    s.turn p = sought.meter p >>= fun s => pure (s.advance p) := by
  rw [turn_eq, hgauge]
  show (gauged.consult p >>= _) = _
  rw [hconsult]
  show (consulted.seek p >>= _) = _
  rw [hseek]
  rfl

theorem begin_of_error {fault : Fault}
    (hcap : p.feasible.shortcutStep s.current.point s.direction = .error fault) :
    s.begin p slope first = .error (.fault fault, s) := by
  unfold begin
  rw [hcap]
  rfl

end Known

/-! ## Turns and runs -/

/-- Related runs stay related until both are left unfinished, or both end for the same
reason.  A turn may rely on what is known of the whole of the first run. -/
theorem runs_alike [Capacity m] {p : Problem α σ τ n} {p' : Problem α σ' τ n}
    (known : Outcome α n × State α σ τ n m → Prop)
    {related ended : State α σ τ n m → State α σ' τ n m → Prop}
    (hturn : ∀ turns s s', known (s.run p (turns + 1)) → related s s' →
      Mirrors (s.turn p) (s'.turn p') related ended)
    (turns : ℕ) (s : State α σ τ n m) (s' : State α σ' τ n m) (hknown : known (s.run p turns))
    (hrelated : related s s') :
    (∃ last last', related last last' ∧ s.run p turns = (.unfinished, last) ∧
        s'.run p' turns = (.unfinished, last')) ∨
      ∃ ending last last', ended last last' ∧ s.run p turns = last.finish p ending ∧
        s'.run p' turns = last'.finish p' ending := by
  induction turns generalizing s s' with
  | zero => exact .inl ⟨s, s', hrelated, rfl, rfl⟩
  | succ turns ih =>
    have hstep := hturn turns s s' hknown hrelated
    unfold run at hknown ⊢
    cases hresult : s.turn p with
    | ok next => cases hresult' : s'.turn p' with
      | ok next' =>
        rw [hresult, hresult'] at hstep
        rw [hresult] at hknown
        exact ih next next' hknown hstep
      | error result' =>
        rw [hresult, hresult'] at hstep
        exact hstep.elim
    | error result => cases hresult' : s'.turn p' with
      | ok next' =>
        rw [hresult, hresult'] at hstep
        exact hstep.elim
      | error result' =>
        rw [hresult, hresult'] at hstep
        refine .inr ⟨result.1, result.2, result'.2, hstep.2, rfl, ?_⟩
        rw [← hstep.1]

end State

end VariableMetric
