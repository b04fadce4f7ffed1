import VariableMetric.Objective.Samples
import VariableMetric.Proofs.FeasibleSet.Box
import VariableMetric.Proofs.Run.Record

/-!
# Where a run calls its objective

A run brings its variables into the feasible set right before every call of the
objective, whatever step the line search has asked for.  The only other points where
it ever stands are the origins of its searches, which are points of earlier calls.
So it calls its objective inside the set only, and stands there whenever it ends.
-/

namespace VariableMetric

variable {α σ τ : Type} {n m : ℕ}

/-! ## The calls on record -/

namespace Transcript

/-- Every call of the objective, answered or refused, was made at a point with a
property. -/
def CalledIn (inside : Vec α n → Prop) (t : Transcript α n) : Prop :=
  ∀ c ∈ evaluations t, inside c.1

variable {inside : Vec α n → Prop} {t : Transcript α n}

theorem CalledIn.cons (h : CalledIn inside t) {e : Event α n} (he : isCall e = false) :
    CalledIn inside (e :: t) := by
  unfold CalledIn
  rw [evaluations_of_not_isCall he]
  exact h

theorem CalledIn.evaluated (h : CalledIn inside t) {i : Iterate α n} (hi : inside i.point) :
    CalledIn inside (.evaluated i :: t) := by
  intro c hc
  rw [evaluations_evaluated] at hc
  rcases List.mem_append.mp hc with hold | hnew
  · exact h c hold
  · obtain rfl := List.mem_singleton.mp hnew
    exact hi

theorem CalledIn.refused (h : CalledIn inside t) {x : Vec α n} (hx : inside x) :
    CalledIn inside (.refused x :: t) := by
  intro c hc
  rw [evaluations_refused] at hc
  rcases List.mem_append.mp hc with hold | hnew
  · exact h c hold
  · obtain rfl := List.mem_singleton.mp hnew
    exact hx

theorem CalledIn.notices (h : CalledIn inside t) (notices : List (Notice α)) :
    CalledIn inside ((notices.map Event.noticed).reverse ++ t) := by
  induction notices generalizing t with
  | nil => exact h
  | cons notice notices ih =>
    simp only [List.map_cons, List.reverse_cons, List.append_assoc]
    exact ih (h.cons rfl)

end Transcript

namespace State

open Transcript

variable [Scalar α] {inside : Vec α n → Prop} {p : Problem α σ τ n} {s : State α σ τ n m}

/-- A run that has called its objective inside only, and may be sent back to points
inside only.  Before its first search no value is worse than that at its origin. -/
structure Confined (inside : Vec α n → Prop) (s : State α σ τ n m) : Prop where
  called : CalledIn inside s.transcript
  origin : inside s.origin.point ∨ s.origin.value = Scalar.infinity ∧ s.searching = false

structure Inside (inside : Vec α n → Prop) (s : State α σ τ n m) : Prop
    extends s.Confined inside where
  point : inside s.current.point

theorem initial_confined (p : Problem α σ τ n) (x : Vec α n) (objective : σ) (search : τ) :
    (State.initial p x objective search : State α σ τ n m).Confined inside where
  called := by
    intro c hc
    cases hc
  origin := .inr ⟨rfl, rfl⟩

theorem Inside.record (h : s.Inside inside) {e : Event α n} (he : isCall e = false) :
    (s.record e).Inside inside :=
  ⟨⟨h.called.cons he, h.origin⟩, h.point⟩

theorem Inside.printDue (h : s.Inside inside) : (s.printDue p).Inside inside :=
  printDue_of (·.Inside inside) (fun _ h => h.record rfl) (fun _ _ h => h.record rfl) h

theorem Inside.printLast (h : s.Inside inside) : (s.printLast p).Inside inside :=
  printLast_of (·.Inside inside) (fun _ h => h.record rfl) (fun _ _ h => h.record rfl) h

theorem Inside.told (h : s.Inside inside) (slope : α) (reply : Reply α) (search : τ) :
    (s.told slope reply search).Inside inside :=
  ⟨⟨(h.called.cons rfl).notices reply.notices, h.origin⟩, h.point⟩

theorem Inside.accepted (h : s.Inside inside) : s.accepted.Inside inside :=
  ⟨⟨h.called, h.origin.imp_right fun horigin => ⟨horigin.1, rfl⟩⟩, h.point⟩

theorem Inside.sentBack (h : s.Inside inside) (hsearching : s.searching = true)
    (projected : Vec α n) : (s.sentBack projected).Inside inside := by
  have horigin : inside s.origin.point := by
    rcases h.origin with horigin | ⟨-, hidle⟩
    · exact horigin
    · rw [hsearching] at hidle
      cases hidle
  exact ⟨⟨(h.called.notices _).cons rfl, .inl horigin⟩, horigin⟩

/-! ## Turns -/

theorem Confined.ensures_project (h : s.Confined inside)
    (hproject : ∀ x, ∃ y, p.feasible.projectVariables x = .ok y ∧ inside y) :
    Ensures (s.project p) (fun s => s.Inside inside) (fun _ s => s.Inside inside) := by
  obtain ⟨y, hy, hinside⟩ := hproject s.current.point
  unfold State.project
  rw [hy]
  exact ⟨⟨h.called, h.origin⟩, hinside⟩

theorem Inside.ensures_evaluate (h : s.Inside inside) :
    Ensures (s.evaluate p) (fun s => s.Inside inside) (fun _ s => s.Inside inside) := by
  refine State.ensures_evaluate (fun value gradient objective _ => ?_)
    fun fault objective _ => ?_
  · exact ⟨⟨h.called.evaluated h.point, h.origin⟩, h.point⟩
  · exact ⟨⟨h.called.refused h.point, h.origin⟩, h.point⟩

theorem Inside.ensures_measure (h : s.Inside inside) :
    Ensures (s.measure p) (fun s => s.Inside inside) (fun _ s => s.Inside inside) :=
  State.ensures_measure (fun _ _ => ⟨⟨h.called, h.origin⟩, h.point⟩) fun _ _ => h

theorem Inside.ensures_settle (h : s.Inside inside) :
    Ensures (s.setThreshold p).settle (fun s => s.Inside inside)
      (fun _ s => s.Inside inside) := by
  have hset : (s.setThreshold p).Inside inside :=
    setThreshold_of (·.Inside inside) fun _ => ⟨⟨h.called, h.origin⟩, h.point⟩
  exact State.ensures_settle
    (fun _ => ⟨⟨hset.called, hset.origin⟩, hset.point⟩) fun _ => hset

theorem Inside.ensures_follow (h : s.Inside inside) (hsearching : s.searching = true)
    (status : SearchStatus) :
    Ensures (s.follow p status) (fun s => s.Inside inside) (fun _ s => s.Inside inside) := by
  cases status with
  | searching => exact h
  | converged => exact ensures_accept (fun _ _ => h.accepted) fun _ => h.accepted
  | failed =>
    refine ensures_abandon (fun _ => h)
      (fun _ projected _ => h.sentBack hsearching projected) fun _ _ => ?_
    have hback := h.sentBack hsearching s.projected
    exact ⟨⟨hback.called, .inl hback.point⟩, hback.point⟩

theorem Inside.ensures_consult (h : s.Inside inside) :
    Ensures (s.consult p) (fun s => s.Inside inside) (fun _ s => s.Inside inside) := by
  refine State.ensures_consult (fun _ => h) fun hsearching => ?_
  refine ensures_report (fun slope reply search _ _ => ?_) (fun _ _ => h)
    fun slope fault search _ => ?_
  · exact (h.told slope reply search).ensures_follow hsearching reply.status
  · exact ⟨⟨h.called.cons rfl, h.origin⟩, h.point⟩

theorem Inside.ensures_begin (h : s.Inside inside) (slope first : α) :
    Ensures (s.begin p slope first) (fun s => s.Inside inside)
      (fun _ s => s.Inside inside) := by
  have hchosen : ∀ step cap, (s.chosen slope step cap).Inside inside := fun step cap =>
    ⟨⟨h.called.cons rfl, h.origin⟩, h.point⟩
  refine State.ensures_begin (fun cap _ _ => hchosen _ cap) (fun cap reply search _ _ _ => ?_)
    fun _ _ => h
  -- The origin of the search is the point where the run stands.
  have hcalled := ((hchosen (Scalar.least first cap) cap).called.cons
    (e := .started s.current (s.pass slope (Scalar.least first cap) cap) reply.status
      reply.step) rfl).notices reply.notices
  exact ⟨fun _ => ⟨⟨hcalled, .inl h.point⟩, h.point⟩,
    fun _ => ⟨⟨hcalled, .inl h.point⟩, h.point⟩⟩

theorem Inside.ensures_descend (h : s.Inside inside) :
    Ensures (s.descend p) (fun s => s.Inside inside) (fun _ s => s.Inside inside) := by
  have hsteered : (s.steered p).Inside inside := ⟨⟨h.called, h.origin⟩, h.point⟩
  exact State.ensures_descend (fun first _ => hsteered.ensures_begin _ first)
    fun _ _ => hsteered

theorem Inside.ensures_choose [Capacity m] (h : s.Inside inside) :
    Ensures (s.choose p) (fun s => s.Inside inside) (fun _ s => s.Inside inside) := by
  have hasked : ∀ memory notices, (s.asked memory notices).Inside inside :=
    fun memory notices => ⟨⟨(h.called.cons rfl).notices notices, h.origin⟩, h.point⟩
  have hproposed : Ensures (s.propose p) (fun proposed => proposed.2.Inside inside)
      (fun _ s => s.Inside inside) := by
    refine ensures_propose (fun d memory notices _ => ?_) fun _ memory notices _ =>
      hasked memory notices
    have hready := hasked memory notices
    exact ⟨fun _ => ⟨⟨hready.called, hready.origin⟩, hready.point⟩,
      fun _ => ⟨⟨hready.called, hready.origin⟩, hready.point⟩⟩
  exact State.ensures_choose (fun _ => h.ensures_descend) (fun _ => hproposed)
    (fun slope _ hs => hs.ensures_begin slope 1) fun _ hs => hs.ensures_descend

theorem Inside.ensures_seek [Capacity m] (h : s.Inside inside) :
    Ensures (s.seek p) (fun s => s.Inside inside) (fun _ s => s.Inside inside) := by
  have hdue : (s.printDue p).Inside inside := h.printDue
  have hremembered : Ensures ((s.printDue p).remember p) (fun s => s.Inside inside)
      (fun _ s => s.Inside inside) := by
    refine ensures_remember (fun _ _ => ?_) (fun _ => hdue) fun _ _ => hdue
    exact ⟨⟨hdue.called.cons rfl, hdue.origin⟩, hdue.point⟩
  exact State.ensures_seek (fun _ => h) (fun _ => hremembered) fun s' hs' =>
    Inside.ensures_choose ⟨⟨hs'.called, hs'.origin⟩, hs'.point⟩

theorem Inside.ensures_meter (h : s.Inside inside) :
    Ensures (s.meter p) (fun s => (s.advance p).Confined inside)
      (fun _ s => s.Inside inside) :=
  State.ensures_meter (fun _ _ => h) fun _ => ⟨h.called, h.origin⟩

theorem Confined.ensures_turn [Capacity m] (h : s.Confined inside)
    (hproject : ∀ x, ∃ y, p.feasible.projectVariables x = .ok y ∧ inside y) :
    Ensures (s.turn p) (fun s => s.Confined inside) (fun _ s => s.Inside inside) :=
  State.ensures_turn (h.ensures_project hproject) (fun _ hs => hs.ensures_evaluate)
    (fun _ hs => hs.ensures_measure) (fun _ hs => hs.ensures_settle)
    (fun _ hs => hs.ensures_consult) (fun _ hs => hs.ensures_seek)
    (fun _ hs => hs.ensures_meter)

/-! ## The end of a run -/

/-- A run is only sent back for a smaller value, and so to a point inside. -/
theorem Inside.origin_of_lt [OrderedScalar α] (h : s.Inside inside)
    (hlt : s.origin.value < s.current.value) : inside s.origin.point := by
  rcases h.origin with horigin | ⟨hinfinite, -⟩
  · exact horigin
  · rw [hinfinite] at hlt
    exact absurd hlt (OrderedScalar.not_infinity_lt _)

theorem Inside.finish [OrderedScalar α] (h : s.Inside inside) (ending : Ending) :
    (s.finish p ending).2.Inside inside ∧
      ∀ solution, (s.finish p ending).1 = .returned solution →
        solution.point = (s.finish p ending).2.current.point := by
  unfold State.finish
  cases ending with
  | fault fault => exact ⟨h, fun solution hreturned => by cases hreturned⟩
  | status status =>
    cases hsettled : s.settled p with
    | ok final =>
      have hfinal : final.Inside inside := by
        rcases settled_cases hsettled with ⟨-, rfl⟩ | ⟨hlt, projected, -, rfl⟩
        · exact h
        · exact ⟨⟨h.called, h.origin⟩, h.origin_of_lt hlt⟩
      refine ⟨hfinal.printLast, ?_⟩
      rintro solution ⟨⟩
      exact congrArg Iterate.point (standsLike_printLast p final).current.symm
    | error fault =>
      -- Only a run that is sent back measures again, which is what has failed here.
      have hlt : s.origin.value < s.current.value := by
        by_contra hnot
        rw [settled, if_neg hnot] at hsettled
        cases hsettled
      exact ⟨⟨⟨h.called, h.origin⟩, h.origin_of_lt hlt⟩, fun solution hreturned => by
        cases hreturned⟩

/-- Every way in which a run can end leaves it inside. -/
theorem Confined.run [Capacity m] [OrderedScalar α] (h : s.Confined inside)
    (hproject : ∀ x, ∃ y, p.feasible.projectVariables x = .ok y ∧ inside y) (turns : ℕ) :
    (s.run p turns).2.Confined inside ∧
      ((s.run p turns).1 ≠ .unfinished → inside (s.run p turns).2.current.point) ∧
      ∀ solution, (s.run p turns).1 = .returned solution →
        solution.point = (s.run p turns).2.current.point := by
  rcases run_cases (fun s (hs : s.Confined inside) => hs.ensures_turn hproject) turns s h with
    ⟨last, hlast, hrun⟩ | ⟨ending, last, hlast, hrun⟩
  · rw [hrun]
    exact ⟨hlast, fun hfinished => absurd rfl hfinished,
      fun solution hreturned => by cases hreturned⟩
  · rw [hrun]
    obtain ⟨hinside, hreturned⟩ := hlast.finish (p := p) ending
    exact ⟨hinside.toConfined, fun _ => hinside.point, hreturned⟩

end State

namespace Problem

variable [Scalar α] [StoredScalar α] [Capacity m] {shape : Shape}

/-- A run in a box calls its objective between the bounds only, component by
component unless a component is not a number, and stands between them when it returns
and when it fails. -/
theorem calls_and_ends_in_box {p : Problem α σ τ shape.size} {lower upper : Tensor α}
    {box : Box α} (hnew : Box.new lower upper = .ok box)
    (hlower : lower.shape.broadcastsTo shape = true)
    (hupper : upper.shape.broadcastsTo shape = true)
    (hset : p.feasible = box.toSet shape p.precision) {turns : ℕ} {x : Vec α shape.size}
    {objective : σ} {search : τ} {outcome : Outcome α shape.size}
    {last : State α σ τ shape.size m}
    (hrun : p.solve m turns x objective search = (outcome, last)) :
    (∀ c ∈ Transcript.evaluations last.transcript, box.Admits shape p.precision c.1) ∧
      (outcome ≠ .unfinished → box.Admits shape p.precision last.current.point) ∧
      ∀ solution, outcome = .returned solution → solution.point = last.current.point := by
  have hproject : ∀ x, ∃ y, p.feasible.projectVariables x = .ok y ∧
      box.Admits shape p.precision y := by
    rw [hset]
    exact Box.exists_projectVariables hnew hlower hupper
  have hinitial : (State.initial p x objective search :
      State α σ τ shape.size m).Confined (box.Admits shape p.precision) :=
    State.initial_confined p x objective search
  obtain ⟨hconfined, hended, hreturned⟩ := hinitial.run hproject turns
  rw [Problem.solve] at hrun
  rw [hrun] at hconfined hended hreturned
  exact ⟨hconfined.called, hended, hreturned⟩

end Problem

/-! ## A sample run

A parabola with its least value at three, in a box between a tenth and seven tenths,
neither of which is a number of single precision.  The line search asks for a step
without end. -/

def LineSearch.endless : LineSearch Float Unit where
  usesDerivative := false
  reset _ := ()
  start _ _ _ step _ := (⟨.searching, step, []⟩, ())
  iterate _ _ _ _ := (.ok ⟨.searching, Scalar.infinity, []⟩, ())

namespace Sample

def single (a : Float) : Tensor Float := ⟨[], .floating .double, ⟨[a], rfl⟩⟩

def tightBox : Box Float := ⟨single 0.1, single 0.7⟩

def tightProblem : Problem Float ℕ Unit (Shape.size [1]) where
  precision := .single
  keepsPairs := true
  objective := (Sample.quadratic [1.0] [3.0] 0.0).objective none .single [1]
  feasible := tightBox.toSet [1] .single
  search := .endless
  settings := ⟨-1, 3, (0.0, 1e-6), (1.0, 0.0), 0⟩

def tightRun (m : ℕ) [Capacity m] :
    Outcome Float (Shape.size [1]) × State Float ℕ Unit (Shape.size [1]) m :=
  tightProblem.solve m 5 (.replicate _ 0.0) 0 ()

theorem tightRun_in_box :
    Box.new (single 0.1) (single 0.7) = .ok tightBox ∧
      (Transcript.evaluations (tightRun 1).2.transcript).map (fun c => c.1.toList) =
        [[0.10000000149011612], [0.20000000298023224], [0.699999988079071]] ∧
      (∀ c ∈ Transcript.evaluations (tightRun 1).2.transcript,
        tightBox.Admits [1] tightProblem.precision c.1) ∧
      ((tightRun 1).1 ≠ .unfinished →
        tightBox.Admits [1] tightProblem.precision (tightRun 1).2.current.point) ∧
      ∀ solution, (tightRun 1).1 = .returned solution →
        solution.point = (tightRun 1).2.current.point := by
  have hnew : Box.new (single 0.1) (single 0.7) = .ok tightBox := rfl
  have hrun : tightProblem.solve 1 5 (.replicate _ 0.0) 0 () = tightRun 1 := rfl
  refine ⟨hnew, by decide +kernel, ?_⟩
  exact Problem.calls_and_ends_in_box hnew rfl rfl rfl
    (hrun.trans Prod.mk.eta.symm)

end Sample

end VariableMetric
