import VariableMetric.Proofs.LineSearch.Calls
import VariableMetric.Proofs.LineSearch.Parabola

/-!
# The answers of a backtracking strategy

In exact arithmetic a backtracking strategy takes its reference from the searches that were
begun since its last reset: the monotone one the value where the last of them began, the
nonmonotone one the largest value where one of the last ones did.  The reference is no less than
the value at the origin of the search that is on, so a value that misses its target lies above
the tangent there, and the parabola through both is convex.  The step that is asked for next is
the lowest point of this parabola between the bounds of the rule.
-/

namespace VariableMetric

section Sessions

variable {α : Type} [Scalar α]

omit [Scalar α] in
/-- The safeguards of a backtracking strategy. -/
def Rule.safeguard? : Rule α → Option (Safeguard α)
  | backtracking r => some r
  | nonmonotone r _ => some r
  | wolfe _ => none

theorem Rule.Works.safeguard {rule : Rule α} {r : Safeguard α} (h : rule.Works)
    (hr : rule.safeguard? = some r) : r.Works := by
  cases rule with
  | backtracking _ =>
    obtain rfl := Option.some.inj hr
    exact h
  | nonmonotone _ _ =>
    obtain rfl := Option.some.inj hr
    exact h.1
  | wolfe _ => cases hr

/-- The value that the target of a trial is measured from. -/
def Strategy.reference : Strategy α → α
  | nonmonotone b => b.reference
  | s => s.search.value

theorem Strategy.iterate_of_safeguard {s : Strategy α} {r : Safeguard α}
    (h : s.rule.safeguard? = some r) (step value slope : α) :
    (s.iterate step value slope).1 = (s.search.backtrack r s.reference step value).1 := by
  cases s with
  | backtracking b =>
    obtain rfl := Option.some.inj h
    rfl
  | nonmonotone b =>
    obtain rfl := Option.some.inj h
    rfl
  | wolfe b => cases h

theorem Strategy.reference_of_backtracking {s : Strategy α} {r : Safeguard α}
    (h : s.rule = .backtracking r) : s.reference = s.search.value := by
  cases s with
  | nonmonotone b => cases h
  | _ => rfl

/-- A call that begins no search but from a finite value along a finite slope. -/
def SearchCall.BeginsFinite : SearchCall α → Prop
  | start value slope _ _ => Scalar.isFinite value = true ∧ Scalar.isFinite slope = true
  | _ => True

omit [Scalar α] in
theorem SearchEntry.call_of_origin? {entry : SearchEntry α} {o : Origin α}
    (h : entry.origin? = some o) : ∃ step, entry.call = .start o.value o.slope step o.cap := by
  unfold origin? at h
  split at h
  next value slope step cap _ _ hcall _ =>
    obtain rfl := Option.some.inj h
    exact ⟨step, hcall⟩
  next => cases h

/-- If no search was begun but from a finite value along a finite slope, then the origins in the
record of the calls are finite. -/
theorem Origin.finite_of_mem {s : Strategy α} {calls : List (SearchCall α)}
    (hfinite : ∀ call ∈ calls, call.BeginsFinite) {o : Origin α}
    (h : o ∈ originsSince (s.serve calls).log) :
    Scalar.isFinite o.value = true ∧ Scalar.isFinite o.slope = true := by
  obtain ⟨entry, hentry, horigin⟩ := List.mem_filterMap.mp h
  obtain ⟨step, hcall⟩ := entry.call_of_origin? horigin
  have hmem : entry.call ∈ (s.serve calls).log.map SearchEntry.call :=
    List.mem_map_of_mem ((List.takeWhile_subset _) hentry)
  rw [s.calls_serve, List.mem_reverse, hcall] at hmem
  exact hfinite _ hmem

end Sessions

noncomputable section

/-! ## The reference -/

theorem Exact.le_self_of_isFinite {a : Exact} (h : Scalar.isFinite a = true) : a ≤ a := by
  obtain ⟨r, rfl⟩ := exists_real_of_isFinite h
  exact (real_le r r).mpr le_rfl

theorem Exact.le_foldl_greatest {value : Exact} {rest : List Exact}
    (hfinite : ∀ v ∈ value :: rest, Scalar.isFinite v = true) :
    ∀ v ∈ value :: rest, v ≤ rest.foldl Scalar.greatest value := by
  induction rest generalizing value with
  | nil =>
    intro v hv
    obtain rfl := List.mem_singleton.mp hv
    exact le_self_of_isFinite (hfinite v hv)
  | cons next rest ih =>
    obtain ⟨a, rfl⟩ := exists_real_of_isFinite (hfinite value List.mem_cons_self)
    obtain ⟨b, rfl⟩ := exists_real_of_isFinite
      (hfinite next (List.mem_cons_of_mem _ List.mem_cons_self))
    rw [List.foldl_cons, greatest_real]
    have hlater : ∀ v ∈ real (max a b) :: rest,
        v ≤ rest.foldl Scalar.greatest (real (max a b)) := by
      refine ih fun v hv => ?_
      rcases List.mem_cons.mp hv with rfl | hv
      · rfl
      · exact hfinite v (List.mem_cons_of_mem _ (List.mem_cons_of_mem _ hv))
    have hfirst := hlater _ List.mem_cons_self
    intro v hv
    rcases List.mem_cons.mp hv with rfl | hv
    · exact le_trans ((real_le a _).mpr (le_max_left a b)) hfirst
    · rcases List.mem_cons.mp hv with rfl | hv
      · exact le_trans ((real_le b _).mpr (le_max_right a b)) hfirst
      · exact hlater v (List.mem_cons_of_mem _ hv)

/-- The reference of a nonmonotone strategy is the largest value that it remembers. -/
theorem Nonmonotone.isGreatest_reference {b : Nonmonotone Exact} (hne : b.history ≠ [])
    (hfinite : ∀ v ∈ b.history, Scalar.isFinite v = true) :
    IsGreatest {v | v ∈ b.history} b.reference := by
  refine ⟨reference_mem hne, fun v hv => ?_⟩
  unfold reference
  cases hhistory : b.history with
  | nil => exact absurd hhistory hne
  | cons value rest =>
    change v ∈ b.history at hv
    rw [hhistory] at hfinite hv
    exact Exact.le_foldl_greatest hfinite v hv

theorem Strategy.Recalls.exists_descending {rule : Rule Exact} {log : List (SearchEntry Exact)}
    {s : Strategy Exact} (h : s.Recalls rule log)
    (hfinite : ∀ o ∈ originsSince log,
      Scalar.isFinite o.value = true ∧ Scalar.isFinite o.slope = true)
    (hsearching : s.search.status = .searching) : ∃ f df, s.search.Descending f df := by
  obtain ⟨hvalue, hslope⟩ := hfinite _ (List.mem_of_mem_head? (h.origin hsearching))
  obtain ⟨f, hf⟩ := Exact.exists_real_of_isFinite hvalue
  obtain ⟨df, hdf⟩ := Exact.exists_real_of_isFinite hslope
  have hneg := h.descends hsearching
  rw [show s.search.slope = .real df from hdf] at hneg
  exact ⟨f, df, hsearching, hf, hdf, hneg⟩

/-- The origin of a search is one of those that its strategy looks at. -/
theorem Strategy.Recalls.value_mem {rule : Rule Exact} {log : List (SearchEntry Exact)}
    {s : Strategy Exact} (h : s.Recalls rule log) (hwindow : 1 ≤ rule.window)
    (hsearching : s.search.status = .searching) :
    s.search.value ∈ ((originsSince log).map Origin.value).take rule.window := by
  obtain ⟨older, horigins⟩ := List.head?_eq_some_iff.mp (h.origin hsearching)
  obtain ⟨window, hsucc⟩ := Nat.exists_eq_add_one_of_ne_zero (Nat.one_le_iff_ne_zero.mp hwindow)
  rw [horigins, hsucc, List.map_cons, List.take_succ_cons]
  exact List.mem_cons_self

/-- The reference of a search is the largest value at the last origins, as many as the rule
looks at. -/
theorem Strategy.Recalls.isGreatest_reference {rule : Rule Exact}
    {log : List (SearchEntry Exact)} {s : Strategy Exact} (h : s.Recalls rule log)
    (hwindow : 1 ≤ rule.window)
    (hfinite : ∀ o ∈ originsSince log, Scalar.isFinite o.value = true)
    (hsearching : s.search.status = .searching) :
    IsGreatest {v | v ∈ ((originsSince log).map Origin.value).take rule.window} s.reference := by
  have hvalues : ∀ v ∈ (originsSince log).map Origin.value, Scalar.isFinite v = true := by
    intro v hv
    obtain ⟨o, ho, rfl⟩ := List.mem_map.mp hv
    exact hfinite o ho
  have hfirst := h.value_mem hwindow hsearching
  have hremembers := h.remembers
  -- A monotone strategy looks at the last origin alone.
  have hsingle : IsGreatest {v | v ∈ ((originsSince log).map Origin.value).take 1}
      s.search.value := by
    obtain ⟨older, horigins⟩ := List.head?_eq_some_iff.mp (h.origin hsearching)
    rw [horigins, List.map_cons, List.take_succ_cons, List.take_zero]
    refine ⟨List.mem_singleton_self _, fun v hv => ?_⟩
    obtain rfl := List.mem_singleton.mp hv
    exact Exact.le_self_of_isFinite (hvalues _ (List.mem_of_mem_take hfirst))
  obtain rfl := h.rule_eq
  cases s with
  | backtracking b => exact hsingle
  | wolfe b => exact hsingle
  | nonmonotone b =>
    have hmem (v : Exact) : v ∈ b.history ↔
        v ∈ ((originsSince log).map Origin.value).take b.window := by
      rw [remembers_nonmonotone.mp hremembers]
      exact List.mem_reverse
    have hgreatest := Nonmonotone.isGreatest_reference
      (List.ne_nil_of_mem ((hmem b.search.value).mpr hfirst))
      fun v hv => hvalues v (List.mem_of_mem_take ((hmem v).mp hv))
    rw [show {v | v ∈ b.history} = _ from Set.ext hmem] at hgreatest
    exact hgreatest

/-! ## One trial -/

/-- How a trial with a positive step is answered in a search from the value `f` along the slope
`df`, with `ref` as its reference, when `spent` trials would have been rejected with it. -/
structure Safeguard.Answers (r : Safeguard Exact) (f df ref a : ℝ) (spent : ℕ) (value : Exact)
    (reply : Reply Exact) : Prop where
  accepts : reply.status = .converged ↔
    Scalar.isFinite value = true ∧ value ≤ .real ref + r.ftol * .real a * .real df
  keeps : reply.status = .converged → reply.step = .real a
  fails : reply.status ≠ .converged →
    (reply.status = .failed ↔ reply.step < r.stpmin ∨ r.limit ≤ spent)
  /-- A finite value that is rejected lies on a strictly convex parabola, and the next step is
  its lowest point between the bounds of the rule. -/
  minimizes : ∀ v, value = .real v → reply.status ≠ .converged → ∃ c lo b,
    parabola f df c a = v ∧ StrictConvexOn ℝ Set.univ (parabola f df c) ∧
      r.amin * .real a = .real lo ∧ reply.step = .real b ∧
      LowestOn (parabola f df c) (Set.Icc lo (a / 2)) b
  shrinks : Scalar.isFinite value = false → reply.step = r.amin * .real a

namespace Search

variable {s : Search Exact} {r : Safeguard Exact} {f df ref a v : ℝ}

/-- A value that misses its target lies above the tangent at the origin. -/
theorem exists_parabola_of_rejected (hrule : r.Works) (ha : 0 < a) (hdf : df < 0) (hle : f ≤ ref)
    (hmisses : ¬ Exact.real v ≤ .real ref + r.ftol * .real a * .real df) :
    ∃ c, 0 < c ∧ parabola f df c a = v := by
  obtain ⟨ftol, -, hfraction⟩ := exists_real_of_pos hrule.ftol_pos (ne_infinite_of_lt hrule.ftol_lt)
  have hone : ftol < 1 := by
    have hlt := hrule.ftol_lt
    rw [hfraction] at hlt
    exact hlt
  rw [hfraction, Exact.real_mul, Exact.real_mul, Exact.real_add, Exact.real_le, not_le] at hmisses
  have htangent : a * df < ftol * a * df := by
    have hfull : (1 - ftol) * (a * -df) > 0 := mul_pos (by linarith) (mul_pos ha (by linarith))
    linarith
  refine ⟨(v - f - df * a) / a ^ 2, div_pos (by linarith) (by positivity), ?_⟩
  unfold parabola
  field_simp
  ring

theorem Descending.answers (h : s.Descending f df) (hrule : r.Works) (ha : 0 < a)
    (hle : f ≤ ref) (value : Exact) :
    r.Answers f df ref a (s.trials + 1) value
      (s.backtrack r (.real ref) (.real a) value).1 := by
  have haccepts := backtrack_converged_iff h.searching r (.real ref) (.real a) value
  have hstep := backtrack_step h.searching r (.real ref) (.real a) value
  rw [h.slope] at haccepts
  refine ⟨haccepts, fun hon => hstep.trans (if_pos hon), backtrack_failed_iff h.searching, ?_, ?_⟩
  · rintro v rfl hrejected
    obtain ⟨amin, -, hsmall, hfactor⟩ := hrule.exists_amin
    have hmisses : ¬ Exact.real v ≤ .real ref + r.ftol * .real a * .real df :=
      fun hlow => hrejected (haccepts.mpr ⟨rfl, hlow⟩)
    obtain ⟨c, hc, rfl⟩ := exists_parabola_of_rejected hrule ha h.slope_neg hle hmisses
    rw [if_neg hrejected, h.shorterStep_parabola hfactor ha hc] at hstep
    have hbounds : amin * a ≤ a / 2 := by nlinarith
    exact ⟨c, amin * a, _, rfl, strictConvexOn_parabola f df hc, by rw [hfactor, Exact.real_mul],
      hstep, lowestOn_parabola f hc hbounds⟩
  · intro hinfinite
    have hrejected : (s.backtrack r (.real ref) (.real a) value).1.status ≠ .converged := by
      intro hon
      cases hinfinite.symm.trans (haccepts.mp hon).1
    rw [hstep, if_neg hrejected, shorterStep, hinfinite, if_neg Bool.false_ne_true]

end Search

/-! ## Whole sessions -/

/-- Whatever calls have been made, a backtracking strategy that searches answers a trial by the
origin of its search, the origins that it refers to and the trials that it has rejected. -/
theorem Strategy.accepts_or_minimizes {rule : Rule Exact} {r : Safeguard Exact}
    (hr : rule.safeguard? = some r) (hrule : rule.Works) {calls : List (SearchCall Exact)}
    (hfinite : ∀ call ∈ calls, call.BeginsFinite) {t : SearchSession Exact}
    (hserve : rule.new.serve calls = t) (hsearching : t.strategy.search.status = .searching)
    {a : ℝ} (ha : 0 < a) (value slope : Exact) {reply : Reply Exact}
    (hreply : (t.strategy.iterate (.real a) value slope).1 = reply) :
    ∃ f df ref cap, (originsSince t.log).head? = some ⟨.real f, .real df, cap⟩ ∧
      IsGreatest {v | v ∈ ((originsSince t.log).map Origin.value).take rule.window} (.real ref) ∧
      (rule = .backtracking r → ref = f) ∧
      r.Answers f df ref a (rejectionsSince (t.serve (.iterate (.real a) value slope)).log) value
        reply := by
  have horigins : ∀ o ∈ originsSince t.log,
      Scalar.isFinite o.value = true ∧ Scalar.isFinite o.slope = true :=
    fun o ho => Origin.finite_of_mem hfinite (hserve ▸ ho)
  have hrecalls : t.strategy.Recalls rule t.log := hserve ▸ recalls_serve rule calls
  obtain ⟨f, df, hdescending⟩ := hrecalls.exists_descending horigins hsearching
  have hgreatest := hrecalls.isGreatest_reference hrule.one_le_window
    (fun o ho => (horigins o ho).1) hsearching
  obtain ⟨ref, href⟩ : ∃ ref, t.strategy.reference = .real ref := by
    obtain ⟨o, ho, heq⟩ := List.mem_map.mp (List.mem_of_mem_take hgreatest.1)
    exact Exact.exists_real_of_isFinite (heq ▸ (horigins o ho).1)
  rw [href] at hgreatest
  have hle : f ≤ ref := by
    have hfirst := hgreatest.2 (hrecalls.value_mem hrule.one_le_window hsearching)
    rw [hdescending.value] at hfirst
    exact hfirst
  refine ⟨f, df, ref, t.strategy.search.cap, ?_, hgreatest, fun hmonotone => ?_, ?_⟩
  · rw [hrecalls.origin hsearching, Search.origin, hdescending.value, hdescending.slope]
  · have hsame := reference_of_backtracking (hrecalls.rule_eq.trans hmonotone)
    rw [href, hdescending.value] at hsame
    exact Exact.real.inj hsame
  · have hanswers := hdescending.answers (hrule.safeguard hr) ha hle value
    rw [← href, ← iterate_of_safeguard (hrecalls.rule_eq ▸ hr) _ _ slope, hreply,
      hrecalls.trials hsearching] at hanswers
    refine { hanswers with fails := fun hrejected => ?_ }
    have hspent : rejectionsSince (t.serve (.iterate (.real a) value slope)).log =
        rejectionsSince t.log + 1 := by
      rw [← hreply] at hrejected
      exact rejectionsSince_of_rejected t.log hrejected
    rw [hspent]
    exact hanswers.fails hrejected

namespace Sample

def wideRule : Rule Exact := .nonmonotone quarterRule 2

/-- A search whose only trial is accepted, and another one from a smaller value. -/
def wideCalls : List (SearchCall Exact) :=
  [.start (.real 4) (.real (-1)) (.real 1) (.infinite false),
    .iterate (.real 1) (.real 1) (.real 0),
    .start (.real 1) (.real (-1)) (.real 4) (.infinite false)]

def wideSession : SearchSession Exact := wideRule.new.serve wideCalls

theorem wideSession_searching : wideSession.strategy.search.status = .searching := by
  have hstarted := (wideRule.new.serve (wideCalls.take 2)).strategy.status_start
    (.real 1) (.real (-1)) (.real 4) (.infinite false)
  have hcapped : Exact.real 4 ≤ .infinite false := rfl
  obtain ⟨begun, hbegun, -⟩ := Search.start_descending (by norm_num : (-1 : ℝ) < 0)
    (by norm_num : (0 : ℝ) < 4) hcapped 1
  rw [(Strategy.start_search _ _ _ _ _).1, hbegun] at hstarted
  exact hstarted

theorem wideSession_accepts_or_minimizes :
    wideRule.safeguard? = some quarterRule ∧ wideRule.Works ∧
      (∀ call ∈ wideCalls, call.BeginsFinite) ∧
      wideSession.strategy.search.status = .searching ∧ (0 : ℝ) < 4 ∧
      ∃ f df ref cap, (originsSince wideSession.log).head? = some ⟨.real f, .real df, cap⟩ ∧
        IsGreatest {v | v ∈ ((originsSince wideSession.log).map Origin.value).take wideRule.window}
          (.real ref) ∧
        (wideRule = .backtracking quarterRule → ref = f) ∧
        quarterRule.Answers f df ref 4
          (rejectionsSince (wideSession.serve (.iterate (.real 4) (.real 30) (.real 0))).log)
          (.real 30) (wideSession.strategy.iterate (.real 4) (.real 30) (.real 0)).1 := by
  have hworks : wideRule.Works := ⟨quarterRule_works, by decide⟩
  have hfinite : ∀ call ∈ wideCalls, call.BeginsFinite := by
    simp [wideCalls, SearchCall.BeginsFinite]
  exact ⟨rfl, hworks, hfinite, wideSession_searching, by norm_num,
    Strategy.accepts_or_minimizes rfl hworks hfinite rfl wideSession_searching (by norm_num) _ _
      rfl⟩

end Sample

end

end VariableMetric
