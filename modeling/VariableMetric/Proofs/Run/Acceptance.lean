import VariableMetric.Proofs.Run.Record

/-!
# The iterates that a run accepts

A run accepts its first answer, and every answer with which a search converges.
What its memory is to hold can be told from these: the differences of iterates
that were accepted one after the other since the memory was last emptied, as many
of them as there is room for.

The memory is emptied by a failed search that is undone, and by the memory itself
when it refuses a direction.  It says so in a notice.  A line search may leave the
same notice, but only the memory leaves one right after it was asked.
-/

namespace VariableMetric

/-- The step from one iterate to another, and the change of the gradient along it,
as they are stored in precision `p`. -/
def Iterate.pairFrom {α : Type} [Scalar α] {n : ℕ} (p : Precision) (new old : Iterate α n) :
    Vec α n × Vec α n :=
  (Vec.difference p new.point old.point, Vec.difference p new.gradient old.gradient)

namespace Transcript

variable {α : Type} {n : ℕ}

/-- The iterates that a run has accepted, newest first. -/
def accepted : Transcript α n → List (Iterate α n)
  | [] => []
  | .evaluated i :: t =>
    match accepted t with
    | [] => [i]
    | iterates => iterates
  | .iterated _ _ _ .converged _ :: t => (answers t).getLast?.toList ++ accepted t
  | _ :: t => accepted t

/-- Whether nothing but notices was left since the memory was asked. -/
def isAsking : Transcript α n → Bool
  | .recalled _ :: _ => true
  | .noticed _ :: t => isAsking t
  | _ => false

/-- How many iterates were accepted since the memory was last emptied. -/
def acceptedSince : Transcript α n → ℕ
  | [] => 0
  | .restored :: _ => 0
  | .noticed (.directionRefused _) :: t => if isAsking t then 0 else acceptedSince t
  | .iterated _ _ _ .converged _ :: t => acceptedSince t + 1
  | _ :: t => acceptedSince t

/-- The pairs between iterates that follow each other, newest first. -/
def differences [Scalar α] (p : Precision) (iterates : List (Iterate α n)) :
    List (Vec α n × Vec α n) :=
  List.zipWith (Iterate.pairFrom p) iterates iterates.tail

/-- The pairs that a memory of capacity `m` is to hold. -/
def lastPairs [Scalar α] (p : Precision) (m : ℕ) (t : Transcript α n) :
    List (Vec α n × Vec α n) :=
  (differences p (accepted t)).take (min m (acceptedSince t))

theorem accepted_evaluated_of_eq_nil {t : Transcript α n} (h : accepted t = [])
    (i : Iterate α n) : accepted (.evaluated i :: t) = [i] := by
  simp [accepted, h]

theorem accepted_evaluated_of_ne_nil {t : Transcript α n} (h : accepted t ≠ [])
    (i : Iterate α n) : accepted (.evaluated i :: t) = accepted t := by
  cases haccepted : accepted t with
  | nil => exact absurd haccepted h
  | cons head rest => simp [accepted, haccepted]

theorem length_differences [Scalar α] (p : Precision) (iterates : List (Iterate α n)) :
    (differences p iterates).length = iterates.length - 1 := by
  simp [differences]

theorem lastPairs_eq_nil [Scalar α] (p : Precision) (m : ℕ) {t : Transcript α n}
    (h : acceptedSince t = 0) : lastPairs p m t = [] := by
  simp [lastPairs, h]

theorem length_lastPairs [Scalar α] (p : Precision) (m : ℕ) {t : Transcript α n}
    (h : acceptedSince t ≤ (accepted t).length - 1) :
    (lastPairs p m t).length = min m (acceptedSince t) := by
  rw [lastPairs, List.length_take, length_differences]
  omega

/-! ## Events that change nothing about what was accepted -/

/-- Another record on which the same iterates were accepted and the memory was asked
no more often. -/
structure AcceptsLike (t other : Transcript α n) : Prop where
  accepted : accepted other = accepted t := by rfl
  since : acceptedSince other = acceptedSince t := by rfl
  answers : answers other = answers t := by rfl
  recalled : ∀ pairs older, .recalled pairs :: older <:+ other → .recalled pairs :: older <:+ t

theorem AcceptsLike.refl (t : Transcript α n) : AcceptsLike t t :=
  ⟨rfl, rfl, rfl, fun _ _ => id⟩

theorem AcceptsLike.trans {t t' t'' : Transcript α n} (h : AcceptsLike t t')
    (h' : AcceptsLike t' t'') : AcceptsLike t t'' where
  accepted := h'.accepted.trans h.accepted
  since := h'.since.trans h.since
  answers := h'.answers.trans h.answers
  recalled pairs older hsuffix := h.recalled pairs older (h'.recalled pairs older hsuffix)

/-- Events that neither accept an iterate nor empty the memory nor ask it. -/
def isPlain : Event α n → Bool
  | .evaluated _ => false
  | .iterated _ _ _ .converged _ => false
  | .restored => false
  | .recalled _ => false
  | .noticed (.directionRefused _) => false
  | _ => true

theorem recalled_suffix_of_cons {e : Event α n} (he : ∀ pairs, e ≠ .recalled pairs)
    {t older : Transcript α n} {pairs : List (Vec α n × Vec α n)}
    (h : .recalled pairs :: older <:+ e :: t) : .recalled pairs :: older <:+ t := by
  rcases List.suffix_cons_iff.mp h with heq | hsuffix
  · injection heq with hhead
    exact absurd hhead.symm (he pairs)
  · exact hsuffix

theorem acceptsLike_cons {e : Event α n} (h : isPlain e = true) (t : Transcript α n) :
    AcceptsLike t (e :: t) := by
  have hrecalled : ∀ pairs, e ≠ .recalled pairs := by
    rintro pairs rfl
    cases h
  have hsuffix : ∀ pairs older, .recalled pairs :: older <:+ e :: t →
      .recalled pairs :: older <:+ t := fun _ _ => recalled_suffix_of_cons hrecalled
  cases e with
  | evaluated i => cases h
  | restored => cases h
  | recalled pairs => cases h
  | iterated step value slope status next =>
      cases status with
      | converged => cases h
      | _ => exact ⟨rfl, rfl, rfl, hsuffix⟩
  | noticed notice =>
      cases notice with
      | directionRefused slope => cases h
      | _ => exact ⟨rfl, rfl, rfl, hsuffix⟩
  | _ => exact ⟨rfl, rfl, rfl, hsuffix⟩

/-- A notice changes something only if the memory left it to say that it refuses a
direction. -/
theorem acceptsLike_noticed {notice : Notice α} {t : Transcript α n}
    (h : isAsking t = false ∨ ∀ slope, notice ≠ .directionRefused slope) :
    AcceptsLike t (.noticed notice :: t) := by
  cases notice with
  | directionRefused slope =>
      have hasking : isAsking t = false := h.resolve_right fun hne => hne slope rfl
      have hsince : acceptedSince (.noticed (.directionRefused slope) :: t) = acceptedSince t := by
        simp [acceptedSince, hasking]
      exact ⟨rfl, hsince, rfl, fun _ _ => recalled_suffix_of_cons (by rintro _ ⟨⟩)⟩
  | _ => exact acceptsLike_cons rfl t

@[simp] theorem isAsking_noticed (notices : List (Notice α)) (t : Transcript α n) :
    isAsking ((notices.map Event.noticed).reverse ++ t) = isAsking t := by
  induction notices generalizing t with
  | nil => rfl
  | cons notice rest ih =>
      have hrest := ih (.noticed notice :: t)
      simpa [isAsking] using hrest

theorem accepted_notices (notices : List (Notice α)) (t : Transcript α n) :
    accepted ((notices.map Event.noticed).reverse ++ t) = accepted t := by
  induction notices generalizing t with
  | nil => rfl
  | cons notice rest ih => simpa [accepted] using ih (.noticed notice :: t)

theorem recalled_suffix_of_notices {notices : List (Notice α)} {t older : Transcript α n}
    {pairs : List (Vec α n × Vec α n)}
    (h : .recalled pairs :: older <:+ (notices.map Event.noticed).reverse ++ t) :
    .recalled pairs :: older <:+ t := by
  induction notices generalizing t with
  | nil => exact h
  | cons notice rest ih =>
      have hrest : .recalled pairs :: older <:+
          (rest.map Event.noticed).reverse ++ .noticed notice :: t := by simpa using h
      exact recalled_suffix_of_cons (by rintro _ ⟨⟩) (ih hrest)

theorem acceptsLike_notices {notices : List (Notice α)} {t : Transcript α n}
    (h : isAsking t = false ∨ ∀ slope, .directionRefused slope ∉ notices) :
    AcceptsLike t ((notices.map Event.noticed).reverse ++ t) := by
  induction notices generalizing t with
  | nil => exact .refl t
  | cons notice rest ih =>
      have hfirst : AcceptsLike t (.noticed notice :: t) := by
        apply acceptsLike_noticed
        exact h.imp_right fun hmem slope heq => hmem slope (heq ▸ List.mem_cons_self)
      have hrest := ih (t := .noticed notice :: t)
        (h.imp id fun hmem slope hrest => hmem slope (List.mem_cons_of_mem _ hrest))
      simpa using hfirst.trans hrest

theorem acceptedSince_notices_eq_zero {notices : List (Notice α)} {t : Transcript α n}
    (h : acceptedSince t = 0) : acceptedSince ((notices.map Event.noticed).reverse ++ t) = 0 := by
  induction notices generalizing t with
  | nil => exact h
  | cons notice rest ih =>
      have hfirst : acceptedSince (.noticed notice :: t) = 0 := by
        cases notice with
        | directionRefused slope => simp [acceptedSince, h]
        | _ => exact h
      simpa using ih hfirst

/-- A memory that says that it refuses a direction has been emptied. -/
theorem acceptedSince_refused {notices : List (Notice α)} {t : Transcript α n}
    (hasking : isAsking t = true) (h : ∃ slope, .directionRefused slope ∈ notices) :
    acceptedSince ((notices.map Event.noticed).reverse ++ t) = 0 := by
  obtain ⟨slope, hmem⟩ := h
  induction notices generalizing t with
  | nil => cases hmem
  | cons notice rest ih =>
      have hrest : acceptedSince
          ((rest.map Event.noticed).reverse ++ .noticed notice :: t) = 0 := by
        rcases List.mem_cons.mp hmem with rfl | hmem
        · exact acceptedSince_notices_eq_zero (by simp [acceptedSince, hasking])
        · exact ih hasking hmem
      simpa using hrest

end Transcript

end VariableMetric
