import Mathlib.Data.List.DropRight
import VariableMetric.Proofs.Run.Acceptance

/-!
# The searches on record

A search is begun at the iterate that was accepted last, and its origin, with the
direction and the slope along it, stays the last one on record until the next search is
begun.  A statement about the events of a run, each with what was on record before it,
is proved by adding one event after the other.
-/

namespace VariableMetric.Transcript

variable {α : Type} {n : ℕ}

/-- The origin of the last search, and the pass from there. -/
def lastSearch : Transcript α n → Option (Iterate α n × Pass α n)
  | [] => none
  | .started origin pass _ _ :: _ => some (origin, pass)
  | _ :: t => lastSearch t

/-- The last origins, as many as are looked at. -/
def lastOrigins (k : ℕ) (t : Transcript α n) : List (Iterate α n) := (origins t).rtake k

theorem origins_of_lastSearch {t : Transcript α n} {o : Iterate α n} {pass : Pass α n}
    (h : lastSearch t = some (o, pass)) : ∃ older, origins t = older ++ [o] := by
  induction t with
  | nil => cases h
  | cons e t ih =>
    cases e with
    | started origin pass' status next =>
      obtain ⟨rfl, rfl⟩ := Prod.mk.inj (Option.some.inj h)
      exact ⟨origins t, origins_started _ _ _ _ t⟩
    | _ =>
      obtain ⟨older, holder⟩ := ih h
      refine ⟨older, ?_⟩
      rw [← holder]
      unfold origins
      rw [collect_cons]
      exact List.append_nil _

/-! ## Events that are neither answers nor begun searches -/

def isSilent : Event α n → Bool
  | .evaluated _ => false
  | .started .. => false
  | _ => true

variable {e : Event α n}

theorem answers_silent (h : isSilent e = true) (t : Transcript α n) :
    answers (e :: t) = answers t := by
  cases e <;> first | rfl | cases h

theorem origins_silent (h : isSilent e = true) (t : Transcript α n) :
    origins (e :: t) = origins t := by
  cases e <;> first | rfl | cases h

theorem lastSearch_silent (h : isSilent e = true) (t : Transcript α n) :
    lastSearch (e :: t) = lastSearch t := by
  cases e <;> first | rfl | cases h

/-- Another record with the same answers and the same begun searches. -/
structure SearchesLike (t other : Transcript α n) : Prop where
  answers : answers other = answers t := by rfl
  origins : origins other = origins t := by rfl
  lastSearch : lastSearch other = lastSearch t := by rfl

theorem SearchesLike.refl (t : Transcript α n) : SearchesLike t t :=
  ⟨rfl, rfl, rfl⟩

theorem SearchesLike.trans {t t' t'' : Transcript α n} (h : SearchesLike t t')
    (h' : SearchesLike t' t'') : SearchesLike t t'' where
  answers := h'.answers.trans h.answers
  origins := h'.origins.trans h.origins
  lastSearch := h'.lastSearch.trans h.lastSearch

theorem searchesLike_cons (h : isSilent e = true) (t : Transcript α n) :
    SearchesLike t (e :: t) where
  answers := answers_silent h t
  origins := origins_silent h t
  lastSearch := lastSearch_silent h t

theorem searchesLike_notices (notices : List (Notice α)) (t : Transcript α n) :
    SearchesLike t ((notices.map Event.noticed).reverse ++ t) := by
  induction notices generalizing t with
  | nil => exact .refl t
  | cons notice rest ih =>
    have hfirst := searchesLike_cons (e := .noticed notice) rfl t
    have hrest := ih (.noticed notice :: t)
    simpa using hfirst.trans hrest

/-! ## What holds of every event -/

/-- Every event is right for what was on record before it. -/
def Always (right : Event α n → Transcript α n → Prop) (t : Transcript α n) : Prop :=
  ∀ e older, e :: older <:+ t → right e older

variable {right : Event α n → Transcript α n → Prop} {t older : Transcript α n}

theorem always_nil : Always right [] := by
  intro e older h
  cases List.suffix_nil.mp h

theorem Always.cons (h : Always right t) (he : right e t) : Always right (e :: t) := by
  intro e' older hsuffix
  rcases List.suffix_cons_iff.mp hsuffix with heq | hsuffix
  · obtain ⟨rfl, rfl⟩ := List.cons.inj heq
    exact he
  · exact h e' older hsuffix

theorem Always.of_suffix (h : Always right t) (hsuffix : older <:+ t) : Always right older :=
  fun e older' hsuffix' => h e older' (hsuffix'.trans hsuffix)

theorem Always.head (h : Always right (e :: t)) : right e t := h e t (List.suffix_refl _)

theorem Always.tail (h : Always right (e :: t)) : Always right t :=
  h.of_suffix (List.suffix_cons e t)

theorem Always.of_mem (h : Always right t) (he : e ∈ t) : ∃ older, right e older := by
  obtain ⟨newer, older, rfl⟩ := List.append_of_mem he
  exact ⟨older, h e older (List.suffix_append newer _)⟩

theorem Always.notices (h : Always right t) {notices : List (Notice α)}
    (hnotices : ∀ notice ∈ notices, ∀ t, right (.noticed notice) t) :
    Always right ((notices.map Event.noticed).reverse ++ t) := by
  induction notices generalizing t with
  | nil => exact h
  | cons notice rest ih =>
    have hfirst := h.cons (hnotices notice List.mem_cons_self t)
    have hrest := ih hfirst fun notice hmem => hnotices notice (List.mem_cons_of_mem _ hmem)
    simpa using hrest

/-! ## Accepted iterates are answers -/

theorem collect_prefix_of_suffix {β : Type} (select : Event α n → Option β) (h : older <:+ t) :
    collect select older <+: collect select t := by
  obtain ⟨newer, rfl⟩ := h
  unfold collect
  rw [List.filterMap_append, List.reverse_append]
  exact List.prefix_append _ _

theorem answers_prefix_of_suffix (h : older <:+ t) : answers older <+: answers t :=
  collect_prefix_of_suffix _ h

theorem answers_subset_of_suffix (h : older <:+ t) : answers older ⊆ answers t :=
  (answers_prefix_of_suffix h).subset

theorem origins_subset_of_suffix (h : older <:+ t) : origins older ⊆ origins t :=
  (collect_prefix_of_suffix _ h).subset

theorem accepted_subset_answers (t : Transcript α n) : accepted t ⊆ answers t := by
  induction t with
  | nil => exact List.Subset.refl _
  | cons e t ih =>
    have hgrows : answers t ⊆ answers (e :: t) :=
      answers_subset_of_suffix (List.suffix_cons e t)
    cases e with
    | evaluated i =>
      intro j hj
      by_cases hnil : accepted t = []
      · rw [accepted_evaluated_of_eq_nil hnil, List.mem_singleton] at hj
        simp [hj]
      · rw [accepted_evaluated_of_ne_nil hnil] at hj
        exact hgrows (ih hj)
    | iterated step value slope status next =>
      cases status with
      | converged =>
        intro j hj
        rcases List.mem_append.mp hj with hlast | hj
        · exact hgrows (List.mem_of_getLast? (Option.mem_toList.mp hlast))
        · exact hgrows (ih hj)
      | _ => exact ih
    | _ => exact fun j hj => hgrows (ih hj)

theorem answers_eq_nil_of_accepted {t : Transcript α n} (h : accepted t = []) :
    answers t = [] := by
  induction t with
  | nil => rfl
  | cons e t ih =>
    cases e with
    | evaluated i =>
      by_cases hnil : accepted t = []
      · rw [accepted_evaluated_of_eq_nil hnil] at h
        cases h
      · rw [accepted_evaluated_of_ne_nil hnil] at h
        exact absurd h hnil
    | iterated step value slope status next =>
      rw [answers_silent rfl]
      cases status with
      | converged => exact ih (List.append_eq_nil_iff.mp h).2
      | _ => exact ih h
    | _ => exact ih h

end VariableMetric.Transcript
