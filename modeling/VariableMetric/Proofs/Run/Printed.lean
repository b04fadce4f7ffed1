import VariableMetric.Proofs.Run.Counters
import VariableMetric.Run.Table

/-!
# What is printed

The lines that a run prints are those of the heads and rows on record, and a row is told
apart from the head by its first character.  The events of the line search tell which
iterate was accepted at which evaluation, and from which one a direction was taken last.

The table is ruled up to an iterate if it shows one head, and below it the iterates up to
that one whose numbers are multiples of the interval, each with the evaluation at which it
was accepted.
-/

namespace VariableMetric

variable {α : Type} {n m : ℕ}

/-! ## Lines -/

namespace Row

theorem head?_text (r : Row Float) : r.text.toList.head? = some ' ' := by
  simp [text, aligned, widths, String.join]

theorem head?_ne_of_mem_head {line : String} (h : line ∈ head n m) :
    line.toList.head? ≠ some ' ' := by
  simp only [head, List.mem_cons, List.not_mem_nil, or_false] at h
  rcases h with rfl | rfl | rfl <;> simp

/-- A row is no line of a head. -/
theorem text_not_mem_head (r : Row Float) : r.text ∉ head n m :=
  fun h => head?_ne_of_mem_head h r.head?_text

/-- There is no head among rows. -/
theorem head_not_subset_texts (n m : ℕ) (rows : List (Row Float)) :
    ¬ head n m ⊆ rows.map text := by
  intro hsubset
  obtain ⟨r, -, hr⟩ := List.mem_map.mp (hsubset (List.mem_cons_self (l := (head n m).tail)))
  exact r.text_not_mem_head (n := n) (m := m) (hr ▸ List.mem_cons_self)

end Row

namespace Event

def row? : Event α n → Option (Row α)
  | .printed row => some row
  | _ => none

def lines (m : ℕ) : Event Float n → List String
  | .headed => Row.head n m
  | .printed row => [row.text]
  | _ => []

end Event

namespace Transcript

/-! ## What is on record of the table -/

/-- The heads and rows that were printed, oldest first. -/
def table (t : Transcript α n) : List (Event α n) := (t.filter isTable).reverse

def printedRows (t : Transcript α n) : List (Row α) := (table t).filterMap Event.row?

/-- The numbers of the evaluations at which the iterates were accepted: the first one at the
first evaluation, and each other one when a search was accepted. -/
def arrivals : Transcript α n → List ℕ
  | [] => [1]
  | .iterated _ _ _ .converged _ :: t => arrivals t ++ [(evaluations t).length]
  | _ :: t => arrivals t

/-- The number of the last iterate from which a direction was taken. -/
def lastDeparture : Transcript α n → Option ℕ
  | [] => none
  | .chosen _ :: t => some (acceptedSearches t)
  | _ :: t => lastDeparture t

/-- The numbers up to a last one that are multiples of an interval. -/
def due (interval last : ℕ) : List ℕ := (List.range (last / interval + 1)).map (interval * ·)

variable {e : Event α n} {t added : Transcript α n} {interval q : ℕ}

theorem due_zero (interval : ℕ) : due interval 0 = [0] := by simp [due]

theorem due_succ (interval q : ℕ) :
    due interval (q + 1) = due interval q ++ if interval ∣ q + 1 then [q + 1] else [] := by
  unfold due
  rw [Nat.succ_div]
  split
  next hdvd =>
    have hnext : interval * (q / interval + 1) = q + 1 := by
      rw [← Nat.mul_div_cancel' hdvd, Nat.succ_div, if_pos hdvd]
    rw [List.range_succ, List.map_append, List.map_singleton, hnext]
  next => rw [Nat.add_zero, List.append_nil]

theorem table_of_isTable (h : isTable e = true) (t : Transcript α n) :
    table (e :: t) = table t ++ [e] := by
  simp [table, h]

theorem table_of_not_isTable (h : isTable e = false) (t : Transcript α n) :
    table (e :: t) = table t := by
  simp [table, h]

theorem printedRows_printed (row : Row α) (t : Transcript α n) :
    printedRows (.printed row :: t) = printedRows t ++ [row] := by
  rw [printedRows, table_of_isTable rfl, List.filterMap_append]
  rfl

theorem printedRows_headed (t : Transcript α n) : printedRows (.headed :: t) = printedRows t := by
  rw [printedRows, table_of_isTable rfl, List.filterMap_append]
  exact List.append_nil _

theorem lines_eq_flatMap (m : ℕ) (t : Transcript Float n) :
    t.lines m = (table t).flatMap (Event.lines m) := by
  induction t with
  | nil => rfl
  | cons e t ih =>
    unfold lines at ih ⊢
    rw [collect_cons, List.flatten_append, ih]
    cases e with
    | headed => rw [table_of_isTable rfl, List.flatMap_append]; simp [Event.lines]
    | printed row => rw [table_of_isTable rfl, List.flatMap_append]; simp [Event.lines]
    | _ => rw [table_of_not_isTable rfl]; exact List.append_nil _

/-- Below one head, the rows alone. -/
theorem lines_of_table {t : Transcript Float n} {rows : List (Row Float)}
    (h : table t = .headed :: rows.map .printed) (m : ℕ) :
    t.lines m = Row.head n m ++ rows.map Row.text := by
  have hrows : (rows.map Event.printed).flatMap (Event.lines (n := n) m) = rows.map Row.text := by
    rw [List.flatMap_map, List.map_eq_flatMap]
    rfl
  rw [lines_eq_flatMap, h, List.flatMap_cons, hrows]
  rfl

theorem lines_of_table_twice {t : Transcript Float n} {initial final : Row Float}
    (h : table t = [.headed, .printed initial, .headed, .printed final]) (m : ℕ) :
    t.lines m = Row.head n m ++ initial.text :: (Row.head n m ++ [final.text]) ∧
      ¬ ∃ rows : List (Row Float), t.lines m = Row.head n m ++ rows.map Row.text := by
  have hlines : t.lines m =
      Row.head n m ++ initial.text :: (Row.head n m ++ [final.text]) := by
    rw [lines_eq_flatMap, h]
    simp [Event.lines]
  refine ⟨hlines, ?_⟩
  rintro ⟨rows, hrows⟩
  rw [hlines] at hrows
  have hbelow := List.append_cancel_left hrows
  apply Row.head_not_subset_texts n m rows
  rw [← hbelow]
  exact List.Subset.trans (List.subset_append_left _ _) (List.subset_cons_self _ _)

/-- The rows are told apart from the head by their text. -/
theorem filter_lines (m : ℕ) (t : Transcript Float n) :
    (t.lines m).filter (· ∉ Row.head n m) = (printedRows t).map Row.text := by
  rw [lines_eq_flatMap, printedRows]
  induction table t with
  | nil => rfl
  | cons e rest ih =>
    rw [List.flatMap_cons, List.filter_append, ih]
    cases e with
    | headed =>
      have hnone : (Row.head n m).filter (· ∉ Row.head n m) = [] := by
        simp
      exact (congrArg (· ++ _) hnone).trans rfl
    | printed row =>
      have hrow : [row.text].filter (· ∉ Row.head n m) = [row.text] := by
        simp [row.text_not_mem_head]
      exact (congrArg (· ++ _) hrow).trans rfl
    | _ => rfl

theorem length_arrivals (t : Transcript α n) : (arrivals t).length = acceptedSearches t + 1 := by
  induction t with
  | nil => rfl
  | cons e t ih =>
    cases e with
    | iterated step value slope status next =>
      cases status with
      | converged => rw [acceptedSearches_iterated, arrivals, List.length_append, ih]; rfl
      | _ => exact ih
    | _ => exact ih

theorem arrivals_append (added t : Transcript α n) : arrivals t <+: arrivals (added ++ t) := by
  induction added with
  | nil => exact List.prefix_refl _
  | cons e added ih =>
    refine ih.trans ?_
    cases e with
    | iterated step value slope status next =>
      cases status with
      | converged => exact List.prefix_append _ _
      | _ => exact List.prefix_refl _
    | _ => exact List.prefix_refl _

theorem lastDeparture_of_not_isPass (h : isPass e = false) (t : Transcript α n) :
    lastDeparture (e :: t) = lastDeparture t := by
  cases e <;> first | rfl | cases h

/-- The table shows the iterates that are due up to one of them. -/
structure Ruled (interval q : ℕ) (t : Transcript α n) : Prop where
  table : table t = .headed :: (printedRows t).map .printed
  numbers : (printedRows t).map Row.iterations = due interval q
  calls : ∀ r ∈ printedRows t, (arrivals t)[r.iterations]? = some r.evaluations

theorem apart_notices (notices : List (Notice α)) :
    ∀ e ∈ ((notices.map Event.noticed).reverse : Transcript α n),
      isTable e = false ∧ isPass e = false := by
  intro e he
  obtain ⟨notice, -, rfl⟩ := List.mem_map.mp (List.mem_reverse.mp he)
  exact ⟨rfl, rfl⟩

theorem arrivals_of_not_isEntry (h : isEntry e = false) (t : Transcript α n) :
    arrivals (e :: t) = arrivals t := by
  cases e with
  | iterated step value slope status next =>
    cases status with
    | converged => cases h
    | _ => rfl
  | _ => rfl

theorem arrivals_iterated (step value slope next : α) (t : Transcript α n) :
    arrivals (.iterated step value slope .converged next :: t) =
      arrivals t ++ [(evaluations t).length] :=
  rfl

theorem getElem?_arrivals_append {k c : ℕ} (h : (arrivals t)[k]? = some c)
    (added : Transcript α n) : (arrivals (added ++ t))[k]? = some c := by
  obtain ⟨rest, heq⟩ := arrivals_append added t
  rw [← heq, List.getElem?_append_left (List.getElem?_eq_some_iff.mp h).1, h]

theorem arrivals_zero (t : Transcript α n) : (arrivals t)[0]? = some 1 := by
  have hfirst : (arrivals ([] : Transcript α n))[0]? = some 1 := rfl
  have hgrown := getElem?_arrivals_append hfirst t
  rwa [List.append_nil] at hgrown

theorem Ruled.append (h : Ruled interval q t) (hadded : ∀ e ∈ added, isTable e = false) :
    Ruled interval q (added ++ t) := by
  have htable : Transcript.table (added ++ t) = Transcript.table t :=
    view_append (fun e t he => table_of_not_isTable he t) hadded
  have hrows : printedRows (added ++ t) = printedRows t :=
    congrArg (List.filterMap Event.row?) htable
  refine ⟨?_, ?_, ?_⟩
  · rw [htable, hrows, h.table]
  · rw [hrows, h.numbers]
  · rw [hrows]
    exact fun r hr => getElem?_arrivals_append (h.calls r hr) added

theorem ruled_first {row : Row α} (hblank : Transcript.table t = [])
    (hiterations : row.iterations = 0)
    (hevaluations : (arrivals t)[0]? = some row.evaluations) (interval : ℕ) :
    Ruled interval 0 (.printed row :: .headed :: t) := by
  have hrows : printedRows (.printed row :: .headed :: t) = [row] := by
    rw [printedRows_printed, printedRows_headed, printedRows, hblank]
    rfl
  refine ⟨?_, ?_, ?_⟩
  · rw [hrows, table_of_isTable rfl, table_of_isTable rfl, hblank]
    rfl
  · rw [hrows, due_zero, List.map_singleton, hiterations]
  · rw [hrows]
    rintro r hr
    rw [List.mem_singleton.mp hr, hiterations]
    exact hevaluations

theorem Ruled.printed {row : Row α} (h : Ruled interval q t) (hdvd : interval ∣ q + 1)
    (hiterations : row.iterations = q + 1)
    (hevaluations : (arrivals t)[q + 1]? = some row.evaluations) :
    Ruled interval (q + 1) (.printed row :: t) := by
  refine ⟨?_, ?_, ?_⟩
  · rw [table_of_isTable rfl, printedRows_printed, h.table]
    simp
  · rw [printedRows_printed, List.map_append, h.numbers, due_succ, if_pos hdvd]
    simp [hiterations]
  · intro r hr
    rw [printedRows_printed, List.mem_append, List.mem_singleton] at hr
    rcases hr with hr | rfl
    · exact h.calls r hr
    · rw [hiterations]
      exact hevaluations

theorem Ruled.skipped (h : Ruled interval q t) (hdvd : ¬ interval ∣ q + 1) :
    Ruled interval (q + 1) t :=
  ⟨h.table, by rw [h.numbers, due_succ, if_neg hdvd, List.append_nil], h.calls⟩

end Transcript

end VariableMetric
