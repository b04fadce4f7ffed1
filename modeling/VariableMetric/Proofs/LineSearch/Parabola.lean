import Mathlib.Analysis.Convex.Function
import VariableMetric.Proofs.LineSearch.Trials

/-!
# Backtracking on a parabola

In exact arithmetic a rejected step is replaced by the lowest point, between the bounds of the
rule, of the parabola through what the search knows.  Along a function that is itself a
parabola this is the lowest point of the function, or one of the bounds, and on the way to its
lowest point a parabola is always low enough if at most half of the promised decrease is
asked for.  So two rejections follow one another only where the step is cut down as far as the
rule allows.
-/

namespace VariableMetric

noncomputable section

/-- The parabola with a value and a slope at the origin, and a curvature. -/
def parabola (f df c t : ℝ) : ℝ := f + df * t + c * t ^ 2

/-- A point of a set where a function is lower than anywhere else on it. -/
structure LowestOn (φ : ℝ → ℝ) (s : Set ℝ) (b : ℝ) : Prop where
  mem : b ∈ s
  lowest : ∀ t ∈ s, t ≠ b → φ b < φ t

section Curve

variable {f df c : ℝ}

theorem parabola_sub (f df c t b : ℝ) :
    parabola f df c t - parabola f df c b = (t - b) * (df + c * (t + b)) := by
  unfold parabola
  ring

theorem strictConvexOn_parabola (f df : ℝ) (hc : 0 < c) :
    StrictConvexOn ℝ Set.univ (parabola f df c) := by
  refine ⟨convex_univ, fun x _ y _ hne p q hp hq hsum => ?_⟩
  have hgap : p • parabola f df c x + q • parabola f df c y -
      parabola f df c (p • x + q • y) = c * (p * q) * (x - y) ^ 2 := by
    obtain rfl : q = 1 - p := by linarith
    simp only [parabola, smul_eq_mul]
    ring
  have hpos : 0 < c * (p * q) * (x - y) ^ 2 := by
    have hdistance : x - y ≠ 0 := sub_ne_zero.mpr hne
    positivity
  linarith

/-- The lowest point of a parabola on an interval is its vertex, or the end next to it. -/
theorem lowestOn_parabola (f : ℝ) (hc : 0 < c) {lo hi : ℝ} (hle : lo ≤ hi) :
    LowestOn (parabola f df c) (Set.Icc lo hi) (min (max (-df / (2 * c)) lo) hi) := by
  have hvertex : c * (2 * (-df / (2 * c))) = -df := by
    field_simp
  generalize -df / (2 * c) = m at hvertex ⊢
  refine ⟨⟨le_min (le_max_right m lo) hle, min_le_right _ hi⟩, fun t ht hne => ?_⟩
  rw [← sub_pos, parabola_sub]
  rcases lt_trichotomy t (min (max m lo) hi) with hbelow | heq | habove
  · -- Left of the lowest point the parabola falls: the point is not beyond the vertex.
    have hm : min (max m lo) hi ≤ m := by
      rcases max_cases m lo with ⟨hmax, -⟩ | ⟨hmax, -⟩
      · rw [hmax]
        exact min_le_left m hi
      · rw [hmax] at hbelow
        exact absurd (hbelow.trans_le (min_le_left lo hi)) (not_lt.mpr ht.1)
    have hfalls : df + c * (t + min (max m lo) hi) < 0 := by nlinarith
    exact mul_pos_of_neg_of_neg (by linarith) hfalls
  · exact absurd heq hne
  · have hm : m ≤ min (max m lo) hi := by
      rcases min_cases (max m lo) hi with ⟨hmin, -⟩ | ⟨hmin, -⟩
      · rw [hmin]
        exact le_max_left m lo
      · rw [hmin] at habove
        exact absurd habove (not_lt.mpr ht.2)
    have hrises : 0 < df + c * (t + min (max m lo) hi) := by nlinarith
    exact mul_pos (by linarith) hrises

end Curve

/-! ## The step after a rejection -/

theorem Search.Descending.shorterStep_parabola {s : Search Exact} {rule : Safeguard Exact}
    {f df amin a c : ℝ} (h : s.Descending f df) (hamin : rule.amin = .real amin) (ha : 0 < a)
    (hc : 0 < c) :
    s.shorterStep rule (.real a) (.real (parabola f df c a)) =
      .real (min (max (-df / (2 * c)) (amin * a)) (a / 2)) := by
  have hexcess : parabola f df c a - f - df * a = c * a ^ 2 := by
    unfold parabola
    ring
  have hpos : 0 < c * a ^ 2 := by positivity
  have hvertex : -(1 / 2) * df * a * a / (c * a ^ 2) = -df / (2 * c) := by
    field_simp
  have hhalf : 1 / 2 * a = a / 2 := by ring
  rw [h.shorterStep_real hamin, hexcess, if_pos hpos, hvertex, hhalf]

/-! ## Along a function -/

namespace Backtracking

/-- The last answer of a strategy that has begun a search along a function and has been told of
some trials, each at the step that it asked for. -/
def along {α : Type} [Scalar α] (b : Backtracking α) (φ : α → α) (slope step cap : α) :
    ℕ → Reply α × Backtracking α
  | 0 => b.start (φ 0) slope step cap
  | n + 1 =>
    let (reply, b) := b.along φ slope step cap n
    b.iterate reply.step (φ reply.step)

/-- An answer that asks for a positive step in a search from a real value along a descending
slope. -/
structure Awaits (rule : Safeguard Exact) (f df a : ℝ)
    (answer : Reply Exact × Backtracking Exact) : Prop where
  step : answer.1.step = .real a
  pos : 0 < a
  rule : answer.2.rule = rule
  search : answer.2.search.Descending f df

variable {b : Backtracking Exact} {rule : Safeguard Exact} {φ : Exact → Exact}
  {answer : Reply Exact × Backtracking Exact} {f df c a first : ℝ} {cap : Exact}

/-- A search that goes on after a trial awaits another one. -/
theorem Awaits.next {v : ℝ} (h : Awaits rule f df a answer) (hrule : rule.Works)
    (hsearching : (answer.2.iterate answer.1.step (.real v)).1.status = .searching) :
    ∃ a', Awaits rule f df a' (answer.2.iterate answer.1.step (.real v)) := by
  have hbacktrack := h.search.backtrack (h.rule.symm ▸ hrule) h.pos v answer.2.search.value rfl
  rw [← h.step] at hbacktrack
  obtain ⟨⟨a', ha', hstep⟩, hsearch⟩ := hbacktrack.1 hsearching
  exact ⟨a', hstep, ha', h.rule, hsearch⟩

end Backtracking

namespace Sample

def quarterRule : Safeguard Exact := ⟨Scalar.half, Scalar.half * Scalar.half, 0, 30⟩

theorem quarterRule_works : quarterRule.Works where
  ftol_pos := (Exact.real_lt 0 (1 / 2)).mpr (by norm_num)
  ftol_lt := (Exact.real_lt (1 / 2) 1).mpr (by norm_num)
  amin_pos := (Exact.real_lt 0 (1 / 2 * (1 / 2))).mpr (by norm_num)
  amin_le := (Exact.real_le (1 / 2 * (1 / 2)) (1 / 2)).mpr (by norm_num)

end Sample

end

end VariableMetric
