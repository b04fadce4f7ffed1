import VariableMetric.Buffer.Algebra
import VariableMetric.Proofs.Buffer.Cells
import VariableMetric.Proofs.Exact

/-!
# Combinations of views that share cells

A view holds the sum of multiples of two views, however the three overlap, as long as it does
not hold any cell twice: of the passes that are made only the one that adds a multiple reads
cells while it writes, and that one is made only with an operand that lies apart from the
destination.

Without elements there is nothing to add, and the pass that adds is refused unless its factor
vanishes.
-/

namespace VariableMetric

namespace Heap

/-! ## Adding in place -/

section AddInPlace

variable {α : Type} [Scalar α] {dst a : View}

/-- Cells that are read when their turn comes are read as they were at first, if none of them is
written before. -/
theorem foldl_setCell_eq_setCells (f : α → α → α) {buffer other : ℕ} {places sources : List ℕ}
    (hnodup : places.Nodup) (hapart : buffer = other → places.Disjoint sources) (h : Heap α) :
    (places.zip sources).foldl
        (fun h (i, j) => h.setCell buffer i (f (h.cell buffer i) (h.cell other j))) h =
      h.setCells buffer (places.zip
        (List.zipWith f (places.map (h.cell buffer)) (sources.map (h.cell other)))) := by
  induction places generalizing sources h with
  | nil => rfl
  | cons i places ih =>
    cases sources with
    | nil => rfl
    | cons j sources =>
      obtain ⟨hnot, hnodup⟩ := List.nodup_cons.mp hnodup
      set sum := f (h.cell buffer i) (h.cell other j)
      have hplaces : places.map ((h.setCell buffer i sum).cell buffer) =
          places.map (h.cell buffer) := by
        refine List.map_congr_left fun k hk => h.cell_setCell_of_ne ?_ sum
        rintro ⟨-, rfl⟩
        exact hnot hk
      have hsources : sources.map ((h.setCell buffer i sum).cell other) =
          sources.map (h.cell other) := by
        refine List.map_congr_left fun k hk => h.cell_setCell_of_ne ?_ sum
        rintro ⟨hbuffer, rfl⟩
        exact hapart hbuffer.symm List.mem_cons_self (List.mem_cons_of_mem _ hk)
      have hrest := @ih sources hnodup
        (fun heq => List.disjoint_of_disjoint_cons_left (List.disjoint_of_disjoint_cons_right
          (hapart heq))) (h.setCell buffer i sum)
      rw [hplaces, hsources] at hrest
      exact hrest

/-- Apart from its operand the pass in place adds what is read before. -/
theorem addInPlace_eq_write (p : Precision) (c : α) (hnodup : dst.positions.Nodup)
    (hapart : dst.Apart a) (h : Heap α) :
    addInPlace p c dst a h = h.write dst (List.zipWith
      (fun y x => Scalar.round p (y + Scalar.round p (c * x))) (h.read dst) (h.read a)) :=
  foldl_setCell_eq_setCells (fun y x => Scalar.round p (y + Scalar.round p (c * x))) hnodup
    hapart h

end AddInPlace

/-! ## Views of real numbers -/

noncomputable section

/-- A view of doubles inside its buffer. -/
structure Doubles (h : Heap Exact) (v : View) : Prop extends v.Inside h where
  storage : v.storage = .floating .double

variable {h h' : Heap Exact} {dst a b : View} {xs ys zs : List ℝ}

theorem Doubles.length_of_read (hread : h.read a = xs.map .real) :
    xs.length = a.shape.size := by
  have hlength := congrArg List.length hread
  rw [read, List.length_map, View.length_positions, List.length_map] at hlength
  exact hlength.symm

theorem Writes.doubles {elements : List Exact} (hwrites : h.Writes h' dst elements)
    (ha : h.Doubles a) : h'.Doubles a :=
  ⟨hwrites.inside ha.toInside, ha.storage⟩

/-- Elements computed before anything is written. -/
theorem Doubles.writes_map (hdst : h.Doubles dst) (hnodup : dst.positions.Nodup)
    (hlength : zs.length = dst.shape.size) :
    h.Writes (h.write dst (zs.map .real)) dst (zs.map .real) :=
  writes_write hdst.toInside hnodup ((List.length_map _).trans hlength)

theorem multiply_writes (hdst : h.Doubles dst) (hnodup : dst.positions.Nodup)
    (hshape : a.shape = dst.shape) (hread : h.read a = xs.map .real) (c : ℝ) :
    ∃ h', h.multiply dst (some (.real c)) a = .ok h' ∧
      h.Writes h' dst ((xs.map (c * ·)).map .real) := by
  have hproducts : (h.read a).map (fun x => Scalar.round .double
      (product a.storage.precision (.real c) x)) = (xs.map (c * ·)).map Exact.real := by
    rw [hread, List.map_map, List.map_map]
    refine List.map_congr_left fun x _ => ?_
    exact congrArg Exact.real (mul_comm x c)
  refine ⟨h.write dst ((xs.map (c * ·)).map .real), ?_, ?_⟩
  · simp only [multiply, hdst.storage]
    exact congrArg (fun l => Except.ok (h.write dst l)) hproducts
  · refine hdst.writes_map hnodup ?_
    rw [List.length_map, Doubles.length_of_read hread, hshape]

theorem zipWith_real (f : ℝ → ℝ → ℝ) {F : Exact → Exact → Exact}
    (hF : ∀ x y, F (.real x) (.real y) = .real (f x y)) (xs ys : List ℝ) :
    List.zipWith F (xs.map .real) (ys.map .real) = (List.zipWith f xs ys).map .real := by
  rw [List.zipWith_map, List.map_zipWith]
  exact congrArg (fun g => List.zipWith g xs ys) (funext₂ hF)

/-- Both ways to add a multiple of a view that lies apart add the same. -/
theorem update_writes (hdst : h.Doubles dst) (hnodup : dst.positions.Nodup)
    (hapart : dst.Apart a) (hshape : a.shape = dst.shape) (hdstRead : h.read dst = zs.map .real)
    (hread : h.read a = xs.map .real) {c : ℝ} (hadds : dst.shape.size ≠ 0 ∨ c = 0) :
    ∃ h', h.update dst (some (.real c)) a = (.ok dst, h') ∧
      h.Writes h' dst ((List.zipWith (fun z x => z + c * x) zs xs).map .real) := by
  have hzs := Doubles.length_of_read hdstRead
  have hxs := (Doubles.length_of_read hread).trans (congrArg Shape.size hshape)
  have hchecked : checkShapes dst [a] = .ok () := if_pos hshape
  by_cases hc : c = 0
  · subst hc
    have hsame : List.zipWith (fun z x => z + 0 * x) zs xs = zs := by
      simp only [zero_mul, add_zero]
      exact List.map_zip_eq_zipWith.symm.trans (List.map_fst_zip (hzs.trans hxs.symm).le)
    refine ⟨h, ?_, ?_⟩
    · rw [update, hchecked]
      exact congrArg (h.handBack dst) (if_pos ((Exact.equal_real 0 0).mpr rfl))
    · rw [hsame, ← hdstRead]
      exact h.writes_refl dst
  · have hsize := hadds.resolve_right hc
    have hmoves : ¬ Scalar.equal (Exact.real c) 0 = true := by
      rw [Exact.zero_eq, Exact.equal_real]
      exact hc
    refine ⟨h.write dst ((List.zipWith (fun z x => z + c * x) zs xs).map .real), ?_,
      hdst.writes_map hnodup ?_⟩
    · have hsum : List.zipWith (fun y x => y + Exact.real c * x) (h.read dst) (h.read a) =
          (List.zipWith (fun z x => z + c * x) zs xs).map .real := by
        rw [hdstRead, hread]
        exact zipWith_real _ (fun z x => rfl) zs xs
      rw [update, hchecked]
      show _ = h.handBack dst (.ok _)
      refine congrArg (h.handBack dst) ((if_neg hmoves).trans ?_)
      by_cases hplace : canAddInPlace dst a = true
      · rw [if_pos hplace, if_neg hsize]
        refine congrArg Except.ok ((if_neg hmoves).trans ?_)
        rw [← hsum]
        exact addInPlace_eq_write _ _ hnodup hapart h
      · rw [if_neg hplace]
        simp only [addComputed, hdst.storage]
        refine congrArg (fun l => Except.ok (h.write dst l)) ?_
        rw [hdstRead, hread, List.map_map, List.zipWith_map, List.map_zipWith]
        refine congrArg (fun f => List.zipWith f zs xs) (funext₂ fun z x => ?_)
        exact congrArg (fun t => Exact.real (z + t)) (mul_comm x c)
    · rw [List.length_zipWith, hzs, hxs, min_self]

/-- A multiple of one view is written, and then that of another one is added. -/
theorem passes_write (hdst : h.Doubles dst) (hnodup : dst.positions.Nodup)
    (hapart : dst.Apart b) (hshape : a.shape = dst.shape) (hshape' : b.shape = dst.shape)
    (hread : h.read a = xs.map .real) (hread' : h.read b = ys.map .real) (c : ℝ) {k : ℝ}
    (hadds : dst.shape.size ≠ 0 ∨ k = 0) :
    ∃ first h', h.multiply dst (some (.real c)) a = .ok first ∧
      first.update dst (some (.real k)) b = (.ok dst, h') ∧
      h.Writes h' dst ((List.zipWith (fun x y => c * x + k * y) xs ys).map .real) := by
  obtain ⟨first, hfirst, hwrites⟩ := multiply_writes hdst hnodup hshape hread c
  have hkept : first.read b = ys.map .real := (hwrites.read_of_apart hapart).trans hread'
  obtain ⟨h', hsecond, hadded⟩ := update_writes (hwrites.doubles hdst) hnodup hapart
    hshape' hwrites.read hkept hadds
  rw [List.zipWith_map_left] at hadded
  exact ⟨first, h', hfirst, hsecond, hwrites.trans hadded⟩

theorem sumComputed_writes (hdst : h.Doubles dst) (hnodup : dst.positions.Nodup)
    (hshape : a.shape = dst.shape) (hshape' : b.shape = dst.shape)
    (hread : h.read a = xs.map .real) (hread' : h.read b = ys.map .real) (c k : ℝ) :
    ∃ h', h.sumComputed dst (.real c) a (.real k) b = .ok h' ∧
      h.Writes h' dst ((List.zipWith (fun x y => c * x + k * y) xs ys).map .real) := by
  have hxs := (Doubles.length_of_read hread).trans (congrArg Shape.size hshape)
  have hys := (Doubles.length_of_read hread').trans (congrArg Shape.size hshape')
  refine ⟨h.write dst ((List.zipWith (fun x y => c * x + k * y) xs ys).map .real), ?_,
    hdst.writes_map hnodup ?_⟩
  · simp only [sumComputed, hdst.storage]
    refine congrArg (fun l => Except.ok (h.write dst l)) ?_
    have hsum (x y : ℝ) : x * c + y * k = c * x + k * y := by ring
    rw [hread, hread', zipWith_real (fun x y => x * c + y * k) fun x y => rfl]
    simp only [hsum, List.map_map]
    rfl
  · rw [List.length_zipWith, hxs, hys, min_self]

theorem size_ne_zero_of_mayOverlap (hmay : dst.mayOverlap a = true) : dst.shape.size ≠ 0 := by
  intro hempty
  simp [View.mayOverlap, hempty] at hmay

/-- Every way to combine leaves the sum in the destination and hands it back. -/
theorem combine_writes (hdst : h.Doubles dst) (ha : h.Doubles a) (hb : h.Doubles b)
    (hshape : a.shape = dst.shape) (hshape' : b.shape = dst.shape)
    (hnodup : dst.positions.Nodup) (hsame : a.label = b.label → a = b)
    (hread : h.read a = xs.map .real) (hread' : h.read b = ys.map .real) (c : ℝ) {k : ℝ}
    (hadds : dst.shape.size ≠ 0 ∨ k = 0) :
    ∃ h', h.combine dst (some (.real c)) a (some (.real k)) (some b) = (.ok dst, h') ∧
      h.Writes h' dst ((List.zipWith (fun x y => c * x + k * y) xs ys).map .real) := by
  have hchecked : checkShapes dst [a, b] = .ok () := (if_pos hshape).trans (if_pos hshape')
  simp only [combine, combineTwo, hchecked]
  by_cases hmay : dst.mayOverlap b = true
  · rw [if_pos hmay, combineOverlapping]
    by_cases hlabel : a.label = b.label
    · obtain rfl := hsame hlabel
      obtain rfl : xs = ys :=
        List.map_injective_iff.mpr (fun _ _ => Exact.real.inj) (hread.symm.trans hread')
      rw [if_pos rfl]
      obtain ⟨h', hok, hwrites⟩ := multiply_writes hdst hnodup hshape hread (c + k)
      refine ⟨h', congrArg (h.handBack dst) hok, ?_⟩
      have hsum : xs.map ((c + k) * ·) = List.zipWith (fun x y => c * x + k * y) xs xs := by
        simp [List.zipWith_self, add_mul]
      rwa [hsum] at hwrites
    · rw [if_neg hlabel]
      by_cases hmay' : dst.mayOverlap a = true
      · obtain ⟨h', hok, hwrites⟩ :=
          sumComputed_writes hdst hnodup hshape hshape' hread hread' c k
        rw [if_pos hmay']
        exact ⟨h', congrArg (h.handBack dst) hok, hwrites⟩
      · have hapart := View.apart_of_not_mayOverlap hdst.toInside ha.toInside
          (Bool.not_eq_true _ ▸ hmay')
        obtain ⟨first, h', hfirst, hsecond, hwrites⟩ := passes_write hdst hnodup hapart hshape'
          hshape hread' hread k (.inl (size_ne_zero_of_mayOverlap hmay))
        rw [if_neg hmay', hfirst]
        refine ⟨h', hsecond, ?_⟩
        rw [List.zipWith_comm] at hwrites
        simpa only [add_comm] using hwrites
  · have hapart := View.apart_of_not_mayOverlap hdst.toInside hb.toInside
      (Bool.not_eq_true _ ▸ hmay)
    obtain ⟨first, h', hfirst, hsecond, hwrites⟩ := passes_write hdst hnodup hapart hshape
      hshape' hread hread' c hadds
    rw [if_neg hmay, hfirst]
    exact ⟨h', hsecond, hwrites⟩

/-- Without elements the sum is refused before anything is written. -/
theorem combine_of_empty (hdst : h.Doubles dst) (hb : h.Doubles b) (hshape : a.shape = dst.shape)
    (hshape' : b.shape = dst.shape) (hempty : dst.shape.size = 0) (c : ℝ) {k : ℝ} (hk : k ≠ 0) :
    h.combine dst (some (.real c)) a (some (.real k)) (some b) = (.error .nothingToAdd, h) := by
  have hchecked : checkShapes dst [a, b] = .ok () := (if_pos hshape).trans (if_pos hshape')
  have hchecked' : checkShapes dst [b] = .ok () := if_pos hshape'
  have hapart : ¬ dst.mayOverlap b = true := fun hmay => size_ne_zero_of_mayOverlap hmay hempty
  have hplace : canAddInPlace dst b = true := by
    have hempty' : b.shape.size = 0 := hshape' ▸ hempty
    simp [canAddInPlace, hdst.storage, hb.storage, Storage.isFloating, View.isContiguous, hempty,
      hempty']
  have hmultiplied : h.multiply dst (some (.real c)) a = .ok h := by
    simp only [multiply, hdst.storage, write, View.positions_eq_nil hempty]
    rfl
  have hmoves : ¬ Scalar.equal (Exact.real k) 0 = true := by
    rw [Exact.zero_eq, Exact.equal_real]
    exact hk
  have hrefused : h.update dst (some (.real k)) b = (.error .nothingToAdd, h) := by
    rw [update, hchecked']
    show _ = h.handBack dst (.error _)
    refine congrArg (h.handBack dst) ((if_neg hmoves).trans ?_)
    rw [if_pos hplace, if_pos hempty]
    rfl
  simp only [combine, combineTwo, hchecked]
  rw [if_neg hapart, hmultiplied]
  exact hrefused

/-- A combination hands its destination back with the sum of both multiples in it, as its
operands were before, and no other cell changes, whichever cells the three views share.  The
only exception are views without elements, where the sum is refused if the second factor does
not vanish. -/
theorem combine_reads_before (hdst : h.Doubles dst) (ha : h.Doubles a) (hb : h.Doubles b)
    (hshape : a.shape = dst.shape) (hshape' : b.shape = dst.shape)
    (hnodup : dst.positions.Nodup) (hsame : a.label = b.label → a = b)
    (hread : h.read a = xs.map .real) (hread' : h.read b = ys.map .real) (c k : ℝ) :
    (dst.shape.size ≠ 0 ∨ k = 0 →
      ∃ h', h.combine dst (some (.real c)) a (some (.real k)) (some b) = (.ok dst, h') ∧
        h'.read dst = (List.zipWith (fun x y => c * x + k * y) xs ys).map .real ∧
        ∀ buffer i, ¬ (buffer = dst.buffer ∧ i ∈ dst.positions) →
          h'.cell buffer i = h.cell buffer i) ∧
    (dst.shape.size = 0 → k ≠ 0 →
      h.combine dst (some (.real c)) a (some (.real k)) (some b) = (.error .nothingToAdd, h)) := by
  refine ⟨fun hadds => ?_, fun hempty hk => ?_⟩
  · obtain ⟨h', hok, hwrites⟩ := combine_writes hdst ha hb hshape hshape' hnodup hsame hread hread'
      c hadds
    exact ⟨h', hok, hwrites.read, hwrites.elsewhere⟩
  · exact combine_of_empty hdst hb hshape hshape' hempty c hk

end

end Heap

namespace Sample

noncomputable section

/-- Three numbers in one buffer. -/
def threeCells : Heap Exact := #[⟨.floating .double, #[.real 0, .real 1, .real (-1)], #[]⟩]

def firstTwo : View := ⟨0, 0, .floating .double, 0, [2], [1]⟩

def lastTwo : View := ⟨1, 0, .floating .double, 1, [2], [1]⟩

/-- The first two cells backwards. -/
def backwards : View := ⟨2, 0, .floating .double, 1, [2], [-1]⟩

theorem doubles_firstTwo : threeCells.Doubles firstTwo where
  strides := rfl
  cells := by decide +kernel
  storage := rfl

theorem doubles_lastTwo : threeCells.Doubles lastTwo where
  strides := rfl
  cells := by decide +kernel
  storage := rfl

theorem doubles_backwards : threeCells.Doubles backwards where
  strides := rfl
  cells := by decide +kernel
  storage := rfl

/-- Twice the last two cells and three times the first two backwards, in the first two. -/
theorem combine_firstTwo :
    ∃ h', threeCells.combine firstTwo (some (.real 2)) lastTwo (some (.real 3))
        (some backwards) = (.ok firstTwo, h') ∧
      h'.read firstTwo = [.real 5, .real (-2)] ∧ h'.cell 0 2 = .real (-1) := by
  have hread : threeCells.read lastTwo = [1, -1].map .real := rfl
  have hread' : threeCells.read backwards = [1, 0].map .real := rfl
  have hcombined := Heap.combine_reads_before doubles_firstTwo doubles_lastTwo doubles_backwards
    rfl rfl (by decide) nofun hread hread' 2 3
  obtain ⟨h', hok, hsum, helsewhere⟩ := hcombined.1 (.inl (by decide))
  refine ⟨h', hok, hsum.trans ?_, (helsewhere 0 2 (by decide)).trans rfl⟩
  norm_num

/-- No numbers. -/
def noCells (label : ℕ) : View := ⟨label, 0, .floating .double, 0, [0], [1]⟩

theorem doubles_noCells (label : ℕ) : threeCells.Doubles (noCells label) where
  strides := rfl
  cells := nofun
  storage := rfl

theorem noCells_not_combined :
    ¬ ∃ h', threeCells.combine (noCells 0) (some (.real 1)) (noCells 1) (some (.real 1))
      (some (noCells 2)) = (.ok (noCells 0), h') := by
  have hrefused := Heap.combine_of_empty (a := noCells 1) (doubles_noCells 0) (doubles_noCells 2)
    rfl rfl rfl 1 one_ne_zero
  rw [hrefused]
  exact nofun

end

end Sample

end VariableMetric
