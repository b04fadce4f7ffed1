import VariableMetric.Memory.Arrays
import VariableMetric.Proofs.Broadcasting
import VariableMetric.Proofs.Double.Arithmetic
import VariableMetric.Proofs.Memory.Ring

/-!
# The history of a memory

A memory serves calls of four kinds: two of them push a pair, one forgets all pairs, and one
asks for a direction, which may forget them too.  The record of the calls tells what the
memory holds.  Its rows are the pairs that were pushed since it last forgot, the newest first
and as many as there is room for; it makes no difference where in the ring they begin, nor how
often the ring has turned.
-/

namespace VariableMetric

/-! ## What a call stores -/

namespace Tensor

/-- The entries of a row that an array is copied into, each of them rounded. -/
def copied (t : Tensor Float) (shape : Shape) (p : Precision) : List Float :=
  ((t.shape.trimmed shape.length).broadcastIndices shape).map fun i =>
    Scalar.round p (t.toList.getD i 0)

/-- The entries of a row that the difference of two arrays of its shape is stored in. -/
def subtracted (t t₀ : Tensor Float) (p : Precision) : List Float :=
  List.zipWith (fun a a₀ => Scalar.round p (Scalar.round p a - a₀)) t.toList t₀.toList

end Tensor

inductive MemoryCall where
  | push (s y : Tensor Float)
  | pushDifference (x x₀ g g₀ : Tensor Float)
  | reset
  | direction (g w : Tensor Float) (domain : Option (Domain Float)) (x : Option (Tensor Float))

/-- The pair that a call pushes: the entries of its two rows. -/
def MemoryCall.pair? (shape : Shape) (p : Precision) :
    MemoryCall → Option (List Float × List Float)
  | push s y => some (s.copied shape p, y.copied shape p)
  | pushDifference x x₀ g g₀ => some (x.subtracted x₀ p, g.subtracted g₀ p)
  | reset => none
  | direction _ _ _ _ => none

/-- A call that a memory has served: what it was refused for, if it was, and the notices it
left. -/
structure MemoryEntry where
  call : MemoryCall
  fault? : Option Fault
  notices : List (Notice Float)

/-- Whether a memory says that it refuses a direction. -/
def Notice.isRefusal : Notice Float → Bool
  | directionRefused _ => true
  | _ => false

/-- Whether the memory forgets its pairs: it is told to, or it refuses a direction. -/
def MemoryEntry.forgets (entry : MemoryEntry) : Bool :=
  match entry.call with
  | .reset => true
  | _ => entry.notices.any Notice.isRefusal

/-- The pairs of the calls in a record, the newest first. -/
def pairsOf (shape : Shape) (p : Precision) (log : List MemoryEntry) :
    List (List Float × List Float) :=
  log.filterMap fun entry => entry.call.pair? shape p

/-- The pairs that were pushed since the memory last forgot. -/
def pairsSince (shape : Shape) (p : Precision) (log : List MemoryEntry) :
    List (List Float × List Float) :=
  pairsOf shape p (log.takeWhile fun entry => !entry.forgets)

/-- A memory with the record of the calls that it has served, the last one first. -/
structure MemorySession where
  memory : ArrayMemory Float
  log : List MemoryEntry

namespace ArrayMemory

def faultOf? {β : Type} : Except Fault β → Option Fault
  | .error fault => some fault
  | .ok _ => none

def perform (mem : ArrayMemory Float) (call : MemoryCall) : MemoryEntry × ArrayMemory Float :=
  match call with
  | .push s y => (⟨call, faultOf? (mem.push s y).1, []⟩, (mem.push s y).2)
  | .pushDifference x x₀ g g₀ =>
    (⟨call, faultOf? (mem.pushDifference x x₀ g g₀).1, []⟩, (mem.pushDifference x x₀ g g₀).2)
  | .reset => (⟨call, none, []⟩, mem.reset)
  | .direction g w domain x =>
    let result := mem.direction g w domain x
    (⟨call, faultOf? result.1, result.2.2⟩, result.2.1)

end ArrayMemory

def MemorySession.serve (t : MemorySession) (call : MemoryCall) : MemorySession :=
  let result := t.memory.perform call
  ⟨result.2, result.1 :: t.log⟩

/-- A memory serves calls one after the other, whether or not it has to refuse some. -/
def ArrayMemory.serve (mem : ArrayMemory Float) (calls : List MemoryCall) : MemorySession :=
  calls.foldl MemorySession.serve ⟨mem, []⟩

/-! ## Rows -/

namespace Tensor

theorem length_toList (t : Tensor Float) : t.toList.length = t.shape.size := t.data.length_toList

theorem toList_spread (t : Tensor Float) {shape : Shape}
    (h : (t.shape.broadcastIndices shape).length = shape.size) :
    (t.spread shape).toList =
      (t.shape.broadcastIndices shape).map fun i => t.toList.getD i 0 := by
  have hentries : (fun i => t.toList.toArray.getD i 0) = fun i => t.toList.getD i 0 := by
    funext i
    rw [Array.getD_eq_getD_getElem?, List.getElem?_toArray, List.getD_eq_getElem?_getD]
  rw [← hentries]
  exact Vec.toList_ofList 0 (by rw [List.length_map, h])

theorem map_getD_range (l : List Float) : (List.range l.length).map (l.getD · 0) = l := by
  apply List.ext_getElem
  · rw [List.length_map, List.length_range]
  · intro i _ hi
    rw [List.getElem_map, List.getElem_range, List.getD_eq_getElem _ _ hi]

/-- An array of the shape wanted is spread as it is. -/
theorem toList_spread_self {t : Tensor Float} {shape : Shape} (h : t.shape = shape) :
    (t.spread shape).toList = t.toList := by
  subst h
  rw [toList_spread, Shape.broadcastIndices_self, ← length_toList, map_getD_range]
  rw [Shape.broadcastIndices_self, List.length_range]

/-- An array that is copied into a row: it is spread over the shape of the row, without the
axes of extent one that the row lacks. -/
theorem toList_contentsFor {t : Tensor Float} {out : Layout} {v : Vec Float out.shape.size}
    (h : t.contentsFor out = .ok v) : v.toList =
      ((t.shape.trimmed out.shape.length).broadcastIndices out.shape).map fun i =>
        t.toList.getD i 0 := by
  have hkept : (ofList (t.shape.trimmed out.shape.length) t.storage t.toList).toList =
      t.toList := Vec.toList_ofList 0 (t.length_toList.trans (Shape.size_trimmed _ _).symm)
  unfold contentsFor at h
  cases hgoes : t.storage.goesInto out.storage with
  | false =>
    rw [hgoes] at h
    cases h
  | true =>
    rw [hgoes] at h
    change (ofList (t.shape.trimmed out.shape.length) t.storage t.toList).spread? out.shape =
      .ok v at h
    unfold spread? at h
    split at h
    next hfits =>
      cases h
      have hlength := Shape.length_broadcastIndices (Shape.fits_of_broadcastsTo hfits)
      rw [toList_spread _ hlength, hkept]
      rfl
    next => cases h

end Tensor

namespace ArrayMemory

variable {mem : ArrayMemory Float}

theorem toList_spreadRow {t : Tensor Float} {v : Vec Float mem.shape.size}
    (h : mem.spreadRow t = .ok v) : v.toList = t.copied mem.shape mem.precision := by
  unfold spreadRow at h
  split at h
  next => cases h
  next =>
    obtain ⟨u, hcontents, h⟩ := exists_of_bind_eq_ok h
    have hstored : v.toList = u.toList.map (Scalar.round mem.precision) := by
      cases h
      rfl
    rw [hstored, Tensor.toList_contentsFor hcontents, List.map_map]
    rfl

theorem round_one (p : Precision) : Scalar.round p (1 : Float) = 1 := by
  cases p with
  | single => decide +kernel
  | double => rfl

theorem toList_differenceRow {a b : Tensor Float} {v : Vec Float mem.shape.size}
    (h : mem.differenceRow a b = .ok v) : v.toList = a.subtracted b mem.precision := by
  unfold differenceRow at h
  split_ifs at h with ha hb hrank hempty
  rw [not_not] at ha hb
  cases h
  have hscaled : ((a.spread mem.shape).scale mem.precision 1).toList =
      a.toList.map (Scalar.round mem.precision) := by
    have hmap : ((a.spread mem.shape).scale mem.precision 1).toList =
        (a.spread mem.shape).toList.map fun x =>
          Scalar.round mem.precision (x * Scalar.round mem.precision 1) := rfl
    simp only [hmap, round_one, Double.mul_unit, Tensor.toList_spread_self ha]
  have hzip : (Vec.difference mem.precision (a.spread mem.shape) (b.spread mem.shape)).toList =
      List.zipWith (fun x y => Scalar.round mem.precision (x + -1 * y))
        ((a.spread mem.shape).scale mem.precision 1).toList (b.spread mem.shape).toList := rfl
  rw [hzip, hscaled, Tensor.toList_spread_self hb, List.zipWith_map_left]
  simp only [Double.add_neg_one_mul]
  rfl

/-! ## One call -/

/-- The rows of the remembered pairs, the newest first. -/
def rows (mem : ArrayMemory Float) : List (List Float × List Float) :=
  mem.memory.pairs.map fun pair => (pair.1.toList, pair.2.toList)

/-- Memories with as many rows of the same kind. -/
structure Alike (mem mem' : ArrayMemory Float) : Prop where
  capacity : mem'.capacity = mem.capacity
  shape : mem'.shape = mem.shape
  precision : mem'.precision = mem.precision

theorem Alike.refl (mem : ArrayMemory Float) : mem.Alike mem := ⟨rfl, rfl, rfl⟩

theorem Alike.trans {mem mem' mem'' : ArrayMemory Float} (h : mem.Alike mem')
    (h' : mem'.Alike mem'') : mem.Alike mem'' :=
  ⟨h'.capacity.trans h.capacity, h'.shape.trans h.shape, h'.precision.trans h.precision⟩

/-- A push stores both rows, or only the first one, or none. -/
theorem pushHalves_cases (step change : Except Fault (Vec Float mem.shape.size)) :
    (∃ s y, step = .ok s ∧ change = .ok y ∧
      mem.pushHalves step change = (.ok (), { mem with memory := mem.memory.push s y })) ∨
    (∃ s fault, step = .ok s ∧ change = .error fault ∧ mem.pushHalves step change =
      (.error fault, { mem with memory := mem.memory.writeStep s })) ∨
    ∃ fault, step = .error fault ∧ mem.pushHalves step change = (.error fault, mem) := by
  cases step with
  | error fault => exact .inr (.inr ⟨fault, rfl, rfl⟩)
  | ok s =>
    cases change with
    | error fault => exact .inr (.inl ⟨s, fault, rfl, rfl, rfl⟩)
    | ok y => exact .inl ⟨s, y, rfl, rfl, rfl⟩

/-- How a direction is brought into the feasible set, if there is one. -/
def projected (mem : ArrayMemory Float) (domain : Option (Domain Float))
    (x : Option (Tensor Float)) (d : Vec Float mem.shape.size) :
    Except Fault (Vec Float mem.shape.size) :=
  match domain with
  | none => pure d
  | some domain => domain.projectRow (x.getD mem.zeros) mem.shape mem.precision d

/-- Arrays of other shapes are refused; otherwise the pairs give the direction. -/
theorem direction_cases (mem : ArrayMemory Float) (g w : Tensor Float)
    (domain : Option (Domain Float)) (x : Option (Tensor Float)) :
    (∃ fault, mem.direction g w domain x = (.error fault, mem, [])) ∨
    let result := mem.memory.directionFrom mem.precision (mem.projected domain x)
      (Vec.zeros mem.shape.size) (mem.oppositeRow g) (g.spread mem.shape) (w.spread mem.shape)
    mem.direction g w domain x =
      (result.1, { mem with memory := result.2.1 }, result.2.2) := by
  unfold direction
  split
  · exact .inl ⟨_, rfl⟩
  · split
    · exact .inl ⟨_, rfl⟩
    · exact .inr rfl

/-- What a call does to the rows of a memory is what the record of it says. -/
structure Records (mem : ArrayMemory Float) (entry : MemoryEntry) (mem' : ArrayMemory Float) :
    Prop where
  alike : mem.Alike mem'
  updates : mem'.memory.updates =
    (pairsOf mem.shape mem.precision [entry]).length + mem.memory.updates
  forgotten : entry.forgets = true → mem'.rows = []
  kept : entry.forgets = false → ∀ older, mem.rows = older.take mem.capacity →
    mem'.rows = (pairsOf mem.shape mem.precision [entry] ++ older).take mem.capacity

theorem rows_push (mem : ArrayMemory Float) (s y : Vec Float mem.shape.size) :
    ({ mem with memory := mem.memory.push s y } : ArrayMemory Float).rows =
      ((s.toList, y.toList) :: mem.rows).take mem.capacity := by
  have hpairs := mem.memory.pairs_push s y
  unfold rows
  rw [hpairs, List.map_take]
  rfl

theorem records_pushHalves (call : MemoryCall)
    {step change : Except Fault (Vec Float mem.shape.size)}
    (hpair : ∀ s y, step = .ok s → change = .ok y →
      call.pair? mem.shape mem.precision = some (s.toList, y.toList))
    (hforgets : (⟨call, none, []⟩ : MemoryEntry).forgets = false)
    (hok : faultOf? (mem.pushHalves step change).1 = none) :
    mem.Records ⟨call, none, []⟩ (mem.pushHalves step change).2 := by
  rcases mem.pushHalves_cases step change with ⟨s, y, hs, hy, heq⟩ | ⟨s, fault, -, -, heq⟩ |
    ⟨fault, -, heq⟩
  · have hone : pairsOf mem.shape mem.precision [⟨call, none, []⟩] =
        [(s.toList, y.toList)] := by
      simp [pairsOf, hpair s y hs hy]
    rw [heq]
    refine ⟨⟨rfl, rfl, rfl⟩, ?_, ?_, ?_⟩
    · rw [hone, List.length_singleton, Nat.add_comm]
      rfl
    · rw [hforgets]
      exact nofun
    · intro _ older holder
      rw [hone, rows_push, holder, ← List.take_succ_cons, List.take_take,
        Nat.min_eq_left mem.capacity.le_succ]
      rfl
  all_goals
    rw [heq] at hok
    cases hok

theorem any_isRefusal {notices : List (Notice Float)} :
    notices.any Notice.isRefusal = true ↔ ∃ slope, .directionRefused slope ∈ notices := by
  rw [List.any_eq_true]
  constructor
  · rintro ⟨notice, hmem, hrefusal⟩
    cases notice with
    | directionRefused slope => exact ⟨slope, hmem⟩
    | _ => cases hrefusal
  · rintro ⟨slope, hmem⟩
    exact ⟨_, hmem, rfl⟩

theorem records_direction {g w : Tensor Float} {domain : Option (Domain Float)}
    {x : Option (Tensor Float)} (hok : faultOf? (mem.direction g w domain x).1 = none) :
    mem.Records ⟨.direction g w domain x, none, (mem.direction g w domain x).2.2⟩
      (mem.direction g w domain x).2.1 := by
  rcases mem.direction_cases g w domain x with ⟨fault, heq⟩ | heq
  · rw [heq] at hok
    cases hok
  · dsimp only at heq
    have hmemory := mem.memory.directionFrom_memory mem.precision (mem.projected domain x)
      (Vec.zeros mem.shape.size) (mem.oppositeRow g) (g.spread mem.shape) (w.spread mem.shape)
    have hstored := mem.memory.directionFrom_stored mem.precision (mem.projected domain x)
      (Vec.zeros mem.shape.size) (mem.oppositeRow g) (g.spread mem.shape) (w.spread mem.shape)
    dsimp only at hmemory hstored
    rw [heq]
    refine ⟨⟨rfl, rfl, rfl⟩, ?_, ?_, ?_⟩
    · exact hstored.2.2.trans (Nat.zero_add _).symm
    · intro hforgets
      obtain ⟨slope, hrefusal⟩ := any_isRefusal.mp hforgets
      rcases hmemory with ⟨hnone, -⟩ | ⟨-, hpairs⟩
      · exact absurd hrefusal (hnone slope)
      · exact congrArg (List.map _) hpairs
    · intro hforgets older holder
      rcases hmemory with ⟨-, hpairs⟩ | ⟨hsome, -⟩
      · exact (congrArg (List.map _) hpairs).trans holder
      · exact absurd (any_isRefusal.mpr hsome) (Bool.not_eq_true _ ▸ hforgets)

/-- A memory forgets its pairs if it is told to, or if the direction that it takes from them
does not descend. -/
inductive Forgets (mem : ArrayMemory Float) : MemoryCall → Prop
  | reset : mem.Forgets .reset
  | refused {g w : Tensor Float} {domain : Option (Domain Float)} {x : Option (Tensor Float)}
      {slope : Float} {d : Vec Float mem.shape.size}
      (answer : (mem.direction g w domain x).1 = .ok ⟨false, slope, d⟩) (ascends : 0 ≤ slope)
      (remembered : 1 ≤ mem.memory.live)
      (forgotten : (mem.direction g w domain x).2.1.memory.live = 0) :
      mem.Forgets (.direction g w domain x)

theorem refused_direction_iff (mem : ArrayMemory Float) (g w : Tensor Float)
    (domain : Option (Domain Float)) (x : Option (Tensor Float)) :
    (∃ slope, .directionRefused slope ∈ (mem.direction g w domain x).2.2) ↔
      mem.Forgets (.direction g w domain x) := by
  have hforgets : mem.Forgets (.direction g w domain x) ↔
      ∃ slope d, (mem.direction g w domain x).1 = .ok ⟨false, slope, d⟩ ∧ 0 ≤ slope ∧
        1 ≤ mem.memory.live ∧ (mem.direction g w domain x).2.1.memory.live = 0 := by
    constructor
    · intro h
      cases h with
      | refused hanswer hslope hlive hgone => exact ⟨_, _, hanswer, hslope, hlive, hgone⟩
    · rintro ⟨slope, d, hanswer, hslope, hlive, hgone⟩
      exact .refused hanswer hslope hlive hgone
  rw [hforgets]
  rcases mem.direction_cases g w domain x with ⟨fault, heq⟩ | heq
  · rw [heq]
    exact iff_of_false nofun nofun
  · dsimp only at heq
    rw [heq]
    exact mem.memory.directionFrom_refused_iff mem.precision (mem.projected domain x)
      (Vec.zeros mem.shape.size) (mem.oppositeRow g) (g.spread mem.shape) (w.spread mem.shape)

theorem call_perform (mem : ArrayMemory Float) (call : MemoryCall) :
    (mem.perform call).1.call = call := by
  cases call <;> rfl

/-- What the record tells about forgetting is what the memory does. -/
theorem forgets_perform_iff (mem : ArrayMemory Float) (call : MemoryCall) :
    (mem.perform call).1.forgets = true ↔ mem.Forgets call := by
  cases call with
  | reset => exact iff_of_true rfl .reset
  | direction g w domain x => exact any_isRefusal.trans (mem.refused_direction_iff g w domain x)
  | _ => exact iff_of_false Bool.false_ne_true nofun

/-- One call, if the memory does not refuse it. -/
theorem records_perform {call : MemoryCall} (hok : (mem.perform call).1.fault? = none) :
    mem.Records (mem.perform call).1 (mem.perform call).2 := by
  cases call with
  | push s y =>
    have hrecords := records_pushHalves (.push s y)
      (fun u v hu hv => by
        rw [MemoryCall.pair?, toList_spreadRow hu, toList_spreadRow hv]) rfl hok
    rwa [← hok] at hrecords
  | pushDifference x x₀ g g₀ =>
    have hrecords := records_pushHalves (.pushDifference x x₀ g g₀)
      (fun u v hu hv => by
        rw [MemoryCall.pair?, toList_differenceRow hu, toList_differenceRow hv]) rfl hok
    rwa [← hok] at hrecords
  | reset =>
    refine ⟨⟨rfl, rfl, rfl⟩, (Nat.zero_add _).symm, fun _ => ?_, nofun⟩
    exact congrArg (List.map _) (Memory.pairs_eq_nil rfl)
  | direction g w domain x =>
    have hrecords := records_direction hok
    rwa [← hok] at hrecords

/-! ## Slots -/

/-- The entries of the row of steps that the pair pushed `j` pushes before the next one has. -/
def stepRow (mem : ArrayMemory Float) (j : ℤ) : List Float :=
  (mem.memory.steps.get (mem.memory.slot j)).toList

/-- The entries of its row of changes. -/
def changeRow (mem : ArrayMemory Float) (j : ℤ) : List Float :=
  (mem.memory.changes.get (mem.memory.slot j)).toList

theorem length_rows (mem : ArrayMemory Float) : mem.rows.length = mem.memory.live := by
  rw [rows, List.length_map, Memory.length_pairs]

theorem getElem?_rows (mem : ArrayMemory Float) {j : ℕ} (hj : j < mem.memory.live) :
    mem.rows[j]? = some (mem.stepRow (j + 1), mem.changeRow (j + 1)) := by
  simp [rows, Memory.pairs, Memory.liveSlots, hj, stepRow, changeRow]

theorem slot_lt (mem : ArrayMemory Float) (j : ℤ) : mem.slot j < mem.capacity :=
  (mem.memory.slot j).isLt

theorem eq_of_slot_eq {i j : ℕ} (hlive : mem.memory.live ≤ mem.capacity) (hi : 1 ≤ i)
    (hi' : i ≤ mem.memory.live) (hj : 1 ≤ j) (hj' : j ≤ mem.memory.live)
    (h : mem.slot i = mem.slot j) : i = j := by
  have hij : |(i : ℤ) - j| < mem.capacity := by
    rw [abs_lt]
    omega
  exact_mod_cast Memory.eq_of_slot_eq hij (Fin.ext h)

end ArrayMemory

/-! ## All calls -/

theorem pairsOf_cons (shape : Shape) (p : Precision) (entry : MemoryEntry)
    (log : List MemoryEntry) :
    pairsOf shape p (entry :: log) = pairsOf shape p [entry] ++ pairsOf shape p log := by
  rw [pairsOf, pairsOf, pairsOf, ← List.filterMap_append, List.singleton_append]

theorem pairsSince_cons (shape : Shape) (p : Precision) (entry : MemoryEntry)
    (log : List MemoryEntry) :
    pairsSince shape p (entry :: log) =
      if entry.forgets then [] else pairsOf shape p [entry] ++ pairsSince shape p log := by
  unfold pairsSince
  cases hforgets : entry.forgets with
  | true =>
    rw [List.takeWhile_cons_of_neg (by simp [hforgets])]
    rfl
  | false =>
    rw [List.takeWhile_cons_of_pos (by simp [hforgets]), pairsOf_cons]
    rfl

namespace MemorySession

variable {mem : ArrayMemory Float} {t : MemorySession}

/-- What the memory holds is what the record asks for. -/
structure Recalls (mem : ArrayMemory Float) (t : MemorySession) : Prop where
  alike : mem.Alike t.memory
  updates : t.memory.memory.updates = (pairsOf mem.shape mem.precision t.log).length
  rows : t.memory.rows = (pairsSince mem.shape mem.precision t.log).take mem.capacity

theorem Recalls.serve (h : Recalls mem t) {call : MemoryCall}
    (hok : (t.memory.perform call).1.fault? = none) : Recalls mem (t.serve call) := by
  have hrecords := ArrayMemory.records_perform hok
  have hpair : pairsOf t.memory.shape t.memory.precision [(t.memory.perform call).1] =
      pairsOf mem.shape mem.precision [(t.memory.perform call).1] := by
    rw [h.alike.shape, h.alike.precision]
  have hupdates := hrecords.updates
  rw [hpair, h.updates, ← List.length_append, ← pairsOf_cons] at hupdates
  refine ⟨h.alike.trans hrecords.alike, hupdates, ?_⟩
  change (t.memory.perform call).2.rows =
    (pairsSince mem.shape mem.precision ((t.memory.perform call).1 :: t.log)).take mem.capacity
  rw [pairsSince_cons]
  cases hforgets : (t.memory.perform call).1.forgets with
  | true =>
    rw [if_pos rfl, List.take_nil]
    exact hrecords.forgotten hforgets
  | false =>
    rw [if_neg Bool.false_ne_true]
    have hkept := hrecords.kept hforgets (pairsSince mem.shape mem.precision t.log)
    rw [hpair, h.alike.capacity] at hkept
    exact hkept h.rows

/-- Each call adds one entry to the record. -/
theorem log_foldl (calls : List MemoryCall) (t : MemorySession) :
    ∃ newer, (calls.foldl MemorySession.serve t).log = newer ++ t.log ∧
      newer.length = calls.length := by
  induction calls generalizing t with
  | nil => exact ⟨[], rfl, rfl⟩
  | cons call calls ih =>
    obtain ⟨newer, hlog, hlength⟩ := ih (t.serve call)
    refine ⟨newer ++ [(t.memory.perform call).1], ?_, by rw [List.length_append, hlength]; rfl⟩
    rw [List.append_assoc]
    exact hlog

/-- A memory that has refused no call so far holds what the record asks for. -/
theorem recalls_foldl (calls : List MemoryCall)
    (h : (∀ entry ∈ t.log, entry.fault? = none) → Recalls mem t) :
    (∀ entry ∈ (calls.foldl MemorySession.serve t).log, entry.fault? = none) →
      Recalls mem (calls.foldl MemorySession.serve t) := by
  induction calls generalizing t with
  | nil => exact h
  | cons call calls ih =>
    apply ih
    intro hserved
    have hbefore := h fun entry hentry => hserved entry (List.mem_cons_of_mem _ hentry)
    exact hbefore.serve (hserved _ List.mem_cons_self)

end MemorySession

namespace ArrayMemory

theorem new_memory {given : Value} {extents : List ℤ} {p : Precision} {mem : ArrayMemory Float}
    (h : ArrayMemory.new given extents p = .ok mem) :
    mem.precision = p ∧ mem.memory.live = 0 ∧ mem.memory.updates = 0 := by
  unfold ArrayMemory.new at h
  obtain ⟨⟨m, hm⟩, -, h⟩ := exists_of_bind_eq_ok h
  dsimp only at h
  split at h
  next => cases h
  next shape _ =>
    obtain ⟨_, -, h⟩ := exists_of_bind_eq_ok h
    cases h
    exact ⟨rfl, rfl, rfl⟩

theorem recalls_serve {given : Value} {extents : List ℤ} {p : Precision}
    {mem : ArrayMemory Float} {calls : List MemoryCall}
    (hnew : ArrayMemory.new given extents p = .ok mem)
    (hok : ∀ entry ∈ (mem.serve calls).log, entry.fault? = none) :
    MemorySession.Recalls mem (mem.serve calls) := by
  obtain ⟨-, hlive, hupdates⟩ := new_memory hnew
  refine MemorySession.recalls_foldl calls (fun _ => ⟨.refl mem, hupdates, ?_⟩) hok
  exact (congrArg (List.map _) (Memory.pairs_eq_nil hlive)).trans (List.take_nil).symm

/-- The record of a call stands behind those of the later ones. -/
theorem log_serve_append (mem : ArrayMemory Float) (before : List MemoryCall) (call : MemoryCall)
    (after : List MemoryCall) :
    (mem.serve (before ++ call :: after)).log[after.length]? =
      some ((mem.serve before).memory.perform call).1 := by
  obtain ⟨newer, hlog, hlength⟩ :=
    MemorySession.log_foldl after ((mem.serve before).serve call)
  have hserve : mem.serve (before ++ call :: after) =
      after.foldl MemorySession.serve ((mem.serve before).serve call) := by
    rw [ArrayMemory.serve, List.foldl_append]
    rfl
  rw [hserve, hlog, ← hlength, List.getElem?_append_right le_rfl, Nat.sub_self]
  rfl

/-- The memory holds the pairs that were pushed since it last forgot, as many as there is room
for: the slots of the last pairs are apart, and the rows there are those of the pairs, entry
for entry.  It forgets where it is told to, and where it empties itself because the direction
that it takes from its pairs does not descend. -/
theorem holds_last_pairs {given : Value} {extents : List ℤ} {p : Precision}
    {mem : ArrayMemory Float} {calls : List MemoryCall} {t : MemorySession}
    (hnew : ArrayMemory.new given extents p = .ok mem) (hserved : mem.serve calls = t)
    (hok : ∀ entry ∈ t.log, entry.fault? = none) :
    let pairs := pairsSince mem.shape p t.log
    t.memory.memory.live = min mem.capacity pairs.length ∧
      t.memory.memory.updates = (pairsOf mem.shape p t.log).length ∧
      (∀ j, t.memory.slot j < mem.capacity) ∧
      (∀ i j : ℕ, 1 ≤ i → i ≤ t.memory.memory.live → 1 ≤ j → j ≤ t.memory.memory.live →
        t.memory.slot i = t.memory.slot j → i = j) ∧
      (∀ j : ℕ, 1 ≤ j → j ≤ t.memory.memory.live →
        pairs[j - 1]? = some (t.memory.stepRow j, t.memory.changeRow j)) ∧
      ∀ before call after, calls = before ++ call :: after →
        ∃ entry, t.log[after.length]? = some entry ∧ entry.call = call ∧
          (entry.forgets = true ↔ (mem.serve before).memory.Forgets call) := by
  subst hserved
  obtain ⟨rfl, -, -⟩ := new_memory hnew
  have hrecalls := recalls_serve hnew hok
  have hlive : (mem.serve calls).memory.memory.live =
      min mem.capacity (pairsSince mem.shape mem.precision (mem.serve calls).log).length := by
    rw [← length_rows, hrecalls.rows, List.length_take]
  have hcapacity := hrecalls.alike.capacity
  refine ⟨hlive, hrecalls.updates, ?_, ?_, ?_, ?_⟩
  · intro j
    rw [← hcapacity]
    exact slot_lt _ j
  · intro i j hi hi' hj hj' h
    have hroom : (mem.serve calls).memory.memory.live ≤ (mem.serve calls).memory.capacity := by
      omega
    exact eq_of_slot_eq hroom hi hi' hj hj' h
  · intro j hj hj'
    have hrow := getElem?_rows (mem.serve calls).memory (j := j - 1) (by omega)
    rw [hrecalls.rows, List.getElem?_take_of_lt (by omega), Nat.cast_pred hj,
      sub_add_cancel] at hrow
    exact hrow
  · rintro before call after rfl
    exact ⟨_, mem.log_serve_append before call after, call_perform _ call,
      forgets_perform_iff _ call⟩

end ArrayMemory

namespace Sample

def couple (a b : Float) : Tensor Float := Tensor.ofList [2] (.floating .double) [a, b]

/-- Three pairs for a ring of two slots, a gradient that no direction descends from, and two
pairs after it. -/
def wrappingCalls : List MemoryCall :=
  [.push (couple 1.0 0.0) (couple 1.0 1.0), .push (couple 0.0 1.0) (couple 1.0 2.0),
    .push (couple 1.0 1.0) (couple 3.0 1.0),
    .direction (couple 0.0 0.0) (couple 1.0 1.0) none none,
    .push (couple 2.0 0.0) (couple 2.0 1.0),
    .pushDifference (couple 4.0 1.0) (couple 1.0 0.5) (couple 2.0 2.0) (couple 1.0 0.0)]

theorem wrappingCalls_held :
    ∃ mem t, ArrayMemory.new (.int 2) [2] .double = .ok mem ∧ mem.serve wrappingCalls = t ∧
      (∀ entry ∈ t.log, entry.fault? = none) ∧
      (t.log.map MemoryEntry.forgets = [false, false, true, false, false, false] ∧
        t.memory.memory.live = 2 ∧ t.memory.memory.updates = 5 ∧ t.memory.slot 1 = 0 ∧
        t.memory.stepRow 1 = [3.0, 0.5] ∧ t.memory.changeRow 1 = [1.0, 2.0] ∧
        t.memory.slot 2 = 1 ∧ t.memory.stepRow 2 = [2.0, 0.0] ∧
        t.memory.changeRow 2 = [2.0, 1.0]) ∧
      t.memory.memory.live = min mem.capacity (pairsSince mem.shape .double t.log).length ∧
      t.memory.memory.updates = (pairsOf mem.shape .double t.log).length ∧
      (∀ j, t.memory.slot j < mem.capacity) ∧
      (∀ i j : ℕ, 1 ≤ i → i ≤ t.memory.memory.live → 1 ≤ j → j ≤ t.memory.memory.live →
        t.memory.slot i = t.memory.slot j → i = j) ∧
      (∀ j : ℕ, 1 ≤ j → j ≤ t.memory.memory.live →
        (pairsSince mem.shape .double t.log)[j - 1]? =
          some (t.memory.stepRow j, t.memory.changeRow j)) ∧
      ∀ before call after, wrappingCalls = before ++ call :: after →
        ∃ entry, t.log[after.length]? = some entry ∧ entry.call = call ∧
          (entry.forgets = true ↔ (mem.serve before).memory.Forgets call) := by
  refine ⟨_, _, rfl, rfl, ?_, ?_, ArrayMemory.holds_last_pairs
    (show ArrayMemory.new (.int 2) [2] .double = .ok _ from rfl) rfl ?_⟩
  · decide +kernel
  · decide +kernel
  · decide +kernel

end Sample

end VariableMetric
