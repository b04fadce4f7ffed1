import VariableMetric.Proofs.Memory.Direction
import VariableMetric.Proofs.Memory.History

/-!
# What a memory answers

A direction needs a scale, the newest one that does not vanish among those that the pairs of
positive curvature suggest.  Without one the memory answers that there is no direction and
keeps its pairs.  Otherwise it takes the slope of the direction it has found: if the slope is
not negative it refuses the direction and forgets its pairs.

Doubles leave one more case.  A slope that is no number is not found to be zero or more, so a
direction with such a slope is handed out as one that descends, although it is not known to.
The same holds for a scale that is no number, the quotient of two overflows.
-/

namespace VariableMetric

namespace Memory

variable {α : Type} [Scalar α] {n m : ℕ}

/-- The scale that a pair suggests, if it has positive curvature. -/
def scale? (w : Vec α n) (pair : Vec α n × Vec α n) : Option α :=
  let sty := Vec.maskedInner w pair.2 pair.1
  let yty := Vec.maskedInner w pair.2 pair.2
  if 0 < sty ∧ 0 < yty then some (sty / yty) else none

/-- No pair suggests a scale, or only one that vanishes. -/
def LacksScale (w : Vec α n) (pairs : List (Vec α n × Vec α n)) : Prop :=
  ∀ pair ∈ pairs, ∀ scale, scale? w pair = some scale → Scalar.equal scale 0 = true

/-- A pair is asked for a scale only as long as there is none that does not vanish. -/
theorem gamma_sweepBack (p : Precision) (mem : Memory α n m) (w : Vec α n)
    (sweep : Sweep α n m) (k : Fin m) :
    (mem.sweepBack p w sweep k).gamma =
      if Scalar.equal sweep.gamma 0 then
        (scale? w (mem.steps.get k, mem.changes.get k)).getD sweep.gamma
      else sweep.gamma := by
  by_cases hsty : 0 < Vec.maskedInner w (mem.changes.get k) (mem.steps.get k)
  · by_cases hyty : 0 < Vec.maskedInner w (mem.changes.get k) (mem.changes.get k)
    · simp [sweepBack, scaleFrom, scale?, hsty, hyty]
    · simp [sweepBack, scaleFrom, scale?, hsty, hyty]
  · simp [sweepBack, scale?, hsty]

theorem gamma_foldl_sweepBack_of_ne {p : Precision} {mem : Memory α n m} {w : Vec α n}
    (ks : List (Fin m)) {sweep : Sweep α n m} (h : Scalar.equal sweep.gamma 0 = false) :
    (ks.foldl (mem.sweepBack p w) sweep).gamma = sweep.gamma := by
  induction ks generalizing sweep with
  | nil => rfl
  | cons k ks ih =>
    have hgamma : (mem.sweepBack p w sweep k).gamma = sweep.gamma := by
      rw [gamma_sweepBack, h, if_neg Bool.false_ne_true]
    rw [List.foldl_cons, ih (by rw [hgamma, h]), hgamma]

/-- The scale after the loop is the first one that does not vanish, if there is any. -/
theorem gamma_foldl_sweepBack (p : Precision) (mem : Memory α n m) (w : Vec α n)
    (ks : List (Fin m)) (sweep : Sweep α n m) (h : Scalar.equal sweep.gamma 0 = true) :
    let pairs := ks.map fun k => (mem.steps.get k, mem.changes.get k)
    let gamma := (ks.foldl (mem.sweepBack p w) sweep).gamma
    (LacksScale w pairs ∧ Scalar.equal gamma 0 = true) ∨
      ∃ pair ∈ pairs, scale? w pair = some gamma ∧ Scalar.equal gamma 0 = false := by
  induction ks generalizing sweep with
  | nil => exact .inl ⟨nofun, h⟩
  | cons k ks ih =>
    have hgamma := mem.gamma_sweepBack p w sweep k
    rw [h, if_pos rfl] at hgamma
    dsimp only at ih ⊢
    rw [List.map_cons, List.foldl_cons]
    cases hzero : Scalar.equal (mem.sweepBack p w sweep k).gamma 0 with
    | true =>
      rcases ih _ hzero with ⟨hlacks, hnone⟩ | ⟨pair, hpair, hscale, hne⟩
      · refine .inl ⟨List.forall_mem_cons.mpr ⟨?_, hlacks⟩, hnone⟩
        intro scale hscale
        rw [hscale, Option.getD_some] at hgamma
        rwa [hgamma] at hzero
      · exact .inr ⟨pair, List.mem_cons_of_mem _ hpair, hscale, hne⟩
    | false =>
      rw [gamma_foldl_sweepBack_of_ne ks hzero]
      refine .inr ⟨_, List.mem_cons_self, ?_, hzero⟩
      cases hscale : scale? w (mem.steps.get k, mem.changes.get k) with
      | none =>
        rw [hscale, Option.getD_none] at hgamma
        rw [hgamma, h] at hzero
        cases hzero
      | some scale =>
        rw [hgamma, hscale, Option.getD_some]

theorem not_scale?_lt_zero {w : Vec Float n} {pair : Vec Float n × Vec Float n} {scale : Float}
    (h : scale? w pair = some scale) : ¬ scale < 0 := by
  unfold scale? at h
  dsimp only at h
  split at h
  next hpos =>
    cases h
    exact Double.not_div_lt_zero hpos.1 hpos.2
  next => cases h

/-! ## The answer -/

section Answer

variable [Capacity m]

/-- There is no scale, or it is one that a pair suggests and that does not vanish. -/
theorem backward_gamma_cases (p : Precision) (mem : Memory Float n m) (w d : Vec Float n) :
    (LacksScale w mem.pairs ∧ (mem.backward p w d).gamma ≤ 0) ∨
      (¬ LacksScale w mem.pairs ∧ ¬ (mem.backward p w d).gamma ≤ 0 ∧
        ∃ pair ∈ mem.pairs, scale? w pair = some (mem.backward p w d).gamma) := by
  have hstart : Scalar.equal (0 : Float) 0 = true := rfl
  have hgamma := gamma_foldl_sweepBack p mem w mem.liveSlots ⟨d, 0, mem.rho, mem.beta, []⟩ hstart
  rcases hgamma with ⟨hlacks, hzero⟩ | ⟨pair, hpair, hscale, hne⟩
  · exact .inl ⟨hlacks, (Double.le_iff_lt_or_equal _ _).mpr (.inr hzero)⟩
  · refine .inr ⟨fun hlacks => ?_, fun hle => ?_, pair, hpair, hscale⟩
    · have hzero := hlacks pair hpair _ hscale
      rw [hne] at hzero
      cases hzero
    · rcases (Double.le_iff_lt_or_equal _ _).mp hle with hneg | hzero
      · exact not_scale?_lt_zero hscale hneg
      · exact Bool.false_ne_true (hne.symm.trans hzero)

theorem not_zero_le_iff (x : Float) : ¬ 0 ≤ x ↔ x < 0 ∨ Scalar.isNaN x = true := by
  have hzero : Scalar.isNaN (0 : Float) = false := rfl
  rw [Double.not_le_iff, hzero]
  simp

/-- What a memory answers with a direction, and how many pairs it remembers then. -/
structure Answers (mem : Memory Float n m) (g w : Vec Float n) (d : Direction Float n)
    (live : ℕ) : Prop where
  idle : LacksScale w mem.pairs → d.descends = false ∧ d.slope = 0 ∧ live = mem.live
  slope : ¬ LacksScale w mem.pairs → d.slope = d.vector.inner g
  descends : ¬ LacksScale w mem.pairs →
    (d.descends = true ↔ d.slope < 0 ∨ Scalar.isNaN d.slope = true)
  live : ¬ LacksScale w mem.pairs → live = if d.descends then mem.live else 0

theorem lacksScale_of_live {mem : Memory Float n m} (w : Vec Float n) (h : mem.live < 1) :
    LacksScale w mem.pairs := by
  rw [pairs_eq_nil (by omega)]
  exact nofun

theorem answers_of_lacksScale {mem : Memory Float n m} {w : Vec Float n}
    (h : LacksScale w mem.pairs) (g vector : Vec Float n) :
    mem.Answers g w ⟨false, 0, vector⟩ mem.live where
  idle _ := ⟨rfl, rfl, rfl⟩
  slope hsome := absurd h hsome
  descends hsome := absurd h hsome
  live hsome := absurd h hsome

theorem answers_of_scale {mem : Memory Float n m} {w : Vec Float n}
    (h : ¬ LacksScale w mem.pairs) {g vector : Vec Float n} {descends : Bool}
    (hdescends : descends = true ↔ ¬ 0 ≤ vector.inner g) :
    mem.Answers g w ⟨descends, vector.inner g, vector⟩ (if descends then mem.live else 0) where
  idle hlacks := absurd hlacks h
  slope _ := rfl
  descends _ := hdescends.trans (not_zero_le_iff _)
  live _ := rfl

/-- The memory that takes a direction only changes its coefficients and the number of the pairs
that it remembers. -/
theorem directionFrom_answers {mem mem' : Memory Float n m} {p : Precision}
    {project : Vec Float n → Except Fault (Vec Float n)} {before opposite g w : Vec Float n}
    {d : Direction Float n} {notices : List (Notice Float)}
    (h : mem.directionFrom p project before opposite g w = (.ok d, mem', notices)) :
    (∃ gamma rho beta live,
      mem' = { mem with gamma := gamma, rho := rho, beta := beta, live := live }) ∧
      mem.Answers g w d mem'.live := by
  have hgamma := mem.backward_gamma_cases p w opposite
  unfold directionFrom at h
  dsimp only at h
  split at h
  next hlive =>
    cases h
    exact ⟨⟨_, _, _, _, rfl⟩, answers_of_lacksScale (lacksScale_of_live w hlive) g _⟩
  next hlive =>
    split at h
    next hnone =>
      obtain ⟨hlacks, -⟩ := hgamma.resolve_right fun hfound => hfound.2.1 hnone
      cases h
      exact ⟨⟨_, _, _, _, rfl⟩, answers_of_lacksScale hlacks g _⟩
    next hscale =>
      obtain ⟨hsome, -⟩ := hgamma.resolve_left fun hnone => hscale hnone.2
      split at h
      next => cases h
      next found hfound =>
        split at h
        next hslope =>
          cases h
          exact ⟨⟨_, _, _, _, rfl⟩, answers_of_scale hsome
            (iff_of_false Bool.false_ne_true (not_not_intro hslope))⟩
        next hslope =>
          cases h
          exact ⟨⟨_, _, _, _, rfl⟩, answers_of_scale hsome (iff_of_true rfl hslope)⟩

/-- What a pair is asked for: a scale above zero. -/
def HasScale (w : Vec Float n) (pairs : List (Vec Float n × Vec Float n)) : Prop :=
  ∃ pair ∈ pairs, ∃ scale, scale? w pair = some scale ∧ 0 < scale

theorem HasScale.not_lacksScale {w : Vec Float n} {pairs : List (Vec Float n × Vec Float n)}
    (h : HasScale w pairs) : ¬ LacksScale w pairs := by
  obtain ⟨pair, hpair, scale, hscale, hpos⟩ := h
  intro hlacks
  have hzero := hlacks pair hpair scale hscale
  exact Bool.false_ne_true ((Double.not_equal_of_lt hpos).symm.trans hzero)

/-- An answer that can be relied on: a direction that is handed out descends, the pairs stay
where none of them gives a scale, and they are forgotten where the direction is refused. -/
structure Classifies (mem : Memory Float n m) (g w : Vec Float n) (d : Direction Float n)
    (live : ℕ) : Prop where
  descends : d.descends = true → d.slope = d.vector.inner g ∧ d.slope < 0 ∧ live = mem.live
  idle : ¬ HasScale w mem.pairs → d.descends = false ∧ d.slope = 0 ∧ live = mem.live
  refused : HasScale w mem.pairs → d.descends = false → live = 0

/-- Where there is a scale, an answer can be relied on only if its slope is a number and one of
the scales is above zero. -/
theorem Answers.of_classifies {mem : Memory Float n m} {g w : Vec Float n}
    {d : Direction Float n} {live : ℕ} (h : mem.Answers g w d live)
    (hsome : ¬ LacksScale w mem.pairs) (hclassifies : mem.Classifies g w d live) :
    Scalar.isNaN d.slope = false ∧ HasScale w mem.pairs := by
  constructor
  · cases hnan : Scalar.isNaN d.slope with
    | false => rfl
    | true =>
      have hdescends := (h.descends hsome).mpr (.inr hnan)
      obtain ⟨-, hneg, -⟩ := hclassifies.descends hdescends
      have hle := (Double.le_iff_lt_or_equal d.slope 0).mpr (.inl hneg)
      exact absurd hle (OrderedScalar.not_le_of_isNaN 0 hnan)
  · by_contra hnone
    obtain ⟨hrefused, -, hkept⟩ := hclassifies.idle hnone
    have hlive := h.live hsome
    rw [hrefused, if_neg Bool.false_ne_true] at hlive
    exact hsome (lacksScale_of_live w (by omega))

/-- A slope that is a number and a scale above zero are enough. -/
theorem Answers.classifies {mem : Memory Float n m} {g w : Vec Float n}
    {d : Direction Float n} {live : ℕ} (h : mem.Answers g w d live)
    (hnumber : Scalar.isNaN d.slope = false) (hscale : HasScale w mem.pairs) :
    mem.Classifies g w d live := by
  have hsome := hscale.not_lacksScale
  refine ⟨fun hdown => ⟨h.slope hsome, ?_, ?_⟩, fun hnone => absurd hscale hnone,
    fun _ hup => ?_⟩
  · rcases (h.descends hsome).mp hdown with hneg | hnan
    · exact hneg
    · rw [hnan] at hnumber
      cases hnumber
  · rw [h.live hsome, hdown, if_pos rfl]
  · rw [h.live hsome, hup, if_neg Bool.false_ne_true]

/-- Answers can be relied on as long as no number is lost: the slope is one, and so is some
scale if there are any. -/
theorem Answers.classifies_iff {mem : Memory Float n m} {g w : Vec Float n}
    {d : Direction Float n} {live : ℕ} (h : mem.Answers g w d live) :
    mem.Classifies g w d live ↔ Scalar.isNaN d.slope = false ∧
      (LacksScale w mem.pairs ∨ HasScale w mem.pairs) := by
  by_cases hlacks : LacksScale w mem.pairs
  · obtain ⟨hdescends, hslope, hlive⟩ := h.idle hlacks
    have hzero : Scalar.isNaN (0 : Float) = false := rfl
    refine iff_of_true ⟨?_, fun _ => h.idle hlacks, ?_⟩ ⟨?_, .inl hlacks⟩
    · rw [hdescends]
      exact nofun
    · intro hscale
      exact absurd hlacks hscale.not_lacksScale
    · rw [hslope, hzero]
  · constructor
    · intro hclassifies
      exact (h.of_classifies hlacks hclassifies).imp_right .inr
    · rintro ⟨hnumber, hscale⟩
      exact h.classifies hnumber (hscale.resolve_left hlacks)

end Answer

end Memory

namespace ArrayMemory

/-- A memory that returns a direction answers with its slope, and hands it out unless the slope
is found to be zero or more.  Beside the number of its pairs and its coefficients nothing
changes.  The answer can be relied on exactly if neither its slope nor all its scales are lost
to what is no number. -/
theorem direction_answers {mem : ArrayMemory Float} {g w : Tensor Float}
    {domain : Option (Domain Float)} {x : Option (Tensor Float)}
    {d : Direction Float mem.shape.size} (h : (mem.direction g w domain x).1 = .ok d) :
    ∃ gamma rho beta live,
      (mem.direction g w domain x).2.1 = { mem with
        memory := { mem.memory with gamma := gamma, rho := rho, beta := beta, live := live } } ∧
      mem.memory.Answers (g.spread mem.shape) (w.spread mem.shape) d live ∧
      (mem.memory.Classifies (g.spread mem.shape) (w.spread mem.shape) d live ↔
        Scalar.isNaN d.slope = false ∧
          (Memory.LacksScale (w.spread mem.shape) mem.memory.pairs ∨
            Memory.HasScale (w.spread mem.shape) mem.memory.pairs)) := by
  rcases mem.direction_cases g w domain x with ⟨fault, heq⟩ | heq
  · rw [heq] at h
    cases h
  · dsimp only at heq
    rw [heq] at h ⊢
    obtain ⟨⟨gamma, rho, beta, live, hmemory⟩, hanswers⟩ :=
      Memory.directionFrom_answers (Prod.ext h rfl)
    have hlive := congrArg Memory.live hmemory
    rw [hlive] at hanswers
    exact ⟨gamma, rho, beta, live, by rw [hmemory], hanswers, hanswers.classifies_iff⟩

end ArrayMemory

theorem exists_of_map_toOption {ε β γ : Type} {result : Except ε β} {f : β → γ} {c : γ}
    (h : result.toOption.map f = some c) : ∃ b, result = .ok b ∧ f b = c := by
  cases result with
  | error e => cases h
  | ok b => exact ⟨b, rfl, Option.some_inj.mp h⟩

namespace Sample

def leaningCall : MemoryCall := .push (couple 1.0 0.0) (couple 1.0 1.0)

/-- A gradient whose direction has a slope with two overflows of opposite signs. -/
def steepGradient : Tensor Float := couple 1e200 4e200

theorem leaning_answers :
    ∃ mem t, ∃ d : Direction Float (Shape.size t.memory.shape),
      ArrayMemory.new (.int 1) [2] .double = .ok mem ∧ mem.serve [leaningCall] = t ∧
      (t.memory.direction steepGradient (couple 1.0 1.0) none none).1 = .ok d ∧
      ∃ gamma rho beta live,
        (t.memory.direction steepGradient (couple 1.0 1.0) none none).2.1 = { t.memory with
          memory := { t.memory.memory with
            gamma := gamma, rho := rho, beta := beta, live := live } } ∧
        t.memory.memory.Answers (steepGradient.spread t.memory.shape)
          ((couple 1.0 1.0).spread t.memory.shape) d live ∧
        (t.memory.memory.Classifies (steepGradient.spread t.memory.shape)
            ((couple 1.0 1.0).spread t.memory.shape) d live ↔
          Scalar.isNaN d.slope = false ∧
            (Memory.LacksScale ((couple 1.0 1.0).spread t.memory.shape) t.memory.memory.pairs ∨
              Memory.HasScale ((couple 1.0 1.0).spread t.memory.shape)
                t.memory.memory.pairs)) := by
  obtain ⟨mem, t, hnew, hserved, hflags⟩ :
      ∃ mem t, ArrayMemory.new (.int 1) [2] .double = .ok mem ∧ mem.serve [leaningCall] = t ∧
        (t.memory.direction steepGradient (couple 1.0 1.0) none none).1.toOption.map
          (fun _ => ()) = some () := ⟨_, _, rfl, rfl, by decide +kernel⟩
  obtain ⟨d, hd, -⟩ := exists_of_map_toOption hflags
  exact ⟨mem, t, d, hnew, hserved, hd, ArrayMemory.direction_answers hd⟩

/-- A direction is handed out as one that descends although its slope is no number. -/
theorem leaning_not_classified :
    ∃ mem t, ∃ d : Direction Float (Shape.size t.memory.shape), ∃ mem',
      ArrayMemory.new (.int 1) [2] .double = .ok mem ∧ mem.serve [leaningCall] = t ∧
      (t.memory.direction steepGradient (couple 1.0 1.0) none none).1 = .ok d ∧
      (t.memory.direction steepGradient (couple 1.0 1.0) none none).2.1 = mem' ∧
      d.descends = true ∧ ¬ d.slope < 0 ∧ mem'.memory.live = 1 ∧
      ∀ live, ¬ t.memory.memory.Classifies (steepGradient.spread t.memory.shape)
        ((couple 1.0 1.0).spread t.memory.shape) d live := by
  obtain ⟨mem, t, hnew, hserved, hflags, hlive⟩ :
      ∃ mem t, ArrayMemory.new (.int 1) [2] .double = .ok mem ∧ mem.serve [leaningCall] = t ∧
        (t.memory.direction steepGradient (couple 1.0 1.0) none none).1.toOption.map
          (fun d => (d.descends, decide (d.slope < 0))) = some (true, false) ∧
        (t.memory.direction steepGradient (couple 1.0 1.0) none none).2.1.memory.live = 1 :=
    ⟨_, _, rfl, rfl, by decide +kernel, by decide +kernel⟩
  obtain ⟨d, hd, hvalues⟩ := exists_of_map_toOption hflags
  obtain ⟨hdescends, hslope⟩ := Prod.mk.inj hvalues
  have hnot : ¬ d.slope < 0 := of_decide_eq_false hslope
  exact ⟨mem, t, d, _, hnew, hserved, hd, rfl, hdescends, hnot, hlive,
    fun _ hclassifies => hnot (hclassifies.descends hdescends).2.1⟩

end Sample

end VariableMetric
