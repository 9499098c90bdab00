import RegisterEvolution.Draw.Trace
import RegisterEvolution.Proofs.Evolution.Renumbering
import RegisterEvolution.Proofs.Evolution.Truncation

/-!
# `Proofs.Evolution.Independence` — runs do not depend on what has been built before them

A run may be the first one or one after many others: its programs are counted from where the counter stands, and it
warns about small pools only if nobody has done so. Neither plays a part in where it goes. From equal generators on,
runs with other beginnings draw the same, go through generations that are the same but for the numbers of their
programs, and end alike.

* `Engine.EvaluatesAlike` — evaluations of two such runs, one after the other or by pools;
* `EngineState.Shifted` — engines in the same state but for numbers and warnings;
* `stepBy_shifted`, `runBy_alike` — a generation and a whole run keep them so;
* `Pass`, `Engine.passes` — the generations of a run with the generator after each of them;
* `runs_independent` — two runs with other beginnings.
-/

namespace RegisterEvolution

variable {γ σ : Type} {W : σ → σ → Prop} {base base' : Nat}

/-- An observer with a target does not look at numbers, but for its report. -/
theorem target_numberBlind (goal : Float) : (Observer.target goal).NumberBlind W := by
  intro base base' event s t p q hst hpq
  have hfitness : ∀ a b, Program.Twin base base' a b → t.fitness b = s.fitness a := fun _ _ => hst.twin.fitness_eq
  unfold Observer.target
  simp only
  by_cases hevent : event = .ranked
  · rw [if_pos hevent, if_pos hevent]
    rcases hpq.best? hfitness with ⟨hnone, hnone'⟩ | ⟨a, b, ha, hb, hab⟩
    · rw [hnone, hnone']
      exact .pure rfl
    · rw [ha, hb]
      simp only
      rw [hfitness a b hab]
      split
      · exact Coupled.bind (V := Eq) (.modify fun _ _ h => h) fun _ _ _ => .pure rfl
      · exact .pure rfl
  · rw [if_neg hevent, if_neg hevent]
    exact .pure rfl

/-! ## Engines -/

/-- Either there is something on both sides, or on neither. -/
theorem exists_of_rel {α β : Type} {V : α → β → Prop} {x : Option α} {y : Option β} (h : Option.Rel V x y) :
    (x = none ∧ y = none) ∨ ∃ a b, x = some a ∧ y = some b ∧ V a b := by
  cases h with
  | none => exact .inl ⟨rfl, rfl⟩
  | some hab => exact .inr ⟨_, _, rfl, rfl, hab⟩

/-- Engines in the same state, but for the numbers of programs, the journal and the warning about small pools. -/
structure EngineState.Shifted (W : σ → σ → Prop) (base base' : Nat) (s t : EngineState γ σ) : Prop where
  lab : s.lab.Shifted W base base' t.lab
  population : Option.Rel (Population.Paired (Program.Twin base base')) s.population t.population
  lastRanked : Option.Rel (Population.Paired (Program.Twin base base')) s.lastRanked t.lastRanked
  phase : t.phase = s.phase
  stopRequested : t.stopRequested = s.stopRequested

namespace EngineState.Shifted

variable {s t : EngineState γ σ} (h : s.Shifted W base base' t)

include h

theorem generation_eq : t.generation = s.generation := by
  unfold generation
  rcases exists_of_rel h.population with ⟨hs, ht⟩ | ⟨p, q, hs, ht, hpaired⟩
  · rw [hs, ht]
  · rw [hs, ht]
    exact hpaired.generation

theorem isFinished_eq (maxGenerations : Int) : t.isFinished maxGenerations = s.isFinished maxGenerations := by
  unfold isFinished
  rw [h.generation_eq, h.stopRequested]

end EngineState.Shifted

namespace Engine

/--
Evaluations of two runs of an engine: one program after the other, or by pools. The pools of the two runs deliver in
orders of their own, but their workers score the programs that correspond in the same worlds, up to `W`.
-/
inductive EvaluatesAlike (e : Engine σ) (W : σ → σ → Prop) (base base' : Nat) :
    (Population → Run γ σ Nat) → (Population → Run γ σ Nat) → Prop where
  | alone : EvaluatesAlike e W base base' (evaluate e.task e.plan.reevaluate)
      (evaluate e.task e.plan.reevaluate)
  | pooled (schedule schedule' : Population → Lab γ σ → List (Nat × Except Error Float)) :
      (∀ p q lab lab', lab.Shifted W base base' lab' → p.Paired (Program.Twin base base') q →
        DeliveredAlike W e.task e.plan.reevaluate lab lab' p q (schedule p lab) (schedule' q lab')) →
      EvaluatesAlike e W base base' (fun p lab => evaluateDelivered p (schedule p lab) lab)
        fun q lab => evaluateDelivered q (schedule' q lab) lab

/-- Computations on such engines with results that are related; of errors nothing is said. -/
abbrev EvolvesShifted {α β : Type} (W : σ → σ → Prop) (base base' : Nat) (V : α → β → Prop) (m : Evolving γ σ α)
    (n : Evolving γ σ β) : Prop := Coupled (EngineState.Shifted W base base') (fun _ _ => True) V m n

theorem onLab_shifted {α β : Type} {V : α → β → Prop} {m : Run γ σ α} {n : Run γ σ β}
    (h : RunsShifted W base base' V m n) : EvolvesShifted W base base' V (onLab m) (onLab n) := by
  intro s t hst
  unfold onLab
  rcases (h s.lab t.lab hst.lab).exists_or with
    ⟨a, lab, b, lab', hout, hout', hab, hlab⟩ | ⟨er, lab, er', lab', hout, hout', -, hlab⟩
  · rw [hout, hout']
    exact ⟨hab, { hst with lab := hlab }⟩
  · rw [hout, hout']
    exact ⟨trivial, { hst with lab := hlab }⟩

/-- Either engine reports in its own words. -/
theorem report_shifted (level : Int) (message message' : String) :
    EvolvesShifted (γ := γ) W base base' Eq (report level message) (report level message') :=
  onLab_shifted (Lab.counted_shifted.report _ _)

theorem reportStart_shifted (e : Engine σ) :
    EvolvesShifted (γ := γ) W base base' Eq e.reportStart e.reportStart := by
  unfold reportStart reportQuoting
  split
  · exact report_shifted _ _ _
  · exact .pure rfl

/-- Generations that correspond have one number, so both are announced or neither. -/
theorem announce_shifted (e : Engine σ) {p q : Population} (hpq : p.Paired (Program.Twin base base') q) :
    EvolvesShifted (γ := γ) W base base' Eq (e.announce p) (e.announce q) := by
  unfold announce
  rw [hpq.generation]
  split
  · exact report_shifted _ _ _
  · exact .throw trivial

theorem enter_shifted (phase : Phase) : EvolvesShifted (γ := γ) W base base' Eq (enter phase) (enter phase) :=
  .modify fun _ _ h => { h with phase := rfl }

theorem isFinished_shifted (e : Engine σ) :
    EvolvesShifted (γ := γ) W base base' Eq e.isFinished e.isFinished :=
  .get_bind fun _ _ hst => .pure (hst.isFinished_eq _).symm

theorem reportWorkers_shifted (e : Engine σ) :
    EvolvesShifted (γ := γ) W base base' Eq e.reportWorkers e.reportWorkers := by
  unfold reportWorkers
  split
  · exact onLab_shifted (Lab.counted_shifted.report _ _)
  · exact .pure rfl

theorem remember_shifted (e : Engine σ) {r r' : Population} (hr : r.Paired (Program.Twin base base') r') :
    EvolvesShifted (γ := γ) W base base' (Population.Paired (Program.Twin base base')) (e.remember r)
      (e.remember r') := by
  have hremember : EvolvesShifted (γ := γ) W base base' (Population.Paired (Program.Twin base base'))
      (do modify fun s => { s with lastRanked := some r }; return r)
      (do modify fun s => { s with lastRanked := some r' }; return r') :=
    Coupled.bind (V := Eq) (.modify fun _ _ h => { h with lastRanked := .some hr }) fun _ _ _ => .pure hr
  unfold remember
  refine (isFinished_shifted e).bind ?_
  rintro finished _ rfl
  split
  · exact (enter_shifted _).bind fun _ _ _ => hremember
  · exact hremember

/-- What a run answers in the end corresponds. -/
theorem conclude_shifted (e : Engine σ) :
    EvolvesShifted (γ := γ) W base base' (Population.Paired (Program.Twin base base')) e.conclude e.conclude := by
  refine (enter_shifted _).bind fun _ _ _ => .get_bind fun s t hst => ?_
  rcases exists_of_rel hst.lastRanked with ⟨hs, ht⟩ | ⟨r, r', hs, ht, hpaired⟩
  · rw [hs, ht]
    rcases exists_of_rel hst.population with ⟨hs', ht'⟩ | ⟨p, q, hs', ht', hpaired⟩
    · rw [hs', ht']
      exact .throw trivial
    · rw [hs', ht']
      exact (report_shifted _ _ _).bind fun _ _ _ => .pure hpaired
  · rw [hs, ht]
    exact (report_shifted _ _ _).bind fun _ _ _ => .pure hpaired

section Generations

variable {e : Engine σ} (hobservers : ∀ o ∈ e.observers, o.TwinBlind W base base') {p q r r' : Population}

include hobservers

theorem notify_shifted (event : Event) (hpq : p.Paired (Program.Twin base base') q) :
    EvolvesShifted (γ := γ) W base base' Eq (e.notify event p) (e.notify event q) := by
  refine (onLab_shifted (dispatch_shifted hpq hobservers)).bind ?_
  rintro stops _ rfl
  split
  · exact .modify fun _ _ h => { h with stopRequested := rfl }
  · exact .pure rfl

theorem evaluatePhaseBy_shifted (htask : e.task.TwinBlind W base base')
    {evaluation evaluation' : Population → Run γ σ Nat}
    (hevaluation : e.EvaluatesAlike W base base' evaluation evaluation')
    (hpq : p.Paired (Program.Twin base base') q) :
    EvolvesShifted W base base' Eq (e.evaluatePhaseBy evaluation p) (e.evaluatePhaseBy evaluation' q) := by
  have halike : RunsShifted W base base' Eq (evaluation p) (evaluation' q) := by
    cases hevaluation with
    | alone => exact evaluate_shifted htask _ hpq
    | pooled schedule schedule' hdelivered =>
        exact fun lab lab' hlab => evaluateDelivered_shifted htask hlab hpq (hdelivered p q lab lab' hlab hpq)
  refine (enter_shifted _).bind fun _ _ _ => (announce_shifted e hpq).bind fun _ _ _ => ?_
  exact (onLab_shifted halike).bind fun _ _ _ => notify_shifted hobservers _ hpq

/-- Populations that correspond are ranked alike. -/
theorem rankPhase_shifted (hpq : p.Paired (Program.Twin base base') q) :
    EvolvesShifted (γ := γ) W base base' (Population.Paired (Program.Twin base base')) (e.rankPhase p)
      (e.rankPhase q) := by
  refine (enter_shifted _).bind fun _ _ _ => .get_bind fun s t hst => ?_
  have hranked := hpq.rank fun a b hab => hst.lab.store.twin.fitness_eq hab
  refine Coupled.bind (V := Eq) (.modify fun _ _ h => { h with population := .some hranked }) fun _ _ _ => ?_
  refine (report_shifted _ _ _).bind fun _ _ _ => ?_
  exact (notify_shifted hobservers _ hranked).bind fun _ _ _ => .pure hranked

theorem selectPhase_shifted (hr : r.Paired (Program.Twin base base') r') :
    EvolvesShifted (γ := γ) W base base' (Population.Paired (Program.Twin base base')) (e.selectPhase r)
      (e.selectPhase r') := by
  have hselects : RunsShifted (γ := γ) W base base' (Population.Paired (Program.Twin base base'))
      (Run.ofFault (r.select e.plan.gap)) (Run.ofFault (r'.select e.plan.gap)) := by
    rcases hr.select e.plan.gap with ⟨f, hf, hf'⟩ | ⟨pool, pool', hpool, hpool', hpaired⟩
    · rw [hf, hf']
      exact .throw trivial
    · rw [hpool, hpool']
      exact .pure hpaired
  refine (enter_shifted _).bind fun _ _ _ => (onLab_shifted hselects).bind fun pool pool' hpaired => ?_
  exact (notify_shifted hobservers _ hpaired).bind fun _ _ _ => .pure hpaired

variable [Generator γ]

theorem replacePhase_shifted {pool pool' : Population} (hr : r.Paired (Program.Twin base base') r')
    (hpool : pool.Paired (Program.Twin base base') pool') :
    EvolvesShifted (γ := γ) W base base' Eq (e.replacePhase r pool) (e.replacePhase r' pool') := by
  unfold replacePhase
  rw [hr.generation]
  refine (enter_shifted _).bind fun _ _ _ => ?_
  refine (onLab_shifted (reproduce_coupled Lab.counted_shifted.coupling _ hpool)).bind fun next next' hnext => ?_
  have hnext' : Population.Paired (Program.Twin base base') { next with generation := r.generation + 1 }
      { next' with generation := r.generation + 1 } := ⟨hnext.programs, hnext.capacity, rfl⟩
  refine Coupled.bind (V := Eq) (.modify fun _ _ h => { h with phase := rfl, population := .some hnext' }) ?_
  exact fun _ _ _ => notify_shifted hobservers _ hnext'

theorem populate_shifted :
    EvolvesShifted (γ := γ) W base base' (Population.Paired (Program.Twin base base')) e.populate e.populate := by
  unfold populate
  refine (onLab_shifted (generate_coupled Lab.counted_shifted.coupling (fun _ => trivial) rfl rfl _ _)).bind
    fun p q hpq => .get_bind fun s t hst => ?_
  refine Coupled.bind (V := Eq) (fun _ _ _ => ⟨rfl, hst.lab, .some hpq, .none, rfl, rfl⟩) fun _ _ _ => ?_
  exact (notify_shifted hobservers _ hpq).bind fun _ _ _ => .pure hpq

/-- Both hold populations that correspond, or make such first ones. -/
theorem current_shifted :
    EvolvesShifted (γ := γ) W base base' (Population.Paired (Program.Twin base base')) e.current e.current := by
  refine .get_bind fun s t hst => ?_
  rcases exists_of_rel hst.population with ⟨hs, ht⟩ | ⟨p, q, hs, ht, hpaired⟩
  · rw [hs, ht]
    exact populate_shifted hobservers
  · rw [hs, ht]
    exact .pure hpaired

/-- Either makes a first population unless it holds one. -/
theorem commence_shifted : EvolvesShifted (γ := γ) W base base' Eq e.commence e.commence :=
  (current_shifted hobservers).bind fun _ _ _ => reportWorkers_shifted e

/-! ## Generations -/

variable (htask : e.task.TwinBlind W base base') {evaluation evaluation' : Population → Run γ σ Nat}
  (hevaluation : e.EvaluatesAlike W base base' evaluation evaluation')

include htask hevaluation

/-- **One generation** of engines that differ in the numbers of programs only. -/
theorem stepBy_shifted :
    EvolvesShifted W base base' (Population.Paired (Program.Twin base base')) (e.stepBy evaluation)
      (e.stepBy evaluation') := by
  refine (current_shifted hobservers).bind fun p q hpq => ?_
  refine (evaluatePhaseBy_shifted hobservers htask hevaluation hpq).bind fun _ _ _ => ?_
  refine (rankPhase_shifted hobservers hpq).bind fun r r' hr => ?_
  refine (selectPhase_shifted hobservers hr).bind fun pool pool' hpool => ?_
  exact (replacePhase_shifted hobservers hr hpool).bind fun _ _ _ => remember_shifted e hr

/-- The generations that are left, one after the other. -/
theorem generationsUpToBy_shifted {α β : Type} {V : α → β → Prop} {visit : Population → Evolving γ σ α}
    {visit' : Population → Evolving γ σ β}
    (hvisit : ∀ r r', r.Paired (Program.Twin base base') r' → EvolvesShifted W base base' V (visit r) (visit' r'))
    (limit : Nat) :
    EvolvesShifted W base base' (List.Forall₂ V) (e.generationsUpToBy evaluation visit limit)
      (e.generationsUpToBy evaluation' visit' limit) := by
  induction limit with
  | zero => exact .pure .nil
  | succ limit ih =>
      refine (isFinished_shifted e).bind ?_
      rintro finished _ rfl
      split
      · exact .pure .nil
      · refine (stepBy_shifted hobservers htask hevaluation).bind fun r r' hr => (hvisit r r' hr).bind ?_
        exact fun first first' hfirst => ih.bind fun rest rest' hrest => .pure (.cons hfirst hrest)

/-- A run from its first generation on. -/
theorem restBy_shifted :
    EvolvesShifted W base base' (Population.Paired (Program.Twin base base')) (e.restBy evaluation)
      (e.restBy evaluation') := by
  refine .get_bind fun s t hst => ?_
  rw [hst.generation_eq]
  refine (generationsUpToBy_shifted (V := Eq) hobservers htask hevaluation (fun _ _ _ => .pure rfl) _).bind ?_
  exact fun _ _ _ => conclude_shifted e

/-- **A whole run** of engines whose task and observers cannot tell twins apart. -/
theorem runBy_alike :
    EvolvesShifted W base base' (Population.Paired (Program.Twin base base')) (e.runBy evaluation)
      (e.runBy evaluation') := by
  have hopening : EvolvesShifted (γ := γ) W base base' Eq e.opening e.opening :=
    (reportStart_shifted e).bind fun _ _ _ => commence_shifted hobservers
  rw [runBy_eq, runBy_eq]
  exact hopening.bind fun _ _ _ => restBy_shifted hobservers htask hevaluation

end Generations

/-- **A whole run** of engines whose task and observers do not look at numbers. -/
theorem runBy_shifted [Generator γ] {e : Engine σ} (hobservers : ∀ o ∈ e.observers, o.NumberBlind W)
    (htask : e.task.NumberBlind W) {evaluation evaluation' : Population → Run γ σ Nat}
    (hevaluation : e.EvaluatesAlike W base base' evaluation evaluation') :
    EvolvesShifted W base base' (Population.Paired (Program.Twin base base')) (e.runBy evaluation)
      (e.runBy evaluation') :=
  runBy_alike (fun o ho => (hobservers o ho).twinBlind) htask.twinBlind hevaluation

/-! ## What is seen of runs -/

/-- What is seen of a generation, together with the generator when it is over. -/
structure Pass (γ : Type) where
  yield : Yield
  source : γ

/-- What is seen of a generation that is ranked when it is over. -/
def Pass.of (s : EngineState γ σ) (ranked : Population) : Pass γ := ⟨.of s.lab.store ranked, s.lab.source⟩

/-- Generations that correspond, after which the generators are equal. -/
structure Pass.Twin (base base' : Nat) (a b : Pass γ) : Prop where
  yield : a.yield.Twin base base' b.yield
  source : b.source = a.source

section Passes

variable [Generator γ] (e : Engine σ) (evaluation : Population → Run γ σ Nat)

/-- The generations that are left, at most `limit` of them, as they pass. If a generation fails, it is not seen, and
    there are no more. -/
def passesUpTo : Nat → EngineState γ σ → List (Pass γ)
  | 0, _ => []
  | limit + 1, s =>
    if s.isFinished e.plan.maxGenerations then []
    else
      match e.stepBy evaluation s with
      | .ok ranked s' => .of s' ranked :: passesUpTo limit s'
      | .error _ _ => []

/-- All generations that are left as they pass. -/
def passes (s : EngineState γ σ) : List (Pass γ) :=
  match e.commence s with
  | .ok _ s' => e.passesUpTo evaluation (e.plan.maxGenerations - s'.generation).toNat s'
  | .error _ _ => []

end Passes

section Shifted

variable [Generator γ] {e : Engine σ} {evaluation evaluation' : Population → Run γ σ Nat} {s t : EngineState γ σ}

section Blind

variable (hobservers : ∀ o ∈ e.observers, o.TwinBlind W base base') (htask : e.task.TwinBlind W base base')
  (hevaluation : e.EvaluatesAlike W base base' evaluation evaluation')

include hobservers htask hevaluation

/-- The induction goes along both runs at once: a generation fails in both or in none. -/
theorem passesUpTo_shifted (limit : Nat) (hst : s.Shifted W base base' t) :
    List.Forall₂ (Pass.Twin base base') (e.passesUpTo evaluation limit s) (e.passesUpTo evaluation' limit t) := by
  induction limit generalizing s t with
  | zero => exact .nil
  | succ limit ih =>
      unfold passesUpTo
      rw [hst.isFinished_eq]
      split
      · exact .nil
      · rcases (stepBy_shifted hobservers htask hevaluation s t hst).exists_or with
          ⟨r, s', r', t', hout, hout', hr, hst'⟩ | ⟨er, s', er', t', hout, hout', -⟩
        · rw [hout, hout']
          exact .cons ⟨Yield.twin hr hst'.lab.store.twin, hst'.lab.source⟩ (ih hst')
        · rw [hout, hout']
          exact .nil

theorem passes_alike (hst : s.Shifted W base base' t) :
    List.Forall₂ (Pass.Twin base base') (e.passes evaluation s) (e.passes evaluation' t) := by
  unfold passes
  rcases (commence_shifted hobservers s t hst).exists_or with
    ⟨_, s', _, t', hout, hout', -, hst'⟩ | ⟨er, s', er', t', hout, hout', -⟩
  · rw [hout, hout']
    simp only
    rw [hst'.generation_eq]
    exact passesUpTo_shifted hobservers htask hevaluation _ hst'
  · rw [hout, hout']
    exact .nil

end Blind

/-- **The generations of both runs** are the same but for the numbers of programs. -/
theorem passes_shifted (hobservers : ∀ o ∈ e.observers, o.NumberBlind W) (htask : e.task.NumberBlind W)
    (hevaluation : e.EvaluatesAlike W base base' evaluation evaluation') (hst : s.Shifted W base base' t) :
    List.Forall₂ (Pass.Twin base base') (e.passes evaluation s) (e.passes evaluation' t) :=
  passes_alike (fun o ho => (hobservers o ho).twinBlind) htask.twinBlind hevaluation hst

end Shifted

/-- An engine before its first population, in a lab in which programs may have been built before. -/
def fresh (lab : Lab γ σ) : EngineState γ σ := ⟨lab, none, none, none, false⟩

/-- Whatever has been built before, engines agree from the numbers on that have not been used up. -/
theorem fresh_shifted {lab lab' : Lab γ σ} (hsource : lab'.source = lab.source) (hworld : W lab.world lab'.world) :
    (fresh lab).Shifted W lab.store.nextId lab'.store.nextId (fresh lab') :=
  ⟨⟨hsource, .start _ _, hworld⟩, .none, .none, rfl, rfl⟩

/--
**Runs do not depend on what has been built before.** Take an engine whose task and observers do not look at the numbers
of programs, and two labs with equal generators, which remember the choices they make, but with any counters of numbers,
any programs built before, and any warnings about small pools given. Then the generations of the two runs pass in
lockstep: they have the same instructions, fitness, order and generation, the numbers of their programs are equally far
from where the two counters stood, and the same choices have been made when each of them is over. The runs also end
alike: both answer generations that correspond or both fail, with the same choices made until then.
-/
theorem runs_independent [Generator γ] {e : Engine σ} (htask : e.task.NumberBlind W)
    (hobservers : ∀ o ∈ e.observers, o.NumberBlind W) {lab lab' : Lab (Traced γ) σ}
    (hsource : lab'.source = lab.source) (hworld : W lab.world lab'.world)
    {evaluation evaluation' : Population → Run (Traced γ) σ Nat}
    (hevaluation : e.EvaluatesAlike W lab.store.nextId lab'.store.nextId evaluation evaluation') :
    List.Forall₂ (Pass.Twin lab.store.nextId lab'.store.nextId) (e.passes evaluation (fresh lab))
        (e.passes evaluation' (fresh lab')) ∧
      Pairs
        (fun last last' s t => t.lab.source = s.lab.source ∧
          (Yield.of s.lab.store last).Twin lab.store.nextId lab'.store.nextId (.of t.lab.store last'))
        (fun _ _ s t => t.lab.source = s.lab.source)
        (e.runBy evaluation (fresh lab)) (e.runBy evaluation' (fresh lab')) := by
  have hfresh := fresh_shifted hsource hworld
  refine ⟨passes_shifted hobservers htask hevaluation hfresh, ?_⟩
  refine (runBy_shifted hobservers htask hevaluation _ _ hfresh).imp ?_ fun _ _ _ _ he => he.2.lab.source
  intro last last' s t hout
  exact ⟨hout.2.lab.source, Yield.twin hout.1 hout.2.lab.store.twin⟩

/-- A lab in which nothing has happened. -/
def firstLab : Lab (Traced Least) Unit := .start (.ofSource .least) ()

/-- A lab in which three numbers have been used up and the warning about small pools has been given. -/
def laterLab : Lab (Traced Least) Unit := { firstLab with store := ⟨#[none, none, none]⟩, warned := true }

/-- What two workers deliver in order. -/
def dueAnswers (p : Population) (lab : Lab (Traced Least) Unit) : List (Nat × Except Error Float) :=
  (pending lab.store shared.plan.reevaluate p).map fun item => (item.1, workerAnswer shared.task lab () item.2)

/-- An engine by itself, and one with two workers that deliver in order in one run and in reverse in the other one. -/
theorem runs_independent_later :
    List.Forall₂ (Pass.Twin 0 3) (contented.passes (evaluate contented.task false) (fresh firstLab))
        (contented.passes (evaluate contented.task false) (fresh laterLab)) ∧
      List.Forall₂ (Pass.Twin 0 3)
        (shared.passes (fun p lab => evaluateDelivered p (dueAnswers p lab) lab) (fresh firstLab))
        (shared.passes (fun p lab => evaluateDelivered p (dueAnswers p lab).reverse lab) (fresh laterLab)) := by
  have hsource : laterLab.source = firstLab.source := rfl
  have hworld : firstLab.world = laterLab.world := rfl
  have htask : contented.task.NumberBlind Eq := .of_eq fun _ _ _ _ => rfl
  have htask' : shared.task.NumberBlind Eq := .of_eq fun _ _ _ _ => rfl
  have hwatched : ∀ o ∈ contented.observers, o.NumberBlind Eq := by
    intro o ho
    rw [List.mem_singleton.mp ho]
    exact target_numberBlind 1.0
  have hunwatched : ∀ o ∈ shared.observers, o.NumberBlind Eq := fun _ ho => absurd ho List.not_mem_nil
  have halone : contented.EvaluatesAlike Eq firstLab.store.nextId laterLab.store.nextId
      (evaluate contented.task false : Population → Run (Traced Least) Unit Nat) (evaluate contented.task false) :=
    .alone
  have hpools : shared.EvaluatesAlike Eq firstLab.store.nextId laterLab.store.nextId
      (fun p lab => evaluateDelivered p (dueAnswers p lab) lab)
      fun p lab => evaluateDelivered p (dueAnswers p lab).reverse lab := by
    refine .pooled _ (fun p lab => (dueAnswers p lab).reverse) fun p q lab lab' _ _ => ?_
    exact ⟨fun _ => (), fun _ => (), fun _ => rfl, .refl _, List.reverse_perm _⟩
  exact ⟨(runs_independent htask hwatched hsource hworld halone).1,
    (runs_independent htask' hunwatched hsource hworld hpools).1⟩

end Engine

end RegisterEvolution
