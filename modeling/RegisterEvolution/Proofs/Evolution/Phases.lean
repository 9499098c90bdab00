import RegisterEvolution.Evolution.Engine
import RegisterEvolution.Proofs.Outcome

/-!
# `Proofs.Evolution.Phases` — one generation, phase by phase

What a run keeps up is shown phase by phase. `Stages` collects what has to be known about the parts of a generation:
assertions for the times between the phases, and that each part leads from one assertion to the next. From these the
theorems here assemble what one generation does, and by induction along a run what every state of it satisfies. Reports,
phases and requests to stop play no part in that, and observers only as far as they may fail.

* `Engine.Evaluates` — the ways in which an engine may evaluate, by itself or by a pool of workers;
* `Course` — the states that an engine passes through in one run;
* `Stages` — the assertions of a generation and their obligations;
* `Stages.step_ends` — one generation; `Stages.holds` — every state of a run; `Stages.run_ends` — a whole run.
-/

namespace RegisterEvolution

variable {γ σ τ : Type}

/-! ## Observers -/

namespace Observer

/-- An observer that leaves a view of the world as it is. -/
def Keeps (o : Observer σ) (view : σ → τ) : Prop :=
  ∀ event store p n, view (finalState (o.notice event store p n)).world = view n.world

/-- An observer that neither fails nor reports failure. -/
def Steady (o : Observer σ) : Prop :=
  ∀ event store p n, Ends (fun v _ => v ≠ .failure) Never (o.notice event store p n)

end Observer

/-- A lab with the same store and the same view of the world. -/
structure Lab.Watched (view : σ → τ) (lab lab' : Lab γ σ) : Prop where
  store : lab'.store = lab.store
  world : view lab'.world = view lab.world

theorem Lab.Watched.refl (view : σ → τ) (lab : Lab γ σ) : lab.Watched view lab := ⟨rfl, rfl⟩

theorem Lab.Watched.trans {view : σ → τ} {lab lab' lab'' : Lab γ σ} (h : lab.Watched view lab')
    (h' : lab'.Watched view lab'') : lab.Watched view lab'' := ⟨h'.store.trans h.store, h'.world.trans h.world⟩

section Dispatch

variable {view : σ → τ} (event : Event) (p : Population)

/-- Telling an observer changes nothing but the journal and what the observer may write to, also when it ends the
    event. -/
theorem tell_ends {o : Observer σ} (h : o.Keeps view) (t : Tally) (lab : Lab γ σ) :
    Ends (fun _ lab' => lab.Watched view lab') (fun _ lab' => lab.Watched view lab') (tell event p t o lab) := by
  have hkeeps := h event lab.store p ⟨lab.journal, lab.world⟩
  unfold tell onNotes
  refine ends_bind.mpr (ends_get.mpr (ends_bind.mpr ?_))
  cases hout : o.notice event lab.store p ⟨lab.journal, lab.world⟩ with
  | error e n =>
      rw [hout] at hkeeps
      simp only [ends_ok]
      cases e.quote with
      | ok quote => exact ⟨rfl, hkeeps⟩
      | error failure =>
          simp only
          split
          · exact ⟨rfl, hkeeps⟩
          · exact ⟨rfl, hkeeps⟩
  | ok verdict n =>
      rw [hout] at hkeeps
      cases verdict with
      | proceed => exact ⟨rfl, hkeeps⟩
      | stop => exact ⟨rfl, hkeeps⟩
      | failure => exact ⟨rfl, hkeeps⟩

theorem tellAll_ends {os : List (Observer σ)} (h : ∀ o ∈ os, o.Keeps view) (t : Tally) (lab : Lab γ σ) :
    Ends (fun _ lab' => lab.Watched view lab') (fun _ lab' => lab.Watched view lab') (tellAll event p os t lab) := by
  induction os generalizing t lab with
  | nil => exact .refl view lab
  | cons o rest ih =>
      refine (tell_ends event p (h o (List.mem_cons_self ..)) t lab).bind ?_ fun _ _ => id
      intro t' lab' hfirst
      exact (ih (fun o' ho' => h o' (List.mem_cons_of_mem o ho')) t' lab').imp
        (fun _ _ hrest => hfirst.trans hrest) fun _ _ hrest => hfirst.trans hrest

theorem tellAll_steady {os : List (Observer σ)} (h : ∀ o ∈ os, o.Steady) {t : Tally} (ht : t.failure = none)
    (lab : Lab γ σ) : Ends (fun t' _ => t'.failure = none) Never (tellAll event p os t lab) := by
  induction os generalizing t lab with
  | nil => exact ht
  | cons o rest ih =>
      have hsteady := h o (List.mem_cons_self ..) event lab.store p ⟨lab.journal, lab.world⟩
      have hrest := fun o' ho' => h o' (List.mem_cons_of_mem o ho')
      refine ends_bind.mpr ?_
      unfold tell onNotes
      refine ends_bind.mpr (ends_get.mpr (ends_bind.mpr ?_))
      cases hout : o.notice event lab.store p ⟨lab.journal, lab.world⟩ with
      | error e n =>
          rw [hout] at hsteady
          exact hsteady.elim
      | ok verdict n =>
          rw [hout] at hsteady
          cases verdict with
          | proceed => exact ih hrest ht _
          | stop => exact ih (t := { t with stops := true }) hrest ht _
          | failure => exact absurd rfl hsteady

/-- An event leaves the store and a view of the world that observers keep as they are. -/
theorem dispatch_ends {os : List (Observer σ)} (h : ∀ o ∈ os, o.Keeps view) (lab : Lab γ σ) :
    Ends (fun _ lab' => lab.Watched view lab') (fun _ lab' => lab.Watched view lab') (dispatch os event p lab) := by
  refine (tellAll_ends event p h .start lab).bind ?_ fun _ _ => id
  intro t lab' ht
  cases t.failure with
  | none => exact ht
  | some e => exact ht

/-- Observers that do not fail let every event succeed. -/
theorem dispatch_steady {os : List (Observer σ)} (h : ∀ o ∈ os, o.Steady) (lab : Lab γ σ) :
    Ends (fun _ _ => True) Never (dispatch os event p lab) := by
  refine (tellAll_steady event p h (t := .start) rfl lab).bind ?_ fun _ _ => id
  intro t lab' ht
  rw [ht]
  exact trivial

end Dispatch

/-! ## Runs -/

/-- A random population is the generation numbered zero. -/
theorem generate_generation [Generator γ] (settings : ProgramSettings) (task : Task σ) (size : Int) (lab : Lab γ σ) :
    Ends (fun p _ => p.generation = 0) (fun _ _ => True) (Population.generate settings task size lab) := by
  have hany : ∀ {α : Type} (m : Run γ σ α) (now : Lab γ σ), Ends (fun _ _ => True) (fun _ _ => True) (m now) :=
    fun m now => .of_final (P := fun _ => True) trivial
  refine (hany _ lab).bind (fun bound lab₁ _ => ?_) fun _ _ => id
  refine (hany _ lab₁).bind (fun shape lab₂ _ => ?_) fun _ _ => id
  refine (hany _ lab₂).bind (fun programs lab₃ _ => ?_) fun _ _ => id
  cases shape.sizes? with
  | some sizes => exact (hany _ lab₃).bind (fun _ _ _ => rfl) fun _ _ => id
  | none => exact rfl

namespace Engine

/-- Whatever observers do, and whether they fail or not, an event leaves the store as it is. -/
theorem dispatch_watched (e : Engine σ) (event : Event) (p : Population) (lab : Lab γ σ) :
    Ends (fun _ lab' => lab.Watched (fun _ => ()) lab') (fun _ lab' => True ∧ lab.Watched (fun _ => ()) lab')
      (dispatch e.observers event p lab) :=
  (dispatch_ends event p (fun _ _ _ _ _ _ => rfl) lab).imp (fun _ _ h => h) fun _ _ h => ⟨trivial, h⟩

/-- The ways in which an engine may evaluate: one program after the other, or by a pool. The schedule of a pool says
    what the workers deliver, and in which order. -/
inductive Evaluates (e : Engine σ) : (Population → Run γ σ Nat) → Prop where
  | alone : Evaluates e (evaluate e.task e.plan.reevaluate)
  | pooled (schedule : Population → Lab γ σ → List (Nat × Except Error Float)) :
    (∀ p lab, Delivery e.task lab (pending lab.store e.plan.reevaluate p) (schedule p lab)) →
      Evaluates e fun p lab => evaluateDelivered p (schedule p lab) lab

variable [Generator γ]

/--
The states of an engine in one run, in which generations are evaluated in one of the given ways. The run begins at an
engine that holds no population yet, or by making a first population in place of whatever the engine held before; it
goes on with generations, also after one that has failed, and each may be evaluated in another way. Between them the
generator, the journal, the phase and the request to stop may change.
-/
inductive CourseBy (e : Engine σ) (ways : (Population → Run γ σ Nat) → Prop) (s₀ : EngineState γ σ) :
    EngineState γ σ → Prop where
  | begin : s₀.population = none → s₀.lastRanked = none → CourseBy e ways s₀ s₀
  | populate {p : Population} {lab : Lab γ σ} :
    Population.generate e.plan.program e.task e.plan.breeding.populationSize s₀.lab = .ok p lab →
      CourseBy e ways s₀ (finalState (e.populate s₀))
  | step {s : EngineState γ σ} {evaluation : Population → Run γ σ Nat} : ways evaluation → CourseBy e ways s₀ s →
      CourseBy e ways s₀ (finalState (e.stepBy evaluation s))
  | aside {s s' : EngineState γ σ} : CourseBy e ways s₀ s → s'.lab.store = s.lab.store → s'.lab.world = s.lab.world →
      s'.population = s.population → s'.lastRanked = s.lastRanked → CourseBy e ways s₀ s'

/-- The states of an engine in one run, however its generations are evaluated. -/
abbrev Course (e : Engine σ) : EngineState γ σ → EngineState γ σ → Prop := e.CourseBy e.Evaluates

/-- The states of an engine in one run that scores one program after the other. -/
abbrev LoneCourse (e : Engine σ) : EngineState γ σ → EngineState γ σ → Prop :=
  e.CourseBy (· = evaluate e.task e.plan.reevaluate)

theorem LoneCourse.course {e : Engine σ} {s₀ s : EngineState γ σ} (h : e.LoneCourse s₀ s) : e.Course s₀ s := by
  induction h with
  | begin hpopulation hlast => exact .begin hpopulation hlast
  | populate hgenerate => exact .populate hgenerate
  | step hevaluation _ ih => exact .step (hevaluation ▸ .alone) ih
  | aside _ hstore hworld hpopulation hlast ih => exact .aside ih hstore hworld hpopulation hlast

/-- What a generation leads to, evaluated in one of the given ways, is a state of the run as well. -/
theorem CourseBy.next {e : Engine σ} {ways : (Population → Run γ σ Nat) → Prop} {s₀ s s' : EngineState γ σ}
    {evaluation : Population → Run γ σ Nat} {r : Population} (h : e.CourseBy ways s₀ s) (hevaluation : ways evaluation)
    (hstep : e.stepBy evaluation s = .ok r s') : e.CourseBy ways s₀ s' := by
  have hnext := h.step hevaluation
  rwa [hstep] at hnext

/-- One generation of a given population. -/
def stepFrom (e : Engine σ) (evaluation : Population → Run γ σ Nat) (p : Population) : Evolving γ σ Population := do
  e.evaluatePhaseBy evaluation p
  e.afterEvaluation p

theorem stepBy_eq (e : Engine σ) (evaluation : Population → Run γ σ Nat) :
    e.stepBy evaluation = e.current >>= e.stepFrom evaluation := rfl

theorem current_of_population (e : Engine σ) {s : EngineState γ σ} {p : Population} (h : s.population = some p) :
    e.current s = .ok p s := by
  obtain ⟨lab, population, lastRanked, phase, stopRequested⟩ := s
  obtain rfl : population = some p := h
  rfl

theorem current_of_none (e : Engine σ) {s : EngineState γ σ} (h : s.population = none) :
    e.current s = e.populate s := by
  obtain ⟨lab, population, lastRanked, phase, stopRequested⟩ := s
  obtain rfl : population = none := h
  rfl

/-- An engine that holds a population goes on with it. -/
theorem stepBy_of_population (e : Engine σ) (evaluation : Population → Run γ σ Nat) {s : EngineState γ σ}
    {p : Population} (h : s.population = some p) : e.stepBy evaluation s = e.stepFrom evaluation p s := by
  rw [stepBy_eq]
  show EStateM.bind e.current (e.stepFrom evaluation) s = _
  unfold EStateM.bind
  rw [e.current_of_population h]

/-! ## Stages -/

/-- What may be asserted about the last ranked generation, the store, a view of the world, and a population. -/
abbrev Assertion (τ : Type) := Option Population → Store → τ → Population → Prop

/--
The assertions of a generation and what its parts owe: `held` is asserted of the population that the engine holds at
first, `spoiled` of one the evaluation of which has failed, `scored` after evaluation, `ranked` after ranking, and
`left` of the population that the engine holds at last, whether the generation fails or not; `vacant` is asserted as
long as there is no population. What is asserted holds for generations that are evaluated in one of the `ways`. Errors
are possible only if `mayFail` says so, or for want of a label.
-/
structure Stages (γ : Type) [Generator γ] (e : Engine σ) (τ : Type) where
  view : σ → τ
  mayFail : Prop
  ways : (Population → Run γ σ Nat) → Prop
  vacant : Store → τ → Prop
  held : Assertion τ
  spoiled : Assertion τ
  scored : Assertion τ
  ranked : Assertion τ
  left : Assertion τ
  generates : ∀ lab : Lab γ σ, vacant lab.store (view lab.world) →
    Ends (fun p lab' => held none lab'.store (view lab'.world) p)
      (fun _ lab' => mayFail ∧ vacant lab'.store (view lab'.world))
      (Population.generate e.plan.program e.task e.plan.breeding.populationSize lab)
  evaluates : ∀ evaluation, ways evaluation → ∀ last p (lab : Lab γ σ),
    held last lab.store (view lab.world) p → e.canLabel p.generation = true →
      Ends (fun _ lab' => scored last lab'.store (view lab'.world) p)
        (fun _ lab' => mayFail ∧ spoiled last lab'.store (view lab'.world) p) (evaluation p lab)
  ranks : ∀ last s w p, scored last s w p → ranked last s w (p.rank s)
  selects : ∀ last s w r, ranked last s w r → mayFail ∨ ∃ pool, r.select e.plan.gap = .ok pool
  breeds : ∀ last r pool (lab : Lab γ σ), ranked last lab.store (view lab.world) r → r.select e.plan.gap = .ok pool →
    Ends (fun next lab' => ∀ past, past = last ∨ past = some r →
        left past lab'.store (view lab'.world) { next with generation := r.generation + 1 })
      (fun _ lab' => mayFail ∧ left last lab'.store (view lab'.world) r)
      (reproduce e.plan.breeding pool lab)
  notices : ∀ event p (lab : Lab γ σ),
    Ends (fun _ lab' => lab.Watched view lab') (fun _ lab' => mayFail ∧ lab.Watched view lab')
      (dispatch e.observers event p lab)
  left_of_held : ∀ last s w p, held last s w p → e.canLabel p.generation = false → left last s w p
  left_of_spoiled : ∀ last s w p, spoiled last s w p → left last s w p
  left_of_scored : ∀ last s w p, scored last s w p → left last s w p
  left_of_ranked : ∀ last s w p, ranked last s w p → left last s w p

/-- What is asserted of the population that an engine holds. -/
structure At (view : σ → τ) (A : Assertion τ) (last : Option Population) (p : Population) (s : EngineState γ σ) :
    Prop where
  population : s.population = some p
  lastRanked : s.lastRanked = last
  asserted : A last s.lab.store (view s.lab.world) p

namespace Stages

variable {e : Engine σ} (I : Stages γ e τ) {last : Option Population} {p r pool : Population} {s : EngineState γ σ}
  {A : Assertion τ} {evaluation : Population → Run γ σ Nat}

/-! ## Parts of a phase -/

omit [Generator γ] in
/-- A computation on the lab concerns nothing else. -/
theorem onLab_ends {α : Type} {m : Run γ σ α} {P : α → Lab γ σ → Prop} {Q : Error → Lab γ σ → Prop}
    (h : Ends P Q (m s.lab)) :
    Ends (fun a s' => s' = { s with lab := s'.lab } ∧ P a s'.lab)
      (fun er s' => s' = { s with lab := s'.lab } ∧ Q er s'.lab) (onLab m s) := by
  unfold onLab
  cases hout : m s.lab with
  | ok a lab =>
      rw [hout] at h
      exact ⟨rfl, h⟩
  | error e lab =>
      rw [hout] at h
      exact ⟨rfl, h⟩

omit [Generator γ] in
theorem ends_enter {ok : PUnit → EngineState γ σ → Prop} {err : Error → EngineState γ σ → Prop} {phase : Phase} :
    Ends ok err (enter phase s) ↔ ok ⟨⟩ { s with phase := some phase } := Iff.rfl

omit [Generator γ] in
theorem ends_report {ok : Unit → EngineState γ σ → Prop} {err : Error → EngineState γ σ → Prop} {level : Int}
    {message : String} : Ends ok err (report level message s) ↔
      ok () { s with lab := { s.lab with
        journal := s.lab.journal.push ⟨level, Record.evolutionPart "engine", message⟩ } } := Iff.rfl

omit [Generator γ] in
/-- Of a report that may be lost, nothing depends on whether it is. -/
theorem ends_reportStart {P : EngineState γ σ → Prop} {err : Error → EngineState γ σ → Prop}
    (h : ∀ journal, P { s with lab := { s.lab with journal := journal } }) :
    Ends (fun _ s' => P s') err (e.reportStart s) := by
  unfold reportStart reportQuoting
  split
  · exact ends_report.mpr (h _)
  · exact h s.lab.journal

omit [Generator γ] in
/-- A generation is announced, or it cannot be labelled and nothing happens. -/
theorem ends_announce {ok : Unit → EngineState γ σ → Prop} {err : Error → EngineState γ σ → Prop}
    (hok : e.canLabel p.generation = true → ∀ journal, ok () { s with lab := { s.lab with journal := journal } })
    (herr : e.canLabel p.generation = false → err (.fault Fault.integerTooLong) s) :
    Ends ok err (e.announce p s) := by
  unfold announce
  cases hlabel : e.canLabel p.generation with
  | true => exact ends_report.mpr (hok hlabel _)
  | false => exact ends_throw.mpr (herr hlabel)

omit [Generator γ] in
theorem ends_isFinished {ok : Bool → EngineState γ σ → Prop} {err : Error → EngineState γ σ → Prop} :
    Ends ok err (e.isFinished s) ↔ ok (s.isFinished e.plan.maxGenerations) s := Iff.rfl

/-- Observers are told, and nothing asserted changes. -/
theorem notify_ends (event : Event) (q : Population) (h : At I.view A last p s) :
    Ends (fun _ s' => At I.view A last p s') (fun _ s' => I.mayFail ∧ At I.view A last p s') (e.notify event q s) := by
  -- an assertion looks at the store and at the view only, neither of which observers change
  have hwatched : ∀ lab, s.lab.Watched I.view lab → ∀ stop,
      At I.view A last p { s with lab := lab, stopRequested := stop } := by
    intro lab hlab stop
    refine ⟨h.population, h.lastRanked, ?_⟩
    show A last lab.store (I.view lab.world) p
    rw [hlab.store, hlab.world]
    exact h.asserted
  refine (onLab_ends (I.notices event q s.lab)).bind ?_ ?_
  · intro stop s' hs'
    obtain ⟨heq, hlab⟩ := hs'
    rw [heq]
    cases stop with
    | true => exact hwatched _ hlab true
    | false => exact hwatched _ hlab s.stopRequested
  · intro _ s' hs'
    obtain ⟨heq, hfail, hlab⟩ := hs'
    rw [heq]
    exact ⟨hfail, hwatched _ hlab s.stopRequested⟩

/-! ## Phases -/

/-- Evaluation and the telling of it, without the report. -/
theorem evaluated_ends (hevaluation : I.ways evaluation) (h : At I.view I.held last p s)
    (hlabel : e.canLabel p.generation = true) :
    Ends (fun _ s' => At I.view I.scored last p s')
      (fun _ s' => I.mayFail ∧ (At I.view I.spoiled last p s' ∨ At I.view I.scored last p s'))
      ((do let _ ← onLab (evaluation p); e.notify .evaluated p : Evolving γ σ Unit) s) := by
  refine (onLab_ends (I.evaluates evaluation hevaluation last p s.lab h.asserted hlabel)).bind ?_ ?_
  · intro n s' hs'
    obtain ⟨heq, hscored⟩ := hs'
    have hat : At I.view I.scored last p s' := by
      rw [heq]
      exact ⟨h.population, h.lastRanked, hscored⟩
    exact (I.notify_ends .evaluated p hat).imp (fun _ _ => id) fun _ _ he => ⟨he.1, .inr he.2⟩
  · intro _ s' hs'
    obtain ⟨heq, hfail, hspoiled⟩ := hs'
    refine ⟨hfail, .inl ?_⟩
    rw [heq]
    exact ⟨h.population, h.lastRanked, hspoiled⟩

/-- A failed evaluation leaves a spoiled population behind, and a failing observer a scored one; a generation that
    cannot be labelled is left as it was. -/
theorem evaluatePhaseBy_ends (hevaluation : I.ways evaluation) (h : At I.view I.held last p s) :
    Ends (fun _ s' => At I.view I.scored last p s')
      (fun _ s' => (I.mayFail ∧ (At I.view I.spoiled last p s' ∨ At I.view I.scored last p s')) ∨
        (e.canLabel p.generation = false ∧ At I.view I.held last p s'))
      (e.evaluatePhaseBy evaluation p s) := by
  refine ends_bind.mpr (ends_enter.mpr (ends_bind.mpr (ends_announce ?_ ?_)))
  · intro hlabel journal
    exact Ends.imp (I.evaluated_ends hevaluation ⟨h.population, h.lastRanked, h.asserted⟩ hlabel) (fun _ _ => id)
      fun _ _ => .inl
  · exact fun hlabel => .inr ⟨hlabel, h.population, h.lastRanked, h.asserted⟩

theorem rankPhase_ends (h : At I.view I.scored last p s) :
    Ends (fun r s' => At I.view I.ranked last r s' ∧ r.generation = p.generation)
      (fun _ s' => I.mayFail ∧ ∃ r, At I.view I.ranked last r s') (e.rankPhase p s) := by
  have hat : ∀ journal, At I.view I.ranked last (p.rank s.lab.store)
      { s with
        phase := some .ranked, population := some (p.rank s.lab.store), lab := { s.lab with journal := journal } } :=
    fun journal => ⟨rfl, h.lastRanked, I.ranks last _ _ p h.asserted⟩
  refine ends_bind.mpr (ends_enter.mpr (ends_bind.mpr (ends_get.mpr (ends_bind.mpr (ends_modify.mpr ?_)))))
  refine ends_bind.mpr (ends_report.mpr ?_)
  exact (I.notify_ends .ranked _ (hat _)).bind (fun _ _ hs' => ⟨hs', rfl⟩) fun _ _ he => ⟨he.1, _, he.2⟩

theorem selectPhase_ends (h : At I.view I.ranked last r s) :
    Ends (fun pool s' => r.select e.plan.gap = .ok pool ∧ At I.view I.ranked last r s')
      (fun _ s' => I.mayFail ∧ At I.view I.ranked last r s') (e.selectPhase r s) := by
  have hat : At I.view I.ranked last r { s with phase := some .selecting } := ⟨h.population, h.lastRanked, h.asserted⟩
  have hselects := I.selects last _ _ r h.asserted
  refine ends_bind.mpr (ends_enter.mpr (ends_bind.mpr ?_))
  cases hpool : r.select e.plan.gap with
  | error f =>
      rw [hpool] at hselects
      refine ⟨hselects.resolve_right ?_, hat⟩
      rintro ⟨pool, hpool'⟩
      exact nomatch hpool'
  | ok pool =>
      exact (I.notify_ends .selected pool hat).bind (fun _ _ hs' => ⟨rfl, hs'⟩) fun _ _ he => he

/-- What the replacement of a ranked generation comes to: its pool has been bred from. -/
def Replaced (I : Stages γ e τ) (last : Option Population) (r pool : Population) (s' : EngineState γ σ) : Prop :=
  ∃ (lab lab' : Lab γ σ) (next : Population), I.ranked last lab.store (I.view lab.world) r ∧
    reproduce e.plan.breeding pool lab = .ok next lab' ∧ s'.lab.store = lab'.store ∧
    ∀ past, past = last ∨ past = some r →
      I.left past s'.lab.store (I.view s'.lab.world) { next with generation := r.generation + 1 } ∧
      s'.population = some { next with generation := r.generation + 1 }

theorem replacePhase_ends (h : At I.view I.ranked last r s) (hpool : r.select e.plan.gap = .ok pool) :
    Ends (fun _ s' => I.Replaced last r pool s' ∧ s'.lastRanked = last)
      (fun _ s' => I.mayFail ∧ ∃ p, At I.view I.left last p s') (e.replacePhase r pool s) := by
  have hbreeds := I.breeds last r pool s.lab h.asserted hpool
  refine ends_bind.mpr (ends_enter.mpr (ends_bind.mpr ?_))
  show Ends _ _ (onLab (reproduce e.plan.breeding pool) _)
  unfold onLab
  simp only
  cases hout : reproduce e.plan.breeding pool s.lab with
  | error er lab' =>
      rw [hout] at hbreeds
      exact ⟨hbreeds.1, r, h.population, h.lastRanked, hbreeds.2⟩
  | ok next lab' =>
      rw [hout] at hbreeds
      refine ends_bind.mpr ?_
      -- observers are told last, and leave the store that breeding has ended with
      have hat : At I.view (fun _ s' w q => s' = lab'.store ∧ ∀ past, past = last ∨ past = some r → I.left past s' w q)
          last { next with generation := r.generation + 1 }
          { s with
            lab := lab', phase := some .replaced, population := some { next with generation := r.generation + 1 } } :=
        ⟨rfl, h.lastRanked, rfl, hbreeds⟩
      refine (I.notify_ends .generationEnd _ hat).imp (fun _ s' hs' => ⟨?_, hs'.lastRanked⟩) ?_
      · exact ⟨s.lab, lab', next, h.asserted, hout, hs'.asserted.1, fun past hpast =>
          ⟨hs'.asserted.2 past hpast, hs'.population⟩⟩
      · intro _ s' he
        exact ⟨he.1, _, he.2.population, he.2.lastRanked, he.2.asserted.2 last (.inl rfl)⟩

/-! ## Generations -/

/-- What a generation comes to: `r` has been ranked and its pool bred from, and it is the last ranked generation now. -/
def Turned (I : Stages γ e τ) (last : Option Population) (r : Population) (s' : EngineState γ σ) : Prop :=
  ∃ (pool next : Population) (lab lab' : Lab γ σ), I.ranked last lab.store (I.view lab.world) r ∧
    r.select e.plan.gap = .ok pool ∧ reproduce e.plan.breeding pool lab = .ok next lab' ∧
    s'.lab.store = lab'.store ∧ At I.view I.left (some r) { next with generation := r.generation + 1 } s'

omit [Generator γ] in
/-- The end of a generation concerns nothing but the phase and what is remembered. -/
theorem remember_ends (e : Engine σ) (r : Population) (s : EngineState γ σ) :
    Ends (fun r' s' => r' = r ∧ s' = { s with phase := s'.phase, lastRanked := some r }) Never (e.remember r s) := by
  refine ends_bind.mpr (ends_isFinished.mpr ?_)
  cases s.isFinished e.plan.maxGenerations with
  | true => exact ⟨rfl, rfl⟩
  | false => exact ⟨rfl, rfl⟩

/-- Whichever phase fails, what is asserted of the population then is enough for the end. -/
theorem exists_left (himp : ∀ last s w p, A last s w p → I.left last s w p) (h : At I.view A last p s) :
    ∃ q, At I.view I.left last q s := ⟨p, h.population, h.lastRanked, himp _ _ _ _ h.asserted⟩

/-- A generation from its ranking on. -/
theorem afterEvaluation_ends (h : At I.view I.scored last p s) :
    Ends (fun r s' => I.Turned last r s' ∧ r.generation = p.generation)
      (fun _ s' => I.mayFail ∧ ∃ q, At I.view I.left last q s') (e.afterEvaluation p s) := by
  refine (I.rankPhase_ends h).bind ?_ ?_
  · rintro r s₁ ⟨h₁, hgeneration⟩
    refine (I.selectPhase_ends h₁).bind ?_ fun _ s₂ he => ⟨he.1, I.exists_left I.left_of_ranked he.2⟩
    intro pool s₂ h₂
    refine (I.replacePhase_ends h₂.2 h₂.1).bind ?_ fun _ _ he => he
    intro _ s₃ h₃
    obtain ⟨⟨lab, lab', next, hranked, hbred, hstore, hnext⟩, -⟩ := h₃
    obtain ⟨hat, hpopulation⟩ := hnext (some r) (.inr rfl)
    refine (remember_ends e r s₃).imp ?_ fun _ _ => False.elim
    rintro _ s₄ ⟨rfl, hs₄⟩
    rw [hs₄]
    exact ⟨⟨pool, next, lab, lab', hranked, h₂.1, hbred, hstore, hpopulation, rfl, hat⟩, hgeneration⟩
  · intro _ s₁ he
    obtain ⟨hfail, r, hr⟩ := he
    exact ⟨hfail, I.exists_left I.left_of_ranked hr⟩

/-- **One generation of a population of which `held` is asserted.** -/
theorem stepFrom_ends (hevaluation : I.ways evaluation) (h : At I.view I.held last p s) :
    Ends (fun r s' => I.Turned last r s' ∧ r.generation = p.generation)
      (fun _ s' => (I.mayFail ∨ e.canLabel p.generation = false) ∧ ∃ q, At I.view I.left last q s')
      (e.stepFrom evaluation p s) := by
  refine (I.evaluatePhaseBy_ends hevaluation h).bind ?_ ?_
  · intro _ s₁ h₁
    exact (I.afterEvaluation_ends h₁).imp (fun _ _ hr => hr) fun _ _ he => ⟨.inl he.1, he.2⟩
  · rintro _ s₁ (⟨hfail, hspoiled | hscored⟩ | ⟨hlabel, hheld⟩)
    · exact ⟨.inl hfail, I.exists_left I.left_of_spoiled hspoiled⟩
    · exact ⟨.inl hfail, I.exists_left I.left_of_scored hscored⟩
    · exact ⟨.inr hlabel, p, hheld.population, hheld.lastRanked, I.left_of_held _ _ _ _ hheld.asserted hlabel⟩

/-- The first population is made, or there is none as before. -/
theorem populate_ends (h : I.vacant s.lab.store (I.view s.lab.world)) :
    Ends (fun p s' => At I.view I.held none p s' ∧ p.generation = 0)
      (fun _ s' => I.mayFail ∧ ((∃ p, At I.view I.held none p s') ∨
        (s'.population = s.population ∧ s'.lastRanked = s.lastRanked ∧ I.vacant s'.lab.store (I.view s'.lab.world) ∧
          ∀ p lab, Population.generate e.plan.program e.task e.plan.breeding.populationSize s.lab ≠ .ok p lab)))
      (e.populate s) := by
  have hgenerates := (I.generates s.lab h).and (generate_generation ..)
  unfold populate
  refine ends_bind.mpr ?_
  unfold onLab
  cases hout : Population.generate e.plan.program e.task e.plan.breeding.populationSize s.lab with
  | error er lab =>
      rw [hout] at hgenerates
      exact ⟨hgenerates.1.1, .inr ⟨rfl, rfl, hgenerates.1.2, fun _ _ h => nomatch h⟩⟩
  | ok p lab =>
      rw [hout] at hgenerates
      refine ends_bind.mpr (ends_bind.mpr ?_)
      exact (I.notify_ends .initialized p ⟨rfl, rfl, hgenerates.1⟩).bind (fun _ _ hs' => ⟨hs', hgenerates.2⟩)
        fun _ _ he => ⟨he.1, .inl ⟨p, he.2⟩⟩

/-- What every state of a run satisfies. -/
def Holds (I : Stages γ e τ) (s : EngineState γ σ) : Prop :=
  (∃ p, At I.view I.held s.lastRanked p s) ∨
    (s.population = none ∧ s.lastRanked = none ∧ I.vacant s.lab.store (I.view s.lab.world))

theorem Holds.of_at (h : At I.view I.held last p s) : I.Holds s :=
  .inl ⟨p, h.population, rfl, by rw [h.lastRanked]; exact h.asserted⟩

/-- What is asserted of the population that an engine holds. -/
theorem Holds.held (h : I.Holds s) (hp : s.population = some p) :
    I.held s.lastRanked s.lab.store (I.view s.lab.world) p := by
  rcases h with ⟨q, hq⟩ | ⟨hnone, -, -⟩
  · obtain rfl := Option.some.inj (hp.symm.trans hq.population)
    exact hq.asserted
  · exact nomatch hp.symm.trans hnone

/-- The engine holds a population, or makes its first one. -/
theorem current_ends (h : I.Holds s) :
    Ends (fun p s' => At I.view I.held s.lastRanked p s' ∧ p.generation = s.generation)
      (fun _ s' => I.mayFail ∧ I.Holds s') (e.current s) := by
  unfold EngineState.generation
  rcases h with ⟨p, hp⟩ | ⟨hpopulation, hlast, hvacant⟩
  · rw [e.current_of_population hp.population, hp.population]
    exact ⟨hp, rfl⟩
  · rw [e.current_of_none hpopulation, hpopulation, hlast]
    refine (I.populate_ends hvacant).imp (fun p s' hp => hp) fun _ s' he => ⟨he.1, ?_⟩
    rcases he.2 with ⟨p, hp⟩ | ⟨hpopulation', hlast', hvacant', -⟩
    · exact .of_at I hp
    · exact .inr ⟨hpopulation'.trans hpopulation, hlast'.trans hlast, hvacant'⟩

variable (hclosed : ∀ last s w p, I.left last s w p → I.held last s w p)

include hclosed

/-- What is left at last is what is held next. -/
theorem Holds.of_left (h : At I.view I.left last p s) : I.Holds s :=
  .of_at I ⟨h.population, h.lastRanked, hclosed _ _ _ _ h.asserted⟩

/-- **One generation.** -/
theorem stepBy_ends (hevaluation : I.ways evaluation) (h : I.Holds s) :
    Ends (fun r s' => I.Turned s.lastRanked r s' ∧ r.generation = s.generation)
      (fun _ s' => (I.mayFail ∨ e.canLabel s.generation = false) ∧ I.Holds s') (e.stepBy evaluation s) := by
  rw [stepBy_eq]
  refine (I.current_ends h).bind ?_ fun _ _ he => ⟨.inl he.1, he.2⟩
  rintro p s' ⟨hp, hgeneration⟩
  rw [← hgeneration]
  refine (I.stepFrom_ends hevaluation hp).imp (fun _ _ hr => hr) fun _ s'' he => ⟨he.1, ?_⟩
  obtain ⟨q, hq⟩ := he.2
  exact .of_left I hclosed hq

theorem Turned.holds {s' : EngineState γ σ} (h : I.Turned last r s') : I.Holds s' := by
  obtain ⟨_, _, _, _, -, -, -, -, hat⟩ := h
  exact .of_left I hclosed hat

omit hclosed in
theorem Holds.aside {s' : EngineState γ σ} (h : I.Holds s) (hstore : s'.lab.store = s.lab.store)
    (hworld : I.view s'.lab.world = I.view s.lab.world) (hpopulation : s'.population = s.population)
    (hlast : s'.lastRanked = s.lastRanked) : I.Holds s' := by
  rcases h with ⟨p, hp⟩ | ⟨hnone, hnone', hvacant⟩
  · refine .inl ⟨p, hpopulation.trans hp.population, rfl, ?_⟩
    rw [hstore, hworld, hlast]
    exact hp.asserted
  · refine .inr ⟨hpopulation.trans hnone, hlast.trans hnone', ?_⟩
    rw [hstore, hworld]
    exact hvacant

/-- **Every state of a run satisfies what its beginning and its generations do.** -/
theorem holds {s₀ : EngineState γ σ} (h₀ : I.vacant s₀.lab.store (I.view s₀.lab.world)) (h : e.CourseBy I.ways s₀ s) :
    I.Holds s := by
  -- `Holds` is the invariant; only a first population that is made anew starts from `vacant` again
  induction h with
  | begin hpopulation hlast => exact .inr ⟨hpopulation, hlast, h₀⟩
  | populate hgenerate =>
      refine Ends.final ((I.populate_ends h₀).imp (fun _ _ hp => .of_at I hp.1) fun _ s' he => ?_)
      rcases he.2 with ⟨p, hp⟩ | ⟨-, -, -, hnone⟩
      · exact .of_at I hp
      · exact absurd hgenerate (hnone _ _)
  | step hevaluation _ ih =>
      exact Ends.final ((I.stepBy_ends hclosed hevaluation ih).imp (fun _ _ hr => hr.1.holds I hclosed)
        fun _ _ he => he.2)
  | aside _ hstore hworld hpopulation hlast ih =>
      exact ih.aside I hstore (by rw [hworld]) hpopulation hlast

/-! ## Whole runs -/

variable (hevaluation : I.ways evaluation)

include hevaluation

/-- A generation of a run has failed: for a cause that the stages allow, or one was left to be run but cannot be
    labelled. -/
def Fails (I : Stages γ e τ) : Prop :=
  I.mayFail ∨ ∃ s, I.Holds s ∧ s.generation < e.plan.maxGenerations ∧ e.canLabel s.generation = false

/-- The generations that are left, one after the other; the induction is on how many there may be. -/
theorem generationsUpToBy_ends (limit : Nat) (h : I.Holds s) (hpopulation : s.population.isSome = true) :
    Ends (fun _ s' => I.Holds s' ∧ s'.population.isSome = true) (fun _ s' => I.Fails ∧ I.Holds s')
      (e.generationsUpToBy evaluation (fun _ => return ()) limit s) := by
  induction limit generalizing s with
  | zero => exact ⟨h, hpopulation⟩
  | succ limit ih =>
      refine ends_bind.mpr (ends_isFinished.mpr ?_)
      cases hfinished : s.isFinished e.plan.maxGenerations with
      | true => exact ⟨h, hpopulation⟩
      | false =>
          have hleft : s.generation < e.plan.maxGenerations := by
            unfold EngineState.isFinished at hfinished
            simpa using (Bool.or_eq_false_iff.mp hfinished).2
          refine (I.stepBy_ends hclosed hevaluation h).bind ?_ fun _ _ he =>
            ⟨he.1.imp id fun hlabel => ⟨s, h, hleft, hlabel⟩, he.2⟩
          rintro r s' ⟨⟨_, _, _, _, -, -, -, -, hat⟩, -⟩
          have hsome : s'.population.isSome = true := by
            rw [hat.population]
            rfl
          exact (ih (.of_left I hclosed hat) hsome).bind (fun _ _ hs'' => hs'') fun _ _ he => he

omit hclosed hevaluation in
theorem commence_ends (h : I.Holds s) :
    Ends (fun _ s' => I.Holds s' ∧ s'.population.isSome = true) (fun _ s' => I.mayFail ∧ I.Holds s')
      (e.commence s) := by
  refine (I.current_ends h).bind ?_ fun _ _ he => he
  rintro p s₁ ⟨hp, -⟩
  have hsome : s₁.population.isSome = true := by
    rw [hp.population]
    rfl
  unfold reportWorkers
  split
  · exact ⟨Holds.aside I (.of_at I hp) rfl rfl rfl rfl, hsome⟩
  · exact ⟨.of_at I hp, hsome⟩

theorem generationsBy_ends (h : I.Holds s) :
    Ends (fun _ s' => I.Holds s' ∧ s'.population.isSome = true) (fun _ s' => I.Fails ∧ I.Holds s')
      (e.generationsBy evaluation (fun _ => return ()) s) := by
  refine (I.commence_ends h).bind ?_ fun _ _ he => ⟨.inl he.1, he.2⟩
  intro _ s₂ h₂
  refine ends_bind.mpr (ends_get.mpr ?_)
  refine (I.generationsUpToBy_ends hclosed hevaluation _ h₂.1 h₂.2).bind ?_ fun _ _ he => he
  intro _ s₃ h₃
  exact ⟨h₃.1.aside I rfl rfl rfl rfl, h₃.2⟩

/-- **A whole run** answers the last ranked generation, or the first population if no generation has been ranked. -/
theorem runBy_ends (h : I.Holds s) :
    Ends (fun last s' => I.Holds s' ∧ s'.lastRanked.or s'.population = some last) (fun _ s' => I.Fails ∧ I.Holds s')
      (e.runBy evaluation s) := by
  have hstart : Ends (fun _ s' => I.Holds s') Never (e.reportStart s) :=
    ends_reportStart fun journal => h.aside I rfl rfl rfl rfl
  refine hstart.bind ?_ fun _ _ => False.elim
  intro _ s' hs'
  refine (I.generationsBy_ends hclosed hevaluation hs').bind ?_ fun _ _ he => he
  intro _ s₁ h₁
  refine ends_bind.mpr (ends_get.mpr ?_)
  cases hlast : s₁.lastRanked.or s₁.population with
  | none =>
      -- a population is held from the beginning of the run on
      have hnone := (Option.or_eq_none_iff.mp hlast).2
      rw [hnone] at h₁
      exact nomatch h₁.2
  | some last => exact ⟨h₁.1.aside I rfl rfl rfl rfl, hlast⟩

end Stages

end Engine

end RegisterEvolution
