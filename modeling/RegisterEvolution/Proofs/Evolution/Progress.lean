import RegisterEvolution.Proofs.Evolution.Breeding
import RegisterEvolution.Proofs.Evolution.Succession

/-!
# `Proofs.Evolution.Progress` — runs with accepted settings never fail

An engine is viable if its settings have been accepted for its task, the task answers and the observers are steady.
Every state of every run of such an engine holds complete populations of sound programs, and from every state the first
population, the next generation and the whole rest of the run succeed, unless a number of generations is too long for
the label that every generation is given.

* `Engine.Viable` — what an engine needs so that nothing can go wrong;
* `Engine.Sustained` — what a state has while nothing goes wrong;
* `Engine.Viable.sustained` — every state of a run of a viable engine is sustained.
-/

namespace RegisterEvolution

open Binary64

variable {γ σ : Type}

/-! ## Complete populations -/

namespace Population.Complete

variable {shape : Shape} {sizes : BankSizes} {size : Int} {p : Population}

theorem perm (h : p.Complete shape sizes size) {q : Population} (hperm : q.programs.Perm p.programs)
    (hcapacity : q.capacity = p.capacity) : q.Complete shape sizes size := by
  refine ⟨⟨by rw [hperm.length_eq, h.programs.length_eq], ?_⟩, hcapacity.trans h.capacity⟩
  intro program hprogram
  exact h.programs.each program (hperm.mem_iff.mp hprogram)

theorem rank (h : p.Complete shape sizes size) (s : Store) : (p.rank s).Complete shape sizes size :=
  h.perm (rank_perm s p) rfl

theorem length_eq (h : p.Complete shape sizes size) (hsize : 0 ≤ size) : (p.size : Int) = size := by
  unfold Population.size
  rw [h.programs.length_eq]
  omega

/-- The number of a generation plays no part. -/
theorem renumber (h : p.Complete shape sizes size) (generation : Int) :
    Complete shape sizes size { p with generation := generation } := ⟨h.programs, h.capacity⟩

/-- A breeding pool is not empty and not larger than a population, and its programs are sound. -/
theorem select (h : p.Complete shape sizes size) {gap : Float} (hgap : AtMost 1 gap) (hsize : 1 ≤ size)
    (hlt : size < 2 ^ 53) :
    ∃ pool, p.select gap = .ok pool ∧ 1 ≤ pool.size ∧ (pool.size : Int) ≤ size ∧
      ∀ q ∈ pool.programs, q.Sound shape sizes := by
  obtain ⟨kept, hkept, hpos⟩ := keptCount_ok hgap hsize hlt
  have hlength := h.length_eq (by omega)
  refine ⟨{ p with programs := p.programs.take kept }, ?_, ?_, ?_, ?_⟩
  · unfold Population.select
    rw [h.capacity, hkept]
    rfl
  · unfold Population.size at *
    rw [List.length_take]
    omega
  · unfold Population.size at *
    rw [List.length_take]
    omega
  · intro q hq
    exact h.programs.each q (List.mem_of_mem_take hq)

end Population.Complete

namespace Engine

/-! ## Viable engines -/

/-- An engine with settings that have been accepted for its task, a task that answers, and steady observers. -/
structure Viable (e : Engine σ) (shape : Shape) (sizes : BankSizes) : Prop where
  bound : ∃ bound, e.plan.program.bind e.task.inputCount e.task.actionCount = .ok bound ∧ bound.shape = .ok shape
  usable : shape.Usable sizes
  feasible : e.plan.breeding.Feasible
  gap : AtMost 1 e.plan.gap
  size : e.plan.breeding.populationSize < 2 ^ 53
  answers : e.task.Answers (· = shape) fun _ _ _ => True
  observers : ∀ o ∈ e.observers, o.Steady

/-- The engine without anyone who watches. -/
def unwatched (e : Engine σ) : Engine σ := { e with observers := [] }

/-- What a state has while nothing goes wrong: complete populations, and success from here on, however generations are
    evaluated, as long as they can be labelled. -/
structure Sustained [Generator γ] (e : Engine σ) (shape : Shape) (sizes : BankSizes) (size : Int)
    (s : EngineState γ σ) : Prop where
  held : ∀ p, s.population = some p → p.Complete shape sizes size
  lastRanked : ∀ r, s.lastRanked = some r → r.Complete shape sizes size
  populate : Ends (fun p _ => p.Complete shape sizes size) Never (e.populate s)
  step : ∀ evaluation : Population → Run γ σ Nat, e.Evaluates evaluation → e.canLabel s.generation = true →
    Ends (fun r s' => r.Complete shape sizes size ∧ (∃ next, s'.population = some next ∧
      next.Complete shape sizes size ∧ next.generation = s.generation + 1) ∧ ∃ pool, r.select e.plan.gap = .ok pool ∧
      1 ≤ pool.size ∧ (pool.size : Int) ≤ size ∧ ∀ q ∈ pool.programs, q.Sound shape sizes) Never
      (e.stepBy evaluation s)
  run : ∀ evaluation : Population → Run γ σ Nat, e.Evaluates evaluation →
    (Value.int e.plan.maxGenerations).isWritable = true →
      Ends (fun last _ => last.Complete shape sizes size) Never (e.runBy evaluation s)

namespace Viable

variable [Generator γ] [Generator.Honest γ] {e : Engine σ} {shape : Shape} {sizes : BankSizes}

/-- What is asserted of every population in a run that does not fail. -/
structure Sane (h : e.Viable shape sizes) (last : Option Population) (s : Store) (p : Population) : Prop where
  upholds : Upholds h.answers.standard s p.programs
  complete : p.Complete shape sizes e.plan.breeding.populationSize
  lastRanked : ∀ r, last = some r → r.Complete shape sizes e.plan.breeding.populationSize
  generation : 0 ≤ p.generation

theorem one_le_size (h : e.Viable shape sizes) : 1 ≤ e.plan.breeding.populationSize := by
  have := h.feasible.size
  omega

theorem shapes_bound (h : e.Viable shape sizes) (bound : ProgramSettings) (shape' : Shape)
    (hbind : e.plan.program.bind e.task.inputCount e.task.actionCount = .ok bound) (hshape : bound.shape = .ok shape') :
    h.answers.standard.shapes shape' := by
  obtain ⟨bound', hbind', hshape'⟩ := h.bound
  obtain rfl := Except.ok.inj (hbind.symm.trans hbind')
  exact Except.ok.inj (hshape.symm.trans hshape')

theorem generates (h : e.Viable shape sizes) (lab : Lab γ σ) :
    Ends (fun p lab' => Sane h none lab'.store p) Never
      (Population.generate e.plan.program e.task e.plan.breeding.populationSize lab) := by
  obtain ⟨bound, hbind, hshape⟩ := h.bound
  have hyields := generate_yields (γ := γ) hbind hshape h.usable e.plan.breeding.populationSize lab
  have hupholds := generate_upholds e.plan.program e.plan.breeding.populationSize lab (shapes_bound h)
  exact ((hyields.and hupholds).and (generate_generation ..)).imp
    (fun p lab' hp => ⟨hp.1.2.2.1, hp.1.1, fun _ => nofun, Int.le_of_eq hp.2.symm⟩) fun _ _ he => he.1.1

theorem breeds (h : e.Viable shape sizes) (last : Option Population) (r pool : Population) (lab : Lab γ σ)
    (hr : Sane h last lab.store r) (hpool : r.select e.plan.gap = .ok pool) :
    Ends (fun next lab' => ∀ past, past = last ∨ past = some r →
        Sane h past lab'.store { next with generation := r.generation + 1 })
      Never (reproduce e.plan.breeding pool lab) := by
  obtain ⟨pool', hpool', hpos, hle, hsound⟩ := hr.complete.select h.gap h.one_le_size h.size
  obtain rfl := Except.ok.inj (hpool'.symm.trans hpool)
  have hne : pool'.programs ≠ [] := List.length_pos_iff.mp hpos
  have hyields := reproduce_yields (γ := γ) (σ := σ) h.usable h.feasible h.size hsound hne hle lab
  have hupholds := reproduce_upholds e.plan.breeding pool' lab (hr.upholds.select hpool)
  refine (hyields.and hupholds).imp ?_ fun _ _ he => he.1
  intro next lab' hnext past hpast
  refine ⟨hnext.2.2.1, hnext.1.renumber _, ?_, Int.le_trans hr.generation (Int.le_add_one (Int.le_refl _))⟩
  intro r' hr'
  rcases hpast with rfl | rfl
  · exact hr.lastRanked r' hr'
  · obtain rfl := Option.some.inj hr'
    exact hr.complete

/-- **The stages of a run that cannot fail.** -/
def stages (h : e.Viable shape sizes) : Stages γ e Unit where
  view _ := ()
  mayFail := False
  ways := e.Evaluates
  vacant _ _ := True
  held last s _ p := Sane h last s p
  spoiled _ _ _ _ := False
  scored last s _ p := Sane h last s p
  ranked last s _ p := Sane h last s p
  left last s _ p := Sane h last s p
  generates lab _ := (generates h lab).imp (fun _ _ hp => hp) fun _ _ => False.elim
  evaluates evaluation hevaluation last p lab hp _ := (hevaluation.succeeds h.answers p lab hp.upholds).imp
    (fun _ _ hout => ⟨hout.1, hp.complete, hp.lastRanked, hp.generation⟩) fun _ _ => False.elim
  ranks last s _ p hp := ⟨hp.upholds.rank, hp.complete.rank s, hp.lastRanked, hp.generation⟩
  selects last s _ r hr := by
    obtain ⟨pool, hpool, -⟩ := hr.complete.select h.gap h.one_le_size h.size
    exact .inr ⟨pool, hpool⟩
  breeds last r pool lab hr hpool := (breeds h last r pool lab hr hpool).imp (fun _ _ hnext => hnext)
    fun _ _ => False.elim
  notices event p lab := ((dispatch_ends event p (fun o _ _ _ _ _ => rfl) lab).and
    (dispatch_steady event p h.observers lab)).imp (fun _ _ hout => hout.1) fun _ _ he => he.2.elim
  left_of_held _ _ _ _ hp _ := hp
  left_of_spoiled _ _ _ _ := False.elim
  left_of_scored _ _ _ _ hp := hp
  left_of_ranked _ _ _ _ hp := hp

theorem holds (h : e.Viable shape sizes) {s₀ s : EngineState γ σ} (hcourse : e.Course s₀ s) : h.stages.Holds s :=
  h.stages.holds (fun _ _ _ _ hp => hp) trivial hcourse

/-- The last ranked generation is complete as well. -/
theorem complete_lastRanked (h : e.Viable shape sizes) {s : EngineState γ σ} (hs : h.stages.Holds s) {r : Population}
    (hr : s.lastRanked = some r) : r.Complete shape sizes e.plan.breeding.populationSize := by
  rcases hs with ⟨p, hp⟩ | ⟨-, hnone, -⟩
  · exact hp.asserted.lastRanked r hr
  · exact nomatch hr.symm.trans hnone

/-- What a generation has come to when it succeeds. -/
theorem turned (h : e.Viable shape sizes) {last : Option Population} {r : Population} {s' : EngineState γ σ}
    (hturned : h.stages.Turned last r s') :
    r.Complete shape sizes e.plan.breeding.populationSize ∧ (∃ next, s'.population = some next ∧
      next.Complete shape sizes e.plan.breeding.populationSize ∧ next.generation = r.generation + 1) ∧
      ∃ pool, r.select e.plan.gap = .ok pool ∧ 1 ≤ pool.size ∧ (pool.size : Int) ≤ e.plan.breeding.populationSize ∧
      ∀ q ∈ pool.programs, q.Sound shape sizes := by
  obtain ⟨pool, next, lab, lab', hranked, -, -, -, hat⟩ := hturned
  exact ⟨hranked.complete, ⟨_, hat.population, hat.asserted.complete, rfl⟩,
    hranked.complete.select h.gap h.one_le_size h.size⟩

/-- A first population is made, from every state. -/
theorem populates (h : e.Viable shape sizes) (s : EngineState γ σ) :
    Ends (fun p s' => At (stages (γ := γ) h).view (stages (γ := γ) h).held none p s' ∧ p.generation = 0) Never
      (e.populate s) :=
  (h.stages.populate_ends trivial).imp (fun _ _ hp => hp) fun _ _ he => he.1

/-- A generation that can be labelled succeeds, however it is evaluated. -/
theorem turns (h : e.Viable shape sizes) {evaluation : Population → Run γ σ Nat} (hevaluation : e.Evaluates evaluation)
    {s : EngineState γ σ} (hs : h.stages.Holds s) (hlabel : e.canLabel s.generation = true) :
    Ends (fun r s' => h.stages.Turned s.lastRanked r s' ∧ r.generation = s.generation) Never
      (e.stepBy evaluation s) := by
  refine (h.stages.stepBy_ends (fun _ _ _ _ hp => hp) hevaluation hs).imp (fun _ _ hr => hr) ?_
  rintro _ s' ⟨hfail | hnone, -⟩
  · exact hfail
  · exact nomatch hlabel.symm.trans hnone

/-- The number of a generation is not negative. -/
theorem generation_nonneg (h : e.Viable shape sizes) {s : EngineState γ σ} (hs : h.stages.Holds s) :
    0 ≤ s.generation := by
  unfold EngineState.generation
  cases hp : s.population with
  | none => exact Int.le_refl 0
  | some p => exact (hs.held h.stages hp).generation

omit [Generator γ] [Generator.Honest γ] in
/-- A number of a generation below that of all generations can be written if the latter can. -/
theorem canLabel_of_between (hlimit : (Value.int e.plan.maxGenerations).isWritable = true) {g : Int} (hnonneg : 0 ≤ g)
    (hlt : g < e.plan.maxGenerations) : e.canLabel g = true := by
  have hnumber := Value.isWritable_of_le (m := g + 1) (by omega) (by omega) hlimit
  simp [canLabel, Value.areWritable, hnumber, hlimit]

/-- A generation that is left to be run can be labelled if the number of all generations can be written. -/
theorem canLabel_of_lt (h : e.Viable shape sizes) (hlimit : (Value.int e.plan.maxGenerations).isWritable = true)
    {s : EngineState γ σ} (hs : h.stages.Holds s) (hlt : s.generation < e.plan.maxGenerations) :
    e.canLabel s.generation = true := canLabel_of_between hlimit (h.generation_nonneg hs) hlt

/-- So the next generation succeeds while one is left to be run. -/
theorem steps (h : e.Viable shape sizes) (hlimit : (Value.int e.plan.maxGenerations).isWritable = true)
    {s : EngineState γ σ} (hs : h.stages.Holds s) (hlt : s.generation < e.plan.maxGenerations) :
    ∃ r s', e.step s = .ok r s' ∧ h.stages.Turned s.lastRanked r s' ∧ s'.generation = s.generation + 1 := by
  obtain ⟨r, s', hstep, hturned, hgeneration⟩ := (h.turns .alone hs (h.canLabel_of_lt hlimit hs hlt)).exists_ok
  refine ⟨r, s', hstep, hturned, ?_⟩
  obtain ⟨_, _, _, _, -, -, -, -, hat⟩ := hturned
  unfold EngineState.generation at *
  rw [hat.population, ← hgeneration]
  rfl

/-- No generation of a run fails, then. -/
theorem not_fails (h : e.Viable shape sizes) (hlimit : (Value.int e.plan.maxGenerations).isWritable = true) :
    ¬ (stages (γ := γ) h).Fails := by
  rintro (hfail | ⟨s, hs, hlt, hnone⟩)
  · exact hfail
  · exact nomatch (h.canLabel_of_lt hlimit hs hlt).symm.trans hnone

/-- **Every state of a run of a viable engine is sustained.** -/
theorem sustained (h : e.Viable shape sizes) {s₀ s : EngineState γ σ} (hcourse : e.Course s₀ s) :
    Sustained e shape sizes e.plan.breeding.populationSize s := by
  have hs := h.holds hcourse
  refine ⟨fun p hp => (hs.held h.stages hp).complete, fun r hr => h.complete_lastRanked hs hr, ?_, ?_, ?_⟩
  · exact (h.populates s).imp (fun p _ hp => hp.1.asserted.complete) fun _ _ => id
  · intro evaluation hevaluation hlabel
    refine (h.turns hevaluation hs hlabel).imp ?_ fun _ _ => id
    rintro r s' ⟨hturned, hgeneration⟩
    rw [← hgeneration]
    exact h.turned hturned
  · intro evaluation hevaluation hlimit
    refine (h.stages.runBy_ends (fun _ _ _ _ hp => hp) hevaluation hs).imp ?_ fun _ _ he => h.not_fails hlimit he.1
    intro last s' hlast
    -- the run returns the last ranked population, or the one it holds when no generation was left
    rcases Option.or_eq_some_iff.mp hlast.2 with hr | ⟨-, hp⟩
    · exact h.complete_lastRanked hlast.1 hr
    · exact (hlast.1.held h.stages hp).complete

end Viable

/-- Accepted settings make viable engines. -/
theorem viable_of_validate {settings : RunSettings} {task : Task σ} {observers : List (Observer σ)} (processors : Nat)
    (seconds : String) {size : Int} {program bound : ProgramSettings} (hvalid : settings.validate = .ok ())
    (hsize : settings.populationSize = .int size) (hlt : size < 2 ^ 53)
    (hprogram : settings.programSettings = .ok program)
    (hbind : program.bind task.inputCount task.actionCount = .ok bound)
    (hanswers : task.Answers (bound.shape = .ok ·) fun _ _ _ => True) (hobservers : ∀ o ∈ observers, o.Steady) :
    ∃ e shape sizes, ofSettings settings task observers processors seconds = .ok e ∧ bound.shape = .ok shape ∧
      e.plan.breeding.populationSize = size ∧ Viable e shape sizes := by
  obtain ⟨plan, hplan, hfeasible, hgap, hprogram', hsize'⟩ := RunSettings.exists_plan hvalid
  obtain rfl := Except.ok.inj (hprogram.symm.trans hprogram')
  obtain ⟨shape, sizes, hshape, husable⟩ := ProgramSettings.exists_shape hbind
  have hsizes : plan.breeding.populationSize = size := Value.int.inj (hsize'.symm.trans hsize)
  refine ⟨⟨plan, task, observers, processors, seconds⟩, shape, sizes, ?_, hshape, hsizes, ?_⟩
  · unfold ofSettings
    rw [hvalid, hprogram, hplan]
    show (do let _ ← plan.program.bind task.inputCount task.actionCount; _) = _
    rw [hbind]
    rfl
  · refine ⟨⟨bound, hbind, hshape⟩, husable, hfeasible, hgap, by rw [hsizes]; exact hlt, ?_, hobservers⟩
    intro p r world hp
    exact hanswers p r world (by rw [hp]; exact hshape)

/-- A task in which a program of a single instruction is better than a longer one. -/
def brevity : Task Unit := ⟨"brevity", 1, 1, fun p => return .float (if p.size = 1 then 1.0 else 0.0)⟩

/-- The score of a program by its brevity. -/
def brevityOf (code : List Instruction) (_ : Shape) : Float := if code.length = 1 then 1.0 else 0.0

theorem brevity_answers (shapes : Shape → Prop) :
    brevity.Answers shapes fun code shape x => x = brevityOf code shape := by
  intro p r world _ _ _
  refine ⟨brevityOf p.code p.shape, rfl, ?_, rfl⟩
  unfold brevityOf
  split <;> decide

theorem silent_steady : ∀ o ∈ ([Observer.silent] : List (Observer Unit)), o.Steady := by
  intro o ho
  rw [List.mem_singleton.mp ho]
  intro event store p n
  exact nofun

/-- An engine with the default settings for that task. -/
def brief : Engine Unit :=
  ⟨⟨⟨100, 0.5, 0.5, .twoPoint, 1⟩, 100, 0.5, false, .int 42, 1, false, {}⟩, brevity, [Observer.silent], 1, "0.00"⟩

theorem brief_writable : (Value.int brief.plan.maxGenerations).isWritable = true := Value.isWritable_small (by decide)

/-- Accepted settings do for that task. -/
theorem brevity_viable (settings : RunSettings) {size : Int} {e : Engine Unit} (hvalid : settings.validate = .ok ())
    (hsize : settings.populationSize = .int size) (hlt : size < 2 ^ 53) (hprogram : settings.programSettings = .ok {})
    (he : ofSettings settings brevity [Observer.silent] 1 "0.00" = .ok e) : ∃ shape sizes, e.Viable shape sizes := by
  obtain ⟨bound, hbind⟩ : ∃ bound, ({} : ProgramSettings).bind brevity.inputCount brevity.actionCount = .ok bound :=
    ⟨_, rfl⟩
  have hanswers : brevity.Answers (bound.shape = .ok ·) fun _ _ _ => True :=
    (brevity_answers _).imp fun _ _ _ _ => trivial
  obtain ⟨e', shape, sizes, he', -, -, hviable⟩ :=
    viable_of_validate 1 "0.00" hvalid hsize hlt hprogram hbind hanswers silent_steady
  obtain rfl := Except.ok.inj (he'.symm.trans he)
  exact ⟨shape, sizes, hviable⟩

theorem brief_viable : ∃ shape sizes, brief.Viable shape sizes := brevity_viable {} rfl rfl (by decide) rfl rfl

variable [Generator γ] [Generator.Honest γ]

/--
**Runs with accepted settings never fail**, unless they cannot count. For settings that are accepted and can be bound to
the task, a task that answers on every program of the bound shape, steady observers and a generator that keeps its
promise, the engine is built, and in every state of every run all populations are complete, the breeding pool is neither
empty nor larger than a population, and making a first population, running a generation and running all that are left
succeed: a generation as long as its number and that of all generations can be written, and a whole run if the latter
can.
-/
theorem run_never_fails {settings : RunSettings} {task : Task σ} {observers : List (Observer σ)} (processors : Nat)
    (seconds : String) {size : Int} {program bound : ProgramSettings} (hvalid : settings.validate = .ok ())
    (hsize : settings.populationSize = .int size) (hlt : size < 2 ^ 53)
    (hprogram : settings.programSettings = .ok program)
    (hbind : program.bind task.inputCount task.actionCount = .ok bound)
    (hanswers : task.Answers (bound.shape = .ok ·) fun _ _ _ => True) (hobservers : ∀ o ∈ observers, o.Steady) :
    ∃ e shape sizes, ofSettings settings task observers processors seconds = .ok e ∧ bound.shape = .ok shape ∧
      shape.Usable sizes ∧ ∀ s₀ s : EngineState γ σ, e.Course s₀ s → Sustained e shape sizes size s := by
  obtain ⟨e, shape, sizes, he, hshape, hsizes, hviable⟩ :=
    viable_of_validate processors seconds hvalid hsize hlt hprogram hbind hanswers hobservers
  refine ⟨e, shape, sizes, he, hshape, hviable.usable, ?_⟩
  intro s₀ s hcourse
  rw [← hsizes]
  exact hviable.sustained hcourse

/-- The default settings do for that task. -/
theorem run_never_fails_default :
    ∃ e shape sizes, ofSettings {} brevity [Observer.silent] 1 "0.00" = .ok e ∧ shape.Usable sizes ∧
      ∀ s₀ s : EngineState Least Unit, e.Course s₀ s → Sustained e shape sizes 100 s := by
  have hvalid : ({} : RunSettings).validate = .ok () := rfl
  obtain ⟨bound, hbind⟩ : ∃ bound, ({} : ProgramSettings).bind brevity.inputCount brevity.actionCount = .ok bound :=
    ⟨_, rfl⟩
  have hanswers : brevity.Answers (bound.shape = .ok ·) fun _ _ _ => True :=
    (brevity_answers _).imp fun _ _ _ _ => trivial
  obtain ⟨e, shape, sizes, he, -, husable, hrun⟩ :=
    run_never_fails (γ := Least) 1 "0.00" hvalid rfl (by decide) rfl hbind hanswers silent_steady
  exact ⟨e, shape, sizes, he, husable, hrun⟩

/-! ## Out of range -/

omit [Generator.Honest γ] in
/-- A generation that cannot be labelled fails before it is evaluated. -/
theorem stepFrom_unlabelled {e : Engine σ} {p : Population} (evaluation : Population → Run γ σ Nat)
    (h : e.canLabel p.generation = false) (s : EngineState γ σ) :
    Ends (fun _ _ => False) (fun er _ => er = .fault Fault.integerTooLong) (e.stepFrom evaluation p s) := by
  refine ends_bind.mpr (ends_bind.mpr (Stages.ends_enter.mpr (ends_bind.mpr (Stages.ends_announce ?_ ?_))))
  · exact fun hlabel => nomatch hlabel.symm.trans h
  · exact fun _ => rfl

omit [Generator.Honest γ] in
/-- A generation that comes to its end has been labelled. -/
theorem canLabel_of_ok {e : Engine σ} {p r : Population} {evaluation : Population → Run γ σ Nat}
    {s s' : EngineState γ σ} (hp : s.population = some p) (h : e.stepBy evaluation s = .ok r s') :
    e.canLabel p.generation = true := by
  cases hlabel : e.canLabel p.generation with
  | true => rfl
  | false =>
      have hfails := stepFrom_unlabelled evaluation hlabel s
      rw [← e.stepBy_of_population evaluation hp, h] at hfails
      exact hfails.elim

omit [Generator.Honest γ] in
/-- A generation fails with what its evaluation fails with. -/
theorem stepFrom_unscored {e : Engine σ} {p : Population} {evaluation : Population → Run γ σ Nat} {err : Error → Prop}
    {s : EngineState γ σ} (hlabel : e.canLabel p.generation = true)
    (h : ∀ journal, Ends (fun _ _ => False) (fun er _ => err er)
      (evaluation p { s.lab with journal := journal })) :
    Ends (fun _ _ => False) (fun er t => err er ∧ t.phase = some .evaluating) (e.stepFrom evaluation p s) := by
  refine ends_bind.mpr (ends_bind.mpr (Stages.ends_enter.mpr (ends_bind.mpr (Stages.ends_announce ?_ ?_))))
  · intro _ journal
    refine (Stages.onLab_ends (h journal)).bind (fun _ _ hout => hout.2.elim) ?_
    exact fun er t ⟨ht, her⟩ => ⟨her, congrArg EngineState.phase ht⟩
  · exact fun hnone => nomatch hlabel.symm.trans hnone

/-- Where all programs are scored again, an evaluation fails with what scoring the first one fails with. -/
theorem evaluate_unscored {γ : Type} {task : Task σ} {err : Error → Prop} {p : Population} {lab : Lab γ σ}
    (hp : p.programs ≠ [])
    (h : ∀ q, Ends (fun _ _ => False) (fun er _ => err er) (score task q lab)) :
    Ends (fun _ _ => False) (fun er _ => err er) (evaluate task true p lab) := by
  obtain ⟨q, rest, hprograms⟩ := List.exists_cons_of_ne_nil hp
  refine ends_bind.mpr (ends_get.mpr (ends_bind.mpr ?_))
  unfold pending
  simp only [hprograms, List.zipIdx_cons, isPending, Bool.true_or, List.filter_true, List.map_cons]
  exact (h q).bind (fun _ _ => False.elim) fun _ _ => id

/-- A task that scores every program by the same integer. -/
def lavish (n : Int) : Task Unit := ⟨"lavish", 1, 1, fun _ => return .int n⟩

theorem score_lavish {γ : Type} {n : Int} (hn : Decimal.ofInt? n = none) (q : Program) (lab : Lab γ Unit) :
    Ends (fun _ _ => False) (fun er _ => er = .fault Fault.integerTooLarge) (score (lavish n) q lab) := by
  have hscore : toFitness q (.int n) = .error (.fault Fault.integerTooLarge) := by
    simp only [toFitness, Value.toNumber, hn]
    rfl
  show Ends _ _ (Run.ofExcept (toFitness q (.int n)) _)
  rw [hscore]
  exact rfl

/-- An engine with the default settings but for the number of generations. -/
def endless (n : Int) : Engine Unit := { brief with plan := { brief.plan with maxGenerations := n } }

/-- An engine for that task with the default settings but for scoring programs again in each generation. -/
def spendthrift (n : Int) : Engine Unit :=
  { brief with task := lavish n, plan := { brief.plan with reevaluate := true } }

theorem ofSettings_endless {n : Int} (hn : 0 ≤ n) :
    ofSettings { maxGenerations := .int n } brevity [Observer.silent] 1 "0.00" = .ok (endless n) := by
  have hlimit : Check.atLeast "max_generations" 0 (.int n) = .ok () := by
    unfold Check.atLeast
    exact if_neg (by omega)
  have hvalid : ({ maxGenerations := .int n } : RunSettings).validate = .ok () := by
    unfold RunSettings.validate
    simp only [hlimit]
    rfl
  unfold ofSettings
  rw [hvalid]
  rfl

omit [Generator.Honest γ] in
theorem endless_unlabelled {n : Int} (hn : (Value.int n).isWritable = false) (p : Population)
    (s : EngineState γ Unit) :
    Ends (fun _ _ => False) (fun er _ => er = .fault Fault.integerTooLong)
      ((endless n).stepFrom (evaluate brevity false) p s) :=
  stepFrom_unlabelled _ (by simp [canLabel, Value.areWritable, endless, hn]) s

omit [Generator.Honest γ] in
theorem spendthrift_unscored {n : Int} (hn : Decimal.ofInt? n = none) {p : Population} (hne : p.programs ≠ [])
    (hgeneration : p.generation = 0) (s : EngineState γ Unit) :
    Ends (fun _ _ => False) (fun er _ => er = .fault Fault.integerTooLarge)
      ((spendthrift n).stepFrom (evaluate (lavish n) true) p s) := by
  have hlabel : (spendthrift n).canLabel p.generation = true := by
    simp [hgeneration, canLabel, Value.areWritable, Value.isWritable_small, spendthrift, brief]
  exact (stepFrom_unscored hlabel fun _ => evaluate_unscored hne fun q => score_lavish hn q _).imp (fun _ _ => id)
    fun _ _ he => he.1

theorem ofInt_ten_pow : Decimal.ofInt? (10 ^ 400) = none := Option.isNone_iff_eq_none.mp (by decide +kernel)

/--
**Accepted settings are not enough.** With more generations than can be written, and with a task that answers with an
integer out of range, the first population is made, and its first generation fails with a general error.
-/
theorem accepted_run_fails :
    (∃ (p : Population) (s s' : EngineState Least Unit),
      ofSettings { maxGenerations := .int (10 ^ Decimal.integerDigitLimit) } brevity [Observer.silent] 1 "0.00" =
        .ok (endless (10 ^ Decimal.integerDigitLimit)) ∧
      (endless (10 ^ Decimal.integerDigitLimit)).populate (.start Least.least ()) = .ok p s ∧
      (endless (10 ^ Decimal.integerDigitLimit)).step s = .error (.fault Fault.integerTooLong) s') ∧
    ∃ (p : Population) (s s' : EngineState Least Unit),
      ofSettings { reevaluate := .bool true } (lavish (10 ^ 400)) [Observer.silent] 1 "0.00" =
        .ok (spendthrift (10 ^ 400)) ∧
      (spendthrift (10 ^ 400)).populate (.start .least ()) = .ok p s ∧
      (spendthrift (10 ^ 400)).step s = .error (.fault Fault.integerTooLarge) s' := by
  obtain ⟨shape, sizes, hviable⟩ := brief_viable
  obtain ⟨p, s, hpopulate, hp, hgeneration⟩ := (hviable.populates (.start Least.least ())).exists_ok
  have hne : p.programs ≠ [] := by
    rw [← List.length_pos_iff, hp.asserted.complete.programs.length_eq]
    decide
  constructor
  · have hunwritable := Value.isWritable_ten_pow
    have hnonneg : (0 : Int) ≤ 10 ^ Decimal.integerDigitLimit := by positivity
    generalize (10 ^ Decimal.integerDigitLimit : Int) = n at hunwritable hnonneg
    obtain ⟨er, s', hstep, rfl⟩ := (endless_unlabelled hunwritable p s).exists_error
    refine ⟨p, s, s', ofSettings_endless hnonneg, hpopulate, ?_⟩
    rw [← hstep]
    exact (endless n).stepBy_of_population (evaluate brevity false) hp.population
  · have hn := ofInt_ten_pow
    generalize (10 ^ 400 : Int) = n at hn
    obtain ⟨er, s', hstep, rfl⟩ := (spendthrift_unscored hn hne hgeneration s).exists_error
    refine ⟨p, s, s', rfl, hpopulate, ?_⟩
    rw [← hstep]
    exact (spendthrift n).stepBy_of_population (evaluate (lavish n) true) hp.population

end Engine

end RegisterEvolution
