import RegisterEvolution.Proofs.Evolution.Answers
import RegisterEvolution.Proofs.Evolution.Coupling
import RegisterEvolution.Proofs.Evolution.Phases

/-!
# `Proofs.Evolution.Lockstep` — runs that differ only in what the world remembers

Tasks and observers are the only ones that look at the world. So if a task and observers in one world do the same as
others in another world, and leave related worlds behind, then so does everything that is built from them: two engines
go through the same draws, programs, populations and errors, generation by generation.

* `InStep` — computations with the same outcome, on states that stay related;
* `Lab.Carried`, `reproduce_inStep` — breeding, on labs that are related in any way that its parts keep;
* `Engine.Beside` — engines that differ only in the world of their task and their observers;
* `stepBy_inStep`, `runBy_inStep` — one generation and a whole run of two such engines;
* `Engine.CourseBy.beside` — every state of a run of one engine has a counterpart in a run of the other.
-/

namespace RegisterEvolution

/-! ## Computations in step -/

section InStep

variable {ε σ τ α β : Type} {R : σ → τ → Prop}

/-- The same result, or the same error, in states that are related. -/
def Agree (R : σ → τ → Prop) : EStateM.Result ε σ α → EStateM.Result ε τ α → Prop
  | .ok a s, .ok b t => a = b ∧ R s t
  | .error e s, .error f t => e = f ∧ R s t
  | _, _ => False

/-- Computations that agree wherever they start from related states. -/
def InStep (R : σ → τ → Prop) (m : EStateM ε σ α) (n : EStateM ε τ α) : Prop := ∀ s t, R s t → Agree R (m s) (n t)

namespace Agree

variable {r : EStateM.Result ε σ α} {r' : EStateM.Result ε τ α}

theorem final (h : Agree R r r') : R (finalState r) (finalState r') := by
  cases r with
  | ok a s =>
      cases r' with
      | ok b t => exact h.2
      | error f t => exact h.elim
  | error e s =>
      cases r' with
      | ok b t => exact h.elim
      | error f t => exact h.2

theorem exists_ok {a : α} {s : σ} (h : Agree R (.ok a s) r') : ∃ t, r' = .ok a t ∧ R s t := by
  cases r' with
  | ok b t =>
      obtain ⟨rfl, hst⟩ := h
      exact ⟨t, rfl, hst⟩
  | error f t => exact h.elim

/-- What one of two outcomes satisfies, the other one satisfies up to the relation of states. -/
theorem ends {ok : α → σ → Prop} {err : ε → σ → Prop} (h : Agree R r r') (hr : Ends ok err r) :
    Ends (fun a t => ∃ s, R s t ∧ ok a s) (fun e t => ∃ s, R s t ∧ err e s) r' := by
  cases r with
  | ok a s =>
      cases r' with
      | ok b t =>
          obtain ⟨rfl, hst⟩ := h
          exact ⟨s, hst, hr⟩
      | error f t => exact h.elim
  | error e s =>
      cases r' with
      | ok b t => exact h.elim
      | error f t =>
          obtain ⟨rfl, hst⟩ := h
          exact ⟨s, hst, hr⟩

theorem exists_error {e : ε} {s : σ} (h : Agree R (.error e s) r') : ∃ t, r' = .error e t ∧ R s t := by
  cases r' with
  | ok b t => exact h.elim
  | error f t =>
      obtain ⟨rfl, hst⟩ := h
      exact ⟨t, rfl, hst⟩

end Agree

namespace InStep

theorem pure {a : α} : InStep R (Pure.pure a : EStateM ε σ α) (Pure.pure a : EStateM ε τ α) :=
  fun _ _ hst => ⟨rfl, hst⟩

theorem throw {e : ε} : InStep R (MonadExcept.throw e : EStateM ε σ α) (MonadExcept.throw e : EStateM ε τ α) :=
  fun _ _ hst => ⟨rfl, hst⟩

/-- One computation after the other. -/
theorem bind {m : EStateM ε σ α} {n : EStateM ε τ α} {f : α → EStateM ε σ β} {g : α → EStateM ε τ β}
    (h : InStep R m n) (hfg : ∀ a, InStep R (f a) (g a)) : InStep R (m >>= f) (n >>= g) := by
  intro s t hst
  show Agree R (EStateM.bind m f s) (EStateM.bind n g t)
  unfold EStateM.bind
  -- the first parts end alike, so that the second ones start from the same result
  have hfirst := h s t hst
  cases hm : m s with
  | ok a s' =>
      rw [hm] at hfirst
      obtain ⟨t', ht', hst'⟩ := hfirst.exists_ok
      rw [ht']
      exact hfg a s' t' hst'
  | error e s' =>
      rw [hm] at hfirst
      obtain ⟨t', ht', hst'⟩ := hfirst.exists_error
      rw [ht']
      exact ⟨rfl, hst'⟩

/-- Both look at their states, which are related. -/
theorem get_bind {f : σ → EStateM ε σ β} {g : τ → EStateM ε τ β} (h : ∀ s t, R s t → InStep R (f s) (g t)) :
    InStep R (get >>= f) (get >>= g) := fun s t hst => h s t hst s t hst

theorem modify {f : σ → σ} {g : τ → τ} (h : ∀ s t, R s t → R (f s) (g t)) :
    InStep (ε := ε) R (modify f) (modify g) := fun s t hst => ⟨rfl, h s t hst⟩

end InStep

/-- To be in step is to be coupled by equality. -/
theorem inStep_iff {m : EStateM ε σ α} {n : EStateM ε τ α} : InStep R m n ↔ Coupled R Eq Eq m n := by
  have hagree : ∀ (r : EStateM.Result ε σ α) (r' : EStateM.Result ε τ α),
      Agree R r r' ↔ Pairs (fun a b s t => a = b ∧ R s t) (fun e f s t => e = f ∧ R s t) r r' := by
    intro r r'
    cases r <;> cases r' <;> exact Iff.rfl
  exact forall₃_congr fun s t _ => hagree (m s) (n t)

end InStep

variable {γ σ τ : Type} {W : σ → τ → Prop}

/-! ## What the world has no part in -/

/-- Labs with the same content and with worlds that are related. -/
structure Lab.Beside (W : σ → τ → Prop) (lab : Lab γ σ) (lab' : Lab γ τ) : Prop where
  source : lab.source = lab'.source
  store : lab.store = lab'.store
  journal : lab.journal = lab'.journal
  warned : lab.warned = lab'.warned
  world : W lab.world lab'.world

/-- Computations on labs that agree as long as the worlds are related. -/
abbrev RunsInStep {α : Type} (W : σ → τ → Prop) (m : Run γ σ α) (n : Run γ τ α) : Prop := InStep (Lab.Beside W) m n

namespace Run

variable {α : Type} {R : Lab γ σ → Lab γ τ → Prop}

theorem draw_inStep (d : Draw γ α) : RunsInStep W (draw d) (draw d) := by
  intro lab lab' h
  unfold draw
  rw [← h.source]
  cases d lab.source with
  | ok a source => exact ⟨rfl, { h with source := rfl }⟩
  | error e source => exact ⟨rfl, { h with source := rfl }⟩

theorem onStore_inStep (c : EStateM Error Store α) : RunsInStep (γ := γ) W (onStore c) (onStore c) := by
  intro lab lab' h
  unfold onStore
  rw [← h.store]
  cases c lab.store with
  | ok a store => exact ⟨rfl, { h with store := rfl }⟩
  | error e store => exact ⟨rfl, { h with store := rfl }⟩

theorem report_inStep (record : Record) : RunsInStep (γ := γ) W (report record) (report record) :=
  .modify fun _ _ h => { h with journal := by rw [h.journal] }

theorem ofFault_inStep (r : Except Fault α) : InStep R (ofFault r) (ofFault r) := by
  cases r with
  | ok a => exact .pure
  | error f => exact .throw

theorem ofExcept_inStep (r : Except Error α) : InStep R (ofExcept r) (ofExcept r) := by
  cases r with
  | ok a => exact .pure
  | error e => exact .throw

end Run

/-! ## Breeding -/

/-- A relation of labs that everything keeps which breeding is made of. -/
structure Lab.Carried (R : Lab γ σ → Lab γ τ → Prop) : Prop where
  draw : ∀ {α : Type} (d : Draw γ α), InStep R (Run.draw d) (Run.draw d)
  construct : ∀ shape code, InStep R (Run.construct shape code) (Run.construct shape code)
  clone : ∀ p, InStep R (Run.clone p) (Run.clone p)
  report : ∀ record, InStep R (Run.report record) (Run.report record)
  warned : ∀ lab lab', R lab lab' → lab.warned = lab'.warned
  warn : ∀ lab lab', R lab lab' → R { lab with warned := true } { lab' with warned := true }

/-- Breeding does not look at the world. -/
theorem Lab.carried_beside : Lab.Carried (γ := γ) (Lab.Beside W) where
  draw := Run.draw_inStep
  construct _ _ := Run.onStore_inStep _
  clone _ := Run.onStore_inStep _
  report := Run.report_inStep
  warned _ _ h := h.warned
  warn _ _ h := { h with warned := rfl }

section Breeding

variable {R : Lab γ σ → Lab γ τ → Prop} (hR : Lab.Carried R)

include hR

theorem warnOfSmallPool_inStep (size : Nat) : InStep R (warnOfSmallPool size) (warnOfSmallPool size) := by
  refine .get_bind ?_
  intro lab lab' h
  rw [hR.warned lab lab' h]
  split
  · exact (hR.report _).bind fun _ => .modify hR.warn
  · exact .pure

/-- Breeding on such labs is coupled by equality. -/
theorem Lab.Carried.coupling : Lab.Coupling R Eq Eq where
  alike _ _ h := h ▸ ⟨rfl, rfl⟩
  fault _ := rfl
  draw d := inStep_iff.mp (hR.draw d)
  construct shape code := inStep_iff.mp (hR.construct shape code)
  clone p _ h := h ▸ inStep_iff.mp (hR.clone p)
  report record := inStep_iff.mp (hR.report record)
  warn size := inStep_iff.mp (warnOfSmallPool_inStep hR size)

variable [Generator γ]

theorem reproduce_inStep (b : Breeding) (pool : Population) : InStep R (reproduce b pool) (reproduce b pool) :=
  inStep_iff.mpr ((reproduce_coupled hR.coupling b (.refl pool)).imp fun _ _ => Population.Paired.eq)

end Breeding

/-! ## Tasks and observers -/

/-- Benches with the same banks and with worlds that are related. -/
structure Bench.Beside (W : σ → τ → Prop) (b : Bench σ) (b' : Bench τ) : Prop where
  registers : b.registers = b'.registers
  world : W b.world b'.world

/-- Notes with the same journal and with worlds that are related. -/
structure Notes.Beside (W : σ → τ → Prop) (n : Notes σ) (n' : Notes τ) : Prop where
  journal : n.journal = n'.journal
  world : W n.world n'.world

/-- Tasks of the same name and counts that score alike and leave related worlds behind. -/
structure Task.Beside (W : σ → τ → Prop) (task : Task σ) (task' : Task τ) : Prop where
  name : task.name = task'.name
  inputCount : task.inputCount = task'.inputCount
  actionCount : task.actionCount = task'.actionCount
  score : ∀ p, InStep (Bench.Beside W) (task.score p) (task'.score p)

/-- Observers of the same name that answer and report alike and leave related worlds behind. -/
structure Observer.Beside (W : σ → τ → Prop) (o : Observer σ) (o' : Observer τ) : Prop where
  name : o.name = o'.name
  notice : ∀ event store p, InStep (Notes.Beside W) (o.notice event store p) (o'.notice event store p)

section Scoring

theorem onBench_inStep {α : Type} (p : Program) {m : Scoring σ α} {n : Scoring τ α} (h : InStep (Bench.Beside W) m n) :
    RunsInStep (γ := γ) W (onBench p m) (onBench p n) := by
  intro lab lab' hlab
  have hbench := h ⟨lab.store.registers p, lab.world⟩ ⟨lab'.store.registers p, lab'.world⟩
    ⟨by rw [hlab.store], hlab.world⟩
  -- the banks that scoring leaves are put back into the lab, whatever the outcome
  have hkeep : ∀ {r r' : Registers}, r = r' → lab.store.setRegisters p r = lab'.store.setRegisters p r' := by
    rintro r _ rfl
    rw [hlab.store]
  unfold onBench
  cases hout : m ⟨lab.store.registers p, lab.world⟩ with
  | ok a b =>
      rw [hout] at hbench
      obtain ⟨b', hb', hbb'⟩ := hbench.exists_ok
      rw [hb']
      exact ⟨rfl, { hlab with store := hkeep hbb'.registers, world := hbb'.world }⟩
  | error e b =>
      rw [hout] at hbench
      obtain ⟨b', hb', hbb'⟩ := hbench.exists_error
      rw [hb']
      exact ⟨rfl, { hlab with store := hkeep hbb'.registers, world := hbb'.world }⟩

variable {task : Task σ} {task' : Task τ} (htask : task.Beside W task')

include htask

theorem score_inStep (p : Program) : RunsInStep (γ := γ) W (score task p) (score task' p) := by
  intro lab lab' h
  have hbench := onBench_inStep p (htask.score p) lab lab' h
  unfold score
  cases hout : onBench p (task.score p) lab with
  | ok v next =>
      rw [hout] at hbench
      obtain ⟨next', hnext', hbeside⟩ := hbench.exists_ok
      rw [hnext']
      exact Run.ofExcept_inStep (toFitness p v) next next' hbeside
  | error e next =>
      rw [hout] at hbench
      obtain ⟨next', hnext', hbeside⟩ := hbench.exists_error
      rw [hnext']
      refine ⟨?_, hbeside⟩
      unfold taskFailure
      rw [htask.name]

theorem scoreAll_inStep (items : List (Nat × Program)) :
    RunsInStep (γ := γ) W (scoreAll task items) (scoreAll task' items) := by
  induction items with
  | nil => exact .pure
  | cons item rest ih => exact (score_inStep htask item.2).bind fun x => ih.bind fun scores => .pure

omit htask in
theorem writeScores_inStep (population : Population) (scores : List (Nat × Float)) :
    RunsInStep (γ := γ) W (writeScores population scores) (writeScores population scores) := by
  induction scores with
  | nil => exact .pure
  | cons score rest ih =>
      obtain ⟨i, x⟩ := score
      unfold writeScores
      cases population.programs[i]? with
      | none => exact ih
      | some p =>
          refine InStep.bind ?_ fun _ => ih
          refine InStep.bind (.modify fun _ _ h => { h with store := by rw [h.store] }) ?_
          intro _
          exact Run.report_inStep _

theorem evaluate_inStep (reevaluate : Bool) (population : Population) :
    RunsInStep (γ := γ) W (evaluate task reevaluate population) (evaluate task' reevaluate population) := by
  refine .get_bind ?_
  intro lab lab' h
  rw [h.store]
  apply (scoreAll_inStep htask _).bind
  intro scores
  exact (writeScores_inStep population (inOrder scores)).bind fun _ => .pure

theorem generate_inStep [Generator γ] (settings : ProgramSettings) (size : Int) :
    RunsInStep (γ := γ) W (Population.generate settings task size) (Population.generate settings task' size) :=
  inStep_iff.mpr ((generate_coupled Lab.carried_beside.coupling (fun _ => rfl) htask.inputCount.symm
    htask.actionCount.symm settings size).imp fun _ _ => Population.Paired.eq)

end Scoring

section Answers

variable {task : Task σ} {task' : Task τ} {shapes : Shape → Prop} {worth : List Instruction → Shape → Float → Prop}

/-- The banks that a task leaves are those that a task beside it leaves, which has a counterpart of every world. -/
theorem Task.Banks.of_beside (h : task.Beside W task') (hworlds : ∀ w', ∃ w, W w w') {p : Program} {r : Registers}
    (hbanks : task'.Banks p r) : task.Banks p r := by
  induction hbanks with
  | fresh hr => exact .fresh hr
  | @scored r world' _ ih =>
      obtain ⟨world, hworld⟩ := hworlds world'
      have hbench := (h.score p ⟨r, world⟩ ⟨r, world'⟩ ⟨rfl, hworld⟩).final
      rw [← hbench.registers]
      exact ih.scored world

/-- A task beside one that answers does so as well. -/
theorem Task.Answers.of_beside (h : task.Beside W task') (hworlds : ∀ w', ∃ w, W w w')
    (hanswers : task.Answers shapes worth) : task'.Answers shapes worth := by
  intro p r world' hshape hflaw hbanks
  obtain ⟨world, hworld⟩ := hworlds world'
  obtain ⟨v, b, hv, hanswer⟩ := (hanswers p r world hshape hflaw (hbanks.of_beside h hworlds)).exists_ok
  have hscore := h.score p ⟨r, world⟩ ⟨r, world'⟩ ⟨rfl, hworld⟩
  rw [hv] at hscore
  obtain ⟨b', hb', -⟩ := hscore.exists_ok
  rw [hb']
  exact hanswer

end Answers

section Dispatch

variable (event : Event) (p : Population)

theorem onNotes_inStep {α : Type} {m : EStateM Error (Notes σ) α} {n : EStateM Error (Notes τ) α}
    (h : InStep (Notes.Beside W) m n) :
    RunsInStep (γ := γ) W (onNotes m) (onNotes n) := by
  intro lab lab' hlab
  have hnotes := h ⟨lab.journal, lab.world⟩ ⟨lab'.journal, lab'.world⟩ ⟨hlab.journal, hlab.world⟩
  unfold onNotes
  cases hout : m ⟨lab.journal, lab.world⟩ with
  | ok a notes =>
      rw [hout] at hnotes
      obtain ⟨notes', hnotes', hbeside⟩ := hnotes.exists_ok
      rw [hnotes']
      exact ⟨rfl, { hlab with journal := hbeside.journal, world := hbeside.world }⟩
  | error e notes =>
      rw [hout] at hnotes
      obtain ⟨notes', hnotes', hbeside⟩ := hnotes.exists_error
      rw [hnotes']
      exact ⟨rfl, { hlab with journal := hbeside.journal, world := hbeside.world }⟩

theorem tell_inStep {o : Observer σ} {o' : Observer τ} (h : o.Beside W o') (t : Tally) :
    RunsInStep (γ := γ) W (tell event p t o) (tell event p t o') := by
  refine .get_bind ?_
  intro lab lab' hlab
  -- what is reported about an observer depends on its name and its answer only
  rw [hlab.store, h.name]
  apply (onNotes_inStep (h.notice event lab'.store p)).bind
  intro answer
  split
  · rename_i e
    cases e.quote with
    | ok quote => exact (Run.report_inStep _).bind fun _ => .pure
    | error failure =>
        simp only
        split
        · exact .pure
        · exact .throw
  · exact (Run.report_inStep _).bind fun _ => .pure
  · exact (Run.report_inStep _).bind fun _ => .pure
  · exact .pure

theorem tellAll_inStep {os : List (Observer σ)} {os' : List (Observer τ)} (h : List.Forall₂ (Observer.Beside W) os os')
    (t : Tally) : RunsInStep (γ := γ) W (tellAll event p os t) (tellAll event p os' t) := by
  induction h generalizing t with
  | nil => exact .pure
  | cons ho _ ih => exact (tell_inStep event p ho t).bind fun t' => ih t'

theorem dispatch_inStep {os : List (Observer σ)} {os' : List (Observer τ)}
    (h : List.Forall₂ (Observer.Beside W) os os') :
    RunsInStep (γ := γ) W (dispatch os event p) (dispatch os' event p) := by
  apply (tellAll_inStep event p h .start).bind
  intro t
  cases t.failure with
  | none => exact .pure
  | some e => exact .throw

end Dispatch

/-! ## Engines -/

/-- Engines that differ only in the world of their task and their observers. -/
structure Engine.Beside (W : σ → τ → Prop) (e : Engine σ) (e' : Engine τ) : Prop where
  plan : e.plan = e'.plan
  task : e.task.Beside W e'.task
  observers : List.Forall₂ (Observer.Beside W) e.observers e'.observers

/-- Engines in the same state but for worlds that are related. -/
structure EngineState.Beside (W : σ → τ → Prop) (s : EngineState γ σ) (t : EngineState γ τ) : Prop where
  lab : s.lab.Beside W t.lab
  population : s.population = t.population
  lastRanked : s.lastRanked = t.lastRanked
  phase : s.phase = t.phase
  stopRequested : s.stopRequested = t.stopRequested

namespace Engine

/-- Computations on engines that agree as long as the worlds are related. -/
abbrev EvolvesInStep {α : Type} (W : σ → τ → Prop) (m : Evolving γ σ α) (n : Evolving γ τ α) : Prop :=
  InStep (EngineState.Beside W) m n

theorem onLab_inStep {α : Type} {m : Run γ σ α} {n : Run γ τ α} (h : RunsInStep W m n) :
    EvolvesInStep W (onLab m) (onLab n) := by
  intro s t hst
  have hlab := h s.lab t.lab hst.lab
  unfold onLab
  cases hout : m s.lab with
  | ok a lab =>
      rw [hout] at hlab
      obtain ⟨lab', hlab', hbeside⟩ := hlab.exists_ok
      rw [hlab']
      exact ⟨rfl, { hst with lab := hbeside }⟩
  | error e lab =>
      rw [hout] at hlab
      obtain ⟨lab', hlab', hbeside⟩ := hlab.exists_error
      rw [hlab']
      exact ⟨rfl, { hst with lab := hbeside }⟩

theorem report_inStep (level : Int) (message : String) :
    EvolvesInStep (γ := γ) W (report level message) (report level message) := onLab_inStep (Run.report_inStep _)

theorem enter_inStep (phase : Phase) : EvolvesInStep (γ := γ) W (enter phase) (enter phase) :=
  .modify fun _ _ h => { h with phase := rfl }

variable {e : Engine σ} {e' : Engine τ} (h : e.Beside W e')

include h

theorem notify_inStep (event : Event) (p : Population) :
    EvolvesInStep (γ := γ) W (e.notify event p) (e'.notify event p) := by
  apply (onLab_inStep (dispatch_inStep event p h.observers)).bind
  intro stops
  split
  · exact .modify fun _ _ h' => { h' with stopRequested := rfl }
  · exact .pure

/-- Evaluations that agree, on engines that do. -/
theorem evaluatePhaseBy_inStep {evaluation : Population → Run γ σ Nat} {evaluation' : Population → Run γ τ Nat}
    (hevaluation : ∀ p, RunsInStep W (evaluation p) (evaluation' p)) (p : Population) :
    EvolvesInStep W (e.evaluatePhaseBy evaluation p) (e'.evaluatePhaseBy evaluation' p) := by
  have hannounce : EvolvesInStep (γ := γ) W (e.announce p) (e'.announce p) := by
    unfold announce canLabel evaluatingMessage progress
    rw [h.plan]
    split
    · exact report_inStep _ _
    · exact .throw
  refine (enter_inStep _).bind fun _ => hannounce.bind fun _ => ?_
  exact (onLab_inStep (hevaluation p)).bind fun _ => notify_inStep h _ p

theorem rankPhase_inStep (p : Population) : EvolvesInStep (γ := γ) W (e.rankPhase p) (e'.rankPhase p) := by
  unfold rankPhase rankedMessage progress
  rw [h.plan]
  refine (enter_inStep _).bind fun _ => .get_bind fun s t hst => ?_
  rw [hst.lab.store]
  refine InStep.bind (.modify fun _ _ h' => { h' with population := rfl }) ?_
  intro _
  exact (report_inStep _ _).bind fun _ => (notify_inStep h _ _).bind fun _ => .pure

theorem selectPhase_inStep (ranked : Population) :
    EvolvesInStep (γ := γ) W (e.selectPhase ranked) (e'.selectPhase ranked) := by
  unfold selectPhase
  rw [h.plan]
  refine (enter_inStep _).bind fun _ => (onLab_inStep (Run.ofFault_inStep _)).bind ?_
  intro pool
  exact (notify_inStep h _ pool).bind fun _ => .pure

theorem isFinished_inStep : EvolvesInStep (γ := γ) W e.isFinished e'.isFinished := by
  refine .get_bind ?_
  intro s t hst
  unfold EngineState.isFinished EngineState.generation
  rw [h.plan, hst.population, hst.stopRequested]
  exact .pure

variable [Generator γ]

theorem populate_inStep : EvolvesInStep (γ := γ) W e.populate e'.populate := by
  unfold populate
  rw [h.plan]
  refine (onLab_inStep (generate_inStep h.task _ _)).bind fun p => .get_bind fun s t hst => ?_
  refine InStep.bind (fun _ _ _ => ⟨rfl, hst.lab, rfl, rfl, rfl, rfl⟩) ?_
  intro _
  exact (notify_inStep h _ p).bind fun _ => .pure

theorem replacePhase_inStep (ranked pool : Population) :
    EvolvesInStep (γ := γ) W (e.replacePhase ranked pool) (e'.replacePhase ranked pool) := by
  unfold replacePhase
  rw [h.plan]
  refine (enter_inStep _).bind fun _ => (onLab_inStep (reproduce_inStep Lab.carried_beside _ pool)).bind ?_
  intro offspring
  refine InStep.bind (.modify fun _ _ h' => { h' with phase := rfl, population := rfl }) ?_
  intro _
  exact notify_inStep h _ _

/-- Both hold the same population, or make the same first one. -/
theorem current_inStep : EvolvesInStep (γ := γ) W e.current e'.current := by
  refine .get_bind ?_
  intro s t hst
  rw [hst.population]
  split
  · exact .pure
  · exact populate_inStep h

omit [Generator γ] in
theorem remember_inStep (ranked : Population) :
    EvolvesInStep (γ := γ) W (e.remember ranked) (e'.remember ranked) := by
  unfold remember
  refine (isFinished_inStep h).bind fun finished => ?_
  have hanswer : EvolvesInStep (γ := γ) W
      (do modify fun s => { s with lastRanked := some ranked }; return ranked)
      (do modify fun s => { s with lastRanked := some ranked }; return ranked) :=
    InStep.bind (.modify fun _ _ h' => { h' with lastRanked := rfl }) fun _ => .pure
  split
  · exact (enter_inStep _).bind fun _ => hanswer
  · exact hanswer

section Generations

variable {evaluation : Population → Run γ σ Nat} {evaluation' : Population → Run γ τ Nat}
  (hevaluation : ∀ p, RunsInStep W (evaluation p) (evaluation' p))

include hevaluation

/-- **One generation of two engines** that differ only in what the world remembers. -/
theorem stepBy_inStep : EvolvesInStep W (e.stepBy evaluation) (e'.stepBy evaluation') := by
  refine (current_inStep h).bind fun p => (evaluatePhaseBy_inStep h hevaluation p).bind ?_
  intro _
  refine (rankPhase_inStep h p).bind fun ranked => (selectPhase_inStep h ranked).bind ?_
  intro pool
  exact (replacePhase_inStep h ranked pool).bind fun _ => remember_inStep h ranked

/-- The generations that are left, one after the other. -/
theorem generationsUpToBy_inStep {α : Type} {visit : Population → Evolving γ σ α}
    {visit' : Population → Evolving γ τ α} (hvisit : ∀ p, EvolvesInStep W (visit p) (visit' p)) (limit : Nat) :
    EvolvesInStep W (e.generationsUpToBy evaluation visit limit) (e'.generationsUpToBy evaluation' visit' limit) := by
  induction limit with
  | zero => exact .pure
  | succ limit ih =>
      refine (isFinished_inStep h).bind fun finished => ?_
      split
      · exact .pure
      · refine (stepBy_inStep h hevaluation).bind fun ranked => (hvisit ranked).bind ?_
        intro first
        exact ih.bind fun rest => .pure

/-- **A whole run of two such engines**, whose reports on workers and on the time are the same. -/
theorem runBy_inStep (hprocessors : e.processors = e'.processors) (hseconds : e.seconds = e'.seconds) :
    EvolvesInStep W (e.runBy evaluation) (e'.runBy evaluation') := by
  have hworkers : EvolvesInStep (γ := γ) W e.reportWorkers e'.reportWorkers := by
    unfold reportWorkers workerCount
    rw [h.plan, hprocessors]
    split
    · exact onLab_inStep (Run.report_inStep _)
    · exact .pure
  have hstart : EvolvesInStep (γ := γ) W e.reportStart e'.reportStart := by
    unfold reportStart reportQuoting startMessage
    rw [h.plan, h.task.name]
    split
    · exact report_inStep _ _
    · exact .pure
  have hgenerations : EvolvesInStep W (e.generationsBy evaluation fun _ => return ())
      (e'.generationsBy evaluation' fun _ => return ()) := by
    unfold generationsBy commence
    simp only [bind_assoc]
    refine (current_inStep h).bind fun _ => hworkers.bind fun _ => .get_bind fun s t hst => ?_
    unfold EngineState.generation
    rw [h.plan, hst.population]
    refine (generationsUpToBy_inStep h hevaluation (fun _ => .pure) _).bind fun visits => ?_
    exact (enter_inStep _).bind fun _ => .pure
  unfold runBy answerLast finishedMessage
  rw [hseconds]
  refine hstart.bind fun _ => hgenerations.bind fun _ => .get_bind fun s t hst => ?_
  unfold EngineState.generation
  rw [hst.lastRanked, hst.population, hst.lab.store]
  split
  · exact (report_inStep _ _).bind fun _ => .pure
  · exact .throw

end Generations

/-- One generation of each, scored one program after the other. -/
theorem step_inStep : EvolvesInStep (γ := γ) W e.step e'.step := by
  unfold step
  rw [h.plan]
  exact stepBy_inStep h fun p => evaluate_inStep h.task _ p

/-- **Every run of an engine is one of an engine beside it**, from any state that is beside its first one. -/
theorem CourseBy.beside {ways : (Population → Run γ σ Nat) → Prop} {ways' : (Population → Run γ τ Nat) → Prop}
    (hways : ∀ evaluation, ways evaluation → ∃ evaluation', ways' evaluation' ∧
      ∀ p, RunsInStep W (evaluation p) (evaluation' p))
    {s₀ s : EngineState γ σ} {t₀ : EngineState γ τ} (h₀ : s₀.Beside W t₀) (hcourse : e.CourseBy ways s₀ s) :
    ∃ t, s.Beside W t ∧ e'.CourseBy ways' t₀ t := by
  -- the run beside it takes the same steps, so that the induction is along the run
  induction hcourse with
  | begin hpopulation hlast => exact ⟨t₀, h₀, .begin (h₀.population ▸ hpopulation) (h₀.lastRanked ▸ hlast)⟩
  | @populate p lab hp =>
      have hgenerate := generate_inStep (γ := γ) h.task e.plan.program e.plan.breeding.populationSize s₀.lab t₀.lab
        h₀.lab
      rw [hp] at hgenerate
      obtain ⟨lab', hlab', -⟩ := hgenerate.exists_ok
      rw [h.plan] at hlab'
      exact ⟨_, (populate_inStep h s₀ t₀ h₀).final, .populate hlab'⟩
  | step hevaluation _ ih =>
      obtain ⟨t, hst, ht⟩ := ih
      obtain ⟨evaluation', hevaluation', hstep⟩ := hways _ hevaluation
      exact ⟨_, (stepBy_inStep h hstep _ t hst).final, ht.step hevaluation'⟩
  | @aside s s' _ hstore hworld hpopulation hlast ih =>
      obtain ⟨t, hst, ht⟩ := ih
      -- what may change between generations is taken over, and the world stays as it was
      refine ⟨⟨{ s'.lab with world := t.lab.world }, s'.population, s'.lastRanked, s'.phase, s'.stopRequested⟩,
        ⟨⟨rfl, rfl, rfl, rfl, ?_⟩, rfl, rfl, rfl, rfl⟩, ht.aside ?_ rfl ?_ ?_⟩
      · rw [hworld]
        exact hst.lab.world
      · exact hstore.trans hst.lab.store
      · exact hpopulation.trans hst.population
      · exact hlast.trans hst.lastRanked

end Engine

end RegisterEvolution
