import RegisterEvolution.Proofs.Evolution.Lockstep
import RegisterEvolution.Proofs.Evolution.Progress
import RegisterEvolution.Proofs.Evolution.Turnover

/-!
# `Proofs.Evolution.Coherence` — the fitness that is written down is the fitness of the program

Unless programs are scored again, a fitness is written down once and is taken over by clones. For a task whose score is
a function of instructions and shape, every fitness of every population of a run is the value of that function, whatever
is drawn, whoever evaluates and whoever fails. What a generation has asked the task about is scored from then on, so
that a run asks at most once about each program.

* `Engine.audited`, `Engine.audited_beside` — an engine with a record of the calls of its task, and nothing else
  changed;
* `Ledger`, `Accounted` — views of the world that calls are pushed on, and the calls behind such a view;
* `coherence` — the stages of a coherent run; `callsOf` — the stages of one generation, with the calls that it makes;
* `Engine.fitness_coherent` — every state of every run is coherent, and so are the calls up to it.
-/

namespace RegisterEvolution

variable {γ σ τ : Type}

/-! ## Engines that keep a record -/

/-- The task with a record of the programs that it has been asked to score. -/
def Task.audited (task : Task σ) : Task (σ × List Program) :=
  ⟨task.name, task.inputCount, task.actionCount, fun p b =>
    match task.score p ⟨b.registers, b.world.1⟩ with
    | .ok v b' => .ok v ⟨b'.registers, (b'.world, b.world.2 ++ [p])⟩
    | .error e b' => .error e ⟨b'.registers, (b'.world, b.world.2 ++ [p])⟩⟩

/-- The observer in a world with a record, which it does not touch. -/
def Observer.besideRecord (o : Observer σ) : Observer (σ × List Program) :=
  ⟨o.name, fun event store p n =>
    match o.notice event store p ⟨n.journal, n.world.1⟩ with
    | .ok v n' => .ok v ⟨n'.journal, (n'.world, n.world.2)⟩
    | .error e n' => .error e ⟨n'.journal, (n'.world, n.world.2)⟩⟩

/-- The engine with a record of the programs that its task has been asked to score. -/
def Engine.audited (e : Engine σ) : Engine (σ × List Program) :=
  ⟨e.plan, e.task.audited, e.observers.map (·.besideRecord), e.processors, e.seconds⟩

/-- The state of an engine with a record in its world. -/
def EngineState.withRecord (s : EngineState γ σ) (record : List Program) : EngineState γ (σ × List Program) :=
  ⟨⟨s.lab.source, s.lab.store, s.lab.journal, s.lab.warned, (s.lab.world, record)⟩, s.population, s.lastRanked, s.phase,
    s.stopRequested⟩

/-- The same world, without and with a record. -/
abbrev Recorded (w : σ) (w' : σ × List Program) : Prop := w = w'.1

theorem EngineState.beside_withRecord (s : EngineState γ σ) (record : List Program) :
    s.Beside Recorded (s.withRecord record) := ⟨⟨rfl, rfl, rfl, rfl, rfl⟩, rfl, rfl, rfl, rfl⟩

/-- A state beside another one is that one with a record. -/
theorem EngineState.Beside.eq_withRecord {s : EngineState γ σ} {t : EngineState γ (σ × List Program)}
    (h : s.Beside Recorded t) : t = s.withRecord t.lab.world.2 := by
  obtain ⟨⟨_, _, _, _, w⟩, _, _, _, _⟩ := s
  obtain ⟨⟨_, _, _, _, w', record⟩, _, _, _, _⟩ := t
  obtain ⟨⟨rfl, rfl, rfl, rfl, rfl⟩, rfl, rfl, rfl, rfl⟩ := h
  rfl

theorem Task.audited_beside (task : Task σ) : task.Beside Recorded task.audited := by
  refine ⟨rfl, rfl, rfl, ?_⟩
  rintro p ⟨registers, world⟩ ⟨_, _, record⟩ ⟨rfl, rfl⟩
  unfold Task.audited
  simp only
  cases task.score p ⟨registers, world⟩ with
  | ok v b => exact ⟨rfl, rfl, rfl⟩
  | error e b => exact ⟨rfl, rfl, rfl⟩

theorem Observer.besideRecord_beside (o : Observer σ) : o.Beside Recorded o.besideRecord := by
  refine ⟨rfl, ?_⟩
  rintro event store p ⟨journal, world⟩ ⟨_, _, record⟩ ⟨rfl, rfl⟩
  unfold Observer.besideRecord
  simp only
  cases o.notice event store p ⟨journal, world⟩ with
  | ok v n => exact ⟨rfl, rfl, rfl⟩
  | error e n => exact ⟨rfl, rfl, rfl⟩

/-- Keeping a record changes nothing else. -/
theorem Engine.audited_beside (e : Engine σ) : e.Beside Recorded e.audited :=
  ⟨rfl, e.task.audited_beside, List.forall₂_map_right_iff.mpr (List.forall₂_same.mpr fun o _ => o.besideRecord_beside)⟩

variable {task : Task σ} {shapes : Shape → Prop} {worth : List Instruction → Shape → Float → Prop}

/-- A task that answers does so with a record. -/
theorem Task.Answers.audited (h : task.Answers shapes worth) : task.audited.Answers shapes worth :=
  h.of_beside task.audited_beside fun w' => ⟨w'.1, rfl⟩

/-! ## Ledgers -/

/-- A view of the world on which every call of the task is pushed, and which observers leave as it is. -/
structure Ledger (e : Engine σ) (τ : Type) where
  view : σ → τ
  push : τ → Program → τ
  scored : ∀ p b, view (finalState (e.task.score p b)).world = push (view b.world) p
  observed : ∀ o ∈ e.observers, o.Keeps view

/-- The ledger without any information, which every engine has. -/
def Ledger.blank (e : Engine σ) : Ledger e Unit := ⟨fun _ => (), fun _ _ => (), fun _ _ => rfl, fun _ _ _ _ _ _ => rfl⟩

/-- The record of an engine that keeps one is a ledger. -/
def Ledger.ofRecord (e : Engine σ) : Ledger e.audited (List Program) where
  view := Prod.snd
  push calls p := calls ++ [p]
  scored p b := by
    show (finalState (e.task.audited.score p b)).world.2 = b.world.2 ++ [p]
    unfold Task.audited
    simp only
    cases e.task.score p ⟨b.registers, b.world.1⟩ <;> rfl
  observed o ho event store p n := by
    obtain ⟨o', -, rfl⟩ := List.mem_map.mp ho
    unfold Observer.besideRecord
    simp only
    cases o'.notice event store p ⟨n.journal, n.world.1⟩ <;> rfl

/-- Calls that are pushed on a record one after the other are appended to it. -/
theorem foldl_push (record calls : List Program) :
    calls.foldl (fun calls p => calls ++ [p]) record = record ++ calls := by
  induction calls generalizing record with
  | nil => exact (List.append_nil record).symm
  | cons p rest ih => rw [List.foldl_cons, ih, List.append_assoc, List.singleton_append]

/-- A view to which different programs have been pushed since `start`, all of which have a fitness by now. -/
def Accounted {e : Engine σ} (L : Ledger e τ) (start : τ) (s : Store) (w : τ) : Prop :=
  ∃ calls : List Program, w = calls.foldl L.push start ∧ (calls.map (·.id)).Nodup ∧
    ∀ q ∈ calls, ∃ x, s.fitnessAt q.id = some x

namespace Accounted

variable {e : Engine σ} {L : Ledger e τ} {start w : τ} {s s' : Store}

theorem begin (L : Ledger e τ) (start : τ) (s : Store) : Accounted L start s start :=
  ⟨[], rfl, List.nodup_nil, List.forall_mem_nil _⟩

theorem later (h : Accounted L start s w) (hle : s.Retains s') : Accounted L start s' w := by
  obtain ⟨calls, hw, hnodup, hscored⟩ := h
  refine ⟨calls, hw, hnodup, ?_⟩
  intro q hq
  obtain ⟨x, hx⟩ := hscored q hq
  exact ⟨x, hle _ _ hx⟩

/-- Calls about programs without a fitness are about new programs. -/
theorem push (h : Accounted L start s w) (hle : s.Retains s') {ps : List Program} (hnodup : (ps.map (·.id)).Nodup)
    (hnone : ∀ p ∈ ps, s.fitnessAt p.id = none) (hscored : ∀ p ∈ ps, ∃ x, s'.fitnessAt p.id = some x) :
    Accounted L start s' (ps.foldl L.push w) := by
  obtain ⟨calls, rfl, hcalls, hcalled⟩ := h
  refine ⟨calls ++ ps, (List.foldl_append ..).symm, ?_, ?_⟩
  · rw [List.map_append]
    refine List.nodup_append.mpr ⟨hcalls, hnodup, ?_⟩
    rintro id hid _ hid' rfl
    obtain ⟨q, hq, rfl⟩ := List.mem_map.mp hid
    obtain ⟨p, hp, heq⟩ := List.mem_map.mp hid'
    obtain ⟨x, hx⟩ := hcalled q hq
    rw [← heq, hnone p hp] at hx
    exact nomatch hx
  · intro q hq
    rcases List.mem_append.mp hq with hq | hq
    · obtain ⟨x, hx⟩ := hcalled q hq
      exact ⟨x, hle _ _ hx⟩
    · exact hscored q hq

end Accounted

/-! ## Stages of a coherent run -/

/-- The programs that have no fitness yet. -/
def unscored (s : Store) (ps : List Program) : List Program := ps.filter fun p => (s.fitness p).isNone

section Stages

variable {e : Engine σ} (h : e.task.Answers e.Bound worth) (L : Ledger e τ) (start : τ) (base : Store)

/-- What is asserted of every population of a coherent run; no fitness in the store `base` has been lost. -/
structure Coherent (last : Option Population) (s : Store) (w : τ) (p : Population) : Prop where
  upholds : Upholds h.standard s p.programs
  lastRanked : ∀ r, last = some r → Worthy h.standard s r.programs
  accounted : Accounted L start s w
  retained : base.Retains s

/-- An evaluation calls the task about the unscored programs, each of which has a fitness afterwards. -/
theorem evaluate_coherent (hcache : e.plan.reevaluate = false) (population : Population) (lab : Lab γ σ)
    (hps : Upholds h.standard lab.store population.programs) :
    Ends (fun _ lab' => Upholds h.standard lab'.store population.programs ∧
        Worthy h.standard lab'.store population.programs ∧ lab.store.Retains lab'.store ∧
        L.view lab'.world = (unscored lab.store population.programs).foldl L.push (L.view lab.world))
      Never (evaluate e.task e.plan.reevaluate population lab) := by
  rw [hcache]
  have hcalls := evaluate_calls (γ := γ) L.scored false population lab
  exact ((evaluate_ok h false population lab hps).and hcalls).imp
    (fun _ lab' hout => ⟨hout.1.1, hout.1.2.worthy hout.1.1, hout.1.2.retains, hout.2⟩) fun _ _ he => he.1

variable {h L start base}

/-- A generation is coherent, and scored, once it has been evaluated, by whomever. -/
theorem Coherent.evaluate {evaluation : Population → Run γ σ Nat} (hevaluation : e.Evaluates evaluation)
    {last : Option Population} {population : Population} {lab : Lab γ σ}
    (hp : Coherent h L start base last lab.store (L.view lab.world) population) (hcache : e.plan.reevaluate = false) :
    Ends (fun _ lab' => Coherent h L start base last lab'.store (L.view lab'.world) population ∧
        Worthy h.standard lab'.store population.programs) Never (evaluation population lab) := by
  cases hevaluation with
  | alone =>
      refine (evaluate_coherent h L hcache population lab hp.upholds).imp ?_ fun _ _ => id
      intro _ lab' hout
      obtain ⟨hupholds, hworthy, hretains, hworld⟩ := hout
      refine ⟨⟨hupholds, fun r hr => (hp.lastRanked r hr).later hretains, ?_, hp.retained.trans hretains⟩, hworthy⟩
      rw [hworld]
      -- only unscored programs have been called about, and those have a fitness now
      have hsub : (unscored lab.store population.programs).Sublist population.programs := List.filter_sublist
      refine hp.accounted.push hretains (hp.upholds.nodup.sublist (hsub.map _)) ?_ ?_
      · intro q hq
        exact Option.isNone_iff_eq_none.mp (List.mem_filter.mp hq).2
      · intro q hq
        obtain ⟨x, hx, -⟩ := hworthy q (hsub.mem hq)
        exact ⟨x, hx⟩
  | pooled schedule hschedule =>
      -- workers call the task in worlds of their own
      refine ((evaluateDelivered_ok h hp.upholds (hschedule population lab)).and
        (evaluateDelivered_world population _ lab)).imp ?_ fun _ _ he => he.1
      intro _ lab' hout
      obtain ⟨⟨hupholds, hevaluated⟩, hworld⟩ := hout
      rw [hcache] at hevaluated
      rw [hworld]
      exact ⟨⟨hupholds, fun r hr => (hp.lastRanked r hr).later hevaluated.retains,
        hp.accounted.later hevaluated.retains, hp.retained.trans hevaluated.retains⟩, hevaluated.worthy hupholds⟩

/-- Ranking moves programs and nothing else. -/
theorem Coherent.rank {last : Option Population} {s : Store} {w : τ} {p : Population}
    (hp : Coherent h L start base last s w p) : Coherent h L start base last s w (p.rank s) :=
  { hp with upholds := hp.upholds.rank }

variable [Generator γ]

/-- The next generation is coherent, whatever breeding draws and also when it fails. -/
theorem Coherent.breed {last : Option Population} {r pool : Population} {lab : Lab γ σ}
    (hr : Coherent h L start base last lab.store (L.view lab.world) r)
    (hworthy : Worthy h.standard lab.store r.programs)
    (hpool : r.select e.plan.gap = .ok pool) :
    Ends (fun next lab' => ∀ past, past = last ∨ past = some r →
        Coherent h L start base past lab'.store (L.view lab'.world) { next with generation := r.generation + 1 })
      (fun _ lab' => Coherent h L start base last lab'.store (L.view lab'.world) r)
      (reproduce e.plan.breeding pool lab) := by
  -- breeding does not ask the task, and loses no fitness
  have hgrows : ∀ lab' : Lab γ σ, lab.Grows pool.programs lab' →
      lab.store.Retains lab'.store ∧ Accounted L start lab'.store (L.view lab'.world) ∧ base.Retains lab'.store := by
    intro lab' hgrows
    have hretains := hgrows.lineage.grown.retains
    rw [hgrows.world]
    exact ⟨hretains, hr.accounted.later hretains, hr.retained.trans hretains⟩
  refine (reproduce_upholds e.plan.breeding pool lab (hr.upholds.select hpool)).imp ?_ ?_
  · intro next lab' hout past hpast
    obtain ⟨hretains, haccounted, hretained⟩ := hgrows lab' hout.1
    refine ⟨hout.2.1, ?_, haccounted, hretained⟩
    intro r' hr'
    rcases hpast with rfl | rfl
    · exact (hr.lastRanked r' hr').later hretains
    · obtain rfl := Option.some.inj hr'
      exact hworthy.later hretains
  · intro _ lab' he
    obtain ⟨hretains, haccounted, hretained⟩ := hgrows lab' he
    exact ⟨hr.upholds.later he.lineage.grown, fun r' hr' => (hr.lastRanked r' hr').later hretains, haccounted,
      hretained⟩

variable (h L start base)

/-- **The stages of a coherent run**, whoever fails. -/
def coherence (hcache : e.plan.reevaluate = false) : Engine.Stages γ e τ where
  view := L.view
  mayFail := True
  ways := e.Evaluates
  vacant s w := Accounted L start s w ∧ base.Retains s
  held := Coherent h L start base
  spoiled _ _ _ _ := False
  scored last s w p := Coherent h L start base last s w p ∧ Worthy h.standard s p.programs
  ranked last s w p := Coherent h L start base last s w p ∧ Worthy h.standard s p.programs
  left := Coherent h L start base
  generates lab hvacant := by
    have hgrows : ∀ lab' : Lab γ σ, lab.Grows [] lab' →
        Accounted L start lab'.store (L.view lab'.world) ∧ base.Retains lab'.store := by
      intro lab' hgrows
      have hretains := hgrows.lineage.grown.retains
      rw [hgrows.world]
      exact ⟨hvacant.1.later hretains, hvacant.2.trans hretains⟩
    refine (generate_upholds (S := h.standard) e.plan.program e.plan.breeding.populationSize lab
      fun bound shape hbind hshape => ⟨bound, hbind, hshape⟩).imp ?_ ?_
    · intro p lab' hout
      obtain ⟨haccounted, hretained⟩ := hgrows lab' hout.1
      exact ⟨hout.2.1, fun _ => nofun, haccounted, hretained⟩
    · intro _ lab' he
      exact ⟨trivial, hgrows lab' he⟩
  evaluates _ hevaluation _ _ _ hp _ := (hp.evaluate hevaluation hcache).imp (fun _ _ hout => hout)
    fun _ _ => False.elim
  ranks last s w p hp := ⟨hp.1.rank, hp.2.perm (Population.rank_perm s p).symm⟩
  selects _ _ _ _ _ := .inl trivial
  breeds last r pool lab hr hpool := (hr.1.breed hr.2 hpool).imp (fun _ _ hnext => hnext) fun _ _ he => ⟨trivial, he⟩
  notices event p lab := (dispatch_ends event p L.observed lab).imp (fun _ _ hout => hout) fun _ _ he => ⟨trivial, he⟩
  left_of_held _ _ _ _ hp _ := hp
  left_of_spoiled _ _ _ _ := False.elim
  left_of_scored _ _ _ _ hp := hp.1
  left_of_ranked _ _ _ _ hp := hp.1

/-- What a generation has called the task about, `s` and `w` being the store and the view at its beginning. -/
structure Called (s : Store) (w : τ) (ps : List Program) (s' : Store) (w' : τ) (p : Population) : Prop where
  upholds : Upholds h.standard s' p.programs
  called : w' = (unscored s ps).foldl L.push w

/-- **The stages of one generation that say which calls it makes.** -/
def callsOf (hcache : e.plan.reevaluate = false) (s : Store) (w : τ) (ps : List Program) : Engine.Stages γ e τ where
  view := L.view
  mayFail := True
  ways := (· = evaluate e.task e.plan.reevaluate)
  vacant _ _ := False
  held _ s' w' p := (s' = s ∧ w' = w ∧ p.programs = ps) ∧ Upholds h.standard s' p.programs ∧
    e.canLabel p.generation = true
  spoiled _ _ _ _ := False
  scored _ := Called h L s w ps
  ranked _ := Called h L s w ps
  left _ _ w' _ := w' = (unscored s ps).foldl L.push w
  generates _ := False.elim
  evaluates evaluation heq last p lab hp _ := by
    obtain rfl : evaluation = _ := heq
    exact (evaluate_coherent h L hcache p lab hp.2.1).imp
      (fun _ _ hout => ⟨hout.1, by rw [hout.2.2.2, hp.1.1, hp.1.2.1, hp.1.2.2]⟩) fun _ _ => False.elim
  ranks last s' w' p hp := ⟨hp.upholds.rank, hp.called⟩
  selects _ _ _ _ _ := .inl trivial
  breeds last r pool lab hr hpool := (reproduce_upholds e.plan.breeding pool lab (hr.upholds.select hpool)).imp
    (fun _ _ hout _ _ => by rw [hout.1.world, hr.called]) fun _ _ he => ⟨trivial, by rw [he.world, hr.called]⟩
  notices event p lab := (dispatch_ends event p L.observed lab).imp (fun _ _ hout => hout) fun _ _ he => ⟨trivial, he⟩
  left_of_held _ _ _ _ hp hlabel := nomatch hp.2.2.symm.trans hlabel
  left_of_spoiled _ _ _ _ := False.elim
  left_of_scored _ _ _ _ hp := hp.called
  left_of_ranked _ _ _ _ hp := hp.called

end Stages

/-! ## Coherent runs -/

/-- A fitness, where there is one, is the value of a function of instructions and shape. -/
def Cached (F : List Instruction → Shape → Float) (s : Store) (ps : List Program) : Prop :=
  ∀ q ∈ ps, ∀ x, s.fitness q = some x → x = F q.code q.shape

/-- There is a fitness everywhere, and it is the value of a function of instructions and shape. -/
def Settled (F : List Instruction → Shape → Float) (s : Store) (ps : List Program) : Prop :=
  ∀ q ∈ ps, s.fitness q = some (F q.code q.shape)

namespace Engine

/-- The fitness in all populations that an engine holds, or that the next generation evaluates, ranks and selects,
    however it is evaluated. -/
structure CoherentAt [Generator γ] (e : Engine σ) (F : List Instruction → Shape → Float) (s : EngineState γ σ) :
    Prop where
  held : ∀ p, s.population = some p → Cached F s.lab.store p.programs
  lastRanked : ∀ r, s.lastRanked = some r → Settled F s.lab.store r.programs
  evaluated : ∀ evaluation : Population → Run γ σ Nat, e.Evaluates evaluation → ∀ p, s.population = some p →
    e.canLabel p.generation = true → Settled F (finalState (e.evaluatePhaseBy evaluation p s)).lab.store p.programs
  step : ∀ evaluation : Population → Run γ σ Nat, e.Evaluates evaluation →
    Ends (fun r s' => Settled F s'.lab.store r.programs ∧
      ∀ pool, r.select e.plan.gap = .ok pool → Settled F s'.lab.store pool.programs) (fun _ _ => True)
      (e.stepBy evaluation s)
  /-- Once a generation has been evaluated, none of its programs is ever unscored again. -/
  settled : ∀ evaluation : Population → Run γ σ Nat, e.Evaluates evaluation → ∀ p, s.population = some p →
    e.canLabel p.generation = true → ∀ P s', e.Stretch P (finalState (e.stepBy evaluation s)) s' →
      Settled F s'.lab.store p.programs

/--
The calls of the task in a run from `s₀` to `s` that scores one program after the other: a record that is kept from the
beginning has them, they are about different programs, and the next generation adds those about what is unscored if it
is evaluated at all.
-/
structure AuditedAt [Generator γ] (e : Engine σ) (s₀ s : EngineState γ σ) (calls : List Program) : Prop where
  course : e.audited.LoneCourse (s₀.withRecord []) (s.withRecord calls)
  distinct : (calls.map (·.id)).Nodup
  step : ∀ p, s.population = some p → e.canLabel p.generation = true →
    finalState (e.audited.step (s.withRecord calls)) =
      (finalState (e.step s)).withRecord (calls ++ unscored s.lab.store p.programs)

variable [Generator γ] {e : Engine σ} {F : List Instruction → Shape → Float}

/-- Settled programs are those which all have the fitness of worth. -/
theorem settled_of_worthy (h : e.task.Answers e.Bound fun code shape x => x = F code shape) {s : Store}
    {ps : List Program} (hworthy : Worthy h.standard s ps) : Settled F s ps := by
  intro q hq
  obtain ⟨x, hx, -, rfl⟩ := hworthy q hq
  exact hx

/-- Coherence may be asserted with respect to the fitness that there is at present. -/
theorem coherence_anew (h : e.task.Answers e.Bound worth) {L : Ledger e τ} {start : τ} {base : Store}
    (hcache : e.plan.reevaluate = false) {s : EngineState γ σ} (hs : (coherence h L start base hcache).Holds s) :
    (coherence h L start s.lab.store hcache).Holds s := by
  rcases hs with ⟨p, hp⟩ | ⟨hpopulation, hlast, haccounted, -⟩
  · exact .inl ⟨p, hp.population, rfl, { hp.asserted with retained := .refl _ }⟩
  · exact .inr ⟨hpopulation, hlast, haccounted, .refl _⟩

/-- A fitness stays from one generation to the next, and in between. -/
theorem retains_of_stretch (h : e.task.Answers e.Bound worth) {L : Ledger e τ} {start : τ} {base : Store}
    (hcache : e.plan.reevaluate = false) {P : (Population → Run γ σ Nat) → EngineState γ σ → Prop}
    {s s' : EngineState γ σ} (hs : (coherence h L start base hcache).Holds s) (hstretch : e.Stretch P s s') :
    s.lab.store.Retains s'.lab.store := by
  let I : Stages γ e τ := coherence h L start s.lab.store hcache
  have hclosed : ∀ last s w p, I.left last s w p → I.held last s w p := fun _ _ _ _ hp => hp
  have hs' : I.Holds s' := by
    induction hstretch with
    | here => exact coherence_anew h hcache hs
    | step hevaluation _ _ ih =>
        exact Ends.final ((I.stepBy_ends hclosed hevaluation ih).imp (fun _ _ hr => hr.1.holds I hclosed)
          fun _ _ he => he.2)
    | aside _ hstore hworld hpopulation hlast ih => exact ih.aside I hstore (by rw [hworld]) hpopulation hlast
  rcases hs' with ⟨p, hp⟩ | ⟨-, -, -, hretained⟩
  · exact hp.asserted.retained
  · exact hretained

/-- Nor does a generation lose one between its evaluation and its end. -/
theorem retains_of_scored (h : e.task.Answers e.Bound worth) {L : Ledger e τ} {start : τ} {base : Store}
    (hcache : e.plan.reevaluate = false) {s : EngineState γ σ} {last : Option Population} {p : Population}
    (hat : At L.view (coherence h L start base hcache : Stages γ e τ).scored last p s) :
    s.lab.store.Retains (finalState (e.afterEvaluation p s)).lab.store := by
  let I : Stages γ e τ := coherence h L start s.lab.store hcache
  have hscored : At I.view I.scored last p s :=
    ⟨hat.population, hat.lastRanked, { hat.asserted.1 with retained := .refl _ }, hat.asserted.2⟩
  refine Ends.final (P := fun s' => s.lab.store.Retains s'.lab.store) ((I.afterEvaluation_ends hscored).imp ?_ ?_)
  · rintro r s' ⟨⟨_, _, _, _, -, -, -, -, hleft⟩, -⟩
    exact hleft.asserted.retained
  · rintro _ s' ⟨-, q, hq⟩
    exact hq.asserted.retained

/-- The fitness in the state of a run. No record is needed for it, so that the ledger is the blank one. -/
theorem coherentAt (h : e.task.Answers e.Bound fun code shape x => x = F code shape)
    (hcache : e.plan.reevaluate = false) {s₀ s : EngineState γ σ} (hcourse : e.Course s₀ s) : e.CoherentAt F s := by
  let I : Stages γ e Unit := coherence h (.blank e) () s₀.lab.store hcache
  have hclosed : ∀ last s w p, I.left last s w p → I.held last s w p := fun _ _ _ _ hp => hp
  have hs : I.Holds s := I.holds hclosed ⟨.begin .., .refl _⟩ hcourse
  -- evaluation comes first, and the rest of the generation loses no fitness
  have hevaluated : ∀ evaluation : Population → Run γ σ Nat, e.Evaluates evaluation → ∀ p, s.population = some p →
      e.canLabel p.generation = true →
        Ends (fun _ s' => At I.view I.scored s.lastRanked p s') (fun _ s' => At I.view I.scored s.lastRanked p s')
          (e.evaluatePhaseBy evaluation p s) := by
    intro evaluation hevaluation p hp hlabel
    refine (I.evaluatePhaseBy_ends hevaluation ⟨hp, rfl, hs.held I hp⟩).imp (fun _ _ => id) ?_
    rintro _ s' (⟨-, hspoiled | hscored⟩ | ⟨hnone, -⟩)
    · exact hspoiled.asserted.elim
    · exact hscored
    · exact nomatch hlabel.symm.trans hnone
  constructor
  · intro p hp q hq x hx
    exact ((hs.held I hp).upholds.worth hq hx).2
  · intro r hr
    rcases hs with ⟨p, hp⟩ | ⟨-, hnone, -⟩
    · exact settled_of_worthy h (hp.asserted.lastRanked r hr)
    · exact nomatch hr.symm.trans hnone
  · intro evaluation hevaluation p hp hlabel
    exact Ends.final (P := fun s' => Settled F s'.lab.store p.programs)
      ((hevaluated evaluation hevaluation p hp hlabel).imp (fun _ _ hat => settled_of_worthy h hat.asserted.2)
        fun _ _ hat => settled_of_worthy h hat.asserted.2)
  · intro evaluation hevaluation
    refine (I.stepBy_ends hclosed hevaluation hs).imp ?_ fun _ _ _ => trivial
    rintro r s' ⟨⟨pool, next, lab, lab', hranked, hpool, hbred, hstore, hat⟩, -⟩
    have hr : Settled F s'.lab.store r.programs := settled_of_worthy h (hat.asserted.lastRanked r rfl)
    refine ⟨hr, ?_⟩
    intro pool' hpool'
    obtain ⟨kept, -, rfl⟩ := Population.select_ok hpool'
    exact fun q hq => hr q (List.mem_of_mem_take hq)
  · intro evaluation hevaluation p hp hlabel P s' hstretch
    have hnext := I.holds hclosed ⟨.begin .., .refl _⟩ (hcourse.step hevaluation)
    have hworthy : Worthy h.standard (finalState (e.stepBy evaluation s)).lab.store p.programs := by
      have hscored := hevaluated evaluation hevaluation p hp hlabel
      rw [e.stepBy_of_population evaluation hp]
      refine Ends.final (P := fun s' => Worthy h.standard s'.lab.store p.programs) (hscored.bind ?_ ?_)
      · exact fun _ s₁ hat => .of_final (hat.asserted.2.later (retains_of_scored h hcache hat))
      · exact fun _ _ hat => hat.asserted.2
    exact settled_of_worthy h (hworthy.later (retains_of_stretch h hcache hnext hstretch))

/-- What a record that has been kept from the beginning says. -/
theorem calls_of_course (h : e.task.Answers e.Bound worth) (hcache : e.plan.reevaluate = false)
    {s₀ s : EngineState γ (σ × List Program)} (hcourse : e.audited.LoneCourse s₀ s) :
    ∃ calls, s.lab.world.2 = s₀.lab.world.2 ++ calls ∧ (calls.map (·.id)).Nodup := by
  let I : Stages γ e.audited (List Program) :=
    coherence h.audited (.ofRecord e) s₀.lab.world.2 s₀.lab.store hcache
  have hs : I.Holds s := I.holds (fun _ _ _ _ hp => hp) ⟨.begin .., .refl _⟩ hcourse.course
  have haccounted : Accounted (.ofRecord e) s₀.lab.world.2 s.lab.store s.lab.world.2 := by
    rcases hs with ⟨p, hp⟩ | ⟨-, -, hvacant, -⟩
    · exact hp.asserted.accounted
    · exact hvacant
  obtain ⟨calls, hcalls, hdistinct, -⟩ := haccounted
  exact ⟨calls, hcalls.trans (foldl_push ..), hdistinct⟩

/-- What one generation adds to a record. -/
theorem calls_of_step (h : e.task.Answers e.Bound worth) (hcache : e.plan.reevaluate = false)
    {s₀ s : EngineState γ (σ × List Program)} (hcourse : e.audited.LoneCourse s₀ s) {p : Population}
    (hp : s.population = some p) (hlabel : e.canLabel p.generation = true) :
    (finalState (e.audited.step s)).lab.world.2 = s.lab.world.2 ++ unscored s.lab.store p.programs := by
  have haudited : e.audited.task.Answers e.audited.Bound worth := h.audited
  let I : Stages γ e.audited (List Program) :=
    coherence haudited (.ofRecord e) s₀.lab.world.2 s₀.lab.store hcache
  have hs : I.Holds s := I.holds (fun _ _ _ _ hp => hp) ⟨.begin .., .refl _⟩ hcourse.course
  -- the assertions of this one generation fix the store and the record at its beginning
  let J : Stages γ e.audited (List Program) :=
    callsOf haudited (.ofRecord e) hcache s.lab.store s.lab.world.2 p.programs
  have hat : At J.view J.held s.lastRanked p s := ⟨hp, rfl, ⟨rfl, rfl, rfl⟩, (hs.held I hp).upholds, hlabel⟩
  unfold step
  rw [stepBy_of_population e.audited _ hp, ← foldl_push]
  refine Ends.final (P := fun s' => s'.lab.world.2 = _) ((J.stepFrom_ends rfl hat).imp ?_ ?_)
  · rintro r s' ⟨⟨_, _, _, _, -, -, -, -, hleft⟩, -⟩
    exact hleft.asserted
  · rintro _ s' ⟨-, q, hq⟩
    exact hq.asserted

/-- The calls up to a state of a run, read off the run beside it that keeps a record. -/
theorem auditedAt (h : e.task.Answers e.Bound worth) (hcache : e.plan.reevaluate = false)
    {s₀ s : EngineState γ σ} (hcourse : e.LoneCourse s₀ s) : ∃ calls, e.AuditedAt s₀ s calls := by
  have hways : ∀ evaluation : Population → Run γ σ Nat, evaluation = evaluate e.task e.plan.reevaluate →
      ∃ evaluation', evaluation' = evaluate e.audited.task e.audited.plan.reevaluate ∧
        ∀ p, RunsInStep Recorded (evaluation p) (evaluation' p) := by
    rintro _ rfl
    exact ⟨_, rfl, fun p => evaluate_inStep e.audited_beside.task _ p⟩
  obtain ⟨t, hst, hrecorded⟩ := CourseBy.beside e.audited_beside hways (s₀.beside_withRecord []) hcourse
  obtain ⟨calls, hcalls, hdistinct⟩ := calls_of_course h hcache hrecorded
  have ht : t = s.withRecord calls := by
    rw [hst.eq_withRecord, hcalls]
    rfl
  subst ht
  refine ⟨calls, hrecorded, hdistinct, ?_⟩
  intro p hp hlabel
  have hstep := calls_of_step h hcache hrecorded (p := p) hp hlabel
  rw [(step_inStep e.audited_beside s _ hst).final.eq_withRecord, hstep]
  rfl

omit [Generator γ] in
/-- A clone has the fitness of its original. -/
theorem clone_fitness (p : Program) (lab : Lab γ σ) :
    Ends (fun q lab' => lab'.store.fitness q = lab.store.fitness p ∧ q.code = p.code ∧ q.shape = p.shape)
      (fun _ _ => True) (Run.clone p lab) := by
  have hspec := Store.construct_ends p.shape p.code (lab.store.fitness p) lab.store
  unfold Run.clone Run.onStore Store.copy
  cases hout : Store.construct p.shape p.code (lab.store.fitness p) lab.store with
  | error e s => exact trivial
  | ok q s =>
      rw [hout] at hspec
      obtain ⟨-, -, rfl, -, r, -, hcell⟩ := hspec
      exact ⟨Store.fitnessAt_eq hcell, rfl, rfl⟩

/--
**The fitness that is written down is the fitness of the program.** Unless programs are scored again, and for a task
whose score is a function of instructions and shape: in every state of every run, whoever evaluates, every fitness that
a program has is the value of the function; after the evaluation every program has one, and has it for the rest of the
run; over a whole run that scores one program after the other the task is asked about each program at most once, in each
generation about exactly the programs that have no fitness; and a clone has the fitness of its original.
-/
theorem fitness_coherent (e : Engine σ) (F : List Instruction → Shape → Float) (hcache : e.plan.reevaluate = false)
    (h : e.task.Answers e.Bound fun code shape x => x = F code shape) :
    (∀ s₀ s : EngineState γ σ, e.Course s₀ s → e.CoherentAt F s) ∧
      (∀ s₀ s : EngineState γ σ, e.LoneCourse s₀ s → ∃ calls, e.AuditedAt s₀ s calls) ∧
      ∀ (p : Program) (lab : Lab γ σ), Ends (fun q lab' => lab'.store.fitness q = lab.store.fitness p ∧
        q.code = p.code ∧ q.shape = p.shape) (fun _ _ => True) (Run.clone p lab) :=
  ⟨fun _ _ hcourse => coherentAt h hcache hcourse, fun _ _ hcourse => auditedAt h hcache hcourse, clone_fitness⟩

/-- The score by brevity is such a function, and clones of short programs are not scored again. -/
theorem fitness_coherent_brief :
    (∀ s₀ s : EngineState Least Unit, brief.Course s₀ s → brief.CoherentAt brevityOf s) ∧
      ∀ s₀ s : EngineState Least Unit, brief.LoneCourse s₀ s → ∃ calls, brief.AuditedAt s₀ s calls := by
  obtain ⟨hcoherent, haudited, -⟩ := fitness_coherent (γ := Least) brief brevityOf rfl (brevity_answers _)
  exact ⟨hcoherent, haudited⟩

end Engine

end RegisterEvolution
