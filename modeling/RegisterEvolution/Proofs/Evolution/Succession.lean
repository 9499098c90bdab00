import RegisterEvolution.Proofs.Evolution.Offspring
import RegisterEvolution.Proofs.Evolution.Ranking
import RegisterEvolution.Proofs.Evolution.Workers

/-!
# `Proofs.Evolution.Succession` — what is handed from one generation to the next

A population that is up to a standard is still up to it after it has been evaluated, ranked and selected from, and so is
the next one: survivors keep their entries, and the entry of a new program is empty or that of a survivor with the same
instructions. A fitness that has been written down stays, unless programs are scored again.

* `Worthy` — every program has a fitness of worth;
* `Evaluated.retains`, `Evaluated.worthy` — evaluation completes the scores and keeps those that there are;
* `generate_upholds`, `reproduce_upholds` — random generation and breeding keep a standard up;
* `Engine.upholds_of_course` — and so does every run.
-/

namespace RegisterEvolution

/-- The shapes of the programs of an engine: its settings bound to its task. -/
def Engine.Bound {σ : Type} (e : Engine σ) (shape : Shape) : Prop :=
  ∃ bound, e.plan.program.bind e.task.inputCount e.task.actionCount = .ok bound ∧ bound.shape = .ok shape

variable {γ σ : Type} {task : Task σ} {S : Standard task} {s s' : Store} {ps qs : List Program}

/-- Every program has a fitness of worth. -/
def Worthy {task : Task σ} (S : Standard task) (s : Store) (ps : List Program) : Prop :=
  ∀ p ∈ ps, ∃ x, s.fitnessAt p.id = some x ∧ S.worth p x

theorem Worthy.perm (h : Worthy S s ps) (hperm : ps.Perm qs) : Worthy S s qs := fun p hp => h p (hperm.mem_iff.mpr hp)

/-- Programs stay worthy while no fitness is lost. -/
theorem Worthy.later (h : Worthy S s ps) (hle : s.Retains s') : Worthy S s' ps := fun p hp => by
  obtain ⟨x, hx, hworth⟩ := h p hp
  exact ⟨x, hle _ _ hx, hworth⟩

/-! ## Evaluation -/

namespace Evaluated

variable {reevaluate : Bool}

/-- Unless programs are scored again, a fitness stays. -/
theorem retains (h : Evaluated S false ps s s') : s.Retains s' := by
  intro id x hx
  rw [h.others id fun p _ hpending hid => ?_, hx]
  unfold isPending at hpending
  rw [Store.fitness_eq, hid, hx] at hpending
  exact nomatch hpending

/-- Afterwards every program has a fitness of worth. -/
theorem worthy (h : Evaluated S reevaluate ps s s') (hs' : Upholds S s' ps) : Worthy S s' ps := by
  intro p hp
  by_cases hpending : isPending s reevaluate p = true
  · exact h.pending p hp hpending
  · -- what is not pending has a fitness, which evaluation has left alone
    have hsome : ∃ x, s.fitnessAt p.id = some x := by
      unfold isPending at hpending
      rw [Store.fitness_eq] at hpending
      cases hx : s.fitnessAt p.id with
      | some x => exact ⟨x, rfl⟩
      | none =>
          rw [hx] at hpending
          exact absurd (Bool.or_true reevaluate) hpending
    obtain ⟨x, hx⟩ := hsome
    have hx' : s'.fitnessAt p.id = some x := by
      rw [h.others p.id fun q hq hq' hid => ?_, hx]
      obtain rfl := hs'.eq_of_id_eq hq hp hid
      exact hpending hq'
    exact ⟨x, hx', hs'.worth hp hx'⟩

end Evaluated

/-! ## Breeding -/

/-- The numbers of programs with entries have been used up. -/
theorem Upholds.knows (h : Upholds S s ps) : s.Knows S.shapes ps := by
  refine ⟨?_, fun p hp => (h.each p hp).shape⟩
  intro p hp
  obtain ⟨c, hc⟩ := h.exists_cell hp
  exact Store.lt_nextId hc

/-- A new program is up to the standard: it is unscored, or has the fitness of a program with the same instructions. -/
theorem Newborn.upheld {q : Program} (h : Newborn S.shapes ps s s' q) (hps : ∀ p ∈ ps, Upheld S s p) :
    Upheld S s' q := by
  obtain ⟨fitness, r, hcell, hfresh, hfitness⟩ := h.entry
  refine ⟨h.shape, h.flawless, ⟨fitness, r⟩, hcell, S.fresh q r hfresh, ?_⟩
  intro x hx
  rcases hfitness with hnone | ⟨p, hp, hcode, hshape, heq⟩
  · rw [hnone] at hx
    exact nomatch hx
  · obtain ⟨c, hc, -, hworth⟩ := (hps p hp).entry
    rw [heq, Store.fitnessAt_eq hc] at hx
    exact S.hereditary p q x hcode hshape (hworth x hx)

/-- A pool and its litter are up to the standard together. -/
theorem Litter.upholds (h : Litter S.shapes ps s s' qs) (hps : Upholds S s ps) (hle : s.Extends s') :
    Upholds S s' (ps ++ qs) := by
  constructor
  · intro p hp
    rcases List.mem_append.mp hp with hp | hp
    · exact (hps.later hle).each p hp
    · exact (h.newborn p hp).upheld hps.each
  · -- the numbers of the pool had been used up before those of the litter
    exact nodup_ids_append hps.nodup h.nodup hps.knows.lt_nextId fun q hq => (h.newborn q hq).fresh

theorem Upholds.nil : Upholds S s [] := ⟨List.forall_mem_nil _, List.nodup_nil⟩

variable [Generator γ]

/-- **Random programs are up to every standard for their shape.** -/
theorem generate_upholds (settings : ProgramSettings) (size : Int) (lab : Lab γ σ)
    (hshapes : ∀ bound shape, settings.bind task.inputCount task.actionCount = .ok bound → bound.shape = .ok shape →
      S.shapes shape) :
    Ends (fun p lab' => lab.Grows [] lab' ∧ Upholds S lab'.store p.programs ∧
        Litter S.shapes [] lab.store lab'.store p.programs ∧ p.capacity = size ∧ p.programs.length = size.toNat)
      (fun _ lab' => lab.Grows [] lab') (Population.generate settings task size lab) :=
  (generate_ends settings task size lab hshapes).imp
    (fun _ _ h => ⟨h.1, h.2.1.upholds .nil h.1.lineage.grown, h.2⟩) fun _ _ h => h

omit [Generator γ] in
theorem upTo_sublist (items : List Program) (stop : Int) : (upTo items stop).Sublist items :=
  List.take_sublist ..

/-- **Breeding keeps a standard up.** The pool is cut to the size of a population, or followed by its litter. -/
theorem reproduce_upholds (b : Breeding) (pool : Population) (lab : Lab γ σ) (h : Upholds S lab.store pool.programs) :
    Ends (fun next lab' => lab.Grows pool.programs lab' ∧ Upholds S lab'.store next.programs ∧
        next.capacity = b.populationSize ∧
        ((b.populationSize ≤ pool.size ∧ next.programs = upTo pool.programs b.populationSize) ∨
          (pool.size < b.populationSize ∧ ∃ offspring, next.programs = pool.programs ++ offspring ∧
            Litter S.shapes pool.programs lab.store lab'.store offspring)))
      (fun _ lab' => lab.Grows pool.programs lab') (reproduce b pool lab) := by
  refine (reproduce_ends b pool h.knows).imp (fun next lab' hout => ⟨hout.1, ?_, hout.2⟩) fun _ _ he => he
  have hgrown := hout.1.lineage.grown
  rcases hout.2.2 with ⟨-, hnext⟩ | ⟨-, offspring, hnext, hlitter⟩
  · rw [hnext]
    exact (h.sublist (upTo_sublist ..)).later hgrown
  · rw [hnext]
    exact hlitter.upholds h hgrown

/-! ## Selection -/

/-- Of a ranked population, the selected part is up to every standard that the whole is up to. -/
theorem Upholds.select {gap : Float} {r pool : Population} (h : Upholds S s r.programs)
    (hpool : r.select gap = .ok pool) : Upholds S s pool.programs := by
  obtain ⟨kept, -, rfl⟩ := Population.select_ok hpool
  exact h.sublist (List.take_sublist ..)

theorem Upholds.rank {p : Population} (h : Upholds S s p.programs) : Upholds S s (p.rank s).programs :=
  h.perm (Population.rank_perm s p).symm

/-! ## Runs -/

namespace Engine

variable {e : Engine σ}

/-- The stages of a run that keeps a standard up, whoever fails. -/
def upholding (S : Standard e.task) (hshapes : ∀ shape, e.Bound shape → S.shapes shape) : Stages γ e Unit where
  view _ := ()
  mayFail := True
  ways := e.Evaluates
  vacant _ _ := True
  held _ s _ p := Upholds S s p.programs
  spoiled _ s _ p := Upholds S s p.programs
  scored _ s _ p := Upholds S s p.programs
  ranked _ s _ p := Upholds S s p.programs
  left _ s _ p := Upholds S s p.programs
  generates lab _ := (generate_upholds (S := S) e.plan.program e.plan.breeding.populationSize lab
    fun bound shape hbind hshape => hshapes shape ⟨bound, hbind, hshape⟩).imp (fun _ _ hout => hout.2.1)
    fun _ _ _ => ⟨trivial, trivial⟩
  evaluates _ hevaluation _ p lab hp _ := (hevaluation.upholds p lab hp).imp (fun _ _ hout => hout.1)
    fun _ _ he => ⟨trivial, he.1⟩
  ranks _ _ _ _ hp := hp.rank
  selects _ _ _ _ _ := .inl trivial
  breeds _ _ pool lab hr hpool := (reproduce_upholds e.plan.breeding pool lab (hr.select hpool)).imp
    (fun _ _ hout _ _ => hout.2.1) fun _ _ he => ⟨trivial, hr.later he.lineage.grown⟩
  notices := e.dispatch_watched
  left_of_held _ _ _ _ hp _ := hp
  left_of_spoiled _ _ _ _ hp := hp
  left_of_scored _ _ _ _ hp := hp
  left_of_ranked _ _ _ _ hp := hp

/-- **Every population that an engine holds in a run is up to every standard for its shapes.** -/
theorem upholds_of_course (S : Standard e.task) (hshapes : ∀ shape, e.Bound shape → S.shapes shape)
    {s₀ s : EngineState γ σ} (h : e.Course s₀ s) {p : Population} (hp : s.population = some p) :
    Upholds S s.lab.store p.programs :=
  ((upholding S hshapes).holds (fun _ _ _ _ hleft => hleft) trivial h).held _ hp

end Engine

end RegisterEvolution
