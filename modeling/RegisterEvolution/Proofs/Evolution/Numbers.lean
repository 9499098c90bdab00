import RegisterEvolution.Proofs.Evolution.Progress
import RegisterEvolution.Proofs.Evolution.Turnover

/-!
# `Proofs.Evolution.Numbers` — programs have numbers of their own

A construction uses up the number that the counter of the store shows, also when the program is thrown away afterwards:
the second child of a last pair, an offspring of which a mutant takes the place. So the numbers in a population differ,
survivors keep theirs, and those of offspring are above all that had been used up when their breeding began.

* `Numbered` — programs under different numbers, all of which have been used up;
* `Engine.numbering` — the stages of a run that keep numbers apart;
* `reproduce_numbers` — the numbers of what is bred;
* `Engine.NumbersAt`, `Engine.numbers_differ` — the numbers in every state of every run.
-/

namespace RegisterEvolution

variable {γ σ : Type} {s s' : Store} {ps qs : List Program}

/-- Programs under different numbers, all of which have been used up. -/
structure Numbered (s : Store) (ps : List Program) : Prop where
  nodup : (ps.map (·.id)).Nodup
  lt_nextId : ∀ p ∈ ps, p.id < s.nextId

namespace Numbered

theorem later (h : Numbered s ps) (hle : s.nextId ≤ s'.nextId) : Numbered s' ps :=
  ⟨h.nodup, fun p hp => Nat.lt_of_lt_of_le (h.lt_nextId p hp) hle⟩

theorem of_upholds {task : Task σ} {S : Standard task} (h : Upholds S s ps) : Numbered s ps :=
  ⟨h.nodup, h.knows.lt_nextId⟩

end Numbered

/-! ## Breeding -/

/-- A bound that is not reached cuts nothing off. -/
theorem upTo_eq_self {α : Type} {xs : List α} {bound : Int} (h : (xs.length : Int) ≤ bound) : upTo xs bound = xs := by
  unfold upTo boundIn
  rw [if_neg (by omega)]
  exact List.take_of_length_le (by omega)

variable [Generator γ]

/-- **Survivors come first and keep their numbers; offspring have numbers that had not been used up before.** -/
theorem reproduce_numbers (b : Breeding) (pool : Population) (lab : Lab γ σ) (h : Numbered lab.store pool.programs) :
    Ends (fun next lab' => lab.store.nextId ≤ lab'.store.nextId ∧
        ∃ offspring, next.programs = upTo pool.programs b.populationSize ++ offspring ∧
          ∀ q ∈ offspring, lab.store.nextId ≤ q.id ∧ q.id < lab'.store.nextId)
      (fun _ lab' => lab.store.nextId ≤ lab'.store.nextId) (reproduce b pool lab) := by
  have hknows : lab.store.Knows (fun _ => True) pool.programs := ⟨h.lt_nextId, fun _ _ => trivial⟩
  refine (reproduce_ends b pool hknows).imp ?_ fun _ _ he => he.lineage.grown.nextId_le
  rintro next lab' ⟨hgrows, -, hcut | hfilled⟩
  · exact ⟨hgrows.lineage.grown.nextId_le, [], by rw [hcut.2, List.append_nil], List.forall_mem_nil _⟩
  · obtain ⟨hlt, offspring, hnext, hlitter⟩ := hfilled
    have hwhole : upTo pool.programs b.populationSize = pool.programs := upTo_eq_self (Int.le_of_lt hlt)
    refine ⟨hgrows.lineage.grown.nextId_le, offspring, by rw [hnext, hwhole], ?_⟩
    exact fun q hq => ⟨(hlitter.newborn q hq).fresh, (hlitter.newborn q hq).lt_nextId⟩

/-! ## Runs -/

/-- What is asserted of the numbers in a run whose counter has shown `start`. -/
structure Counted (task : Task σ) (start : Nat) (last : Option Population) (s : Store) (p : Population) : Prop where
  upholds : Upholds (.finite task) s p.programs
  lastRanked : ∀ r, last = some r → Numbered s r.programs
  counter : start ≤ s.nextId

theorem Counted.later {task : Task σ} {start : Nat} {last : Option Population} {p q : Population}
    (h : Counted task start last s p) (hle : s.nextId ≤ s'.nextId) (hq : Upholds (.finite task) s' q.programs) :
    Counted task start last s' q :=
  ⟨hq, fun r hr => (h.lastRanked r hr).later hle, Nat.le_trans h.counter hle⟩

namespace Engine

variable {e : Engine σ} {s₀ s s' : EngineState γ σ} {p pool : Population} {lab : Lab γ σ} {start : Nat}
  {evaluation : Population → Run γ σ Nat}

/-- **The stages of a run that keep numbers apart**, whoever fails. -/
def numbering (e : Engine σ) (start : Nat) : Stages γ e Unit where
  view _ := ()
  mayFail := True
  ways := e.Evaluates
  vacant s _ := start ≤ s.nextId
  held last s _ p := Counted e.task start last s p
  spoiled last s _ p := Counted e.task start last s p
  scored last s _ p := Counted e.task start last s p
  ranked last s _ p := Counted e.task start last s p
  left last s _ p := Counted e.task start last s p
  generates lab hvacant := (generate_upholds (S := .finite e.task) e.plan.program e.plan.breeding.populationSize lab
    fun _ _ _ _ => trivial).imp
    (fun _ _ hout => ⟨hout.2.1, fun _ => nofun, Nat.le_trans hvacant hout.1.lineage.grown.nextId_le⟩)
    fun _ _ he => ⟨trivial, Nat.le_trans hvacant he.lineage.grown.nextId_le⟩
  evaluates _ hevaluation _ p lab hp _ := (hevaluation.upholds p lab hp.upholds).imp
    (fun _ _ hout => hp.later (Nat.le_of_eq hout.2.nextId_eq.symm) hout.1)
    fun _ _ he => ⟨trivial, hp.later (Nat.le_of_eq he.2.nextId_eq.symm) he.1⟩
  ranks _ _ _ _ hp := ⟨hp.upholds.rank, hp.lastRanked, hp.counter⟩
  selects _ _ _ _ _ := .inl trivial
  breeds last r pool lab hr hpool := by
    refine (reproduce_upholds e.plan.breeding pool lab (hr.upholds.select hpool)).imp ?_ ?_
    · intro next lab' hout past hpast
      have hle := hout.1.lineage.grown.nextId_le
      refine ⟨hout.2.1, ?_, Nat.le_trans hr.counter hle⟩
      intro r' hr'
      rcases hpast with rfl | rfl
      · exact (hr.lastRanked r' hr').later hle
      · obtain rfl := Option.some.inj hr'
        exact (Numbered.of_upholds hr.upholds).later hle
    · intro _ lab' he
      exact ⟨trivial, hr.later he.lineage.grown.nextId_le (hr.upholds.later he.lineage.grown)⟩
  notices := e.dispatch_watched
  left_of_held _ _ _ _ hp _ := hp
  left_of_spoiled _ _ _ _ hp := hp
  left_of_scored _ _ _ _ hp := hp
  left_of_ranked _ _ _ _ hp := hp

/-- The counter has risen to what it shows now. -/
theorem numbering_counter (hs : (numbering e start).Holds s) : start ≤ s.lab.store.nextId := by
  rcases hs with ⟨p, hp⟩ | ⟨-, -, hvacant⟩
  · exact hp.asserted.counter
  · exact hvacant

/-- Counting may begin anew in every state. -/
theorem numbering_anew (hs : (numbering e start).Holds s) : (numbering e s.lab.store.nextId).Holds s := by
  rcases hs with ⟨p, hp⟩ | ⟨hpopulation, hlast, -⟩
  · exact .inl ⟨p, hp.population, rfl, hp.asserted.upholds, hp.asserted.lastRanked, Nat.le_refl _⟩
  · exact .inr ⟨hpopulation, hlast, Nat.le_refl _⟩

theorem numbering_stepBy (hevaluation : e.Evaluates evaluation) (hs : (numbering e start).Holds s) :
    (numbering e start).Holds (finalState (e.stepBy evaluation s)) :=
  Ends.final (((numbering e start).stepBy_ends (fun _ _ _ _ hp => hp) hevaluation hs).imp
    (fun _ _ hr => hr.1.holds _ fun _ _ _ _ hp => hp) fun _ _ he => he.2)

/-- The numbers in a state of a run, and in the generation that comes next, however it is evaluated. -/
structure NumbersAt (e : Engine σ) (s : EngineState γ σ) : Prop where
  held : ∀ p, s.population = some p ∨ s.lastRanked = some p → Numbered s.lab.store p.programs
  /-- The counter does not fall before the breeding, and the numbers of a pool are below it then. -/
  pool : ∀ evaluation : Population → Run γ σ Nat, e.Evaluates evaluation → ∀ pool lab,
    e.breedsFrom evaluation s = some (pool, lab) →
      Numbered lab.store pool.programs ∧ s.lab.store.nextId ≤ lab.store.nextId
  /-- Survivors keep their numbers; those of offspring are not below the counter as it was when breeding began. -/
  bred : ∀ evaluation : Population → Run γ σ Nat, e.Evaluates evaluation → ∀ pool lab next lab',
    e.breedsFrom evaluation s = some (pool, lab) → reproduce e.plan.breeding pool lab = .ok next lab' →
      ∃ offspring, next.programs = upTo pool.programs e.plan.breeding.populationSize ++ offspring ∧
        ∀ q ∈ offspring, lab.store.nextId ≤ q.id ∧ q.id < lab'.store.nextId
  /-- The generation leaves either the same programs, or what is bred. -/
  handover : ∀ evaluation : Population → Run γ σ Nat, e.Evaluates evaluation → ∀ p, s.population = some p →
    e.Handover evaluation s p (finalState (e.stepBy evaluation s))

theorem numbersAt (hs : (numbering e start).Holds s) : e.NumbersAt s := by
  have hpool : ∀ evaluation : Population → Run γ σ Nat, e.Evaluates evaluation → ∀ pool lab,
      e.breedsFrom evaluation s = some (pool, lab) →
        Numbered lab.store pool.programs ∧ s.lab.store.nextId ≤ lab.store.nextId := by
    intro evaluation hevaluation pool lab hbreeds
    obtain ⟨r, hpool, hr⟩ :=
      (numbering e s.lab.store.nextId).of_breedsFrom hevaluation (numbering_anew hs) hbreeds
    exact ⟨.of_upholds (hr.upholds.select hpool), hr.counter⟩
  refine ⟨?_, hpool, ?_, fun evaluation hevaluation p => stepBy_hands_over hevaluation⟩
  · rintro p hp
    rcases hs with ⟨q, hq⟩ | ⟨hnone, hnone', -⟩
    · rcases hp with hp | hr
      · obtain rfl := Option.some.inj (hp.symm.trans hq.population)
        exact .of_upholds hq.asserted.upholds
      · exact hq.asserted.lastRanked p hr
    · rcases hp with hp | hr
      · exact nomatch hp.symm.trans hnone
      · exact nomatch hr.symm.trans hnone'
  · intro evaluation hevaluation pool lab next lab' hbreeds hbred
    have hnumbers := reproduce_numbers e.plan.breeding pool lab (hpool evaluation hevaluation pool lab hbreeds).1
    rw [hbred] at hnumbers
    exact hnumbers.2

/--
**Programs have numbers of their own.** In every state of every run the numbers in each population differ and are below
the counter; the generation that comes next, however it is evaluated, keeps the numbers of its survivors, and gives
offspring numbers that are not below the counter as it was when their breeding began. Every construction uses up the
number that the counter shows and raises it, whether it gives a program or fails, and the counter never falls; so the
numbers of offspring are above those of all programs that had been built before, whether these are still around or not.
-/
theorem numbers_differ (hcourse : e.Course s₀ s) :
    e.NumbersAt s ∧
      (∀ P s', e.Stretch P s s' → e.NumbersAt s' ∧ s.lab.store.nextId ≤ s'.lab.store.nextId) ∧
      ∀ shape code fitness store, Ends (fun q store' => q.id = store.nextId ∧ store'.nextId = store.nextId + 1)
        (fun _ store' => store'.nextId = store.nextId + 1) (Store.construct shape code fitness store) := by
  have hs : (numbering e 0).Holds s := (numbering e 0).holds (fun _ _ _ _ hp => hp) (Nat.zero_le _) hcourse
  refine ⟨numbersAt hs, ?_, ?_⟩
  · intro P s' hstretch
    have hs' : (numbering e s.lab.store.nextId).Holds s' := by
      induction hstretch with
      | here => exact numbering_anew hs
      | step hevaluation _ _ ih => exact numbering_stepBy hevaluation ih
      | aside _ hstore _ hpopulation hlast ih => exact ih.aside _ hstore rfl hpopulation hlast
    exact ⟨numbersAt hs', numbering_counter hs'⟩
  · intro shape code fitness store
    refine (Store.construct_ends shape code fitness store).imp ?_ fun _ _ he => he.2.1
    rintro q store' ⟨-, hnext, rfl, -⟩
    exact ⟨rfl, hnext⟩

/-- The numbers after the first generation of an engine with the default settings. -/
theorem numbers_differ_brief :
    ∃ (s₀ s : EngineState Least Unit) (r next : Population), s₀ = .start .least () ∧ brief.step s₀ = .ok r s ∧
      s.population = some next ∧ Numbered s.lab.store next.programs ∧ Numbered s.lab.store r.programs ∧
      brief.NumbersAt s := by
  obtain ⟨shape, sizes, hviable⟩ := brief_viable
  obtain ⟨s₀, hs₀⟩ : ∃ s₀ : EngineState Least Unit, s₀ = .start .least () := ⟨_, rfl⟩
  have hcourse : brief.Course s₀ s₀ := .begin (by rw [hs₀]; rfl) (by rw [hs₀]; rfl)
  have hlt : s₀.generation < brief.plan.maxGenerations := by
    rw [hs₀]
    decide
  obtain ⟨r, s, hstep, ⟨_, _, _, _, -, -, -, -, hat⟩, -⟩ := hviable.steps brief_writable (hviable.holds hcourse) hlt
  obtain ⟨hnumbers, -⟩ := numbers_differ (hcourse.next .alone hstep)
  exact ⟨s₀, s, r, _, hs₀, hstep, hat.population, hnumbers.held _ (.inl hat.population),
    hnumbers.held r (.inr hat.lastRanked), hnumbers⟩

end Engine

end RegisterEvolution
