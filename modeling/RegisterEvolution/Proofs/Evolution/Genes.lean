import RegisterEvolution.Proofs.Evolution.Progress
import RegisterEvolution.Proofs.Evolution.Turnover
import RegisterEvolution.Proofs.Variation.Recombination

/-!
# `Proofs.Evolution.Genes` — without mutation there are no new instructions

Crossover and cloning put instructions together that are there already. As long as no slot is mutated, and no pool is
too small for the crossovers that are asked for, every instruction of every later program is therefore one of the first
population, whatever is drawn, however the children are cut and however many generations have passed.

* `Program.StemsFrom` — a program whose instructions all occur in certain programs;
* `Breeding.Unmutated` — the breeding of a pool of some size makes no mutants;
* `reproduce_stems` — the offspring of such a breeding stem from the pool;
* `Engine.instructions_stem` — and the programs of a run stem from the first population.
-/

namespace RegisterEvolution

/-! ## Where instructions come from -/

/-- Every instruction of the program occurs in one of certain programs. -/
def Program.StemsFrom (q : Program) (ps : List Program) : Prop := ∀ i ∈ q.code, ∃ p ∈ ps, i ∈ p.code

variable {ps qs : List Program} {p q : Program}

theorem Program.StemsFrom.of_mem (h : p ∈ ps) : p.StemsFrom ps := fun _ hi => ⟨p, h, hi⟩

theorem Program.StemsFrom.trans (h : q.StemsFrom qs) (hqs : ∀ p ∈ qs, p.StemsFrom ps) : q.StemsFrom ps := by
  intro i hi
  obtain ⟨p, hp, hip⟩ := h i hi
  exact hqs p hp i hip

/-! ## Breeding -/

section Breeding

variable {γ σ : Type}

theorem Run.Settles.gives {α : Type} {m : Run γ σ α} {P : α → Prop} (h : m.Settles P) : Gives m P :=
  fun lab => (h lab).imp (fun _ _ hout => hout.2) fun _ _ _ => trivial

theorem Run.draw_gives {α : Type} {d : Draw γ α} {P : α → Prop} (h : Gives d P) : Gives (Run.draw d : Run γ σ α) P :=
  (Run.draw_settles h).gives

theorem Run.onStore_gives {α : Type} {c : EStateM Error Store α} {P : α → Prop} (h : Gives c P) :
    Gives (Run.onStore c : Run γ σ α) P := by
  intro lab
  have hc := h lab.store
  unfold Run.onStore
  cases hout : c lab.store with
  | error er s => exact trivial
  | ok a s =>
      rw [hout] at hc
      exact hc

/-- A program that is built has the instructions that it is built of. -/
theorem Store.construct_gives (shape : Shape) (code : List Instruction) (fitness : Option Float) :
    Gives (Store.construct shape code fitness) (·.code = code) := by
  refine fun s => (Store.construct_ends shape code fitness s).imp ?_ fun _ _ _ => trivial
  rintro q s' ⟨-, -, rfl, -⟩
  rfl

theorem Run.construct_gives (shape : Shape) (code : List Instruction) :
    Gives (Run.construct shape code : Run γ σ Program) (·.code = code) :=
  onStore_gives (Store.construct_gives shape code none)

theorem Run.clone_gives (p : Program) : Gives (Run.clone p : Run γ σ Program) (·.code = p.code) :=
  onStore_gives fun s => Store.construct_gives p.shape p.code (s.fitness p) s

variable [Generator γ]

/-- **Children consist of elements of their parents**, wherever the cuts are. -/
theorem recombine_gives {α : Type} (kind : Crossover) (limit : Int) (a b : List α) :
    Gives (recombine kind limit a b : Draw γ (List α × List α)) fun children =>
      (∀ x ∈ children.1, x ∈ a ∨ x ∈ b) ∧ ∀ x ∈ children.2, x ∈ a ∨ x ∈ b := by
  cases kind with
  | onePoint =>
      refine (Gives.any _).bind fun cutA _ => (Gives.any _).bind fun cutB _ => .pure ⟨?_, ?_⟩
      · exact fun x hx => mem_of_mem_crossing hx
      · exact fun x hx => (mem_of_mem_crossing hx).symm
  | twoPoint =>
      refine (Gives.any _).bind fun segmentA _ => (Gives.any _).bind fun segmentB _ => .pure ⟨?_, ?_⟩
      · exact fun x hx => mem_of_mem_spliced hx
      · exact fun x hx => (mem_of_mem_spliced hx).symm
  | unknown setting => exact .throw

variable {pool : List Program}

theorem Run.children_stem (kind : Crossover) {a b : Program} (ha : a ∈ pool) (hb : b ∈ pool) :
    Gives (Run.children kind a b : Run γ σ (Program × Program)) fun children =>
      children.1.StemsFrom pool ∧ children.2.StemsFrom pool := by
  have hstems : ∀ (code : List Instruction) (q : Program), (∀ i ∈ code, i ∈ a.code ∨ i ∈ b.code) → q.code = code →
      q.StemsFrom pool := by
    rintro _ q hcode rfl i hi
    rcases hcode i hi with hi | hi
    · exact ⟨a, ha, hi⟩
    · exact ⟨b, hb, hi⟩
  refine (draw_gives (recombine_gives kind a.shape.maxInstructions a.code b.code)).bind fun codes hcodes => ?_
  refine (construct_gives a.shape codes.1).bind fun childA hA => ?_
  refine (construct_gives a.shape codes.2).bind fun childB hB => .pure ?_
  exact ⟨hstems codes.1 childA hcodes.1 hA, hstems codes.2 childB hcodes.2 hB⟩

theorem Run.survivorPair_gives :
    Gives (Run.survivorPair pool : Run γ σ (Program × Program)) fun pair => pair.1 ∈ pool ∧ pair.2 ∈ pool := by
  unfold survivorPair
  refine (Gives.any _).bind fun picked _ => ?_
  split
  · split
    · rename_i ha hb
      exact .pure ⟨List.mem_of_getElem? ha, List.mem_of_getElem? hb⟩
    · exact .throw
  · exact .throw

theorem crossed_stem (kind : Crossover) :
    ∀ count, Gives (crossed pool kind count : Run γ σ (List Program)) fun qs => ∀ q ∈ qs, q.StemsFrom pool
  | 0 => .pure (List.forall_mem_nil _)
  | 1 => by
      refine Run.survivorPair_gives.bind fun pair hpair => ?_
      refine (Run.children_stem kind hpair.1 hpair.2).bind fun children hchildren => .pure ?_
      exact List.forall_mem_singleton.mpr hchildren.1
  | count + 2 => by
      refine Run.survivorPair_gives.bind fun pair hpair => ?_
      refine (Run.children_stem kind hpair.1 hpair.2).bind fun children hchildren => ?_
      refine (crossed_stem kind count).bind fun rest hrest => .pure ?_
      exact List.forall_mem_cons.mpr ⟨hchildren.1, List.forall_mem_cons.mpr ⟨hchildren.2, hrest⟩⟩

theorem clones_stem (count : Nat) :
    Gives (clones pool count : Run γ σ (List Program)) fun qs => ∀ q ∈ qs, q.StemsFrom pool := by
  induction count with
  | zero => exact .pure (List.forall_mem_nil _)
  | succ count ih =>
      refine Run.survivor_settles.gives.bind fun p hp => (Run.clone_gives p).bind fun first hfirst => ?_
      refine ih.bind fun rest hrest => .pure (List.forall_mem_cons.mpr ⟨?_, hrest⟩)
      intro i hi
      exact ⟨p, hp, hfirst ▸ hi⟩

/--
From a pool of that size, breeding makes no mutants: the share of the free slots that is mutated is none, and so is the
share that is recombined unless there are pairs in the pool.
-/
structure Breeding.Unmutated (b : Breeding) (size : Nat) : Prop where
  mutations : shareOf b.mutations (b.populationSize - size).toNat = .ok 0
  crossovers : 2 ≤ size ∨ shareOf b.crossovers (b.populationSize - size).toNat = .ok 0

/-- **What is bred without mutation stems from the pool**, whatever is drawn. -/
theorem reproduce_stems {b : Breeding} {pool : Population}
    (h : pool.size < b.populationSize → b.Unmutated pool.size) :
    Gives (reproduce b pool : Run γ σ Population) fun next => ∀ q ∈ next.programs, q.StemsFrom pool.programs := by
  unfold reproduce
  dsimp only
  split
  · exact .pure fun q hq => .of_mem (mem_of_mem_upTo hq)
  · have hfew := h (by omega)
    refine Gives.bind (P := fun offspring => ∀ q ∈ offspring, q.StemsFrom pool.programs) ?_ ?_
    · unfold offspringOf
      refine (Run.ofFault_settles _).gives.bind fun crossoverCount hcrossovers => ?_
      refine (Run.ofFault_settles _).gives.bind fun mutationCount hmutations => ?_
      obtain rfl : mutationCount = 0 := Except.ok.inj (hmutations.symm.trans hfew.mutations)
      refine Gives.bind (P := fun qs => ∀ q ∈ qs, q.StemsFrom pool.programs) ?_ fun crossings hcrossings => ?_
      · -- a pool without pairs has no crossover slots, so that no mutant takes one of them
        unfold crossoverSlots
        have hpairs : ¬(crossoverCount ≠ 0 ∧ pool.programs.length < 2) := by
          rintro ⟨hne, hlt⟩
          rcases hfew.crossovers with hsize | hnone
          · exact Nat.not_le.mpr hlt hsize
          · exact hne (Except.ok.inj (hcrossovers.symm.trans hnone))
        rw [if_neg hpairs]
        exact crossed_stem b.crossover _
      · refine (clones_stem _).bind fun copies hcopies => ?_
        have hall : ∀ q ∈ crossings ++ copies, q.StemsFrom pool.programs := by
          intro q hq
          exact (List.mem_append.mp hq).elim (hcrossings q) (hcopies q)
        simp only [if_true]
        exact (Gives.pure hall).bind fun mutated hmutated => (Gives.any _).bind fun _ _ => .pure hmutated
    · intro offspring hoffspring
      refine .pure fun q hq => ?_
      exact (List.mem_append.mp hq).elim .of_mem (hoffspring q)

end Breeding

/-! ## Runs -/

namespace Engine

variable {γ σ : Type} [Generator γ] {e : Engine σ} {s s' s₁ : EngineState γ σ} {p p₀ pool : Population} {lab : Lab γ σ}
  {evaluation : Population → Run γ σ Nat}

/-- If the next generation breeds, it makes no mutants. -/
def BreedsTrue (e : Engine σ) (evaluation : Population → Run γ σ Nat) (s : EngineState γ σ) : Prop :=
  ∀ pool lab, e.breedsFrom evaluation s = some (pool, lab) → pool.size < e.plan.breeding.populationSize →
    e.plan.breeding.Unmutated pool.size

/-- What an engine holds and remembers stems from certain programs. -/
structure Stemming (ps : List Program) (s : EngineState γ σ) : Prop where
  held : ∃ p, s.population = some p ∧ ∀ q ∈ p.programs, q.StemsFrom ps
  lastRanked : ∀ r, s.lastRanked = some r → ∀ q ∈ r.programs, q.StemsFrom ps

/-- The pool of a generation consists of programs that the engine holds. -/
theorem mem_of_mem_pool (hevaluation : e.Evaluates evaluation) (hp : s.population = some p)
    (hbreeds : e.breedsFrom evaluation s = some (pool, lab)) (hq : q ∈ pool.programs) : q ∈ p.programs := by
  have hholds : (holding e p.programs : Stages γ e Unit).Holds s := .inl ⟨p, hp, rfl, .refl _⟩
  obtain ⟨r, hpool, hperm⟩ := (holding e p.programs).of_breedsFrom hevaluation hholds hbreeds
  obtain ⟨kept, -, rfl⟩ := Population.select_ok hpool
  exact hperm.mem_iff.mp (List.mem_of_mem_take hq)

/-- One generation without mutation. -/
theorem Handover.stemming (hevaluation : e.Evaluates evaluation) (h : e.Handover evaluation s p s')
    (hp : s.population = some p) (hfew : e.BreedsTrue evaluation s) (hstems : Stemming ps s) : Stemming ps s' := by
  obtain ⟨p', hp', hheld⟩ := hstems.held
  obtain rfl := Option.some.inj (hp.symm.trans hp')
  cases h with
  | kept hperm hpopulation hlast =>
      refine ⟨⟨_, hpopulation, fun q hq => hheld q (hperm.mem_iff.mp hq)⟩, ?_⟩
      rw [hlast]
      exact hstems.lastRanked
  | @bred r pool next lab lab' hperm hpool hbreeds hbred hstore hpopulation hlast =>
      have hnext := reproduce_stems (hfew pool lab hbreeds) lab
      rw [hbred] at hnext
      refine ⟨⟨_, hpopulation, fun q hq => (hnext q hq).trans fun q' hq' => ?_⟩, ?_⟩
      · exact hheld q' (mem_of_mem_pool hevaluation hp hbreeds hq')
      · intro r' hr'
        rcases hlast with hlast | hlast
        · exact hstems.lastRanked r' (hlast.symm.trans hr')
        · obtain rfl := Option.some.inj (hlast.symm.trans hr')
          exact fun q hq => hheld q (hperm.mem_iff.mp hq)

/-- Any number of generations without mutation. The induction goes along the stretch. -/
theorem Stretch.stemming (hs : e.Stretch e.BreedsTrue s₁ s) (h₁ : Stemming ps s₁) : Stemming ps s := by
  induction hs with
  | here => exact h₁
  | step hevaluation _ hfew ih =>
      obtain ⟨p, hp, -⟩ := ih.held
      exact (stepBy_hands_over hevaluation hp).stemming hevaluation hp hfew ih
  | aside _ _ _ hpopulation hlast ih => exact ⟨by rw [hpopulation]; exact ih.held, by rw [hlast]; exact ih.lastRanked⟩

/--
**Without mutation there are no new instructions.** Take an engine that holds its first population, and any number of
generations from there on, however each is evaluated, in none of which breeding makes mutants: no free slot is mutated,
and either the pool has two programs at least or no free slot is recombined. Then every instruction of every program in
the populations that the engine holds and remembers, and in the pool that it breeds from, occurs in a program of the
first population.
-/
theorem instructions_inherited (hfirst : s₁.population = some p₀) (hnew : s₁.lastRanked = none)
    (hs : e.Stretch e.BreedsTrue s₁ s) :
    (∀ p, s.population = some p ∨ s.lastRanked = some p → ∀ q ∈ p.programs, q.StemsFrom p₀.programs) ∧
      ∀ evaluation : Population → Run γ σ Nat, e.Evaluates evaluation → ∀ pool lab,
        e.breedsFrom evaluation s = some (pool, lab) → ∀ q ∈ pool.programs, q.StemsFrom p₀.programs := by
  have hstart : Stemming p₀.programs s₁ := by
    refine ⟨⟨p₀, hfirst, fun _ => .of_mem⟩, ?_⟩
    rw [hnew]
    exact fun _ => nofun
  have hstems := hs.stemming hstart
  obtain ⟨p, hp, hheld⟩ := hstems.held
  constructor
  · rintro p' (hp' | hr)
    · obtain rfl := Option.some.inj (hp.symm.trans hp')
      exact hheld
    · exact hstems.lastRanked p' hr
  · intro evaluation hevaluation pool lab hbreeds q hq
    exact hheld q (mem_of_mem_pool hevaluation hp hbreeds hq)

/-- Settings for four programs, as many of which are recombined as possible and none of which is mutated. -/
def frugalSettings : RunSettings :=
  { populationSize := .int 4, mutations := .float 0.0, crossovers := .float 1.0, crossoverKind := .text "one_point" }

/-- An engine with these settings. -/
def frugal : Engine Unit := { brief with plan := { brief.plan with breeding := ⟨4, 0.0, 1.0, .onePoint, 1⟩ } }

theorem frugal_viable : ∃ shape sizes, frugal.Viable shape sizes :=
  brevity_viable frugalSettings rfl rfl (by decide) rfl rfl

/-- Two of the four programs breed, so that there are pairs. -/
theorem frugal_breedsTrue {shape : Shape} {sizes : BankSizes} (h : frugal.Viable shape sizes)
    {evaluation : Population → Run Least Unit Nat} (hevaluation : frugal.Evaluates evaluation)
    {s : EngineState Least Unit} (hs : h.stages.Holds s) : frugal.BreedsTrue evaluation s := by
  intro pool lab hbreeds _
  obtain ⟨r, hpool, hr⟩ := h.stages.of_breedsFrom hevaluation hs hbreeds
  obtain ⟨kept, hkept, rfl⟩ := Population.select_ok hpool
  rw [hr.complete.capacity] at hkept
  obtain rfl : kept = 2 := Except.ok.inj (hkept.symm.trans (by decide))
  have hlength : r.programs.length = 4 := hr.complete.programs.length_eq
  have hsize : Population.size { r with programs := r.programs.take 2 } = 2 := by
    unfold Population.size
    rw [List.length_take, hlength]
    rfl
  rw [hsize]
  exact ⟨by decide, .inl (Nat.le_refl 2)⟩

/-- Its second generation consists of instructions of the first one. -/
theorem instructions_inherited_frugal :
    ∃ (s₁ s : EngineState Least Unit) (p₀ r next : Population), frugal.populate (.start .least ()) = .ok p₀ s₁ ∧
      frugal.step s₁ = .ok r s ∧ s.population = some next ∧ ∀ q ∈ next.programs, q.StemsFrom p₀.programs := by
  obtain ⟨shape, sizes, h⟩ := frugal_viable
  obtain ⟨s₀, hs₀⟩ : ∃ s₀ : EngineState Least Unit, s₀ = .start .least () := ⟨_, rfl⟩
  obtain ⟨p₀, s₁, hpopulate, hp₀, hgeneration⟩ := (h.populates s₀).exists_ok
  have hholds : h.stages.Holds s₁ := .of_at _ hp₀
  have hlt : s₁.generation < frugal.plan.maxGenerations := by
    simp [EngineState.generation, hp₀.population, hgeneration, frugal, brief]
  obtain ⟨r, s, hstep, hturned, -⟩ := h.steps brief_writable hholds hlt
  obtain ⟨-, ⟨next, hnext, -⟩, -⟩ := h.turned hturned
  have hstretch : frugal.Stretch frugal.BreedsTrue s₁ s := by
    have hone := Stretch.step (e := frugal) .alone .here (frugal_breedsTrue h .alone hholds)
    unfold step at hstep
    rwa [hstep] at hone
  obtain ⟨hstems, -⟩ := instructions_inherited hp₀.population hp₀.lastRanked hstretch
  exact ⟨s₁, s, p₀, r, next, hs₀ ▸ hpopulate, hstep, hnext, hstems next (.inl hnext)⟩

end Engine

end RegisterEvolution
