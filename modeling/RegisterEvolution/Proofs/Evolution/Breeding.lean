import Mathlib.Data.List.Basic
import RegisterEvolution.Proofs.Binary64.Magnitude
import RegisterEvolution.Proofs.Program.Store
import RegisterEvolution.Proofs.Settings.Accepted
import RegisterEvolution.Proofs.Variation.Mutation
import RegisterEvolution.Proofs.Variation.Recombination
import RegisterEvolution.Evolution.Breeding

/-!
# `Proofs.Evolution.Breeding` — breeding neither fails nor breaks a rule

For a feasible breeding and a generator that keeps its promise, every draw of a reproduction has something to draw from:
pools are not empty, pairs are only drawn from pools of two, and no more slots are mutated than there are. All programs
that are built fit the one shape that the pool has, and exactly the free slots are filled.

* `shareOf_ok`, `keptCount_ok` — the counts that a fraction stands for;
* `Program.Sound` — a program that fits a shape;
* `offspringOf_yields`, `reproduce_yields`, `generate_yields` — breeding and random generation succeed.
-/

namespace RegisterEvolution

open Binary64

/-! ## Counts -/

/-- A fraction of the slots is between none and all of them. -/
theorem shareOf_ok {fraction : Float} {slots : Nat} (hfraction : AtMost 1 fraction) (hslots : slots < 2 ^ 53) :
    ∃ count, shareOf fraction slots = .ok count ∧ 0 ≤ count ∧ count ≤ slots := by
  have hproduct := hfraction.mul (by rw [Nat.one_mul]; exact hslots) (atMost_ofNat hslots)
  rw [Nat.one_mul] at hproduct
  obtain ⟨d, hd, hrange⟩ := hproduct.shape
  refine ⟨d.floor, ?_, hrange⟩
  unfold shareOf
  simp only [ofInt?_natCast (atMost_ofNat hslots).within.isFinite, hd]

namespace Population

/-- At least one program is kept. -/
theorem keptCount_ok {capacity : Int} {gap : Float} (hgap : AtMost 1 gap) (hpos : 1 ≤ capacity)
    (hlt : capacity < 2 ^ 53) : ∃ kept, keptCount capacity gap = .ok kept ∧ 1 ≤ kept := by
  obtain ⟨n, rfl⟩ : ∃ n : Nat, capacity = n := ⟨capacity.toNat, by omega⟩
  have hn : n < 2 ^ 53 := by omega
  have hproduct := hgap.mul (by rw [Nat.one_mul]; exact hn) (atMost_ofNat hn)
  rw [Nat.one_mul] at hproduct
  have hslack : AtMost 1 roundingSlack := atMost_one (by decide) (by decide)
  -- the slack may take the product below zero, but the least count is one all the same
  obtain ⟨d, hd⟩ := shape_of_finite (hproduct.isFinite_sub hn (hslack.mono (by omega)))
  refine ⟨(max 1 d.ceil).toNat, ?_, by omega⟩
  unfold keptCount
  simp only [ofInt?_natCast (atMost_ofNat hn).within.isFinite, hd]

end Population

/-! ## Sound programs -/

/-- A program of the given shape that has no flaw. -/
structure Program.Sound (shape : Shape) (sizes : BankSizes) (p : Program) : Prop where
  shape_eq : p.shape = shape
  fits : shape.Fits sizes p.code

/-- Several sound programs, as many as asked for. -/
structure SoundList (shape : Shape) (sizes : BankSizes) (count : Nat) (ps : List Program) : Prop where
  length_eq : ps.length = count
  each : ∀ p ∈ ps, p.Sound shape sizes

variable {γ σ : Type} [Generator γ] [Generator.Honest γ] {shape : Shape} {sizes : BankSizes}

namespace SoundList

variable {count count' : Nat} {ps qs : List Program} {p : Program}

theorem nil : SoundList shape sizes 0 [] := ⟨rfl, List.forall_mem_nil _⟩

theorem cons (hp : p.Sound shape sizes) (h : SoundList shape sizes count ps) :
    SoundList shape sizes (count + 1) (p :: ps) := by
  refine ⟨congrArg (· + 1) h.length_eq, ?_⟩
  rw [List.forall_mem_cons]
  exact ⟨hp, h.each⟩

theorem append (h : SoundList shape sizes count ps) (h' : SoundList shape sizes count' qs) :
    SoundList shape sizes (count + count') (ps ++ qs) := by
  refine ⟨by rw [List.length_append, h.length_eq, h'.length_eq], ?_⟩
  intro p hp
  exact (List.mem_append.mp hp).elim (h.each p) (h'.each p)

theorem set (h : SoundList shape sizes count ps) (hp : p.Sound shape sizes) (slot : Nat) :
    SoundList shape sizes count (ps.set slot p) := by
  refine ⟨by rw [List.length_set, h.length_eq], ?_⟩
  intro q hq
  rcases List.mem_or_eq_of_mem_set hq with hq | rfl
  · exact h.each q hq
  · exact hp

end SoundList

/-! ## New programs -/

namespace Run

omit [Generator γ] [Generator.Honest γ] in
theorem draw_yields {α : Type} {d : Draw γ α} {P : α → Prop} (h : Yields d P) : Yields (draw d : Run γ σ α) P := by
  intro lab
  obtain ⟨a, g, hout, ha⟩ := (h lab.source).exists_ok
  unfold draw
  rw [hout]
  exact ha

omit [Generator γ] [Generator.Honest γ] in
/-- A sequence that fits is built, whatever its fitness. -/
theorem onStore_construct_ok (h : shape.Usable sizes) {code : List Instruction} (hcode : shape.Fits sizes code)
    (fitness : Option Float) (lab : Lab γ σ) :
    Ends (fun q _ => q.Sound shape sizes) Never (onStore (Store.construct shape code fitness) lab) := by
  obtain ⟨s', hconstruct, -⟩ := Store.construct_of_fits h hcode fitness lab.store
  unfold onStore
  simp only [hconstruct]
  exact ⟨rfl, hcode⟩

omit [Generator γ] [Generator.Honest γ] in
theorem construct_yields (h : shape.Usable sizes) {code : List Instruction} (hcode : shape.Fits sizes code) :
    Yields (construct shape code : Run γ σ Program) (Program.Sound shape sizes) :=
  onStore_construct_ok h hcode none

variable {p : Program}

omit [Generator γ] [Generator.Honest γ] in
theorem clone_yields (h : shape.Usable sizes) (hp : p.Sound shape sizes) :
    Yields (clone p : Run γ σ Program) (Program.Sound shape sizes) := by
  obtain ⟨id, code, pshape⟩ := p
  obtain ⟨rfl, hcode⟩ := hp
  exact fun lab => onStore_construct_ok h hcode _ lab

theorem mutant_yields (h : shape.Usable sizes) (maxEdits : Int) (hp : p.Sound shape sizes) :
    Yields (mutant maxEdits p : Run γ σ Program) (Program.Sound shape sizes) := by
  obtain ⟨id, code, pshape⟩ := p
  obtain ⟨rfl, hcode⟩ := hp
  exact (draw_yields (mutateCode_yields h maxEdits hcode)).bind fun _ hcode' => construct_yields h hcode'

theorem children_yields (h : shape.Usable sizes) {kind : Crossover} (hkind : kind = .onePoint ∨ kind = .twoPoint)
    {a b : Program} (ha : a.Sound shape sizes) (hb : b.Sound shape sizes) :
    Yields (children kind a b : Run γ σ (Program × Program)) fun q =>
      q.1.Sound shape sizes ∧ q.2.Sound shape sizes := by
  obtain ⟨id, code, ashape⟩ := a
  obtain ⟨rfl, hcode⟩ := ha
  apply (draw_yields (recombine_yields hkind hcode hb.fits)).bind
  intro codes hcodes
  apply (construct_yields h hcodes.1).bind
  intro childA hA
  exact (construct_yields h hcodes.2).bind fun childB hB => .pure ⟨hA, hB⟩

theorem survivor_yields {pool : List Program} (hne : pool ≠ []) : Yields (survivor pool : Run γ σ Program) (· ∈ pool) :=
  draw_yields (Draw.element_yields hne)

/-- A pool of two has a pair. -/
theorem survivorPair_yields {pool : List Program} (h2 : 2 ≤ pool.length) :
    Yields (survivorPair pool : Run γ σ (Program × Program)) fun pair => pair.1 ∈ pool ∧ pair.2 ∈ pool := by
  apply (draw_yields (Draw.sample_yields h2)).bind
  intro picked hpicked
  obtain ⟨hlength, -, hlt⟩ := hpicked
  obtain ⟨i, j, rfl⟩ := List.length_eq_two.mp hlength
  have hi := hlt i (by simp)
  have hj := hlt j (by simp)
  simp only [List.getElem?_eq_getElem hi, List.getElem?_eq_getElem hj]
  exact .pure ⟨List.getElem_mem hi, List.getElem_mem hj⟩

end Run

/-! ## Slots -/

section Slots

variable {pool : List Program}

omit [Generator γ] [Generator.Honest γ] in
/-- One sound program more, in front of the others. -/
theorem cons_yields {m : Run γ σ Program} {ms : Run γ σ (List Program)} {count : Nat}
    (hm : Yields m (Program.Sound shape sizes)) (hms : Yields ms (SoundList shape sizes count)) :
    Yields (do let first ← m; let rest ← ms; return first :: rest) (SoundList shape sizes (count + 1)) :=
  hm.bind fun _ hfirst => hms.bind fun _ hrest => .pure (.cons hfirst hrest)

theorem mutants_yields (h : shape.Usable sizes) (hne : pool ≠ []) (hpool : ∀ p ∈ pool, p.Sound shape sizes)
    (maxEdits : Int) (count : Nat) :
    Yields (mutants pool maxEdits count : Run γ σ (List Program)) (SoundList shape sizes count) := by
  induction count with
  | zero => exact .pure .nil
  | succ count ih =>
      apply (Run.survivor_yields hne).bind
      intro p hp
      exact cons_yields (Run.mutant_yields h maxEdits (hpool p hp)) ih

theorem clones_yields (h : shape.Usable sizes) (hne : pool ≠ []) (hpool : ∀ p ∈ pool, p.Sound shape sizes)
    (count : Nat) : Yields (clones pool count : Run γ σ (List Program)) (SoundList shape sizes count) := by
  induction count with
  | zero => exact .pure .nil
  | succ count ih =>
      apply (Run.survivor_yields hne).bind
      intro p hp
      exact cons_yields (Run.clone_yields h (hpool p hp)) ih

theorem crossed_yields (h : shape.Usable sizes) (h2 : 2 ≤ pool.length) (hpool : ∀ p ∈ pool, p.Sound shape sizes)
    {kind : Crossover} (hkind : kind = .onePoint ∨ kind = .twoPoint) :
    ∀ count, Yields (crossed pool kind count : Run γ σ (List Program)) (SoundList shape sizes count)
  | 0 => .pure .nil
  | 1 => by
      apply (Run.survivorPair_yields h2).bind
      intro pair hpair
      apply (Run.children_yields h hkind (hpool _ hpair.1) (hpool _ hpair.2)).bind
      intro q hq
      exact .pure (.cons hq.1 .nil)
  | count + 2 => by
      apply (Run.survivorPair_yields h2).bind
      intro pair hpair
      apply (Run.children_yields h hkind (hpool _ hpair.1) (hpool _ hpair.2)).bind
      intro q hq
      exact (crossed_yields h h2 hpool hkind count).bind fun rest hrest => .pure (.cons hq.1 (.cons hq.2 hrest))

theorem mutateSlots_yields (h : shape.Usable sizes) (maxEdits : Int) {count : Nat} {slots : List Nat}
    (hslots : ∀ i ∈ slots, i < count) {offspring : List Program} (hoffspring : SoundList shape sizes count offspring) :
    Yields (mutateSlots maxEdits slots offspring : Run γ σ (List Program)) (SoundList shape sizes count) := by
  induction slots generalizing offspring with
  | nil => exact .pure hoffspring
  | cons slot rest ih =>
      have hslot : slot < offspring.length := by
        rw [hoffspring.length_eq]
        exact hslots slot (List.mem_cons_self ..)
      unfold mutateSlots
      rw [List.getElem?_eq_getElem hslot]
      apply (Run.mutant_yields h maxEdits (hoffspring.each _ (List.getElem_mem hslot))).bind
      intro q hq
      exact ih (fun i hi => hslots i (List.mem_cons_of_mem slot hi)) (hoffspring.set hq slot)

omit [Generator γ] [Generator.Honest γ] in
theorem warnOfSmallPool_yields (size : Nat) : Yields (warnOfSmallPool size : Run γ σ Unit) fun _ => True := by
  intro lab
  unfold warnOfSmallPool
  rw [ends_bind, ends_get]
  split <;> exact trivial

/-- The crossover slots are filled, by mutants where there is no pair. -/
theorem crossoverSlots_yields (h : shape.Usable sizes) {b : Breeding} (hb : b.Feasible) (hne : pool ≠ [])
    (hpool : ∀ p ∈ pool, p.Sound shape sizes) (count : Int) :
    Yields (crossoverSlots b pool count : Run γ σ (List Program)) (SoundList shape sizes count.toNat) := by
  unfold crossoverSlots
  split
  · exact (warnOfSmallPool_yields _).bind fun _ _ => mutants_yields h hne hpool _ _
  · rename_i hpairs
    -- without slots no pair is drawn, so only a pool for some slot has to have two programs
    by_cases hzero : count = 0
    · rw [hzero]
      exact .pure .nil
    · exact crossed_yields h (by omega) hpool hb.crossover _

/-- **The free slots are filled with sound programs**, whatever is drawn. -/
theorem offspringOf_yields (h : shape.Usable sizes) {b : Breeding} (hb : b.Feasible) (hne : pool ≠ [])
    (hpool : ∀ p ∈ pool, p.Sound shape sizes) {slots : Nat} (hslots : slots < 2 ^ 53) :
    Yields (offspringOf b pool slots : Run γ σ (List Program)) (SoundList shape sizes slots) := by
  obtain ⟨crossoverCount, hcrossover, hcrossoverRange⟩ := shareOf_ok hb.crossovers hslots
  obtain ⟨mutationCount, hmutation, hmutationRange⟩ := shareOf_ok hb.mutations hslots
  have hreport : ∀ (mutated : List Program) (record : Record), SoundList shape sizes slots mutated →
      Yields (do Run.report record; return mutated : Run γ σ (List Program)) (SoundList shape sizes slots) :=
    fun mutated record hmutated _ => hmutated
  unfold offspringOf
  rw [hcrossover, hmutation]
  refine Yields.bind (P := (· = crossoverCount)) (fun _ => rfl) ?_
  intro count hcount
  rw [hcount]
  refine Yields.bind (P := (· = mutationCount)) (fun _ => rfl) ?_
  intro count' hcount'
  rw [hcount']
  apply (crossoverSlots_yields h hb hne hpool _).bind
  intro crossings hcrossings
  apply (clones_yields h hne hpool _).bind
  intro copies hcopies
  -- the clones fill the slots that the crossover has left, as its share is at most all of them
  have hall : SoundList shape sizes slots (crossings ++ copies) := by
    have happend := hcrossings.append hcopies
    rw [hcrossings.length_eq] at happend
    exact ⟨by rw [happend.length_eq]; omega, happend.each⟩
  simp only
  split
  · exact hreport _ _ hall
  · obtain ⟨n, rfl⟩ : ∃ n : Nat, mutationCount = n := ⟨mutationCount.toNat, by omega⟩
    -- the share of mutations is at most all slots, so there are enough to draw from
    apply (Run.draw_yields (Draw.sample_yields (by omega))).bind
    intro picked hpicked
    exact (mutateSlots_yields h _ hpicked.2.2 hall).bind fun mutated hmutated => hreport _ _ hmutated

end Slots

/-! ## Populations -/

/-- A population of sound programs, as many as a generation has. -/
structure Population.Complete (shape : Shape) (sizes : BankSizes) (size : Int) (p : Population) : Prop where
  programs : SoundList shape sizes size.toNat p.programs
  capacity : p.capacity = size

/-- **Reproduction succeeds** and fills a pool up to the size of a population. -/
theorem reproduce_yields (h : shape.Usable sizes) {b : Breeding} (hb : b.Feasible) (hlt : b.populationSize < 2 ^ 53)
    {pool : Population} (hpool : ∀ p ∈ pool.programs, p.Sound shape sizes) (hne : pool.programs ≠ [])
    (hle : (pool.size : Int) ≤ b.populationSize) :
    Yields (reproduce b pool : Run γ σ Population) (Population.Complete shape sizes b.populationSize) := by
  unfold reproduce
  simp only
  split
  · refine .pure ⟨⟨?_, fun p hp => hpool p (mem_of_mem_upTo hp)⟩, rfl⟩
    unfold Population.size at *
    rw [length_upTo (by omega) (by omega)]
  · refine (offspringOf_yields h hb hne hpool (by omega)).bind fun offspring hoffspring => .pure ⟨⟨?_, ?_⟩, rfl⟩
    · unfold Population.size at *
      rw [List.length_append, hoffspring.length_eq]
      omega
    · intro p hp
      exact (List.mem_append.mp hp).elim (hpool p) (hoffspring.each p)

theorem randomPrograms_yields (h : shape.Usable sizes) (count : Nat) :
    Yields (Population.randomPrograms shape count : Run γ σ (List Program)) (SoundList shape sizes count) := by
  induction count with
  | zero => exact .pure .nil
  | succ count ih =>
      apply cons_yields ?_ ih
      apply (Run.draw_yields (randomCode_yields h)).bind
      intro code hcode
      exact Run.construct_yields h hcode

/-- **Random generation succeeds** for settings that can be bound to the task. -/
theorem generate_yields {settings bound : ProgramSettings} {task : Task σ}
    (hbind : settings.bind task.inputCount task.actionCount = .ok bound) (hshape : bound.shape = .ok shape)
    (h : shape.Usable sizes) (size : Int) :
    Yields (Population.generate settings task size : Run γ σ Population) (Population.Complete shape sizes size) := by
  unfold Population.generate
  rw [hbind]
  refine Yields.bind (P := (· = bound)) (fun _ => rfl) ?_
  intro _ hbound
  subst hbound
  rw [hshape]
  refine Yields.bind (P := (· = shape)) (fun _ => rfl) ?_
  intro _ hbound
  subst hbound
  apply (randomPrograms_yields h size.toNat).bind
  intro programs hprograms
  rw [h.bound]
  exact fun _ => ⟨hprograms, rfl⟩

end RegisterEvolution
