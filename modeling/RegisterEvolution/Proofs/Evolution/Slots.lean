import Mathlib.Data.Finset.Card
import Mathlib.Data.Finset.Range
import RegisterEvolution.Proofs.Evolution.Brood

/-!
# `Proofs.Evolution.Slots` — what a reproduction puts into every slot

A reproduction fills its slots in two stages. Crossover children come first and clones after them; then some slots,
which are drawn, have their program replaced by a mutant of it. What a slot holds in the end therefore depends on two
questions only: whether it is a crossover slot, and whether it has been mutated.

* `SlotHolds` — what is in a slot, by the two questions, and `SlotsFilled` — the same for all slots;
* `mutateSlots_brings` — slots are mutated one after the other;
* `SlotsFilled.countP_unscored` — how many of the new programs have to be scored;
* `reproduce_fills` — the slots of a reproduction.
-/

namespace RegisterEvolution

section Kinds

variable (γ : Type) [Generator γ]

/-- What a slot holds in a store, given whether it is a crossover slot and whether it has been mutated; `past` is the
    store that the reproduction began with. -/
inductive SlotHolds (shape : Shape) (sizes : BankSizes) (b : Breeding) (pool : List Program) (past : Store)
    (q : Program) (s : Store) : Bool → Bool → Prop where
  | child (h : Bred shape sizes (CrossedFrom γ shape b pool) q s) : SlotHolds shape sizes b pool past q s true false
  | mutatedChild (h : Bred shape sizes
      (fun code => ∃ child, CrossedFrom γ shape b pool child ∧ MutantOf γ shape b.maxMutationEdits child code) q s) :
      SlotHolds shape sizes b pool past q s true true
  | clone (h : Copied shape sizes pool past q s) : SlotHolds shape sizes b pool past q s false false
  | mutant (h : Bred shape sizes (fun code => ∃ p ∈ pool, MutantOf γ shape b.maxMutationEdits p.code code) q s) :
      SlotHolds shape sizes b pool past q s false true

variable {γ} {shape : Shape} {sizes : BankSizes} {b : Breeding} {pool : List Program} {past s s' : Store} {q : Program}
  {crossed mutated : Bool}

namespace SlotHolds

theorem lasts : Lasts fun q s => SlotHolds γ shape sizes b pool past q s crossed mutated := by
  intro q s s' hgrown h
  cases h with
  | child h => exact .child (Bred.lasts _ _ _ hgrown h)
  | mutatedChild h => exact .mutatedChild (Bred.lasts _ _ _ hgrown h)
  | clone h => exact .clone (Copied.lasts _ _ _ hgrown h)
  | mutant h => exact .mutant (Bred.lasts _ _ _ hgrown h)

theorem sound (h : SlotHolds γ shape sizes b pool past q s crossed mutated) : q.Sound shape sizes := by
  cases h with
  | child h => exact h.sound
  | mutatedChild h => exact h.sound
  | clone h => exact h.sound
  | mutant h => exact h.sound

/-- **What has to be scored** is what has been crossed or mutated. -/
theorem isNone_fitness (h : SlotHolds γ shape sizes b pool past q s crossed mutated) :
    (s.fitness q).isNone = (crossed || mutated) := by
  cases h with
  | child h => rw [h.unscored]; rfl
  | mutatedChild h => rw [h.unscored]; rfl
  | clone h =>
      obtain ⟨p, -, -, x, -, hx⟩ := h.origin
      rw [hx]
      rfl
  | mutant h => rw [h.unscored]; rfl

/-- A mutant takes the place of what a slot has held so far. -/
theorem mutate {p : Program} (h : SlotHolds γ shape sizes b pool past p s crossed false)
    (hq : Bred shape sizes (MutantOf γ shape b.maxMutationEdits p.code) q s') :
    SlotHolds γ shape sizes b pool past q s' crossed true := by
  cases h with
  | child h => exact .mutatedChild (hq.imp fun code hcode => ⟨p.code, h.code, hcode⟩)
  | clone h =>
      obtain ⟨p', hp', hcode', -⟩ := h.origin
      exact .mutant (hq.imp fun code hcode => ⟨p', hp', hcode' ▸ hcode⟩)

end SlotHolds

end Kinds

/-! ## Slots -/

section Slots

variable {γ : Type} [Generator γ]

/-- All slots of a reproduction with `crossings` crossover slots, of which those in `mutations` have been mutated. -/
def SlotsFilled (γ : Type) [Generator γ] (shape : Shape) (sizes : BankSizes) (b : Breeding) (pool : List Program)
    (past : Store) (crossings : Nat) (mutations : Finset Nat) (qs : List Program) (s : Store) : Prop :=
  ∀ slot q, qs[slot]? = some q →
    SlotHolds γ shape sizes b pool past q s (decide (slot < crossings)) (decide (slot ∈ mutations))

namespace SlotsFilled

variable {shape : Shape} {sizes : BankSizes} {b : Breeding} {pool : List Program} {past s s' : Store}
  {crossings : Nat} {mutations : Finset Nat} {qs : List Program}

/-- Children in front of clones, before anything is mutated. -/
theorem of_append {children clones : List Program}
    (hchildren : Brood (Bred shape sizes (CrossedFrom γ shape b pool)) crossings children s)
    (hclones : ∀ q ∈ clones, Copied shape sizes pool past q s) :
    SlotsFilled γ shape sizes b pool past crossings ∅ (children ++ clones) s := by
  intro slot q hq
  rw [List.getElem?_append, hchildren.length_eq] at hq
  by_cases hslot : slot < crossings
  · rw [if_pos hslot] at hq
    simpa [hslot] using SlotHolds.child (hchildren.each q (List.mem_of_getElem? hq))
  · rw [if_neg hslot] at hq
    simpa [hslot] using SlotHolds.clone (hclones q (List.mem_of_getElem? hq))

theorem grow (h : SlotsFilled γ shape sizes b pool past crossings mutations qs s) (hgrown : s.Extends s') :
    SlotsFilled γ shape sizes b pool past crossings mutations qs s' :=
  fun slot q hq => SlotHolds.lasts q s s' hgrown (h slot q hq)

/-- **One slot more is mutated**; the others hold what they have held. -/
theorem set {slot : Nat} {p q : Program} (h : SlotsFilled γ shape sizes b pool past crossings mutations qs s)
    (hgrown : s.Extends s') (hslot : slot ∉ mutations) (hp : qs[slot]? = some p)
    (hq : Bred shape sizes (MutantOf γ shape b.maxMutationEdits p.code) q s') :
    SlotsFilled γ shape sizes b pool past crossings (insert slot mutations) (qs.set slot q) s' := by
  intro slot' q' hq'
  rw [List.getElem?_set] at hq'
  by_cases heq : slot = slot'
  · subst heq
    obtain rfl : q = q' := by
      split at hq'
      · split at hq'
        · exact Option.some.inj hq'
        · exact nomatch hq'
      · contradiction
    have hheld := h slot p hp
    simp only [hslot, decide_false] at hheld
    simpa using hheld.mutate hq
  · rw [if_neg heq] at hq'
    have hsame : decide (slot' ∈ insert slot mutations) = decide (slot' ∈ mutations) := by
      simp [Finset.mem_insert, Ne.symm heq]
    rw [hsame]
    exact SlotHolds.lasts _ _ _ hgrown (h slot' q' hq')

end SlotsFilled

end Slots

/-! ## Stages -/

section Stages

variable {γ σ : Type} [Generator γ] [Generator.Honest γ] {shape : Shape} {sizes : BankSizes} {past : Store}
  {b : Breeding} {pool : List Program}

/-- **The second stage**: the slots that are picked are mutated, each once. -/
theorem mutateSlots_brings (h : shape.Usable sizes) {crossings : Nat} {picked : List Nat} (hnodup : picked.Nodup)
    {mutations : Finset Nat} (hnew : ∀ slot ∈ picked, slot ∉ mutations) {qs : List Program}
    (hslots : ∀ slot ∈ picked, slot < qs.length) {now : Store}
    (hfilled : SlotsFilled γ shape sizes b pool past crossings mutations qs now) :
    Run.Brings now (mutateSlots b.maxMutationEdits picked qs : Run γ σ (List Program)) fun qs' s =>
      qs'.length = qs.length ∧ SlotsFilled γ shape sizes b pool past crossings (mutations ∪ picked.toFinset) qs' s := by
  induction picked generalizing mutations qs now with
  | nil =>
      refine .pure fun s hs => ⟨rfl, ?_⟩
      simpa using hfilled.grow hs
  | cons slot rest ih =>
      obtain ⟨hfirst, hrest⟩ := List.nodup_cons.mp hnodup
      obtain ⟨hnewFirst, hnewRest⟩ := List.forall_mem_cons.mp hnew
      obtain ⟨hslot, hslotsRest⟩ := List.forall_mem_cons.mp hslots
      have hp := List.getElem?_eq_getElem hslot
      unfold mutateSlots
      rw [hp]
      refine (Run.mutant_brings h b.maxMutationEdits (hfilled slot _ hp).sound).bind ?_
      intro q s hs hq
      have hset := hfilled.set hs hnewFirst hp hq
      refine (ih hrest ?_ ?_ hset).imp ?_
      · intro slot' hmem
        rw [Finset.mem_insert, not_or]
        exact ⟨fun heq => hfirst (heq ▸ hmem), hnewRest slot' hmem⟩
      · intro slot' hmem
        rw [List.length_set]
        exact hslotsRest slot' hmem
      · rintro qs' s' - ⟨hlength, hfilled'⟩
        rw [List.length_set] at hlength
        rw [List.toFinset_cons, Finset.union_insert, ← Finset.insert_union]
        exact ⟨hlength, hfilled'⟩

/-- **Both stages**: children, then clones, then mutants in the slots that are drawn. -/
theorem offspringOf_brings (h : shape.Usable sizes) (hkind : b.crossover = .onePoint ∨ b.crossover = .twoPoint)
    (hne : pool ≠ []) (hpool : ∀ p ∈ pool, p.Sound shape sizes) (hscored : ∀ p ∈ pool, ∃ x, past.fitness p = some x)
    {slots crossings mutationCount : Nat} (hcrossings : shareOf b.crossovers slots = .ok crossings)
    (hmutations : shareOf b.mutations slots = .ok mutationCount) (hcrossingsLe : crossings ≤ slots)
    (hmutationsLe : mutationCount ≤ slots) :
    Run.Brings past (offspringOf b pool slots : Run γ σ (List Program)) fun qs s => qs.length = slots ∧
      ∃ mutations ⊆ Finset.range slots, mutations.card = mutationCount ∧
        SlotsFilled γ shape sizes b pool past crossings mutations qs s := by
  have hreport : ∀ (qs : List Program) (record : Record) (now : Store) (Q : List Program → Store → Prop),
      (∀ s, now.Extends s → Q qs s) →
      Run.Brings now (do Run.report record; return qs : Run γ σ (List Program)) Q :=
    fun qs record now Q hQ lab hlab => ⟨.refl _, hQ lab.store hlab⟩
  unfold offspringOf
  refine (Run.Brings.ofFault hcrossings).bind ?_
  rintro _ s₁ hs₁ rfl
  refine (Run.Brings.ofFault hmutations).bind ?_
  rintro _ s₂ hs₂ rfl
  refine (crossoverSlots_brings h hkind hne hpool crossings).bind ?_
  intro children s₃ hs₃ hchildren
  have hpast : past.Extends s₃ := (hs₁.trans hs₂).trans hs₃
  refine (clones_brings h hne hpool hscored _ hpast).bind ?_
  intro clones s₄ hs₄ hclones
  have hlength : (children ++ clones).length = slots := by
    rw [List.length_append, hclones.length_eq, hchildren.length_eq]
    omega
  have hfilled : SlotsFilled γ shape sizes b pool past crossings ∅ (children ++ clones) s₄ :=
    .of_append (hchildren.grow Bred.lasts hs₄) hclones.each
  simp only
  split
  · rename_i hzero
    obtain rfl : mutationCount = 0 := by omega
    exact hreport _ _ s₄ _ fun s hs => ⟨hlength, ∅, Finset.empty_subset _, rfl, hfilled.grow hs⟩
  · refine (Run.Brings.draw (Draw.sample_yields hmutationsLe)).bind ?_
    rintro picked s₅ hs₅ ⟨hcard, hnodup, hlt⟩
    refine (mutateSlots_brings h hnodup (by simp) (by rwa [hlength]) (hfilled.grow hs₅)).bind ?_
    rintro qs s₆ - ⟨hlength', hfilled'⟩
    rw [Finset.empty_union] at hfilled'
    refine hreport _ _ s₆ _ fun s hs => ⟨hlength'.trans hlength, picked.toFinset, ?_, ?_, hfilled'.grow hs⟩
    · intro slot hslot
      exact Finset.mem_range.mpr (hlt slot (List.mem_toFinset.mp hslot))
    · rw [List.toFinset_card_of_nodup hnodup, hcard]

end Stages

/-! ## Programs to be scored -/

/-- Elements that satisfy a test are counted by their positions. -/
theorem countP_eq_card {α : Type} {test : α → Bool} {xs : List α} {positions : Finset Nat}
    (hpositions : positions ⊆ Finset.range xs.length)
    (h : ∀ i x, xs[i]? = some x → (test x = true ↔ i ∈ positions)) : xs.countP test = positions.card := by
  induction xs using List.reverseRecOn generalizing positions with
  | nil =>
      obtain rfl : positions = ∅ := by simpa using hpositions
      rfl
  | append_singleton xs x ih =>
      have hfront : xs.countP test = (positions.erase xs.length).card := by
        apply ih
        · intro i hi
          have hrange := Finset.mem_range.mp (hpositions (Finset.mem_of_mem_erase hi))
          rw [List.length_append, List.length_singleton] at hrange
          exact Finset.mem_range.mpr (by have := Finset.ne_of_mem_erase hi; omega)
        · intro i y hy
          have hi := (List.getElem?_eq_some_iff.mp hy).1
          rw [h i y (by rw [List.getElem?_append_left hi, hy]), Finset.mem_erase, and_iff_right (by omega)]
      have hlast := h xs.length x (by simp)
      rw [List.countP_append, hfront, List.countP_singleton]
      by_cases hx : test x = true
      · rw [if_pos hx, Finset.card_erase_add_one (hlast.mp hx)]
      · rw [if_neg hx, Finset.erase_eq_of_notMem (mt hlast.mpr hx), Nat.add_zero]

/-- The slots that are crossed or mutated, with the crossover slots counted first. -/
theorem card_range_union (crossings : Nat) (mutations : Finset Nat) :
    (Finset.range crossings ∪ mutations).card = crossings + (mutations.filter (crossings ≤ ·)).card := by
  have hsplit : Finset.range crossings ∪ mutations = Finset.range crossings ∪ mutations.filter (crossings ≤ ·) := by
    ext slot
    simp only [Finset.mem_union, Finset.mem_range, Finset.mem_filter]
    constructor
    · rintro (hlt | hmem)
      · exact .inl hlt
      · by_cases hlt : slot < crossings
        · exact .inl hlt
        · exact .inr ⟨hmem, by omega⟩
    · rintro (hlt | ⟨hmem, -⟩)
      · exact .inl hlt
      · exact .inr hmem
  have hdisjoint : Disjoint (Finset.range crossings) (mutations.filter (crossings ≤ ·)) := by
    rw [Finset.disjoint_left]
    intro slot hlt hge
    have hlt' := Finset.mem_range.mp hlt
    have hge' := (Finset.mem_filter.mp hge).2
    omega
  rw [hsplit, Finset.card_union_of_disjoint hdisjoint, Finset.card_range]

/-- They are at least as many as those of either kind, and at most as many as both or as all slots. -/
theorem card_range_union_bounds {crossings free : Nat} {mutations : Finset Nat} (hcrossings : crossings ≤ free)
    (hmutations : mutations ⊆ Finset.range free) :
    max crossings mutations.card ≤ (Finset.range crossings ∪ mutations).card ∧
      (Finset.range crossings ∪ mutations).card ≤ min free (crossings + mutations.card) := by
  have hfirst : crossings ≤ (Finset.range crossings ∪ mutations).card := by
    rw [card_range_union]
    exact Nat.le_add_right _ _
  have hsecond : mutations.card ≤ (Finset.range crossings ∪ mutations).card :=
    Finset.card_le_card Finset.subset_union_right
  have hall : (Finset.range crossings ∪ mutations).card ≤ (Finset.range free).card :=
    Finset.card_le_card (Finset.union_subset (Finset.range_subset_range.mpr hcrossings) hmutations)
  have hboth := Finset.card_union_le (Finset.range crossings) mutations
  rw [Finset.card_range] at hall hboth
  omega

/-- **How many of the new programs have to be scored.** -/
theorem SlotsFilled.countP_unscored {γ : Type} [Generator γ] {shape : Shape} {sizes : BankSizes} {b : Breeding}
    {pool : List Program} {past s : Store} {crossings : Nat} {mutations : Finset Nat} {qs : List Program}
    (h : SlotsFilled γ shape sizes b pool past crossings mutations qs s) (hcrossings : crossings ≤ qs.length)
    (hmutations : mutations ⊆ Finset.range qs.length) :
    qs.countP (fun q => (s.fitness q).isNone) = crossings + (mutations.filter (crossings ≤ ·)).card := by
  rw [← card_range_union]
  apply countP_eq_card
  · exact Finset.union_subset (Finset.range_subset_range.mpr hcrossings) hmutations
  · intro slot q hq
    rw [(h slot q hq).isNone_fitness]
    simp

/-! ## Reproduction -/

theorem reproduce_of_offspring {γ σ : Type} [Generator γ] {b : Breeding} {pool : Population} {lab lab' : Lab γ σ}
    {qs : List Program} {free : Nat} (hcapacity : b.populationSize = pool.size + free) (hfree : 0 < free)
    (h : offspringOf b pool.programs free lab = .ok qs lab') :
    reproduce b pool lab = .ok ⟨pool.programs ++ qs, b.populationSize, pool.generation⟩ lab' := by
  have hslots : b.populationSize - pool.size = free := by omega
  unfold reproduce
  simp only [hslots]
  rw [if_neg (by omega), Int.toNat_natCast]
  show EStateM.bind (offspringOf b pool.programs free) _ lab = _
  rw [EStateM.bind, h]
  rfl

/--
**What a reproduction puts into every slot.** Accepted program settings with known counts describe a shape, and accepted
run settings describe a breeding, such that for every generator that keeps its promise, every pool of at least one
scored program of that shape without a flaw, and every number of free slots that is left up to the size of a population
below `2 ^ 53`, the reproduction succeeds:

* the programs of the pool stay in front as they are, with the fitness that they have;
* the slots behind them are filled as `SlotHolds` says, where the shares of crossovers and of mutations are rounded
  down, the crossover slots come first, and the mutated ones are as many as asked for;
* the programs that have to be scored are those in crossover slots and in the other mutated slots, which are at least as
  many as either share, and at most both shares together or all free slots.
-/
theorem reproduce_fills {settings : ProgramSettings} (hvalid : settings.validate = .ok ())
    (hbound : settings.isBound = true) {hyper : RunSettings} (hhyper : hyper.validate = .ok ()) :
    ∃ shape sizes plan, settings.shape = .ok shape ∧ shape.Usable sizes ∧ hyper.plan = .ok plan ∧
      hyper.populationSize = .int plan.breeding.populationSize ∧
      ∀ (γ σ : Type) [Generator γ] [Generator.Honest γ] (pool : Population) (lab : Lab γ σ) (free : Nat),
        pool.programs ≠ [] →
        (∀ p ∈ pool.programs, p.shape = shape ∧ shape.flaw? p.code = none ∧ ∃ x, lab.store.fitness p = some x) →
        0 < free → plan.breeding.populationSize = pool.size + free → plan.breeding.populationSize < 2 ^ 53 →
        ∃ (crossings mutationCount : Nat) (mutations : Finset Nat) (next : Population) (lab' : Lab γ σ),
          shareOf plan.breeding.crossovers free = .ok crossings ∧
          shareOf plan.breeding.mutations free = .ok mutationCount ∧
          reproduce plan.breeding pool lab = .ok next lab' ∧
          (next.size : Int) = plan.breeding.populationSize ∧ next.capacity = plan.breeding.populationSize ∧
          next.generation = pool.generation ∧
          next.programs.take pool.size = pool.programs ∧
          (∀ p ∈ pool.programs, lab'.store.fitness p = lab.store.fitness p) ∧
          mutations ⊆ Finset.range free ∧ mutations.card = mutationCount ∧
          (∀ slot q, next.programs[pool.size + slot]? = some q →
            SlotHolds γ shape sizes plan.breeding pool.programs lab.store q lab'.store (decide (slot < crossings))
              (decide (slot ∈ mutations))) ∧
          let unscored := next.programs.countP fun q => (lab'.store.fitness q).isNone
          unscored = crossings + (mutations.filter (crossings ≤ ·)).card ∧
            max crossings mutationCount ≤ unscored ∧ unscored ≤ min free (crossings + mutationCount) := by
  obtain ⟨shape, sizes, hshape, husable⟩ := (ProgramSettings.checked_of_validate hvalid).exists_shape_of_bound hbound
  obtain ⟨plan, hplan, hfeasible, -, -, hsize⟩ := RunSettings.exists_plan hhyper
  refine ⟨shape, sizes, plan, hshape, husable, hplan, hsize, ?_⟩
  intro γ σ _ _ pool lab free hne hpool hfree hcapacity hlt
  obtain ⟨crossings, hcrossings, hcrossingsPos, hcrossingsLe⟩ :=
    shareOf_ok hfeasible.crossovers (show free < 2 ^ 53 by omega)
  obtain ⟨mutationCount, hmutations, hmutationsPos, hmutationsLe⟩ :=
    shareOf_ok hfeasible.mutations (show free < 2 ^ 53 by omega)
  lift crossings to Nat using hcrossingsPos
  lift mutationCount to Nat using hmutationsPos
  have hsound : ∀ p ∈ pool.programs, p.Sound shape sizes := fun p hp =>
    ⟨(hpool p hp).1, Shape.fits_of_flaw?_eq_none husable.bound (hpool p hp).2.1⟩
  have hscored : ∀ p ∈ pool.programs, ∃ x, lab.store.fitness p = some x := fun p hp => (hpool p hp).2.2
  have hbrings := offspringOf_brings (σ := σ) (γ := γ) husable hfeasible.crossover hne hsound hscored hcrossings
    hmutations (by omega) (by omega)
  obtain ⟨qs, lab', hoffspring, hgrown, hlength, mutations, hsubset, hcard, hfilled⟩ :=
    (hbrings lab (.refl _)).exists_ok
  have hreproduce := reproduce_of_offspring hcapacity hfree hoffspring
  have hkept : ∀ p ∈ pool.programs, lab'.store.fitness p = lab.store.fitness p := by
    intro p hp
    obtain ⟨x, hx⟩ := (hpool p hp).2.2
    rw [hx]
    exact hgrown.fitnessAt_some hx
  have hunscored : (pool.programs ++ qs).countP (fun q => (lab'.store.fitness q).isNone) =
      crossings + (mutations.filter (crossings ≤ ·)).card := by
    have hscored : pool.programs.countP (fun q => (lab'.store.fitness q).isNone) = 0 := by
      rw [List.countP_eq_zero]
      intro p hp
      obtain ⟨x, hx⟩ := (hpool p hp).2.2
      rw [hkept p hp, hx]
      exact Bool.false_ne_true
    rw [List.countP_append, hscored, Nat.zero_add]
    exact hfilled.countP_unscored (by omega) (by rwa [hlength])
  have hbounds := card_range_union_bounds (show crossings ≤ free by omega) hsubset
  rw [card_range_union, hcard] at hbounds
  refine ⟨crossings, mutationCount, mutations, _, lab', hcrossings, hmutations, hreproduce, ?_, rfl, rfl, ?_, hkept,
    hsubset, hcard, ?_, hunscored, by rw [hunscored]; exact hbounds.1, by rw [hunscored]; exact hbounds.2⟩
  · show ((pool.programs ++ qs).length : Int) = _
    rw [List.length_append, hlength, hcapacity]
    rfl
  · exact List.take_left
  · intro slot q hq
    have hslot : (pool.programs ++ qs)[pool.programs.length + slot]? = some q := hq
    rw [List.getElem?_append_right (Nat.le_add_right _ _), Nat.add_sub_cancel_left] at hslot
    exact hfilled slot q hslot

/-- A usual shape with as few registers, inputs and actions as there can be. -/
def leastShape : Shape := ⟨32, some 2, some 1, some 1, none, 0.1, 0.5, 10.0, .single⟩

/-- Two programs of that shape. -/
def scoredPair : Population :=
  ⟨[⟨0, [⟨"mov", 1, 0, .external, none⟩], leastShape⟩, ⟨1, [⟨"vote", 0, 1, .internal, none⟩], leastShape⟩], 2, 7⟩

/-- Their scores, one of which is the least that there is. -/
def pairStore : Store := ⟨#[some ⟨some 3.0, .zeros 2 1⟩, some ⟨some (-1.0 / 0.0), .zeros 2 1⟩]⟩

/-- Three free slots, of which one is for a child and one is mutated; it may be the same. -/
theorem reproduce_fills_scored_pair :
    let lab : Lab Least Unit := { Lab.start Least.least () with store := pairStore }
    ∃ next lab', reproduce ⟨5, 0.5, 0.5, .twoPoint, 1⟩ scoredPair lab = .ok next lab' ∧ (next.size : Int) = 5 ∧
      next.generation = 7 ∧ next.programs.take 2 = scoredPair.programs ∧
      let unscored := next.programs.countP fun q => (lab'.store.fitness q).isNone
      1 ≤ unscored ∧ unscored ≤ 2 := by
  intro lab
  let settings : ProgramSettings := { registerCount := .int 2, inputCount := .int 1, actionCount := .int 1 }
  let hyper : RunSettings := { populationSize := .int 5 }
  obtain ⟨shape, sizes, plan, hshape, -, hplan, -, hfills⟩ :=
    reproduce_fills (show settings.validate = .ok () from rfl) rfl (show hyper.validate = .ok () from rfl)
  obtain rfl : leastShape = shape := Except.ok.inj hshape
  obtain rfl : (⟨⟨5, 0.5, 0.5, .twoPoint, 1⟩, 100, 0.5, false, .int 42, 1, false, {}⟩ : Plan) = plan :=
    Except.ok.inj hplan
  have hpool : ∀ p ∈ scoredPair.programs, p.shape = leastShape ∧ leastShape.flaw? p.code = none ∧
      ∃ x, lab.store.fitness p = some x := by
    intro p hp
    rcases List.mem_pair.mp hp with rfl | rfl
    · exact ⟨rfl, by decide, _, rfl⟩
    · exact ⟨rfl, by decide, _, rfl⟩
  obtain ⟨crossings, mutationCount, mutations, next, lab', hcrossings, hmutations, hreproduce, hsize, -, hgeneration,
    hkept, -, -, -, -, -, hleast, hmost⟩ :=
    hfills Least Unit scoredPair lab 3 (List.cons_ne_nil _ _) hpool (by decide) rfl (by decide)
  have hone : (1 : Int) = crossings := Except.ok.inj hcrossings
  have hone' : (1 : Int) = mutationCount := Except.ok.inj hmutations
  exact ⟨next, lab', hreproduce, hsize, hgeneration, hkept, by omega, by omega⟩

end RegisterEvolution
