import RegisterEvolution.Proofs.Evolution.Progress

/-!
# `Proofs.Evolution.Elitism` — the best programs are never lost

Unless programs are scored again, the survivors of a generation keep their fitness and stand at the head of the next
one. So at each place that is bred from, a ranked generation is at least as good as the one ranked before it, and the
best fitness of a ranked generation is the best one of the whole run. Nothing is assumed about the task, the settings,
the generator or the observers, and generations that fail on the way do not matter.

* `Elite` — what is asserted of every population of such a run;
* `elites` — the stages of the run;
* `Engine.elites_survive` — what a generation comes to.
-/

namespace RegisterEvolution

open Binary64

variable {γ σ : Type}

/-! ## Upper bounds -/

/-- Every fitness under a number from `base` on is finite, and some program of the list has one that is as good. -/
def Capped (base : Nat) (s : Store) (ps : List Program) : Prop :=
  ∀ id x, base ≤ id → s.fitnessAt id = some x →
    x.isFinite = true ∧ ∃ q ∈ ps, ∃ y, s.fitnessAt q.id = some y ∧ y.isFinite = true ∧ x ≤ y

namespace Capped

variable {base : Nat} {s s' : Store} {ps qs : List Program}

/-- More programs are as good. -/
theorem mono (h : Capped base s ps) (hsub : ∀ p ∈ ps, p ∈ qs) : Capped base s qs := fun id x hid hx => by
  obtain ⟨hfinite, q, hq, hrest⟩ := h id x hid hx
  exact ⟨hfinite, q, hsub q hq, hrest⟩

/-- A cap does not depend on more than the scores. -/
theorem congr (h : Capped base s ps) (heq : ∀ id, s'.fitnessAt id = s.fitnessAt id) : Capped base s' ps := by
  intro id x hid hx
  rw [heq] at hx
  obtain ⟨hfinite, q, hq, y, hy, hrest⟩ := h id x hid hx
  exact ⟨hfinite, q, hq, y, by rw [heq, hy], hrest⟩

/-- Evaluated programs cap their own fitness. -/
theorem evaluated {task : Task σ} (h : Capped base s ps) (hevaluated : Evaluated (.finite task) false ps s s')
    (hworthy : Worthy (.finite task) s' ps) : Capped base s' ps := by
  intro id x hid hx
  -- a fitness is capped as before unless it has just been written down, and then its own program caps it
  by_cases hold : ∀ p ∈ ps, isPending s false p = true → p.id ≠ id
  · rw [hevaluated.others id hold] at hx
    obtain ⟨hfinite, q, hq, y, hy, hrest⟩ := h id x hid hx
    exact ⟨hfinite, q, hq, y, hevaluated.retains _ _ hy, hrest⟩
  · obtain ⟨p, hp, rfl⟩ : ∃ p ∈ ps, p.id = id := by
      refine Classical.byContradiction fun hnone => hold fun p hp _ hid => hnone ⟨p, hp, hid⟩
    obtain ⟨y, hy, hfinite⟩ := hworthy p hp
    obtain rfl := Option.some.inj (hx.symm.trans hy)
    exact ⟨hfinite, p, hp, x, hx, hfinite, le_refl_of_finite hfinite⟩

/-- Breeding keeps a cap: the best program is in the pool, and new programs have the fitness of one in the pool. -/
theorem bred {r : Population} (h : Capped base s r.programs) (hr : r.Ranked s) {kept : Nat} (hpos : 1 ≤ kept)
    (hlineage : Lineage (r.programs.take kept) s s') : Capped base s' (r.programs.take kept) := by
  intro id x hid hx
  have hretains := hlineage.grown.retains
  -- the split is between numbers used up before breeding and numbers of new programs
  rcases Nat.lt_or_ge id s.nextId with hlt | hge
  · rw [hlineage.grown.fitnessAt_eq hlt] at hx
    obtain ⟨hfinite, q, hq, y, hy, hfy, hle⟩ := h id x hid hx
    obtain ⟨first, rest, hfirst⟩ := List.exists_cons_of_ne_nil (List.ne_nil_of_mem hq)
    obtain ⟨z, hz, hfz⟩ := hr.scored first (by rw [hfirst]; exact List.mem_cons_self ..)
    have hyz := hr.le_first (by rw [hfirst]; rfl) hq hz hy
    have hmem : first ∈ r.programs.take kept := by
      obtain ⟨n, rfl⟩ : ∃ n, kept = n + 1 := ⟨kept - 1, by omega⟩
      rw [hfirst, List.take_succ_cons]
      exact List.mem_cons_self ..
    exact ⟨hfinite, first, hmem, z, hretains _ _ hz, hfz, le_trans_of_finite hfinite hfy hfz hle hyz⟩
  · obtain ⟨p, hp, hpx⟩ := hlineage.inherited id x hge hx
    obtain ⟨z, hz, hfz⟩ := hr.scored p (List.mem_of_mem_take hp)
    obtain rfl := Option.some.inj (hpx.symm.trans hz)
    exact ⟨hfz, p, hp, x, hretains _ _ hpx, hfz, le_refl_of_finite hfz⟩

end Capped

/-! ## The size of populations -/

/--
A population in which the places that are bred from are filled. While these are fewer than a population should have
programs, there are that many programs at least; otherwise there are exactly as many programs as there should be.
-/
structure Filled (plan : Plan) (p : Population) : Prop where
  capacity : p.capacity = plan.breeding.populationSize
  small : ∀ kept, Population.keptCount plan.breeding.populationSize plan.gap = .ok kept →
    (kept : Int) < plan.breeding.populationSize → kept ≤ p.size
  large : ∀ kept, Population.keptCount plan.breeding.populationSize plan.gap = .ok kept →
    plan.breeding.populationSize ≤ kept → p.size = plan.breeding.populationSize.toNat

namespace Filled

variable {plan : Plan} {p r pool next : Population}

theorem generated (hcapacity : p.capacity = plan.breeding.populationSize)
    (hlength : p.programs.length = plan.breeding.populationSize.toNat) : Filled plan p :=
  ⟨hcapacity, fun kept _ hlt => by unfold Population.size; omega, fun _ _ _ => hlength⟩

/-- Only the capacity and the number of programs matter. -/
theorem congr (h : Filled plan p) (hcapacity : r.capacity = p.capacity)
    (hlength : r.programs.length = p.programs.length) : Filled plan r := by
  refine ⟨hcapacity.trans h.capacity, ?_, ?_⟩
  · intro kept hkept hlt
    exact Nat.le_trans (h.small kept hkept hlt) (Nat.le_of_eq hlength.symm)
  · intro kept hkept hle
    exact hlength.trans (h.large kept hkept hle)

/-- What is selected, and how large it is. -/
theorem select_ok (h : Filled plan r) (hpool : r.select plan.gap = .ok pool) :
    ∃ kept, Population.keptCount plan.breeding.populationSize plan.gap = .ok kept ∧ 1 ≤ kept ∧
      pool.programs = r.programs.take kept := by
  obtain ⟨kept, hkept, rfl⟩ := Population.select_ok hpool
  rw [h.capacity] at hkept
  exact ⟨kept, hkept, Population.keptCount_pos hkept, rfl⟩

/-- Populations of at least one program are not empty. -/
theorem size_pos (h : Filled plan r) {kept : Nat}
    (hkept : Population.keptCount plan.breeding.populationSize plan.gap = .ok kept)
    (hsize : 1 ≤ plan.breeding.populationSize) : 0 < r.size := by
  have hpos := Population.keptCount_pos hkept
  rcases Int.lt_or_le kept plan.breeding.populationSize with hlt | hge
  · have := h.small kept hkept hlt
    omega
  · have := h.large kept hkept hge
    omega

/-- The first place of a ranked population, which there is once populations are not empty. -/
theorem exists_first (h : Filled plan r) {kept : Nat} {s : Store} (hranked : r.Ranked s)
    (hkept : Population.keptCount plan.breeding.populationSize plan.gap = .ok kept)
    (hsize : 1 ≤ plan.breeding.populationSize) :
    ∃ q z, r.programs.head? = some q ∧ s.fitness q = some z ∧ z.isFinite = true ∧ r.fitnessAtPlace s 0 = some z := by
  obtain ⟨q, rest, hq⟩ := List.exists_cons_of_length_pos (h.size_pos hkept hsize)
  obtain ⟨z, hz, hfz⟩ := hranked.scored q (by rw [hq]; exact List.mem_cons_self ..)
  refine ⟨q, z, by rw [hq]; rfl, hz, hfz, ?_⟩
  unfold Population.fitnessAtPlace
  rw [hq]
  exact hz

/-- A list that is not longer than a bound is not cut. -/
theorem upTo_eq {ps : List Program} {size : Int} (h : ps.length = size.toNat) : upTo ps size = ps := by
  unfold upTo boundIn
  refine List.take_of_length_le ?_
  split <;> omega

/-- **The next generation begins with the pool**, and the places that are bred from are filled in it. -/
theorem bred (h : Filled plan r) {kept : Nat}
    (hkept : Population.keptCount plan.breeding.populationSize plan.gap = .ok kept)
    (hpool : pool.programs = r.programs.take kept) (hcapacity : next.capacity = plan.breeding.populationSize)
    (hnext : (plan.breeding.populationSize ≤ pool.size ∧
        next.programs = upTo pool.programs plan.breeding.populationSize) ∨
      (pool.size < plan.breeding.populationSize ∧ ∃ offspring, next.programs = pool.programs ++ offspring)) :
    (∃ offspring, next.programs = pool.programs ++ offspring) ∧ Filled plan next := by
  have hlength : pool.size = min kept r.size := by
    unfold Population.size
    rw [hpool, List.length_take]
  rcases Int.lt_or_le kept plan.breeding.populationSize with hlt | hge
  · -- the pool is smaller than a population, so that it is not cut
    have hsmall := h.small kept hkept hlt
    obtain ⟨-, offspring, hoffspring⟩ := hnext.resolve_left fun hcut => by omega
    refine ⟨⟨offspring, hoffspring⟩, hcapacity, ?_, ?_⟩
    · intro kept' hkept' _
      obtain rfl := Except.ok.inj (hkept.symm.trans hkept')
      unfold Population.size at *
      rw [hoffspring, List.length_append]
      omega
    · intro kept' hkept' hge'
      obtain rfl := Except.ok.inj (hkept.symm.trans hkept')
      omega
  · -- the pool is a whole population
    have hlarge := h.large kept hkept hge
    have hwhole : pool.size = plan.breeding.populationSize.toNat := by omega
    obtain ⟨-, hcut⟩ := hnext.resolve_right fun hfill => by
      obtain ⟨hlt, -⟩ := hfill
      omega
    rw [upTo_eq hwhole] at hcut
    exact ⟨⟨[], by rw [hcut, List.append_nil]⟩, .generated hcapacity (by rw [hcut]; exact hwhole)⟩

end Filled

/-! ## Stages of a run of elites -/

/-- Programs that are, place by place, at least as good as what the last ranked population was bred from. -/
structure Outranks (plan : Plan) (s : Store) (last : Population) (ps : List Program) : Prop where
  ranked : last.Ranked s
  filled : Filled plan last
  covers : ∀ kept, Population.keptCount plan.breeding.populationSize plan.gap = .ok kept →
    Covers s (last.programs.take kept) ps

/-- What is asserted of every population of a run that began when the numbers below `base` had been used up. -/
structure Elite (e : Engine σ) (base : Nat) (start : Store) (last : Option Population) (s : Store) (p : Population) :
    Prop where
  retained : start.Retains s
  upholds : Upholds (.finite e.task) s p.programs
  filled : Filled e.plan p
  base_le : base ≤ s.nextId
  since : ∀ q ∈ p.programs, base ≤ q.id
  capped : Capped base s p.programs
  outranks : ∀ l, last = some l → Outranks e.plan s l p.programs

namespace Outranks

variable {plan : Plan} {s s' : Store} {last : Population} {ps qs : List Program}

theorem later (h : Outranks plan s last ps) (hle : s.Retains s') : Outranks plan s' last ps :=
  ⟨h.ranked.later hle, h.filled, fun kept hkept =>
    (h.covers kept hkept).later (h.ranked.rated.sublist (List.take_sublist ..)) hle⟩

theorem trans (h : Outranks plan s last ps) (hcovers : Covers s ps qs) : Outranks plan s last qs :=
  ⟨h.ranked, h.filled, fun kept hkept => (h.covers kept hkept).trans hcovers⟩

/-- The pool covers what an earlier generation was bred from, and so does what begins with the pool. -/
theorem bred {r : Population} (h : Outranks plan s last r.programs) (hr : r.Ranked s) {kept : Nat}
    (hkept : Population.keptCount plan.breeding.populationSize plan.gap = .ok kept)
    (hsub : (r.programs.take kept).Sublist qs) (hle : s.Retains s') : Outranks plan s' last qs := by
  refine ⟨h.ranked.later hle, h.filled, ?_⟩
  intro kept' hkept'
  obtain rfl := Except.ok.inj (hkept.symm.trans hkept')
  have hpool : Covers s (last.programs.take kept) (r.programs.take kept) :=
    (h.covers kept hkept).take hr (List.length_take_le ..)
  exact (hpool.later (h.ranked.rated.sublist (List.take_sublist ..)) hle).trans (.of_sublist hsub)

end Outranks

namespace Elite

variable {e : Engine σ} {base : Nat} {start : Store} {last : Option Population} {s s' : Store} {p r pool : Population}

/-- A failed evaluation has changed no score. -/
theorem spoiled (h : Elite e base start last s p) (hupholds : Upholds (.finite e.task) s' p.programs)
    (hsame : s.SameScores s') : Elite e base start last s' p := by
  have hretains : s.Retains s' := fun id x hx => by rw [hsame.fitnessAt_eq, hx]
  exact ⟨h.retained.trans hretains, hupholds, h.filled, by rw [hsame.nextId_eq]; exact h.base_le, h.since,
    h.capped.congr hsame.fitnessAt_eq, fun l hl => (h.outranks l hl).later hretains⟩

theorem evaluated (h : Elite e base start last s p) (hupholds : Upholds (.finite e.task) s' p.programs)
    (hevaluated : Evaluated (.finite e.task) false p.programs s s') : Elite e base start last s' p :=
  ⟨h.retained.trans hevaluated.retains, hupholds, h.filled, by rw [hevaluated.nextId_eq]; exact h.base_le, h.since,
    h.capped.evaluated hevaluated (hevaluated.worthy hupholds), fun l hl => (h.outranks l hl).later hevaluated.retains⟩

theorem rank (h : Elite e base start last s p) : Elite e base start last s (p.rank s) := by
  have hperm := Population.rank_perm s p
  refine ⟨h.retained, h.upholds.rank, h.filled.congr rfl hperm.length_eq, h.base_le,
    fun q hq => h.since q (hperm.mem_iff.mp hq), h.capped.mono fun q hq => hperm.mem_iff.mpr hq, ?_⟩
  intro l hl
  exact (h.outranks l hl).trans fun v => Nat.le_of_eq (reaching_perm hperm v).symm

/-- What breeding adds to a run of elites, also when it fails. -/
theorem grown (h : Elite e base start last s r) (hr : r.Ranked s) {kept : Nat} (hpos : 1 ≤ kept)
    (hlineage : Lineage (r.programs.take kept) s s') : Elite e base start last s' r := by
  have hretains := hlineage.grown.retains
  exact ⟨h.retained.trans hretains, h.upholds.later hlineage.grown, h.filled,
    Nat.le_trans h.base_le hlineage.grown.nextId_le, h.since,
    (h.capped.bred hr hpos hlineage).mono fun _ hq => List.mem_of_mem_take hq,
    fun l hl => (h.outranks l hl).later hretains⟩

/-- **The next generation covers what the last ranked ones were bred from.** -/
theorem breed [Generator γ] {lab : Lab γ σ} (h : Elite e base start last lab.store r) (hr : r.Ranked lab.store)
    (hpool : r.select e.plan.gap = .ok pool) :
    Ends (fun next lab' => lab.Grows pool.programs lab' ∧ ∀ past, past = last ∨ past = some r →
        Elite e base start past lab'.store { next with generation := r.generation + 1 })
      (fun _ lab' => Elite e base start last lab'.store r) (reproduce e.plan.breeding pool lab) := by
  obtain ⟨kept, hkept, hpos, htake⟩ := h.filled.select_ok hpool
  refine (reproduce_upholds e.plan.breeding pool lab (h.upholds.select hpool)).imp ?_
    fun _ lab' hgrows => h.grown hr hpos (by rw [← htake]; exact hgrows.lineage)
  intro next lab' hout
  obtain ⟨hgrows, hupholds, hcapacity, hnext⟩ := hout
  refine ⟨hgrows, ?_⟩
  intro past hpast
  have hlineage : Lineage (r.programs.take kept) lab.store lab'.store := by
    rw [← htake]
    exact hgrows.lineage
  have hretains := hlineage.grown.retains
  -- a program of the next generation is a survivor or new
  have hmem : ∀ q ∈ next.programs, q ∈ pool.programs ∨ lab.store.nextId ≤ q.id := by
    intro q hq
    rcases hnext with ⟨-, hcut⟩ | ⟨-, offspring, hfill, hlitter⟩
    · rw [hcut] at hq
      exact .inl (mem_of_mem_upTo hq)
    · rw [hfill] at hq
      exact (List.mem_append.mp hq).imp id fun hq => (hlitter.newborn q hq).fresh
  obtain ⟨⟨offspring, hoffspring⟩, hfilled⟩ := h.filled.bred hkept htake hcapacity
    (hnext.imp id fun hfill => ⟨hfill.1, hfill.2.imp fun _ hoffspring => hoffspring.1⟩)
  have hsub : (r.programs.take kept).Sublist next.programs := by
    rw [hoffspring, htake]
    exact List.sublist_append_left ..
  refine ⟨h.retained.trans hretains, hupholds, hfilled.congr rfl rfl, Nat.le_trans h.base_le hlineage.grown.nextId_le,
    ?_, ?_, ?_⟩
  · intro q hq
    rcases hmem q hq with hq | hge
    · rw [htake] at hq
      exact h.since q (List.mem_of_mem_take hq)
    · exact Nat.le_trans h.base_le hge
  · exact (h.capped.bred hr hpos hlineage).mono fun q hq => hsub.mem hq
  · -- what was bred from an earlier generation is covered through the pool, and the pool by itself
    have hself : Outranks e.plan lab.store r r.programs :=
      ⟨hr, h.filled, fun _ _ => .of_sublist (List.take_sublist ..)⟩
    intro l hl
    rcases hpast with rfl | rfl
    · exact (h.outranks l hl).bred hr hkept hsub hretains
    · obtain rfl := Option.some.inj hl
      exact hself.bred hr hkept hsub hretains

end Elite

/-- Nothing has been scored yet under the numbers from `base` on. -/
structure Unscored (base : Nat) (start s : Store) : Prop where
  retained : start.Retains s
  base_le : base ≤ s.nextId
  none : ∀ id, base ≤ id → s.fitnessAt id = none

namespace Unscored

variable {base : Nat} {start s s' : Store}

theorem begin (s : Store) : Unscored s.nextId s s := by
  refine ⟨.refl s, Nat.le_refl _, ?_⟩
  intro id hid
  cases hx : s.fitnessAt id with
  | none => rfl
  | some x =>
      obtain ⟨c, hc, -⟩ := Store.exists_cell_of_fitnessAt hx
      exact absurd (Store.lt_nextId hc) (Nat.not_lt.mpr hid)

/-- Random programs are unscored. -/
theorem later (h : Unscored base start s) (hlineage : Lineage [] s s') : Unscored base start s' := by
  refine ⟨h.retained.trans hlineage.grown.retains, Nat.le_trans h.base_le hlineage.grown.nextId_le, ?_⟩
  intro id hid
  cases hx : s'.fitnessAt id with
  | none => rfl
  | some x =>
      rcases Nat.lt_or_ge id s.nextId with hlt | hge
      · rw [hlineage.grown.fitnessAt_eq hlt, h.none id hid] at hx
        exact nomatch hx
      · obtain ⟨p, hp, -⟩ := hlineage.inherited id x hge hx
        exact absurd hp List.not_mem_nil

/-- New programs under such numbers are where a run of elites begins. -/
theorem elite {e : Engine σ} {p : Population} (h : Unscored base start s)
    (hupholds : Upholds (.finite e.task) s p.programs) (hfilled : Filled e.plan p)
    (hsince : ∀ q ∈ p.programs, base ≤ q.id) : Elite e base start Option.none s p := by
  refine ⟨h.retained, hupholds, hfilled, h.base_le, hsince, ?_, fun _ => nofun⟩
  intro id x hid hx
  rw [h.none id hid] at hx
  exact nomatch hx

end Unscored

/-- **The stages of a run of elites**, whoever fails. -/
def elites [Generator γ] (e : Engine σ) (hcache : e.plan.reevaluate = false) (base : Nat) (start : Store) :
    Engine.Stages γ e Unit where
  view _ := ()
  mayFail := True
  ways := e.Evaluates
  vacant s _ := Unscored base start s
  held last s _ p := Elite e base start last s p
  spoiled last s _ p := Elite e base start last s p
  scored last s _ p := Elite e base start last s p ∧ Rated s p.programs
  ranked last s _ p := Elite e base start last s p ∧ p.Ranked s
  left last s _ p := Elite e base start last s p
  generates lab hvacant := by
    refine (generate_upholds (S := .finite e.task) e.plan.program e.plan.breeding.populationSize lab
      fun _ _ _ _ => trivial).imp ?_ fun _ lab' hgrows => ⟨trivial, hvacant.later hgrows.lineage⟩
    intro p lab' hout
    obtain ⟨hgrows, hupholds, hlitter, hcapacity, hlength⟩ := hout
    apply (hvacant.later hgrows.lineage).elite hupholds (.generated hcapacity hlength)
    intro q hq
    exact Nat.le_trans hvacant.base_le (hlitter.newborn q hq).fresh
  evaluates evaluation hevaluation last p lab hp _ := by
    have hends := hevaluation.upholds p lab hp.upholds
    rw [hcache] at hends
    exact hends.imp (fun _ _ hout => ⟨hp.evaluated hout.1 hout.2, hout.2.worthy hout.1⟩)
      fun _ _ he => ⟨trivial, hp.spoiled he.1 he.2⟩
  ranks last s _ p hp := ⟨hp.1.rank, Population.rank_ranked p hp.2⟩
  selects _ _ _ _ _ := .inl trivial
  breeds last r pool lab hr hpool := (hr.1.breed hr.2 hpool).imp (fun _ _ hnext => hnext.2) fun _ _ he => ⟨trivial, he⟩
  notices event p lab := (dispatch_ends event p (fun o _ _ _ _ _ => rfl) lab).imp (fun _ _ hout => hout)
    fun _ _ he => ⟨trivial, he⟩
  left_of_held _ _ _ _ hp _ := hp
  left_of_spoiled _ _ _ _ hp := hp
  left_of_scored _ _ _ _ hp := hp.1
  left_of_ranked _ _ _ _ hp := hp.1

/-! ## Runs of elites -/

namespace Engine

/-- The best fitness of a ranked population is the one at its first place. -/
theorem bestFitness_eq {s : Store} {p : Population} (h : p.Ranked s) {x : Float} (hx : p.fitnessAtPlace s 0 = some x) :
    bestFitness s p = x := by
  unfold bestFitness
  rw [h.best?_eq, List.head?_eq_getElem?]
  show (p.fitnessAtPlace s 0).getD _ = x
  rw [hx]
  rfl

/--
What a generation comes to that leads from `s` to `s'` and has ranked `r`, in a run that began when the numbers below
`base` had been used up.
-/
structure Elitist (e : Engine σ) (base : Nat) (s s' : EngineState γ σ) (r : Population) : Prop where
  ranked : r.Ranked s'.lab.store
  retained : s.lab.store.Retains s'.lab.store
  /-- At each place that the generation before it was bred from, the generation is at least as good. -/
  places : ∀ last pool, s.lastRanked = some last → last.select e.plan.gap = .ok pool → ∀ k < pool.size,
    ∃ x y, last.fitnessAtPlace s.lab.store k = some x ∧ r.fitnessAtPlace s'.lab.store k = some y ∧ x ≤ y
  /-- The best fitness does not decrease. -/
  nondecreasing : 1 ≤ e.plan.breeding.populationSize → ∀ last, s.lastRanked = some last →
    bestFitness s.lab.store last ≤ bestFitness s'.lab.store r
  /-- The best fitness is that of a program, and nothing better has been written down in the whole run. -/
  best : 1 ≤ e.plan.breeding.populationSize →
    (∃ q ∈ r.programs, base ≤ q.id ∧ s'.lab.store.fitness q = some (bestFitness s'.lab.store r)) ∧
      ∀ id x, base ≤ id → s'.lab.store.fitnessAt id = some x → x ≤ bestFitness s'.lab.store r
  /-- The best fitness is the one that summaries record. -/
  recorded : 1 ≤ e.plan.breeding.populationSize → ∀ sum, r.summarize s'.lab.store = .ok sum →
    sum.best = bestFitness s'.lab.store r

variable [Generator γ]

/-- Every state of a run holds elites, and they may be counted from there on as well as from the beginning. -/
theorem elites_hold (e : Engine σ) (hcache : e.plan.reevaluate = false) {s₀ s : EngineState γ σ}
    (hcourse : e.Course s₀ s) : (elites (γ := γ) e hcache s₀.lab.store.nextId s.lab.store).Holds s := by
  have hs := (elites e hcache s₀.lab.store.nextId s₀.lab.store).holds (fun _ _ _ _ hp => hp) (.begin _) hcourse
  rcases hs with ⟨p, hpopulation, hlast, hp⟩ | ⟨hpopulation, hlast, hvacant⟩
  · exact .inl ⟨p, hpopulation, hlast, { hp with retained := .refl _ }⟩
  · exact .inr ⟨hpopulation, hlast, { hvacant with retained := .refl _ }⟩

/-- What the ranked generation of a step was when it was bred from. -/
theorem elites_turned (e : Engine σ) (hcache : e.plan.reevaluate = false) {s₀ s s' : EngineState γ σ} {r : Population}
    {evaluation : Population → Run γ σ Nat} (hevaluation : e.Evaluates evaluation) (hcourse : e.Course s₀ s)
    (hstep : e.stepBy evaluation s = .ok r s') :
    ∃ (t : Store) (kept : Nat), Elite e s₀.lab.store.nextId s.lab.store s.lastRanked t r ∧ r.Ranked t ∧
      Population.keptCount e.plan.breeding.populationSize e.plan.gap = .ok kept ∧ 1 ≤ kept ∧
      Lineage (r.programs.take kept) t s'.lab.store := by
  let I : Stages γ e Unit := elites e hcache s₀.lab.store.nextId s.lab.store
  have hturned := I.stepBy_ends (fun _ _ _ _ hp => hp) hevaluation (elites_hold e hcache hcourse)
  rw [hstep] at hturned
  obtain ⟨⟨pool, next, lab, lab', ⟨helite, hranked⟩, hpool, hbred, hstore, -⟩, -⟩ := hturned
  obtain ⟨kept, hkept, hpos, htake⟩ := helite.filled.select_ok hpool
  have hgrows := helite.breed hranked hpool
  rw [hbred] at hgrows
  refine ⟨lab.store, kept, helite, hranked, hkept, hpos, ?_⟩
  rw [hstore, ← htake]
  exact hgrows.1.lineage

/-- The generation that was ranked last is ranked still. -/
theorem lastRanked_ranked (e : Engine σ) (hcache : e.plan.reevaluate = false) {s₀ s : EngineState γ σ}
    (hcourse : e.Course s₀ s) {last : Population} (hlast : s.lastRanked = some last) : last.Ranked s.lab.store := by
  rcases elites_hold e hcache hcourse with ⟨p, -, -, hp⟩ | ⟨-, hnone, -⟩
  · exact (hp.outranks last hlast).ranked
  · exact nomatch hlast.symm.trans hnone

/-- Place by place, a generation is at least as good as the one before it was where it has been bred from. -/
theorem places_le (e : Engine σ) (hcache : e.plan.reevaluate = false) {s₀ s : EngineState γ σ} {t : Store}
    {base kept : Nat} {last r : Population} (hcourse : e.Course s₀ s)
    (helite : Elite e base s.lab.store s.lastRanked t r) (hranked : r.Ranked t)
    (hkept : Population.keptCount e.plan.breeding.populationSize e.plan.gap = .ok kept)
    (hlast : s.lastRanked = some last) {k : Nat} (hk : k < (last.programs.take kept).length) :
    ∃ x y, last.fitnessAtPlace s.lab.store k = some x ∧ r.fitnessAtPlace t k = some y ∧ x ≤ y := by
  have houtranks := helite.outranks last hlast
  obtain ⟨x, y, hx, hy, hle⟩ := Covers.fitness_le houtranks.ranked hranked (houtranks.covers kept hkept) hk
  refine ⟨x, y, ?_, hy, hle⟩
  rw [← hx]
  exact ((lastRanked_ranked e hcache hcourse hlast).fitnessAtPlace_eq helite.retained k).symm

/--
**The best programs are never lost.** Unless programs are scored again: in every run, whatever the task scores, the
generator draws and the observers do, and whoever evaluates, a generation that is ranked is at each place that the one
before it was bred from at least as good; its best fitness is not below that of the one before it, and is the maximum of
everything that has been written down in the run.
-/
theorem elites_survive (e : Engine σ) (hcache : e.plan.reevaluate = false) {s₀ s s' : EngineState γ σ} {r : Population}
    {evaluation : Population → Run γ σ Nat} (hevaluation : e.Evaluates evaluation) (hcourse : e.Course s₀ s)
    (hstep : e.stepBy evaluation s = .ok r s') : e.Elitist s₀.lab.store.nextId s s' r := by
  obtain ⟨t, kept, helite, hranked, hkept, hpos, hlineage⟩ := elites_turned e hcache hevaluation hcourse hstep
  have hretains := hlineage.grown.retains
  have hranked' : r.Ranked s'.lab.store := hranked.later hretains
  -- breeding comes after the comparison, and loses no fitness
  have hplaces : ∀ last, s.lastRanked = some last → ∀ k < (last.programs.take kept).length,
      ∃ x y, last.fitnessAtPlace s.lab.store k = some x ∧ r.fitnessAtPlace s'.lab.store k = some y ∧ x ≤ y := by
    intro last hlast k hk
    rw [hranked.fitnessAtPlace_eq hretains]
    exact places_le e hcache hcourse helite hranked hkept hlast hk
  have hfirst := helite.filled.exists_first hranked' hkept
  refine ⟨hranked', helite.retained.trans hretains, ?_, ?_, ?_, ?_⟩
  · intro last pool hlast hpool k hk
    obtain ⟨kept', hkept', -, htake⟩ := (helite.outranks last hlast).filled.select_ok hpool
    obtain rfl := Except.ok.inj (hkept.symm.trans hkept')
    refine hplaces last hlast k ?_
    rw [← htake]
    exact hk
  · intro hsize last hlast
    have hsome : 0 < (last.programs.take kept).length := by
      have := (helite.outranks last hlast).filled.size_pos hkept hsize
      unfold Population.size at this
      rw [List.length_take]
      omega
    obtain ⟨x, y, hx, hy, hle⟩ := hplaces last hlast 0 hsome
    rw [bestFitness_eq (lastRanked_ranked e hcache hcourse hlast) hx, bestFitness_eq hranked' hy]
    exact hle
  · intro hsize
    obtain ⟨q, z, hq, hz, hfz, hplace⟩ := hfirst hsize
    have hmem := List.mem_of_mem_head? hq
    rw [bestFitness_eq hranked' hplace]
    refine ⟨⟨q, hmem, helite.since q hmem, hz⟩, ?_⟩
    intro id x hid hx
    obtain ⟨hfx, p, hp, y, hy, hfy, hle⟩ := helite.capped.bred hranked hpos hlineage id x hid hx
    exact le_trans_of_finite hfx hfy hfz hle (hranked'.le_first hq (List.mem_of_mem_take hp) hz hy)
  · intro hsize sum hsum
    obtain ⟨q, z, -, -, -, hplace⟩ := hfirst hsize
    rw [bestFitness_eq hranked' hplace]
    exact hranked'.summary_best hsum hplace

/-- The second generation of an engine with the default settings. -/
theorem elites_survive_brief :
    ∃ (s₀ s s' : EngineState Least Unit) (r r' : Population), s₀ = .start .least () ∧ brief.step s₀ = .ok r s ∧
      brief.step s = .ok r' s' ∧ brief.Elitist s₀.lab.store.nextId s s' r' := by
  obtain ⟨shape, sizes, hviable⟩ := brief_viable
  obtain ⟨s₀, hs₀⟩ : ∃ s₀ : EngineState Least Unit, s₀ = .start .least () := ⟨_, rfl⟩
  have hcourse : brief.Course s₀ s₀ := .begin (by rw [hs₀]; rfl) (by rw [hs₀]; rfl)
  obtain ⟨r, s, hfirst, -, hgeneration⟩ := hviable.steps brief_writable (hviable.holds hcourse) (by rw [hs₀]; decide)
  have hcourse' : brief.Course s₀ s := hcourse.next .alone hfirst
  obtain ⟨r', s', hsecond, -⟩ := hviable.steps brief_writable (hviable.holds hcourse')
    (by rw [hgeneration, hs₀]; decide)
  exact ⟨s₀, s, s', r, r', hs₀, hfirst, hsecond, elites_survive brief rfl .alone hcourse' hsecond⟩

end Engine

end RegisterEvolution
