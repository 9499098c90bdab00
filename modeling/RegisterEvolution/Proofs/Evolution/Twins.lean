import RegisterEvolution.Proofs.Evolution.Coupling
import RegisterEvolution.Proofs.Evolution.Delivery

/-!
# `Proofs.Evolution.Twins` — generations that go the same way

What a generation comes to depends on the instructions and the fitness of the programs, on their order, and on what is
drawn; nothing looks at the numbers of the programs but the store. So two engines with equal generators go the same way
although they count their programs from different beginnings, are watched by different observers, spread evaluation over
different numbers of workers, and have other banks, journals and worlds.

* `Program.Twin`, `Store.Twin`, `Lab.Twin` — programs, stores and labs that correspond to each other;
* `Lab.Counted`, `Lab.Counted.coupling` — breeding cannot tell such labs apart;
* `Engine.Evaluates.ends` — every way in which an engine may evaluate comes to the same;
* `Engine.Twins`, `stepBy_twins` — engines that correspond to each other do so after a generation as well.
-/

namespace RegisterEvolution

variable {γ σ : Type} {base base' : Nat} {s s' t t' : Store} {p q : Program}

/-! ## Programs and stores -/

/-- Programs with the same instructions, the numbers of which are equally far from two beginnings. -/
structure Program.Twin (base base' : Nat) (p q : Program) : Prop where
  code : q.code = p.code
  shape : q.shape = p.shape
  offset : ∃ k, p.id = base + k ∧ q.id = base' + k

/-- Counted from one beginning, twins are the same. -/
theorem Program.Twin.eq (h : Program.Twin base base p q) : p = q := by
  obtain ⟨id, code, shape⟩ := p
  obtain ⟨id', code', shape'⟩ := q
  obtain ⟨k, hk, hk'⟩ := h.offset
  obtain rfl : code' = code := h.code
  obtain rfl : shape' = shape := h.shape
  obtain rfl : id' = id := hk'.trans hk.symm
  rfl

/-- Stores that know the same of the numbers from two beginnings on. -/
structure Store.Twin (base base' : Nat) (s t : Store) : Prop where
  nextId : ∃ k, s.nextId = base + k ∧ t.nextId = base' + k
  scores : ∀ k, t.fitnessAt (base' + k) = s.fitnessAt (base + k)

namespace Store.Twin

/-- Nothing is known of numbers that have not been used up. -/
theorem start (s t : Store) : Store.Twin s.nextId t.nextId s t := by
  have hnone : ∀ (s : Store) (k : Nat), s.fitnessAt (s.nextId + k) = none := by
    intro s k
    cases hx : s.fitnessAt (s.nextId + k) with
    | none => rfl
    | some x =>
        obtain ⟨c, hc, -⟩ := exists_cell_of_fitnessAt hx
        have hlt := lt_nextId hc
        omega
  exact ⟨⟨0, rfl, rfl⟩, fun k => by rw [hnone, hnone]⟩

theorem fitness_eq (h : Store.Twin base base' s t) (hpq : Program.Twin base base' p q) : t.fitness q = s.fitness p := by
  obtain ⟨k, hk, hk'⟩ := hpq.offset
  rw [Store.fitness_eq, Store.fitness_eq, hk, hk', h.scores]

theorem isPending_eq (h : Store.Twin base base' s t) (hpq : Program.Twin base base' p q) (reevaluate : Bool) :
    isPending t reevaluate q = isPending s reevaluate p := by
  unfold isPending
  rw [h.fitness_eq hpq]

/-- Either store has one more entry. -/
theorem push (h : Store.Twin base base' s t) (c : Option Cell) :
    Store.Twin base base' ⟨s.cells.push c⟩ ⟨t.cells.push c⟩ := by
  obtain ⟨k, hk, hk'⟩ := h.nextId
  constructor
  · exact ⟨k + 1, by rw [nextId_push, hk, Nat.add_assoc], by rw [nextId_push, hk', Nat.add_assoc]⟩
  · intro j
    rw [fitnessAt_push, fitnessAt_push, hk, hk', h.scores]
    by_cases hj : j = k
    · simp [hj]
    · simp [hj]

end Store.Twin

/-- Labs with the same generator and with stores that correspond; what else there is in them may differ. -/
structure Lab.Twin (base base' : Nat) (lab lab' : Lab γ σ) : Prop where
  source : lab'.source = lab.source
  store : Store.Twin base base' lab.store lab'.store

/--
Labs related by `R`, which have equal generators and stores related by `S`. To be related means no more than that as far
as breeding is concerned: the stores may grow alike, and the journals and the warnings are of no account.
-/
structure Lab.Counted (base base' : Nat) (S : Store → Store → Prop) (R : Lab γ σ → Lab γ σ → Prop) : Prop where
  twin : ∀ s t, S s t → Store.Twin base base' s t
  push : ∀ s t c, S s t → S ⟨s.cells.push c⟩ ⟨t.cells.push c⟩
  source : ∀ lab lab', R lab lab' → lab'.source = lab.source
  store : ∀ lab lab', R lab lab' → S lab.store lab'.store
  draw : ∀ lab lab' source, R lab lab' → R { lab with source := source } { lab' with source := source }
  grow : ∀ lab lab' s t, R lab lab' → S s t → R { lab with store := s } { lab' with store := t }
  aside : ∀ lab lab' journal journal' warned warned', R lab lab' →
    R { lab with journal := journal, warned := warned } { lab' with journal := journal', warned := warned' }

namespace Lab.Counted

variable {S : Store → Store → Prop} {R : Lab γ σ → Lab γ σ → Prop} (h : Lab.Counted base base' S R)

include h

/-- Constructions come to twins. -/
theorem construct (shape : Shape) (code : List Instruction) (fitness : Option Float) :
    Coupled S (fun _ _ => True) (Program.Twin base base') (Store.construct shape code fitness)
      (Store.construct shape code fitness) := by
  intro s t hst
  unfold Store.construct
  cases shape.flaw? code with
  | some flaw => exact ⟨trivial, h.push s t none hst⟩
  | none =>
      simp only
      cases Store.freshRegisters shape with
      | ok r => exact ⟨⟨rfl, rfl, (h.twin s t hst).nextId⟩, h.push s t _ hst⟩
      | error f => exact ⟨trivial, h.push s t none hst⟩

theorem onStore {α : Type} {V : α → α → Prop} {c c' : EStateM Error Store α}
    (hc : Coupled S (fun _ _ => True) V c c') : Coupled R (fun _ _ => True) V (Run.onStore c) (Run.onStore c') := by
  intro lab lab' hlab
  unfold Run.onStore
  rcases (hc lab.store lab'.store (h.store lab lab' hlab)).exists_or with
    ⟨a, store, b, store', hout, hout', hab, hstore⟩ | ⟨e, store, e', store', hout, hout', -, hstore⟩
  · rw [hout, hout']
    exact ⟨hab, h.grow lab lab' store store' hlab hstore⟩
  · rw [hout, hout']
    exact ⟨trivial, h.grow lab lab' store store' hlab hstore⟩

/-- Either lab may have reports of its own. -/
theorem report (record record' : Record) :
    Coupled R (fun _ _ => True) Eq (Run.report record) (Run.report record') :=
  .modify fun lab lab' hlab => h.aside lab lab' _ _ lab.warned lab'.warned hlab

/-- **Breeding cannot tell such labs apart.** -/
theorem coupling : Lab.Coupling R (fun _ _ => True) (Program.Twin base base') where
  alike _ _ hpq := ⟨hpq.code, hpq.shape⟩
  fault _ := trivial
  draw d lab lab' hlab := by
    unfold Run.draw
    rw [h.source lab lab' hlab]
    cases d lab.source with
    | ok a source => exact ⟨rfl, h.draw lab lab' source hlab⟩
    | error e source => exact ⟨trivial, h.draw lab lab' source hlab⟩
  construct shape code := h.onStore (h.construct shape code none)
  clone p q hpq := by
    refine h.onStore fun s t hst => ?_
    unfold Store.copy
    rw [(h.twin s t hst).fitness_eq hpq, hpq.code, hpq.shape]
    exact h.construct p.shape p.code _ s t hst
  report record := h.report record record
  warn size lab lab' hlab := by
    refine (Pairs.of_ends (warnOfSmallPool_ends size lab) (warnOfSmallPool_ends size lab')).imp ?_ fun _ _ _ _ => id
    rintro ⟨⟩ ⟨⟩ next next' ⟨hnext, hnext'⟩
    rw [hnext, hnext']
    exact ⟨rfl, h.aside lab lab' _ _ _ _ hlab⟩

end Lab.Counted

/-- Nothing else is asked of labs that correspond. -/
theorem Lab.counted_twin : Lab.Counted base base' (Store.Twin base base') (Lab.Twin (γ := γ) (σ := σ) base base') where
  twin _ _ hst := hst
  push _ _ c hst := hst.push c
  source _ _ h := h.source
  store _ _ h := h.store
  draw _ _ _ h := ⟨rfl, h.store⟩
  grow _ _ _ _ h hst := ⟨h.source, hst⟩
  aside _ _ _ _ _ _ h := ⟨h.source, h.store⟩

/-! ## Ranking and selection -/

section Ranking

variable {V : Program → Program → Prop}

/-- Sorting keeps lists related place by place if it compares related elements alike. -/
theorem rel_mergeSort {α : Type} {V : α → α → Prop} {le le' : α → α → Bool} {xs ys : List α}
    (h : List.Forall₂ V xs ys) (hle : ∀ a b a' b', V a a' → V b b' → le a b = le' a' b') :
    List.Forall₂ V (xs.mergeSort le) (ys.mergeSort le') := by
  -- both lists are projections of a list of pairs, which is sorted in their place
  have hpairs : ∀ z ∈ xs.zip ys, V z.1 z.2 := by
    rintro ⟨x, y⟩ hz
    exact (List.forall₂_iff_zip.mp h).2 hz
  have hxs : ((xs.zip ys).mergeSort fun z w => le z.1 w.1).map Prod.fst = xs.mergeSort le := by
    rw [List.map_mergeSort (s := le) fun _ _ _ _ => rfl, List.map_fst_zip h.length_eq.le]
  have hys : ((xs.zip ys).mergeSort fun z w => le z.1 w.1).map Prod.snd = ys.mergeSort le' := by
    rw [List.map_mergeSort (s := le') fun z hz w hw => hle _ _ _ _ (hpairs z hz) (hpairs w hw),
      List.map_snd_zip h.length_eq.ge]
  rw [← hxs, ← hys, List.forall₂_map_left_iff, List.forall₂_map_right_iff, List.forall₂_same]
  intro z hz
  exact hpairs z (List.mem_mergeSort.mp hz)

variable {a b : Population}

/-- Populations of equal fitness place by place have equal rankings. -/
theorem Population.Paired.rank (h : a.Paired V b) (hV : ∀ p q, V p q → t.fitness q = s.fitness p) :
    (a.rank s).Paired V (b.rank t) := by
  refine ⟨rel_mergeSort h.programs ?_, h.capacity, h.generation⟩
  intro p q p' q' hp hq
  unfold Population.rankLe Population.rankKey
  rw [hV p p' hp, hV q q' hq]

/-- The same places are selected, or selection fails for both. -/
theorem Population.Paired.select (h : a.Paired V b) (gap : Float) :
    (∃ f, a.select gap = .error f ∧ b.select gap = .error f) ∨
      ∃ pool pool', a.select gap = .ok pool ∧ b.select gap = .ok pool' ∧ pool.Paired V pool' := by
  unfold Population.select
  rw [h.capacity]
  cases keptCount a.capacity gap with
  | error f => exact .inl ⟨f, rfl, rfl⟩
  | ok kept => exact .inr ⟨_, _, rfl, rfl, List.forall₂_take kept h.programs, rfl, h.generation⟩

end Ranking

/-! ## Evaluation -/

section Evaluation

variable {task : Task σ} {shapes : Shape → Prop} {F : Program → Except Error Value} {ps : List Program}
  {population : Population} {reevaluate : Bool} {lab : Lab γ σ} {delivered : List (Nat × Except Error Float)}

/-- Programs of certain shapes without a flaw, on banks that scoring can meet. -/
def Task.Scope (task : Task σ) (shapes : Shape → Prop) (p : Program) (r : Registers) : Prop :=
  shapes p.shape ∧ p.shape.flaw? p.code = none ∧ task.Banks p r

theorem Upholds.covers (h : Upholds (.scorable task shapes) s ps) : s.Covers (task.Scope shapes) ps := by
  refine ⟨?_, fun p hp q hq hid => h.eq_of_id_eq hp hq hid⟩
  intro p hp
  obtain ⟨c, hc, hbanks, -⟩ := (h.each p hp).entry
  exact ⟨c, hc, (h.each p hp).shape, (h.each p hp).flawless, hbanks⟩

variable {e : Engine σ} {evaluation : Population → Run γ σ Nat}

/-- Either way assesses the pending programs, or fails because one of them does. -/
theorem Engine.Evaluates.assesses (hevaluation : e.Evaluates evaluation)
    (hF : e.task.Determined (e.task.Scope e.Bound) F) (population : Population) (lab : Lab γ σ)
    (h : Upholds (.scorable e.task e.Bound) lab.store population.programs) :
    Ends (fun _ lab' => Assessed (e.task.due F) e.plan.reevaluate population.programs lab.store lab'.store)
      (fun er _ => ∃ p ∈ population.programs, isPending lab.store e.plan.reevaluate p = true ∧
        e.task.due F p = .error er) (evaluation population lab) := by
  have hpending : ∀ {er : Error},
      (∃ p ∈ population.programs.filter (isPending lab.store e.plan.reevaluate), e.task.due F p = .error er) →
        ∃ p ∈ population.programs, isPending lab.store e.plan.reevaluate p = true ∧ e.task.due F p = .error er := by
    rintro er ⟨p, hp, hdue⟩
    exact ⟨p, (List.mem_filter.mp hp).1, (List.mem_filter.mp hp).2, hdue⟩
  cases hevaluation with
  | alone => exact (evaluate_assessed hF h.covers).imp (fun _ _ hout => hout.2) fun _ _ he => hpending he.1.exists_mem
  | pooled schedule hschedule =>
      exact (evaluateDelivered_assessed hF h.covers (hschedule population lab)).imp (fun _ _ hout => hout.2)
        fun _ _ he => hpending he.1

/-- **Either way keeps up what is known of the programs**, assesses the pending ones and draws nothing. -/
theorem Engine.Evaluates.ends (hevaluation : e.Evaluates evaluation)
    (hF : e.task.Determined (e.task.Scope e.Bound) F) (population : Population) (lab : Lab γ σ)
    (h : Upholds (.scorable e.task e.Bound) lab.store population.programs) :
    Ends (fun _ lab' => Assessed (e.task.due F) e.plan.reevaluate population.programs lab.store lab'.store ∧
        Upholds (.scorable e.task e.Bound) lab'.store population.programs ∧ lab.Undrawn lab')
      (fun er _ => ∃ p ∈ population.programs, isPending lab.store e.plan.reevaluate p = true ∧
        e.task.due F p = .error er) (evaluation population lab) :=
  (((hevaluation.assesses hF population lab h).and (hevaluation.upholds population lab h)).and
    (hevaluation.calm population lab)).imp (fun _ _ hout => ⟨hout.1.1, hout.1.2.1, hout.2⟩) fun _ _ he => he.1.1

end Evaluation

/-- What is due to the one of two twins is due to the other one. -/
theorem Program.Twin.due {task : Task σ} {F : List Instruction → Shape → Except Error Value}
    (h : Program.Twin base base' p q) {x : Float} :
    task.due (fun p => F p.code p.shape) q = .ok x ↔ task.due (fun p => F p.code p.shape) p = .ok x := by
  have hnumber : ∀ (p : Program) (v : Value), toFitness p v = .ok x ↔ v.toNumber = .ok x ∧ x.isFinite = true :=
    fun p v => ⟨isFinite_of_toFitness, fun hx => toFitness_ok hx.1 hx.2⟩
  unfold Task.due
  simp only [h.code, h.shape]
  cases F p.code p.shape with
  | error e => simp
  | ok v => simp only [hnumber]

section Assessed

variable {task : Task σ} {F : List Instruction → Shape → Except Error Value} {reevaluate : Bool} {ps qs : List Program}

/-- Twins stand at the same place. -/
theorem exists_twin (h : List.Forall₂ (Program.Twin base base') ps qs) (hq : q ∈ qs) :
    ∃ p ∈ ps, Program.Twin base base' p q := by
  obtain ⟨i, hi⟩ := List.mem_iff_getElem?.mp hq
  rcases rel_getElem? h i with ⟨-, hnone⟩ | ⟨p, q', hp, hq', hpq⟩
  · exact nomatch hnone.symm.trans hi
  · obtain rfl := Option.some.inj (hq'.symm.trans hi)
    exact ⟨p, List.mem_of_getElem? hp, hpq⟩

theorem exists_twin' (h : List.Forall₂ (Program.Twin base base') ps qs) (hp : p ∈ ps) :
    ∃ q ∈ qs, Program.Twin base base' p q := by
  obtain ⟨i, hi⟩ := List.mem_iff_getElem?.mp hp
  rcases rel_getElem? h i with ⟨hnone, -⟩ | ⟨p', q, hp', hq, hpq⟩
  · exact nomatch hnone.symm.trans hi
  · obtain rfl := Option.some.inj (hp'.symm.trans hi)
    exact ⟨q, List.mem_of_getElem? hq, hpq⟩

/-- **Assessments of twins leave stores that correspond.** -/
theorem Assessed.twin (h : Assessed (task.due fun p => F p.code p.shape) reevaluate ps s s')
    (h' : Assessed (task.due fun p => F p.code p.shape) reevaluate qs t t') (hst : Store.Twin base base' s t)
    (hpq : List.Forall₂ (Program.Twin base base') ps qs) : Store.Twin base base' s' t' := by
  constructor
  · rw [h.nextId_eq, h'.nextId_eq]
    exact hst.nextId
  · intro k
    by_cases hk : ∃ p ∈ ps, isPending s reevaluate p = true ∧ p.id = base + k
    · obtain ⟨p, hp, hpending, hid⟩ := hk
      obtain ⟨q, hq, htwin⟩ := exists_twin' hpq hp
      obtain ⟨j, hj, hj'⟩ := htwin.offset
      obtain ⟨x, hx, hfitness⟩ := h.pending p hp hpending
      obtain ⟨y, hy, hfitness'⟩ := h'.pending q hq (by rw [hst.isPending_eq htwin, hpending])
      obtain rfl := Except.ok.inj (hx.symm.trans (htwin.due.mp hy))
      obtain rfl : j = k := by omega
      rw [← hj, ← hj', hfitness, hfitness']
    · -- none of the two numbers is that of a pending program
      have hnone : ∀ p ∈ ps, isPending s reevaluate p = true → p.id ≠ base + k :=
        fun p hp hpending hid => hk ⟨p, hp, hpending, hid⟩
      have hnone' : ∀ q ∈ qs, isPending t reevaluate q = true → q.id ≠ base' + k := by
        intro q hq hpending hid
        obtain ⟨p, hp, htwin⟩ := exists_twin hpq hq
        obtain ⟨j, hj, hj'⟩ := htwin.offset
        refine hnone p hp (by rw [← hst.isPending_eq htwin, hpending]) ?_
        omega
      rw [h.others _ hnone, h'.others _ hnone', hst.scores]

end Assessed

namespace Engine

/-! ## Engines side by side -/

/-- Engines with the same task, which does the same with the same instructions, and with settings that differ at most
    in the number of generations and workers; nobody who watches them fails. -/
structure Alongside (F : List Instruction → Shape → Except Error Value) (e e' : Engine σ) : Prop where
  task : e'.task = e.task
  breeding : e'.plan.breeding = e.plan.breeding
  gap : e'.plan.gap = e.plan.gap
  reevaluate : e'.plan.reevaluate = e.plan.reevaluate
  program : e'.plan.program = e.plan.program
  determined : e.task.Determined (e.task.Scope e.Bound) fun p => F p.code p.shape
  steady : ∀ o ∈ e.observers, o.Steady
  steady' : ∀ o ∈ e'.observers, o.Steady

/-- A state that differs at most in what reports, phases and observers change. -/
structure Quiet (s s' : EngineState γ σ) : Prop where
  source : s'.lab.source = s.lab.source
  store : s'.lab.store = s.lab.store
  population : s'.population = s.population
  lastRanked : s'.lastRanked = s.lastRanked

/-- Engines that hold populations which correspond, on labs which correspond. -/
structure Twins (e : Engine σ) (base base' : Nat) (s t : EngineState γ σ) (p q : Population) : Prop where
  lab : Lab.Twin base base' s.lab t.lab
  population : s.population = some p
  population' : t.population = some q
  paired : p.Paired (Program.Twin base base') q
  upholds : Upholds (.scorable e.task e.Bound) s.lab.store p.programs
  upholds' : Upholds (.scorable e.task e.Bound) t.lab.store q.programs
  lastRanked : Option.Rel (Population.Paired (Program.Twin base base')) s.lastRanked t.lastRanked

variable {e e' : Engine σ} {F : List Instruction → Shape → Except Error Value} {s s' t t' : EngineState γ σ}
  {p q r r' pool pool' : Population}

/-- Reports, phases and observers play no part. -/
theorem Twins.quiet (h : Twins e base base' s t p q) (hs : Quiet s s') (ht : Quiet t t') :
    Twins e base base' s' t' p q := by
  refine ⟨⟨?_, ?_⟩, hs.population.trans h.population, ht.population.trans h.population', h.paired, ?_, ?_, ?_⟩
  · rw [ht.source, hs.source, h.lab.source]
  · rw [ht.store, hs.store]
    exact h.lab.store
  · rw [hs.store]
    exact h.upholds
  · rw [ht.store]
    exact h.upholds'
  · rw [hs.lastRanked, ht.lastRanked]
    exact h.lastRanked

/-- Observers that do not fail change nothing else. -/
theorem notify_quiet (h : ∀ o ∈ e.observers, o.Steady) (event : Event) (p : Population) (s : EngineState γ σ) :
    Ends (fun _ s' => Quiet s s') Never (e.notify event p s) := by
  have hdispatch := ((dispatch_steady event p h s.lab).and (e.dispatch_watched event p s.lab)).and
    (Run.Calm.dispatch e.observers event p s.lab)
  refine ends_bind.mpr ?_
  unfold onLab
  cases hout : dispatch e.observers event p s.lab with
  | error er lab =>
      rw [hout] at hdispatch
      exact hdispatch.1.1
  | ok stops lab =>
      rw [hout] at hdispatch
      cases stops with
      | true => exact ⟨hdispatch.2.source, hdispatch.1.2.store, rfl, rfl⟩
      | false => exact ⟨hdispatch.2.source, hdispatch.1.2.store, rfl, rfl⟩

/-- A computation on the labs concerns nothing else. -/
theorem onLab_pairs {α β : Type} {m : Run γ σ α} {n : Run γ σ β} {P : α → β → Lab γ σ → Lab γ σ → Prop}
    (hmn : Pairs P Both (m s.lab) (n t.lab)) :
    Pairs (fun a b s' t' => s' = { s with lab := s'.lab } ∧ t' = { t with lab := t'.lab } ∧ P a b s'.lab t'.lab) Both
      (onLab m s) (onLab n t) := by
  unfold onLab
  rcases hmn.exists_or with ⟨a, lab, b, lab', hm, hn, hab⟩ | ⟨er, lab, er', lab', hm, hn, -⟩
  · rw [hm, hn]
    exact ⟨rfl, rfl, hab⟩
  · rw [hm, hn]
    exact trivial

variable (h : Alongside F e e')

include h

theorem Alongside.bound_eq : e'.Bound = e.Bound := by
  unfold Bound
  rw [h.program, h.task]

theorem Alongside.determined' : e'.task.Determined (e'.task.Scope e'.Bound) fun p => F p.code p.shape := by
  rw [h.task, h.bound_eq]
  exact h.determined

/-- Both engines tell their observers of events of their own. -/
theorem notify_twins (hst : Twins e base base' s t p q) (event event' : Event) (a b : Population) :
    Pairs (fun _ _ s' t' => Twins e base base' s' t' p q) Both (e.notify event a s) (e'.notify event' b t) :=
  (Pairs.of_ends (notify_quiet h.steady event a s) (notify_quiet h.steady' event' b t)).imp
    (fun _ _ _ _ hquiet => hst.quiet hquiet.1 hquiet.2) fun _ _ _ _ => id

/-! ## Phases -/

variable {evaluation evaluation' : Population → Run γ σ Nat}

/-- Both evaluations assess the same programs, or both fail because one of them does. -/
theorem evaluation_pairs (hevaluation : e.Evaluates evaluation) (hevaluation' : e'.Evaluates evaluation')
    (hst : Twins e base base' s t p q) :
    Pairs (fun _ _ lab lab' => Lab.Twin base base' lab lab' ∧ Upholds (.scorable e.task e.Bound) lab.store p.programs ∧
        Upholds (.scorable e.task e.Bound) lab'.store q.programs) Both
      (evaluation p s.lab) (evaluation' q t.lab) := by
  have hone := hevaluation.ends h.determined p s.lab hst.upholds
  have hother := hevaluation'.ends h.determined' q t.lab (by
    rw [h.task, h.bound_eq]
    exact hst.upholds')
  rw [h.task, h.bound_eq, h.reevaluate] at hother
  have htwin := hst.lab.store
  cases hout : evaluation p s.lab with
  | ok count lab =>
      rw [hout] at hone
      cases hout' : evaluation' q t.lab with
      | ok count' lab' =>
          rw [hout'] at hother
          refine ⟨⟨?_, hone.1.twin hother.1 htwin hst.paired.programs⟩, hone.2.1, hother.2.1⟩
          rw [hother.2.2.source, hone.2.2.source, hst.lab.source]
      | error er lab' =>
          -- the twin of a program that fails fails as well
          rw [hout'] at hother
          obtain ⟨q', hq', hpending, hdue⟩ := hother
          obtain ⟨p', hp', hpq⟩ := exists_twin hst.paired.programs hq'
          obtain ⟨x, hx, -⟩ := hone.1.pending p' hp' (by rw [← htwin.isPending_eq hpq, hpending])
          exact nomatch (hpq.due.mpr hx).symm.trans hdue
  | error er lab =>
      rw [hout] at hone
      cases hout' : evaluation' q t.lab with
      | error er' lab' => exact trivial
      | ok count' lab' =>
          rw [hout'] at hother
          obtain ⟨p', hp', hpending, hdue⟩ := hone
          obtain ⟨q', hq', hpq⟩ := exists_twin' hst.paired.programs hp'
          obtain ⟨x, hx, -⟩ := hother.1.pending q' hq' (by rw [htwin.isPending_eq hpq, hpending])
          exact nomatch (hpq.due.mp hx).symm.trans hdue

omit h in
/-- Two generations are announced, or neither can be labelled. -/
theorem announce_twins (hlabel : e'.canLabel q.generation = e.canLabel p.generation)
    (hst : Twins e base base' s t p q) :
    Pairs (fun _ _ s' t' => Twins e base base' s' t' p q) Both (e.announce p s) (e'.announce q t) := by
  unfold announce
  rw [hlabel]
  cases e.canLabel p.generation with
  | true => exact hst.quiet ⟨rfl, rfl, rfl, rfl⟩ ⟨rfl, rfl, rfl, rfl⟩
  | false => exact trivial

theorem evaluatePhaseBy_twins (hevaluation : e.Evaluates evaluation) (hevaluation' : e'.Evaluates evaluation')
    (hlabel : e'.canLabel q.generation = e.canLabel p.generation) (hst : Twins e base base' s t p q) :
    Pairs (fun _ _ s' t' => Twins e base base' s' t' p q) Both (e.evaluatePhaseBy evaluation p s)
      (e'.evaluatePhaseBy evaluation' q t) := by
  have hst' : Twins e base base' { s with phase := some .evaluating } { t with phase := some .evaluating } p q :=
    hst.quiet ⟨rfl, rfl, rfl, rfl⟩ ⟨rfl, rfl, rfl, rfl⟩
  show Pairs _ _
    ((do e.announce p; let _ ← onLab (evaluation p); e.notify .evaluated p : Evolving γ σ Unit) _)
    ((do e'.announce q; let _ ← onLab (evaluation' q); e'.notify .evaluated q : Evolving γ σ Unit) _)
  refine (announce_twins hlabel hst').bind ?_ fun _ _ _ _ => id
  intro _ _ s₀ t₀ hst
  refine (onLab_pairs (evaluation_pairs h hevaluation hevaluation' hst)).bind ?_ fun _ _ _ _ => id
  intro _ _ s₁ t₁ hout
  obtain ⟨hs₁, ht₁, hlab, hupholds, hupholds'⟩ := hout
  refine notify_twins h ⟨hlab, ?_, ?_, hst.paired, hupholds, hupholds', ?_⟩ _ _ _ _
  · rw [hs₁]
    exact hst.population
  · rw [ht₁]
    exact hst.population'
  · rw [hs₁, ht₁]
    exact hst.lastRanked

theorem rankPhase_twins (hst : Twins e base base' s t p q) :
    Pairs (fun r r' s' t' => Twins e base base' s' t' r r') Both (e.rankPhase p s) (e'.rankPhase q t) := by
  have hpaired := hst.paired.rank fun p q hpq => hst.lab.store.fitness_eq hpq
  have hranked : ∀ journal journal' phase, Twins e base base'
      { s with
        phase := phase, population := some (p.rank s.lab.store), lab := { s.lab with journal := journal } }
      { t with
        phase := phase, population := some (q.rank t.lab.store), lab := { t.lab with journal := journal' } }
      (p.rank s.lab.store) (q.rank t.lab.store) :=
    fun _ _ _ => ⟨⟨hst.lab.source, hst.lab.store⟩, rfl, rfl, hpaired, hst.upholds.rank, hst.upholds'.rank,
      hst.lastRanked⟩
  show Pairs _ _ ((do e.notify .ranked (p.rank s.lab.store); return p.rank s.lab.store : Evolving γ σ Population) _)
    ((do e'.notify .ranked (q.rank t.lab.store); return q.rank t.lab.store : Evolving γ σ Population) _)
  exact (notify_twins h (hranked _ _ _) _ _ _ _).bind (fun _ _ _ _ hst' => hst') fun _ _ _ _ => id

theorem selectPhase_twins (hst : Twins e base base' s t r r') :
    Pairs (fun pool pool' s' t' => Twins e base base' s' t' r r' ∧ r.select e.plan.gap = .ok pool ∧
        r'.select e.plan.gap = .ok pool' ∧ pool.Paired (Program.Twin base base') pool') Both
      (e.selectPhase r s) (e'.selectPhase r' t) := by
  have hst' : Twins e base base' { s with phase := some .selecting } { t with phase := some .selecting } r r' :=
    hst.quiet ⟨rfl, rfl, rfl, rfl⟩ ⟨rfl, rfl, rfl, rfl⟩
  unfold selectPhase
  rw [h.gap]
  rcases hst.paired.select e.plan.gap with ⟨f, hf, hf'⟩ | ⟨pool, pool', hpool, hpool', hpaired⟩
  · rw [hf, hf']
    exact trivial
  · rw [hpool, hpool']
    show Pairs _ _ ((do e.notify .selected pool; return pool : Evolving γ σ Population) _)
      ((do e'.notify .selected pool'; return pool' : Evolving γ σ Population) _)
    exact (notify_twins h hst' _ _ _ _).bind (fun _ _ _ _ hst'' => ⟨hst'', rfl, rfl, hpaired⟩) fun _ _ _ _ => id

variable [Generator γ]

theorem replacePhase_twins (hst : Twins e base base' s t r r') (hpool : r.select e.plan.gap = .ok pool)
    (hpool' : r'.select e.plan.gap = .ok pool') (hpaired : pool.Paired (Program.Twin base base') pool') :
    Pairs (fun _ _ s' t' => ∃ p q, Twins e base base' s' t' p q) Both (e.replacePhase r pool s)
      (e'.replacePhase r' pool' t) := by
  unfold replacePhase
  rw [h.breeding]
  have hbred := (reproduce_coupled Lab.counted_twin.coupling e.plan.breeding hpaired s.lab t.lab hst.lab).and
    (reproduce_upholds e.plan.breeding pool s.lab (hst.upholds.select hpool))
    (reproduce_upholds e.plan.breeding pool' t.lab (hst.upholds'.select hpool'))
  have hbred' := onLab_pairs (s := { s with phase := some .reproducing }) (t := { t with phase := some .reproducing })
    (hbred.imp (fun _ _ _ _ hout => hout) fun _ _ _ _ _ => trivial)
  refine hbred'.bind ?_ fun _ _ _ _ => id
  intro next next' s₁ t₁ hout
  obtain ⟨hs₁, ht₁, ⟨hnext, hlab⟩, hupholds, hupholds'⟩ := hout
  have hst₁ : Twins e base base'
      { s₁ with phase := some .replaced, population := some { next with generation := r.generation + 1 } }
      { t₁ with phase := some .replaced, population := some { next' with generation := r'.generation + 1 } }
      { next with generation := r.generation + 1 } { next' with generation := r'.generation + 1 } := by
    refine ⟨⟨hlab.source, hlab.store⟩, rfl, rfl, ⟨hnext.programs, hnext.capacity, ?_⟩, hupholds.2.1, hupholds'.2.1, ?_⟩
    · rw [hst.paired.generation]
    · show Option.Rel _ s₁.lastRanked t₁.lastRanked
      rw [hs₁, ht₁]
      exact hst.lastRanked
  exact (notify_twins h hst₁ .generationEnd .generationEnd _ _).imp (fun _ _ _ _ hst' => ⟨_, _, hst'⟩)
    fun _ _ _ _ => id

/-- What two generations that go the same way come to. -/
def Abreast (e : Engine σ) (base base' : Nat) (r r' : Population) (s t : EngineState γ σ) : Prop :=
  s.lastRanked = some r ∧ t.lastRanked = some r' ∧ ∃ p q, Twins e base base' s t p q

theorem afterEvaluation_twins (hst : Twins e base base' s t p q) :
    Pairs (fun r r' s' t' => Abreast e base base' r r' s' t') Both (e.afterEvaluation p s)
      (e'.afterEvaluation q t) := by
  unfold afterEvaluation
  refine (rankPhase_twins h hst).bind ?_ fun _ _ _ _ => id
  intro r r' s₁ t₁ hranked
  refine (selectPhase_twins h hranked).bind ?_ fun _ _ _ _ => id
  intro pool pool' s₂ t₂ hout
  obtain ⟨hselected, hpool, hpool', hpaired⟩ := hout
  refine (replacePhase_twins h hselected hpool hpool' hpaired).bind ?_ fun _ _ _ _ => id
  intro _ _ s₃ t₃ hnext
  obtain ⟨p', q', hnext⟩ := hnext
  refine (Pairs.of_ends (Stages.remember_ends e r s₃) (Stages.remember_ends e' r' t₃)).imp ?_ fun _ _ _ _ => id
  intro _ _ s₄ t₄ hlast
  obtain ⟨⟨rfl, hs₄⟩, rfl, ht₄⟩ := hlast
  rw [hs₄, ht₄]
  exact ⟨rfl, rfl, p', q', hnext.lab, hnext.population, hnext.population', hnext.paired, hnext.upholds,
    hnext.upholds', .some hranked.paired⟩

/-- **A generation of one engine goes the way of a generation of the other one**, from populations that correspond, if
    both can be labelled or neither. -/
theorem stepBy_twins (hevaluation : e.Evaluates evaluation) (hevaluation' : e'.Evaluates evaluation')
    (hlabel : e'.canLabel q.generation = e.canLabel p.generation) (hst : Twins e base base' s t p q) :
    Pairs (fun r r' s' t' => Abreast e base base' r r' s' t') Both (e.stepBy evaluation s)
      (e'.stepBy evaluation' t) := by
  rw [e.stepBy_of_population _ hst.population, e'.stepBy_of_population _ hst.population']
  refine (evaluatePhaseBy_twins h hevaluation hevaluation' hlabel hst).bind ?_ fun _ _ _ _ => id
  exact fun _ _ s₁ t₁ hst₁ => afterEvaluation_twins h hst₁

/-! ## First populations -/

/-- **First populations correspond**, whatever the engines have held before. -/
theorem populate_twins (hlab : Lab.Twin base base' s.lab t.lab) :
    Pairs (fun p q s' t' => Twins e base base' s' t' p q) Both (e.populate s) (e'.populate t) := by
  unfold populate
  rw [h.program, h.task, h.breeding]
  have hshapes : ∀ bound shape, e.plan.program.bind e.task.inputCount e.task.actionCount = .ok bound →
      bound.shape = .ok shape → (Standard.scorable e.task e.Bound).shapes shape :=
    fun bound shape hbind hshape => ⟨bound, hbind, hshape⟩
  have hmade := (generate_coupled Lab.counted_twin.coupling (fun _ => trivial) rfl rfl e.plan.program
      e.plan.breeding.populationSize s.lab t.lab hlab).and
    (generate_upholds e.plan.program e.plan.breeding.populationSize s.lab hshapes)
    (generate_upholds e.plan.program e.plan.breeding.populationSize t.lab hshapes)
  refine (onLab_pairs (hmade.imp (fun _ _ _ _ hout => hout) fun _ _ _ _ _ => trivial)).bind ?_ fun _ _ _ _ => id
  intro p q s₁ t₁ hout
  obtain ⟨-, -, ⟨hpaired, hlab₁⟩, hupholds, hupholds'⟩ := hout
  have hst₁ : Twins e base base'
      { s₁ with population := some p, lastRanked := none, stopRequested := false, phase := some .initialized }
      { t₁ with population := some q, lastRanked := none, stopRequested := false, phase := some .initialized } p q :=
    ⟨⟨hlab₁.source, hlab₁.store⟩, rfl, rfl, hpaired, hupholds.2.1, hupholds'.2.1, .none⟩
  exact (notify_twins h hst₁ .initialized .initialized _ _).bind (fun _ _ _ _ hst' => hst') fun _ _ _ _ => id

end Engine

end RegisterEvolution
