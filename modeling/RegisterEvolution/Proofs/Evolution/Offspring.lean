import RegisterEvolution.Evolution.Breeding
import RegisterEvolution.Proofs.Evolution.Lineage

/-!
# `Proofs.Evolution.Offspring` — what breeding adds to the store

Breeding only adds to the store. Whatever it draws, and also when it fails, the programs that exist keep their entries
and the world outside stays as it is; what it answers is a litter. Every part of breeding is described by `Run.Breeds`,
which says what has been added when the part ends, given what had been added before.

* `Lab.Grows`, `Run.Settles`, `Run.Breeds`, `Run.Delivers` — what parts of breeding do to a lab;
* `offspringOf_breeds`, `reproduce_ends` — breeding;
* `generate_ends` — random generation.
-/

namespace RegisterEvolution

variable {shapes : Shape → Prop} {pool : List Program} {s s' : Store}

/-! ## Computations on a lab -/

/-- A lab that differs at most in its generator, its journal and its warning. -/
structure Lab.Still {γ σ : Type} (lab lab' : Lab γ σ) : Prop where
  store : lab'.store = lab.store
  world : lab'.world = lab.world

/-- A lab whose store has additions, while the world outside is as it was. -/
structure Lab.Grows {γ σ : Type} (pool : List Program) (lab lab' : Lab γ σ) : Prop where
  lineage : Lineage pool lab.store lab'.store
  world : lab'.world = lab.world

section Computations

variable {γ σ α β : Type}

theorem Lab.Grows.of_still {lab lab' : Lab γ σ} (h : lab.Still lab') : lab.Grows pool lab' :=
  ⟨by rw [h.store]; exact .refl pool lab.store, h.world⟩

theorem Lab.Grows.trans {lab lab' lab'' : Lab γ σ} (h : lab.Grows pool lab') (h' : lab'.Grows pool lab'') :
    lab.Grows pool lab'' := ⟨h.lineage.trans h'.lineage, by rw [h'.world, h.world]⟩

/-- A computation that leaves all but the generator, the journal and the warning as it is, and answers with `P`. -/
def Run.Settles (m : Run γ σ α) (P : α → Prop) : Prop :=
  ∀ lab, Ends (fun a lab' => lab.Still lab' ∧ P a) (fun _ lab' => lab.Still lab') (m lab)

namespace Run

/-- What is drawn, whatever the generator. -/
theorem draw_settles {d : Draw γ α} {P : α → Prop} (h : ∀ g, Ends (fun a _ => P a) (fun _ _ => True) (d g)) :
    (draw d : Run γ σ α).Settles P := by
  intro lab
  have hd := h lab.source
  unfold draw
  cases hout : d lab.source with
  | ok a g =>
      rw [hout] at hd
      exact ⟨⟨rfl, rfl⟩, hd⟩
  | error e g => exact ⟨rfl, rfl⟩

theorem draw_still (d : Draw γ α) : (draw d : Run γ σ α).Settles fun _ => True :=
  draw_settles fun g => by
    cases d g with
    | ok a g' => exact trivial
    | error e g' => exact trivial

theorem report_settles (record : Record) : (report record : Run γ σ Unit).Settles fun _ => True :=
  fun _ => ⟨⟨rfl, rfl⟩, trivial⟩

theorem ofFault_settles (r : Except Fault α) : (ofFault r : Run γ σ α).Settles (r = .ok ·) := by
  intro lab
  cases r with
  | ok a => exact ⟨⟨rfl, rfl⟩, rfl⟩
  | error f => exact ⟨rfl, rfl⟩

theorem Settles.bind {m : Run γ σ α} {k : α → Run γ σ β} {P : α → Prop} {Q : β → Prop} (hm : m.Settles P)
    (hk : ∀ a, P a → (k a).Settles Q) : (m >>= k).Settles Q := by
  intro lab
  refine (hm lab).bind ?_ fun _ _ h => h
  intro a lab' h
  -- what the first part has left as it was, the second one finds and leaves
  have hthen : lab'.store = lab.store ∧ lab'.world = lab.world := ⟨h.1.store, h.1.world⟩
  refine (hk a h.2 lab').imp (fun b lab'' hb => ⟨?_, hb.2⟩) ?_
  · exact ⟨by rw [hb.1.store, hthen.1], by rw [hb.1.world, hthen.2]⟩
  · intro e lab'' he
    exact ⟨by rw [he.store, hthen.1], by rw [he.world, hthen.2]⟩

/-- A computation that, taken up after `born` have been added since `lab`, goes on adding; what has been added when it
    ends is `progeny`. -/
def Breeds (shapes : Shape → Prop) (lab : Lab γ σ) (pool born : List Program) (m : Run γ σ α)
    (progeny : α → List Program) : Prop :=
  ∀ now : Lab γ σ, lab.Grows pool now → Litter shapes pool lab.store now.store born →
    Ends (fun a next => lab.Grows pool next ∧ Litter shapes pool lab.store next.store (progeny a))
      (fun _ next => lab.Grows pool next) (m now)

namespace Breeds

variable {lab : Lab γ σ} {born : List Program} {m : Run γ σ α}

theorem pure {a : α} {progeny : α → List Program} (h : progeny a = born) :
    Breeds shapes lab pool born (Pure.pure a : Run γ σ α) progeny := by
  intro now hgrows hborn
  refine ⟨hgrows, ?_⟩
  rw [h]
  exact hborn

theorem bind {k : α → Run γ σ β} {first : α → List Program} {progeny : β → List Program}
    (hm : Breeds shapes lab pool born m first) (hk : ∀ a, Breeds shapes lab pool (first a) (k a) progeny) :
    Breeds shapes lab pool born (m >>= k) progeny :=
  fun now hgrows hborn => (hm now hgrows hborn).bind (fun a next h => hk a next h.1 h.2) fun _ _ h => h

/-- A step that adds nothing. -/
theorem settle {k : α → Run γ σ β} {P : α → Prop} {progeny : β → List Program} (hm : m.Settles P)
    (hk : ∀ a, P a → Breeds shapes lab pool born (k a) progeny) : Breeds shapes lab pool born (m >>= k) progeny := by
  intro now hgrows hborn
  refine (hm now).bind (fun a next h => hk a h.2 next (hgrows.trans (.of_still h.1)) ?_) ?_
  · rw [h.1.store]
    exact hborn
  · intro _ next h
    exact hgrows.trans (.of_still h)

theorem throw {e : Error} {progeny : α → List Program} :
    Breeds shapes lab pool born (MonadExcept.throw e : Run γ σ α) progeny := fun _ hgrows _ => hgrows

/-- What has been added may be left out of the answer. -/
theorem sublist {progeny progeny' : α → List Program} (h : Breeds shapes lab pool born m progeny)
    (hsub : ∀ a, (progeny' a).Sublist (progeny a)) : Breeds shapes lab pool born m progeny' :=
  fun now hgrows hborn => (h now hgrows hborn).imp (fun a _ h => ⟨h.1, h.2.sublist (hsub a)⟩) fun _ _ h => h

end Breeds

end Run

/-! ## Constructions -/

theorem Lineage.of_construct (hgrown : s.Extends s') (hnext : s'.nextId = s.nextId + 1)
    (h : ∀ x, s'.fitnessAt s.nextId = some x → ∃ p ∈ pool, s.fitnessAt p.id = some x) : Lineage pool s s' := by
  refine ⟨hgrown, ?_⟩
  intro id x hid hx
  -- a single number has been used up, so that the new fitness can only be under it
  obtain ⟨c, hc, -⟩ := Store.exists_cell_of_fitnessAt hx
  have hlt := Store.lt_nextId hc
  obtain rfl : id = s.nextId := by omega
  exact h x hx

/-- A construction adds a program, or fails without an entry. -/
theorem onStore_construct_ends {shape : Shape} {code : List Instruction} {fitness : Option Float} (now : Lab γ σ)
    (hshape : shapes shape) (hfitness : fitness = none ∨
      ∃ p ∈ pool, code = p.code ∧ shape = p.shape ∧ fitness = now.store.fitnessAt p.id) :
    Ends (fun q next => now.Grows pool next ∧ Newborn shapes pool now.store next.store q ∧ q.code = code ∧
        q.shape = shape)
      (fun _ next => now.Grows pool next) (Run.onStore (Store.construct shape code fitness) now) := by
  have hspec := Store.construct_ends shape code fitness now.store
  unfold Run.onStore
  cases hout : Store.construct shape code fitness now.store with
  | ok q s' =>
      rw [hout] at hspec
      obtain ⟨hgrown, hnext, rfl, hflaw, r, hfresh, hcell⟩ := hspec
      refine ⟨⟨.of_construct hgrown hnext fun x hx => ?_, rfl⟩,
        ⟨Nat.le_refl _, hshape, hflaw, fitness, r, hcell, hfresh, hfitness⟩, rfl, rfl⟩
      rw [Store.fitnessAt_eq hcell] at hx
      rcases hfitness with hnone | ⟨p, hp, -, -, heq⟩
      · rw [hnone] at hx
        exact nomatch hx
      · exact ⟨p, hp, by rw [← heq]; exact hx⟩
  | error e s' =>
      -- a failed construction has used a number up, but there is no entry under it
      rw [hout] at hspec
      obtain ⟨hgrown, hnext, hcell⟩ := hspec
      refine ⟨.of_construct hgrown hnext ?_, rfl⟩
      intro x hx
      obtain ⟨c, hc, -⟩ := Store.exists_cell_of_fitnessAt hx
      rw [hcell] at hc
      exact nomatch hc

namespace Run

variable {lab : Lab γ σ} {born : List Program}

/-- A computation that adds one program. -/
def Delivers (shapes : Shape → Prop) (pool : List Program) (m : Run γ σ Program) : Prop :=
  ∀ now, Ends (fun q next => now.Grows pool next ∧ Newborn shapes pool now.store next.store q)
    (fun _ next => now.Grows pool next) (m now)

theorem construct_delivers {shape : Shape} (hshape : shapes shape) (code : List Instruction) :
    (construct shape code : Run γ σ Program).Delivers shapes pool := fun now =>
  (onStore_construct_ends now hshape (.inl rfl)).imp (fun _ _ h => ⟨h.1, h.2.1⟩) fun _ _ h => h

theorem clone_delivers {p : Program} (hp : p ∈ pool) (hshape : shapes p.shape) :
    (clone p : Run γ σ Program).Delivers shapes pool := fun now =>
  Ends.imp (onStore_construct_ends now hshape (.inr ⟨p, hp, rfl, rfl, rfl⟩)) (fun _ _ h => ⟨h.1, h.2.1⟩) fun _ _ h => h

theorem Delivers.settle {m : Run γ σ α} {P : α → Prop} {k : α → Run γ σ Program} (hm : m.Settles P)
    (hk : ∀ a, (k a).Delivers shapes pool) : (m >>= k).Delivers shapes pool := by
  intro now
  refine (hm now).bind ?_ fun _ next h => .of_still h
  intro a next h
  refine (hk a next).imp (fun q last hq => ⟨(Lab.Grows.of_still h.1).trans hq.1, ?_⟩)
    fun _ last hlast => (Lab.Grows.of_still h.1).trans hlast
  rw [← h.1.store]
  exact hq.2

theorem mutant_delivers [Generator γ] (maxEdits : Int) {p : Program} (hshape : shapes p.shape) :
    (mutant maxEdits p : Run γ σ Program).Delivers shapes pool :=
  .settle (draw_still _) fun code => construct_delivers hshape code

theorem Delivers.breeds {m : Run γ σ Program} (h : m.Delivers shapes pool) (hpool : lab.store.Knows shapes pool) :
    Breeds shapes lab pool born m fun q => born ++ [q] :=
  fun now hgrows hborn => (h now).imp
    (fun _ _ h => ⟨hgrows.trans h.1, hborn.append (.singleton h.2) hgrows.lineage.grown h.1.lineage.grown hpool⟩)
    fun _ _ h => hgrows.trans h

end Run

/-! ## Slots -/

theorem warnOfSmallPool_settles (size : Nat) : (warnOfSmallPool size : Run γ σ Unit).Settles fun _ => True := by
  intro lab
  unfold warnOfSmallPool
  rw [ends_bind, ends_get]
  split
  · exact ⟨⟨rfl, rfl⟩, trivial⟩
  · exact ⟨⟨rfl, rfl⟩, trivial⟩

section Slots

variable [Generator γ] {lab : Lab γ σ} {born : List Program}

theorem Run.survivor_settles : (Run.survivor pool : Run γ σ Program).Settles (· ∈ pool) := by
  apply draw_settles
  intro g
  unfold Draw.element
  refine ends_bind.mpr ?_
  cases Draw.index pool.length g with
  | error e g' => exact trivial
  | ok i g' =>
      rw [ends_ok]
      cases hi : pool[i]? with
      | none => exact trivial
      | some p => exact List.mem_of_getElem? hi

theorem Run.survivorPair_settles :
    (Run.survivorPair pool : Run γ σ (Program × Program)).Settles fun pair => pair.1 ∈ pool := by
  unfold survivorPair
  apply (draw_still _).bind
  intro picked _
  split
  · split
    · rename_i ha hb
      exact fun _ => ⟨⟨rfl, rfl⟩, List.mem_of_getElem? ha⟩
    · exact fun _ => ⟨rfl, rfl⟩
  · exact fun _ => ⟨rfl, rfl⟩

theorem Run.children_breeds (hpool : lab.store.Knows shapes pool) (kind : Crossover) {a : Program}
    (ha : shapes a.shape) (b : Program) :
    Breeds shapes lab pool born (children kind a b : Run γ σ (Program × Program)) fun q => born ++ [q.1, q.2] :=
  .settle (draw_still _) fun codes _ =>
    .bind ((construct_delivers ha codes.1).breeds hpool) fun childA =>
      .bind ((construct_delivers ha codes.2).breeds hpool) fun childB =>
        .pure (by rw [List.append_assoc]; rfl)

theorem mutants_breeds (hpool : lab.store.Knows shapes pool) (maxEdits : Int) (count : Nat) :
    Run.Breeds shapes lab pool born (mutants pool maxEdits count : Run γ σ (List Program)) fun qs => born ++ qs := by
  induction count generalizing born with
  | zero => exact .pure (List.append_nil born)
  | succ count ih =>
      refine .settle Run.survivor_settles ?_
      intro p hp
      refine .bind ((Run.mutant_delivers maxEdits (hpool.shape p hp)).breeds hpool) ?_
      intro first
      exact .bind ih fun rest => .pure (by rw [List.append_assoc]; rfl)

theorem clones_breeds (hpool : lab.store.Knows shapes pool) (count : Nat) :
    Run.Breeds shapes lab pool born (clones pool count : Run γ σ (List Program)) fun qs => born ++ qs := by
  induction count generalizing born with
  | zero => exact .pure (List.append_nil born)
  | succ count ih =>
      refine .settle Run.survivor_settles ?_
      intro p hp
      refine .bind ((Run.clone_delivers hp (hpool.shape p hp)).breeds hpool) ?_
      intro first
      exact .bind ih fun rest => .pure (by rw [List.append_assoc]; rfl)

theorem crossed_breeds (hpool : lab.store.Knows shapes pool) (kind : Crossover) :
    ∀ (count : Nat) {born : List Program},
      Run.Breeds shapes lab pool born (crossed pool kind count : Run γ σ (List Program)) fun qs => born ++ qs
  | 0, born => .pure (List.append_nil born)
  | 1, born => by
      refine .settle Run.survivorPair_settles ?_
      intro pair hpair
      -- the second child exists, but it has no slot
      refine .bind ((Run.children_breeds hpool kind (hpool.shape _ hpair) pair.2).sublist ?_) fun _ => .pure rfl
      intro q
      exact (List.append_sublist_append_left born).mpr (List.sublist_append_left [q.1] [q.2])
  | count + 2, born => by
      refine .settle Run.survivorPair_settles ?_
      intro pair hpair
      refine .bind (Run.children_breeds hpool kind (hpool.shape _ hpair) pair.2) ?_
      exact fun children => .bind (crossed_breeds hpool kind count) fun rest => .pure (by rw [List.append_assoc]; rfl)

theorem mutateSlots_breeds (hpool : lab.store.Knows shapes pool) (maxEdits : Int) (slots : List Nat)
    (offspring : List Program) :
    Run.Breeds shapes lab pool offspring (mutateSlots maxEdits slots offspring : Run γ σ (List Program)) id := by
  induction slots generalizing offspring with
  | nil => exact .pure rfl
  | cons slot rest ih =>
      unfold mutateSlots
      split
      · rename_i p hp
        intro now hgrows hborn
        -- the program in the slot is a newborn itself, and its mutant takes its place
        have hshape := (hborn.newborn p (List.mem_of_getElem? hp)).shape
        refine (Run.mutant_delivers maxEdits hshape now).bind ?_ fun _ _ h => hgrows.trans h
        intro q next h
        exact ih (offspring.set slot q) next (hgrows.trans h.1)
          (hborn.set h.2 hgrows.lineage.grown h.1.lineage.grown hpool slot)
      · exact .throw

theorem crossoverSlots_breeds (hpool : lab.store.Knows shapes pool) (b : Breeding) (count : Int) :
    Run.Breeds shapes lab pool [] (crossoverSlots b pool count : Run γ σ (List Program)) id := by
  unfold crossoverSlots
  split
  · exact .settle (warnOfSmallPool_settles _) fun _ _ => mutants_breeds hpool _ _
  · exact crossed_breeds hpool _ _

/-- **Breeding gives a litter**, whatever it draws; the store only grows, also when breeding fails. -/
theorem offspringOf_breeds (hpool : lab.store.Knows shapes pool) (b : Breeding) (slots : Nat) :
    Run.Breeds shapes lab pool [] (offspringOf b pool slots : Run γ σ (List Program)) id := by
  refine .settle (Run.ofFault_settles _) fun crossoverCount _ => .settle (Run.ofFault_settles _) ?_
  intro mutationCount _
  refine .bind (crossoverSlots_breeds hpool b crossoverCount) ?_
  intro crossings
  refine .bind (clones_breeds hpool _) ?_
  intro copies
  -- the report at the end adds nothing, whether anything is mutated before it or not
  have hreport : ∀ (mutated : List Program) (record : Record),
      Run.Breeds shapes lab pool mutated (do Run.report record; return mutated : Run γ σ (List Program)) id :=
    fun mutated record => .settle (Run.report_settles record) fun _ _ => .pure rfl
  simp only
  split
  · exact hreport _ _
  · refine .settle (Run.draw_still _) fun picked _ => .bind (mutateSlots_breeds hpool b.maxMutationEdits picked _) ?_
    exact fun mutated => hreport _ _

/-! ## Random populations -/

theorem randomPrograms_breeds (hpool : lab.store.Knows shapes pool) {shape : Shape} (hshape : shapes shape)
    (count : Nat) :
    Run.Breeds shapes lab pool born (Population.randomPrograms shape count : Run γ σ (List Program))
      fun qs => born ++ qs := by
  induction count generalizing born with
  | zero => exact .pure (List.append_nil born)
  | succ count ih =>
      refine .bind (Run.Delivers.breeds ?_ hpool) fun first => ?_
      · exact .settle (Run.draw_still _) fun code => Run.construct_delivers hshape code
      exact .bind ih fun rest => .pure (by rw [List.append_assoc]; rfl)

/-- What a reproduction comes to: the pool cut to the size of a population, or the pool followed by its litter. -/
theorem reproduce_ends (b : Breeding) (p : Population) (hpool : lab.store.Knows shapes p.programs) :
    Ends (fun next lab' => lab.Grows p.programs lab' ∧ next.capacity = b.populationSize ∧
        ((b.populationSize ≤ p.size ∧ next.programs = upTo p.programs b.populationSize) ∨
          (p.size < b.populationSize ∧ ∃ offspring, next.programs = p.programs ++ offspring ∧
            Litter shapes p.programs lab.store lab'.store offspring)))
      (fun _ lab' => lab.Grows p.programs lab') (reproduce b p lab) := by
  unfold reproduce
  split
  · exact ⟨.of_still ⟨rfl, rfl⟩, rfl, .inl ⟨by omega, rfl⟩⟩
  · refine (offspringOf_breeds hpool b _ lab (.of_still ⟨rfl, rfl⟩) .nil).bind ?_ fun _ _ h => h
    intro offspring lab' h
    exact ⟨h.1, rfl, .inr ⟨by omega, offspring, rfl, h.2⟩⟩

theorem randomPrograms_length (shape : Shape) (count : Nat) (lab : Lab γ σ) :
    Ends (fun ps _ => ps.length = count) (fun _ _ => True)
      ((Population.randomPrograms shape count : Run γ σ (List Program)) lab) := by
  induction count generalizing lab with
  | zero => exact rfl
  | succ count ih =>
      unfold Population.randomPrograms
      refine ends_bind.mpr ?_
      cases Population.randomProgram shape lab with
      | error e lab' => exact trivial
      | ok first lab' => exact (ih lab').bind (fun rest lab'' h => congrArg (· + 1) h) fun _ _ _ => trivial

/-- What random generation comes to: as many unscored programs as asked for. -/
theorem generate_ends (settings : ProgramSettings) (task : Task σ) (size : Int) (lab : Lab γ σ)
    (hshapes : ∀ bound shape, settings.bind task.inputCount task.actionCount = .ok bound → bound.shape = .ok shape →
      shapes shape) :
    Ends (fun p lab' => lab.Grows [] lab' ∧ Litter shapes [] lab.store lab'.store p.programs ∧ p.capacity = size ∧
        p.programs.length = size.toNat)
      (fun _ lab' => lab.Grows [] lab')
      (Population.generate settings task size lab : EStateM.Result _ (Lab γ σ) _) := by
  have hstill : ∀ lab : Lab γ σ, lab.Grows [] lab := fun lab => .of_still ⟨rfl, rfl⟩
  unfold Population.generate
  refine ends_bind.mpr ?_
  cases hbind : settings.bind task.inputCount task.actionCount with
  | error e => exact hstill lab
  | ok bound =>
      refine ends_bind.mpr ?_
      cases hshape : bound.shape with
      | error f => exact hstill lab
      | ok shape =>
          have hknows : lab.store.Knows shapes [] := ⟨List.forall_mem_nil _, List.forall_mem_nil _⟩
          refine ((randomPrograms_breeds hknows (hshapes bound shape hbind hshape) size.toNat lab (hstill lab) .nil).and
            (randomPrograms_length shape size.toNat lab)).bind (fun programs lab' h => ?_) fun _ _ h => h.1
          cases shape.sizes? with
          | none => exact ⟨h.1.1, h.1.2, rfl, h.2⟩
          | some sizes => exact ⟨h.1.1.trans (.of_still ⟨rfl, rfl⟩), h.1.2, rfl, h.2⟩

end Slots

end Computations

end RegisterEvolution
