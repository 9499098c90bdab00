import Mathlib.Data.List.Forall2
import RegisterEvolution.Evolution.Breeding
import RegisterEvolution.Proofs.Outcome

/-!
# `Proofs.Evolution.Coupling` — two computations side by side

Two runs that differ are compared by a relation on what they answer and on the states that they leave. The rules here
take two computations apart in step. For breeding it is enough to know how the parts that it is made of relate programs
and labs: a coupling of labs says so, and whatever is bred then is related in the same way, slot by slot.

* `Pairs` — what two outcomes satisfy together;
* `Coupled`, `Coupled.bind` — computations that keep a relation of states;
* `Lab.Coupling` — labs and programs that are related by everything that breeding is made of;
* `reproduce_coupled`, `generate_coupled` — breeding and random generation on such labs.
-/

namespace RegisterEvolution

/-! ## Pairs of outcomes -/

section Pairs

variable {ε σ τ α β α' β' : Type}

/-- Two results whose states are related by `ok`, or two errors whose states are related by `err`. -/
def Pairs (ok : α → β → σ → τ → Prop) (err : ε → ε → σ → τ → Prop) :
    EStateM.Result ε σ α → EStateM.Result ε τ β → Prop
  | .ok a s, .ok b t => ok a b s t
  | .error e s, .error f t => err e f s t
  | _, _ => False

/-- Of two errors nothing is said. -/
abbrev Both {ε σ τ : Type} : ε → ε → σ → τ → Prop := fun _ _ _ _ => True

namespace Pairs

variable {ok ok' : α → β → σ → τ → Prop} {err err' : ε → ε → σ → τ → Prop} {r : EStateM.Result ε σ α}
  {r' : EStateM.Result ε τ β}

theorem imp (h : Pairs ok err r r') (hok : ∀ a b s t, ok a b s t → ok' a b s t)
    (herr : ∀ e f s t, err e f s t → err' e f s t) : Pairs ok' err' r r' := by
  cases r with
  | ok a s =>
      cases r' with
      | ok b t => exact hok a b s t h
      | error f t => exact h.elim
  | error e s =>
      cases r' with
      | ok b t => exact h.elim
      | error f t => exact herr e f s t h

/-- Outcomes that are related are two results or two errors. -/
theorem exists_or (h : Pairs ok err r r') :
    (∃ a s b t, r = .ok a s ∧ r' = .ok b t ∧ ok a b s t) ∨
      ∃ e s f t, r = .error e s ∧ r' = .error f t ∧ err e f s t := by
  cases r with
  | ok a s =>
      cases r' with
      | ok b t => exact .inl ⟨a, s, b, t, rfl, rfl, h⟩
      | error f t => exact h.elim
  | error e s =>
      cases r' with
      | ok b t => exact h.elim
      | error f t => exact .inr ⟨e, s, f, t, rfl, rfl, h⟩

/-- What each of two outcomes satisfies by itself holds besides. -/
theorem and {one : α → σ → Prop} {other : β → τ → Prop} {fail : ε → σ → Prop} {fail' : ε → τ → Prop}
    (h : Pairs ok err r r') (hone : Ends one fail r) (hother : Ends other fail' r') :
    Pairs (fun a b s t => ok a b s t ∧ one a s ∧ other b t) (fun e f s t => err e f s t ∧ fail e s ∧ fail' f t)
      r r' := by
  cases r with
  | ok a s =>
      cases r' with
      | ok b t => exact ⟨h, hone, hother⟩
      | error f t => exact h.elim
  | error e s =>
      cases r' with
      | ok b t => exact h.elim
      | error f t => exact ⟨h, hone, hother⟩

/-- Two outcomes that cannot be errors. -/
theorem of_ends {one : α → σ → Prop} {other : β → τ → Prop} (hone : Ends one Never r) (hother : Ends other Never r') :
    Pairs (fun a b s t => one a s ∧ other b t) err r r' := by
  obtain ⟨a, s, rfl, ha⟩ := hone.exists_ok
  obtain ⟨b, t, rfl, hb⟩ := hother.exists_ok
  exact ⟨ha, hb⟩

/-- Two computations, each followed by another one. -/
theorem bind {okB : α' → β' → σ → τ → Prop} {m : EStateM ε σ α} {n : EStateM ε τ β} {f : α → EStateM ε σ α'}
    {g : β → EStateM ε τ β'} {s : σ} {t : τ} (h : Pairs ok err (m s) (n t))
    (hok : ∀ a b s t, ok a b s t → Pairs okB err' (f a s) (g b t)) (herr : ∀ e e' s t, err e e' s t → err' e e' s t) :
    Pairs okB err' ((m >>= f) s) ((n >>= g) t) := by
  show Pairs okB err' (EStateM.bind m f s) (EStateM.bind n g t)
  unfold EStateM.bind
  rcases h.exists_or with ⟨a, s', b, t', hm, hn, hab⟩ | ⟨e, s', e', t', hm, hn, he⟩
  · rw [hm, hn]
    exact hok a b s' t' hab
  · rw [hm, hn]
    exact herr e e' s' t' he

end Pairs

/-- Computations that lead from related states to related ones, with results related by `V` or errors related by `E`. -/
def Coupled (R : σ → τ → Prop) (E : ε → ε → Prop) (V : α → β → Prop) (m : EStateM ε σ α) (n : EStateM ε τ β) : Prop :=
  ∀ s t, R s t → Pairs (fun a b s t => V a b ∧ R s t) (fun e f s t => E e f ∧ R s t) (m s) (n t)

namespace Coupled

variable {R : σ → τ → Prop} {E : ε → ε → Prop} {V : α → β → Prop} {W : α' → β' → Prop}

theorem pure {a : α} {b : β} (h : V a b) : Coupled R E V (Pure.pure a : EStateM ε σ α) (Pure.pure b) :=
  fun _ _ hst => ⟨h, hst⟩

theorem throw {e f : ε} (h : E e f) : Coupled R E V (MonadExcept.throw e : EStateM ε σ α) (MonadExcept.throw f) :=
  fun _ _ hst => ⟨h, hst⟩

/-- One computation after the other. -/
theorem bind {m : EStateM ε σ α} {n : EStateM ε τ β} {f : α → EStateM ε σ α'} {g : β → EStateM ε τ β'}
    (h : Coupled R E V m n) (hfg : ∀ a b, V a b → Coupled R E W (f a) (g b)) : Coupled R E W (m >>= f) (n >>= g) :=
  fun s t hst => (h s t hst).bind (fun a b s' t' hab => hfg a b hab.1 s' t' hab.2) fun _ _ _ _ he => he

/-- Both look at their states, which are related. -/
theorem get_bind {f : σ → EStateM ε σ α} {g : τ → EStateM ε τ β} (h : ∀ s t, R s t → Coupled R E V (f s) (g t)) :
    Coupled R E V (get >>= f) (get >>= g) := fun s t hst => h s t hst s t hst

theorem modify {f : σ → σ} {g : τ → τ} (h : ∀ s t, R s t → R (f s) (g t)) :
    Coupled R E Eq (modify f : EStateM ε σ PUnit) (modify g) := fun s t hst => ⟨rfl, h s t hst⟩

theorem imp {V' : α → β → Prop} {m : EStateM ε σ α} {n : EStateM ε τ β} (h : Coupled R E V m n)
    (hV : ∀ a b, V a b → V' a b) : Coupled R E V' m n :=
  fun s t hst => (h s t hst).imp (fun a b _ _ hab => ⟨hV a b hab.1, hab.2⟩) fun _ _ _ _ he => he

end Coupled

end Pairs

/-! ## Lists that are related place by place -/

section Lists

variable {α β : Type} {V : α → β → Prop} {xs : List α} {ys : List β}

/-- At every place there is something in both lists, or in neither. -/
theorem rel_getElem? (h : List.Forall₂ V xs ys) (i : Nat) :
    (xs[i]? = none ∧ ys[i]? = none) ∨ ∃ x y, xs[i]? = some x ∧ ys[i]? = some y ∧ V x y := by
  induction h generalizing i with
  | nil => exact .inl ⟨rfl, rfl⟩
  | @cons x y _ _ hxy _ ih =>
      cases i with
      | zero => exact .inr ⟨x, y, rfl, rfl, hxy⟩
      | succ i => exact ih i

theorem rel_set (h : List.Forall₂ V xs ys) {x : α} {y : β} (hxy : V x y) (i : Nat) :
    List.Forall₂ V (xs.set i x) (ys.set i y) := by
  induction h generalizing i with
  | nil => exact .nil
  | cons hfirst hrest ih =>
      cases i with
      | zero => exact .cons hxy hrest
      | succ i => exact .cons hfirst (ih i)

end Lists

/-! ## Labs -/

variable {γ σ τ : Type}

/--
Labs related by `R`, errors related by `E` and programs related by `V` as everything requires and keeps them that
breeding is made of. Related programs have the same instructions and the same shape.
-/
structure Lab.Coupling (R : Lab γ σ → Lab γ τ → Prop) (E : Error → Error → Prop) (V : Program → Program → Prop) :
    Prop where
  alike : ∀ p q, V p q → q.code = p.code ∧ q.shape = p.shape
  fault : ∀ f, E (.fault f) (.fault f)
  draw : ∀ {α : Type} (d : Draw γ α), Coupled R E Eq (Run.draw d) (Run.draw d)
  construct : ∀ shape code, Coupled R E V (Run.construct shape code) (Run.construct shape code)
  clone : ∀ p q, V p q → Coupled R E V (Run.clone p) (Run.clone q)
  report : ∀ record, Coupled R E Eq (Run.report record) (Run.report record)
  warn : ∀ size, Coupled R E Eq (warnOfSmallPool size) (warnOfSmallPool size)

/-- Drawing goes on after drawing. -/
theorem Run.draw_bind {α β : Type} (d : Draw γ α) (k : α → Draw γ β) :
    (Run.draw (d >>= k) : Run γ σ β) = Run.draw d >>= fun a => Run.draw (k a) := by
  funext lab
  show Run.draw (EStateM.bind d k) lab = EStateM.bind (Run.draw d) (fun a => Run.draw (k a)) lab
  unfold Run.draw EStateM.bind
  cases hd : d lab.source with
  | ok a source => simp [hd]
  | error e source => simp [hd]

/-- Whether the warning about small pools is given or not concerns the journal only, and the next warning. -/
theorem warnOfSmallPool_ends (size : Nat) (lab : Lab γ σ) :
    Ends (fun _ lab' => lab' = { lab with journal := lab'.journal, warned := lab'.warned }) Never
      (warnOfSmallPool size lab) := by
  unfold warnOfSmallPool
  rw [ends_bind, ends_get]
  split
  · exact rfl
  · exact rfl

/-! ## Breeding -/

section Breeding

variable {R : Lab γ σ → Lab γ τ → Prop} {E : Error → Error → Prop} {V : Program → Program → Prop}
  (hC : Lab.Coupling R E V) {ps qs : List Program} {p q : Program}

include hC

theorem ofFault_coupled {α : Type} (r : Except Fault α) : Coupled R E Eq (Run.ofFault r) (Run.ofFault r) := by
  cases r with
  | ok a => exact .pure rfl
  | error f => exact .throw (hC.fault f)

variable [Generator γ]

namespace Run

/-- The same place is drawn of either pool. -/
theorem survivor_coupled (h : List.Forall₂ V ps qs) : Coupled R E V (survivor ps) (survivor qs) := by
  unfold survivor Draw.element
  rw [draw_bind, draw_bind, h.length_eq]
  refine (hC.draw _).bind ?_
  rintro i _ rfl
  rcases rel_getElem? h i with ⟨hp, hq⟩ | ⟨p, q, hp, hq, hpq⟩
  · rw [hp, hq]
    exact .throw (hC.fault _)
  · rw [hp, hq]
    exact .pure hpq

/-- The same two places are drawn of either pool. -/
theorem survivorPair_coupled (h : List.Forall₂ V ps qs) :
    Coupled R E (fun a b => V a.1 b.1 ∧ V a.2 b.2) (survivorPair ps) (survivorPair qs) := by
  unfold survivorPair
  rw [h.length_eq]
  refine (hC.draw _).bind ?_
  rintro picked _ rfl
  split
  · rename_i i j
    rcases rel_getElem? h i with ⟨ha, ha'⟩ | ⟨a, a', ha, ha', haa'⟩
    · rw [ha, ha']
      exact .throw (hC.fault _)
    · rcases rel_getElem? h j with ⟨hb, hb'⟩ | ⟨b, b', hb, hb', hbb'⟩
      · rw [ha, ha', hb, hb']
        exact .throw (hC.fault _)
      · rw [ha, ha', hb, hb']
        exact .pure ⟨haa', hbb'⟩
  · exact .throw (hC.fault _)

theorem mutant_coupled (maxEdits : Int) (h : V p q) : Coupled R E V (mutant maxEdits p) (mutant maxEdits q) := by
  obtain ⟨hcode, hshape⟩ := hC.alike p q h
  unfold mutant
  rw [hcode, hshape]
  refine (hC.draw _).bind ?_
  rintro code _ rfl
  exact hC.construct p.shape code

/-- Related parents have related children. -/
theorem children_coupled (kind : Crossover) {a b : Program × Program} (h : V a.1 b.1 ∧ V a.2 b.2) :
    Coupled R E (fun a b => V a.1 b.1 ∧ V a.2 b.2) (children kind a.1 a.2) (children kind b.1 b.2) := by
  obtain ⟨hcode, hshape⟩ := hC.alike _ _ h.1
  obtain ⟨hcode', -⟩ := hC.alike _ _ h.2
  unfold children
  rw [hcode, hshape, hcode']
  refine (hC.draw _).bind ?_
  rintro codes _ rfl
  refine (hC.construct a.1.shape codes.1).bind fun childA childA' hA => ?_
  exact (hC.construct a.1.shape codes.2).bind fun childB childB' hB => .pure ⟨hA, hB⟩

end Run

theorem mutants_coupled (h : List.Forall₂ V ps qs) (maxEdits : Int) (count : Nat) :
    Coupled R E (List.Forall₂ V) (mutants ps maxEdits count) (mutants qs maxEdits count) := by
  induction count with
  | zero => exact .pure .nil
  | succ count ih =>
      refine (Run.survivor_coupled hC h).bind fun p q hpq => ?_
      refine (Run.mutant_coupled hC maxEdits hpq).bind fun first first' hfirst => ?_
      exact ih.bind fun rest rest' hrest => .pure (.cons hfirst hrest)

/-- Children come in pairs, so that the induction takes two slots at a time. -/
theorem crossed_coupled (h : List.Forall₂ V ps qs) (kind : Crossover) (count : Nat) :
    Coupled R E (List.Forall₂ V) (crossed ps kind count) (crossed qs kind count) := by
  fun_induction crossed (γ := γ) (σ := σ) ps kind count with
  | case1 => exact .pure .nil
  | case2 =>
      refine (Run.survivorPair_coupled hC h).bind fun parents parents' hparents => ?_
      exact (Run.children_coupled hC kind hparents).bind fun children children' hchildren =>
        .pure (.cons hchildren.1 .nil)
  | case3 count ih =>
      refine (Run.survivorPair_coupled hC h).bind fun parents parents' hparents => ?_
      refine (Run.children_coupled hC kind hparents).bind fun children children' hchildren => ?_
      exact ih.bind fun rest rest' hrest => .pure (.cons hchildren.1 (.cons hchildren.2 hrest))

theorem clones_coupled (h : List.Forall₂ V ps qs) (count : Nat) :
    Coupled R E (List.Forall₂ V) (clones ps count) (clones qs count) := by
  induction count with
  | zero => exact .pure .nil
  | succ count ih =>
      refine (Run.survivor_coupled hC h).bind fun p q hpq => ?_
      refine (hC.clone p q hpq).bind fun first first' hfirst => ?_
      exact ih.bind fun rest rest' hrest => .pure (.cons hfirst hrest)

theorem mutateSlots_coupled (maxEdits : Int) (slots : List Nat) (h : List.Forall₂ V ps qs) :
    Coupled R E (List.Forall₂ V) (mutateSlots maxEdits slots ps) (mutateSlots maxEdits slots qs) := by
  induction slots generalizing ps qs with
  | nil => exact .pure h
  | cons slot rest ih =>
      unfold mutateSlots
      rcases rel_getElem? h slot with ⟨hp, hq⟩ | ⟨p, q, hp, hq, hpq⟩
      · rw [hp, hq]
        exact .throw (hC.fault _)
      · rw [hp, hq]
        exact (Run.mutant_coupled hC maxEdits hpq).bind fun mutated mutated' hmutated => ih (rel_set h hmutated slot)

theorem crossoverSlots_coupled (b : Breeding) (h : List.Forall₂ V ps qs) (count : Int) :
    Coupled R E (List.Forall₂ V) (crossoverSlots b ps count) (crossoverSlots b qs count) := by
  unfold crossoverSlots
  rw [h.length_eq]
  split
  · exact (hC.warn _).bind fun _ _ _ => mutants_coupled hC h _ _
  · exact crossed_coupled hC h _ _

theorem offspringOf_coupled (b : Breeding) (h : List.Forall₂ V ps qs) (slots : Nat) :
    Coupled R E (List.Forall₂ V) (offspringOf b ps slots) (offspringOf b qs slots) := by
  unfold offspringOf
  rw [h.length_eq]
  refine (ofFault_coupled hC _).bind ?_
  rintro crossoverCount _ rfl
  refine (ofFault_coupled hC _).bind ?_
  rintro mutationCount _ rfl
  refine (crossoverSlots_coupled hC b h crossoverCount).bind fun crossings crossings' hcrossings => ?_
  rw [hcrossings.length_eq]
  refine (clones_coupled hC h _).bind fun copies copies' hcopies => ?_
  have hfilled : List.Forall₂ V (crossings ++ copies) (crossings' ++ copies') := List.rel_append hcrossings hcopies
  -- the report at the end is the same, whether anything is mutated before it or not
  have hreport : ∀ mutated mutated', List.Forall₂ V mutated mutated' → Coupled R E (List.Forall₂ V)
      (do Run.report ⟨Record.debugLevel, Record.evolutionPart "breeding",
            reproducedMessage slots crossoverCount mutationCount qs.length⟩
          return mutated)
      (do Run.report ⟨Record.debugLevel, Record.evolutionPart "breeding",
            reproducedMessage slots crossoverCount mutationCount qs.length⟩
          return mutated') := fun mutated mutated' hmutated => (hC.report _).bind fun _ _ _ => .pure hmutated
  split
  · exact hreport _ _ hfilled
  · refine (hC.draw _).bind ?_
    rintro picked _ rfl
    exact (mutateSlots_coupled hC b.maxMutationEdits picked hfilled).bind hreport

/-- Populations of the same capacity and generation, the programs of which are related place by place. -/
structure Population.Paired (V : Program → Program → Prop) (p q : Population) : Prop where
  programs : List.Forall₂ V p.programs q.programs
  capacity : q.capacity = p.capacity
  generation : q.generation = p.generation

omit hC [Generator γ] in
theorem Population.Paired.imp {W : Program → Program → Prop} {p q : Population} (h : p.Paired V q)
    (hVW : ∀ a b, V a b → W a b) : p.Paired W q := ⟨h.programs.imp hVW, h.capacity, h.generation⟩

omit hC [Generator γ] in
/-- A population is related to itself by equality, and to no other one. -/
theorem Population.Paired.refl (p : Population) : p.Paired Eq p := ⟨List.forall₂_same.mpr fun _ _ => rfl, rfl, rfl⟩

omit hC [Generator γ] in
theorem Population.Paired.eq {p q : Population} (h : p.Paired Eq q) : p = q := by
  obtain ⟨programs, capacity, generation⟩ := p
  obtain ⟨programs', capacity', generation'⟩ := q
  have hprograms := h.programs
  rw [List.forall₂_eq_eq_eq] at hprograms
  obtain rfl : programs = programs' := hprograms
  obtain rfl : capacity' = capacity := h.capacity
  obtain rfl : generation' = generation := h.generation
  rfl

/-- **Related pools have related next generations.** -/
theorem reproduce_coupled (b : Breeding) {pool pool' : Population} (h : pool.Paired V pool') :
    Coupled R E (Population.Paired V) (reproduce b pool) (reproduce b pool') := by
  unfold reproduce Population.size upTo
  rw [h.programs.length_eq, h.generation]
  simp only
  split
  · exact .pure ⟨List.forall₂_take _ h.programs, rfl, rfl⟩
  · exact (offspringOf_coupled hC b h.programs _).bind fun offspring offspring' hoffspring =>
      .pure ⟨List.rel_append h.programs hoffspring, rfl, rfl⟩

theorem randomPrograms_coupled (shape : Shape) (count : Nat) :
    Coupled R E (List.Forall₂ V) (Population.randomPrograms shape count) (Population.randomPrograms shape count) := by
  induction count with
  | zero => exact .pure .nil
  | succ count ih =>
      unfold Population.randomPrograms
      refine Coupled.bind (V := V) ?_ fun first first' hfirst => ih.bind fun rest rest' hrest =>
        .pure (.cons hfirst hrest)
      refine (hC.draw _).bind ?_
      rintro code _ rfl
      exact hC.construct shape code

/-- Tasks of the same counts have related first populations. -/
theorem generate_coupled (hE : ∀ er, E er er) {task : Task σ} {task' : Task τ}
    (hinputs : task'.inputCount = task.inputCount) (hactions : task'.actionCount = task.actionCount)
    (settings : ProgramSettings) (size : Int) :
    Coupled R E (Population.Paired V) (Population.generate settings task size)
      (Population.generate settings task' size) := by
  unfold Population.generate
  rw [hinputs, hactions]
  refine Coupled.bind (V := Eq) ?_ ?_
  · cases settings.bind task.inputCount task.actionCount with
    | ok bound => exact .pure rfl
    | error er => exact .throw (hE er)
  rintro bound _ rfl
  refine (ofFault_coupled hC _).bind ?_
  rintro shape _ rfl
  refine (randomPrograms_coupled hC shape _).bind fun programs programs' hprograms => ?_
  rw [hprograms.length_eq]
  cases shape.sizes? with
  | none => exact .pure ⟨hprograms, rfl, rfl⟩
  | some sizes => exact (hC.report _).bind fun _ _ _ => .pure ⟨hprograms, rfl, rfl⟩

end Breeding

end RegisterEvolution
