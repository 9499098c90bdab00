import RegisterEvolution.Proofs.Evolution.LastRanked
import RegisterEvolution.Proofs.Evolution.Twins

/-!
# `Proofs.Evolution.Iteration` — the generations that a run goes through

A generation can be seen when it comes to its end: its programs in their order, their fitness, and how good the best one
is. How far a run goes depends on how many generations it may have and on who asks to stop, but where it goes does not:
two engines that correspond go through generations that look alike for as long as both of them go on.

* `Yield`, `Engine.yields` — what is seen of a generation, and what is seen one after the other in an iteration;
* `generationsBy_yields` — an iteration that succeeds lets see the yields of the engine;
* `Overlaps` — lists that are related place by place as far as both of them go;
* `yields_overlap` — what is seen of two engines that correspond.
-/

namespace RegisterEvolution

variable {γ σ : Type} {base base' : Nat} {s t : Store} {a b : Population}

/-! ## Generations as they are seen -/

/-- What is seen of a generation: its programs in their order, the fitness of each of them, and that of the best one. -/
structure Yield where
  population : Population
  fitness : List (Option Float)
  best : Option Float

namespace Yield

/-- What a store lets see of a population. -/
def of (store : Store) (p : Population) : Yield :=
  ⟨p, p.programs.map store.fitness, (p.best? store).map fun q => (store.fitness q).getD (0.0 / 0.0)⟩

/-- Whether the best fitness reaches a goal. -/
def reaches (goal : Float) (y : Yield) : Bool :=
  match y.best with
  | some x => goal ≤ x
  | none => false

/-- Populations that correspond, with the same fitness. -/
structure Twin (base base' : Nat) (y y' : Yield) : Prop where
  population : y.population.Paired (Program.Twin base base') y'.population
  fitness : y'.fitness = y.fitness
  best : y'.best = y.best

end Yield

section Best

variable {V : Program → Program → Prop}

/-- The better ones of related programs are related. -/
theorem better_rel (hV : ∀ p q, V p q → t.fitness q = s.fitness p) {p q p' q' : Program} (hp : V p p') (hq : V q q') :
    V (Population.better s p q) (Population.better t p' q') := by
  have hkey : ∀ p q, V p q → Population.rankKey t q = Population.rankKey s p := by
    intro p q hpq
    unfold Population.rankKey
    rw [hV p q hpq]
  unfold Population.better
  rw [hkey p p' hp, hkey q q' hq]
  by_cases hlt : Population.rankKey s q < Population.rankKey s p
  · rw [if_pos hlt, if_pos hlt]
    exact hq
  · rw [if_neg hlt, if_neg hlt]
    exact hp

/-- The best programs of populations of equal fitness stand at the same place. -/
theorem Population.Paired.best? (h : a.Paired V b) (hV : ∀ p q, V p q → t.fitness q = s.fitness p) :
    (a.best? s = none ∧ b.best? t = none) ∨ ∃ p q, a.best? s = some p ∧ b.best? t = some q ∧ V p q := by
  have hscored : List.Forall₂ V (a.programs.filter fun p => (s.fitness p).isSome)
      (b.programs.filter fun q => (t.fitness q).isSome) := by
    refine List.rel_filter ?_ h.programs
    intro p q hpq
    simp only [hV p q hpq]
  unfold Population.best?
  generalize a.programs.filter (fun p => (s.fitness p).isSome) = ps at hscored ⊢
  generalize b.programs.filter (fun q => (t.fitness q).isSome) = qs at hscored ⊢
  cases hscored with
  | nil => exact .inl ⟨rfl, rfl⟩
  | cons hfirst hrest =>
      refine .inr ⟨_, _, rfl, rfl, List.rel_foldl ?_ hfirst hrest⟩
      intro p p' hp q q' hq
      exact better_rel hV hp hq

/-- Populations of equal fitness look the same. -/
theorem Population.Paired.looks (h : a.Paired V b) (hV : ∀ p q, V p q → t.fitness q = s.fitness p) :
    (Yield.of t b).fitness = (Yield.of s a).fitness ∧ (Yield.of t b).best = (Yield.of s a).best := by
  unfold Yield.of
  constructor
  · have hfitness : List.Forall₂ (fun p q => t.fitness q = s.fitness p) a.programs b.programs := h.programs.imp hV
    refine List.forall₂_eq_eq_eq ▸ ?_
    rw [List.forall₂_map_left_iff, List.forall₂_map_right_iff]
    exact hfitness.flip
  · rcases h.best? hV with ⟨hnone, hnone'⟩ | ⟨p, q, hp, hq, hpq⟩
    · simp [hnone, hnone']
    · simp [hp, hq, hV p q hpq]

end Best

namespace Yield

/-- Populations that correspond look so on stores that correspond. -/
theorem twin (h : a.Paired (Program.Twin base base') b) (hst : Store.Twin base base' s t) :
    Twin base base' (of s a) (of t b) := by
  have hlooks := h.looks fun p q hpq => hst.fitness_eq hpq
  exact ⟨h, hlooks.1, hlooks.2⟩

/-- Counted from one beginning, generations that correspond look the same. -/
theorem Twin.eq {y y' : Yield} (h : Twin base base y y') : y = y' := by
  obtain ⟨population, fitness, best⟩ := y
  obtain ⟨population', fitness', best'⟩ := y'
  obtain rfl : population = population' := (h.population.imp fun _ _ => Program.Twin.eq).eq
  obtain rfl : fitness' = fitness := h.fitness
  obtain rfl : best' = best := h.best
  rfl

/-- Only the fitness of the programs themselves is seen. -/
theorem of_congr (h : ∀ q ∈ a.programs, t.fitness q = s.fitness q) : of t a = of s a := by
  have hsame : a.Paired (fun p q => p = q ∧ t.fitness q = s.fitness p) a :=
    ⟨List.forall₂_same.mpr fun q hq => ⟨rfl, h q hq⟩, rfl, rfl⟩
  obtain ⟨hfitness, hbest⟩ := hsame.looks fun p q hpq => hpq.2
  show Yield.mk a (of t a).fitness (of t a).best = _
  rw [hfitness, hbest]
  rfl

end Yield

/-! ## One step after the other -/

section Steps

variable {ε τ α β : Type} {m : EStateM ε τ α} {f : α → EStateM ε τ β} {x x' : τ}

theorem bind_of_ok {a : α} (h : m x = .ok a x') : (m >>= f) x = f a x' := by
  show EStateM.bind m f x = _
  unfold EStateM.bind
  rw [h]

theorem bind_of_error {er : ε} (h : m x = .error er x') : (m >>= f) x = .error er x' := by
  show EStateM.bind m f x = _
  unfold EStateM.bind
  rw [h]

end Steps

/-! ## Lists that begin alike -/

/-- Lists that are related place by place as far as both of them go. -/
inductive Overlaps {α β : Type} (V : α → β → Prop) : List α → List β → Prop where
  | nil_left (ys : List β) : Overlaps V [] ys
  | nil_right (xs : List α) : Overlaps V xs []
  | cons {x : α} {y : β} {xs : List α} {ys : List β} : V x y → Overlaps V xs ys → Overlaps V (x :: xs) (y :: ys)

/-- If they are equal as far as both go, one is the beginning of the other one. -/
theorem Overlaps.initial {α : Type} {xs ys : List α} (h : Overlaps Eq xs ys) : xs <+: ys ∨ ys <+: xs := by
  induction h with
  | nil_left ys => exact .inl List.nil_prefix
  | nil_right xs => exact .inr List.nil_prefix
  | cons hxy _ ih =>
      obtain rfl := hxy
      simpa [List.cons_prefix_cons] using ih

theorem Overlaps.imp {α β : Type} {V W : α → β → Prop} {xs : List α} {ys : List β} (h : Overlaps V xs ys)
    (hV : ∀ x y, V x y → W x y) : Overlaps W xs ys := by
  induction h with
  | nil_left ys => exact .nil_left ys
  | nil_right xs => exact .nil_right xs
  | cons hxy _ ih => exact .cons (hV _ _ hxy) ih

/-- The same state with another journal. -/
def EngineState.withJournal (s : EngineState γ σ) (journal : Array Record) : EngineState γ σ :=
  { s with lab := { s.lab with journal := journal } }

namespace Engine

variable [Generator γ]

/-! ## The generations of a run -/

section Runs

variable {α : Type} (e : Engine σ) (evaluation : Population → Run γ σ Nat) (visit : Population → Evolving γ σ α)

/-- The generations that are left, at most `limit` of them, as they are seen one after the other. If a generation fails,
    it is not seen, and there are no more. -/
def yieldsUpTo : Nat → EngineState γ σ → List Yield
  | 0, _ => []
  | limit + 1, s =>
    if s.isFinished e.plan.maxGenerations then []
    else
      match e.stepBy evaluation s with
      | .ok ranked s' => .of s'.lab.store ranked :: yieldsUpTo limit s'
      | .error _ _ => []

/-- All generations that are left as they are seen one after the other. -/
def yields (s : EngineState γ σ) : List Yield :=
  match e.commence s with
  | .ok _ s' => e.yieldsUpTo evaluation (e.plan.maxGenerations - s'.generation).toNat s'
  | .error _ _ => []

/-- Sees a generation that has come to its end. -/
def see (ranked : Population) : Evolving γ σ Yield := do return .of (← get).lab.store ranked

omit [Generator γ] in
theorem isFinished_eq (s : EngineState γ σ) : e.isFinished s = .ok (s.isFinished e.plan.maxGenerations) s := rfl

theorem generationsUpToBy_yields (limit : Nat) (s : EngineState γ σ) :
    Ends (fun ys _ => ys = e.yieldsUpTo evaluation limit s) (fun _ _ => True)
      (e.generationsUpToBy evaluation see limit s) := by
  induction limit generalizing s with
  | zero => exact rfl
  | succ limit ih =>
      unfold yieldsUpTo
      refine ends_bind.mpr (Stages.ends_isFinished.mpr ?_)
      cases s.isFinished e.plan.maxGenerations with
      | true => exact rfl
      | false =>
          refine ends_bind.mpr ?_
          cases e.stepBy evaluation s with
          | error er s' => exact trivial
          | ok ranked s' =>
              refine ends_bind.mpr (ends_bind.mpr (ends_get.mpr (ends_pure.mpr ?_)))
              refine (ih s').bind ?_ fun _ _ => id
              rintro ys _ rfl
              rfl

/-- **What an iteration lets see of its generations** are the yields of the engine. -/
theorem generationsBy_yields (s : EngineState γ σ) :
    Ends (fun ys _ => ys = e.yields evaluation s) (fun _ _ => True)
      (e.generationsBy evaluation see s) := by
  unfold generationsBy yields
  refine ends_bind.mpr ?_
  cases e.commence s with
  | error er s' => exact trivial
  | ok _ s' => exact (generationsUpToBy_yields e evaluation _ s').bind (fun _ _ hys => hys) fun _ _ => id

theorem yields_of_ok {s s' : EngineState γ σ} (h : e.commence s = .ok () s') :
    e.yields evaluation s = e.yieldsUpTo evaluation (e.plan.maxGenerations - s'.generation).toNat s' := by
  unfold yields
  rw [h]

theorem yields_of_error {s s' : EngineState γ σ} {er : Error} (h : e.commence s = .error er s') :
    e.yields evaluation s = [] := by
  unfold yields
  rw [h]

omit [Generator γ] in
/-- A run may report its start, and changes nothing else by that. -/
theorem exists_reported (s : EngineState γ σ) : ∃ journal, e.reportStart s = .ok () (s.withJournal journal) := by
  have hstart : Ends (fun _ s' => ∃ journal, s' = s.withJournal journal) Never (e.reportStart s) :=
    Stages.ends_reportStart fun journal => ⟨journal, rfl⟩
  obtain ⟨_, _, hout, journal, rfl⟩ := hstart.exists_ok
  exact ⟨journal, hout⟩

/-- When its start is reported, a run goes on as an iteration does. -/
theorem runBy_of_reported {s s' : EngineState γ σ} (h : e.reportStart s = .ok () s') :
    e.runBy evaluation s = (e.commence >>= fun _ => e.restBy evaluation) s' := by
  rw [runBy_eq]
  unfold opening
  rw [bind_assoc, bind_of_ok h]

/-- An engine that is finished runs no generation. -/
theorem generationsUpToBy_finished {s : EngineState γ σ} (h : s.isFinished e.plan.maxGenerations = true) (limit : Nat) :
    e.generationsUpToBy evaluation visit limit s = .ok [] s := by
  cases limit with
  | zero => rfl
  | succ limit =>
      rw [generationsUpToBy, bind_of_ok (e.isFinished_eq s), if_pos h]
      rfl

/-- An engine that is not finished runs one generation and then those that are left. -/
theorem generationsUpToBy_unfinished {s : EngineState γ σ} (h : ¬s.isFinished e.plan.maxGenerations = true)
    (limit : Nat) :
    e.generationsUpToBy evaluation visit (limit + 1) s = (do
      let ranked ← e.stepBy evaluation
      let first ← visit ranked
      let rest ← e.generationsUpToBy evaluation visit limit
      return first :: rest : Evolving γ σ (List α)) s := by
  rw [generationsUpToBy, bind_of_ok (e.isFinished_eq s), if_neg h]

end Runs

/-! ## Runs of different lengths -/

section Overlap

variable {e e' : Engine σ} {F : List Instruction → Shape → Except Error Value} {s t s' t' : EngineState γ σ}
  {p q r r' : Population} {evaluation evaluation' : Population → Run γ σ Nat}

omit [Generator γ] in
theorem Abreast.twin (h : Abreast e base base' r r' s t) :
    Yield.Twin base base' (.of s.lab.store r) (.of t.lab.store r') := by
  obtain ⟨hr, hr', p, q, hst⟩ := h
  have hlast := hst.lastRanked
  rw [hr, hr'] at hlast
  cases hlast with
  | some hpaired => exact Yield.twin hpaired hst.lab.store

omit [Generator γ] in
theorem reportWorkers_quiet (e : Engine σ) (s : EngineState γ σ) :
    Ends (fun _ s' => Quiet s s' ∧ s'.stopRequested = s.stopRequested) Never (e.reportWorkers s) := by
  unfold reportWorkers
  split
  · exact ⟨⟨rfl, rfl, rfl, rfl⟩, rfl⟩
  · exact ⟨⟨rfl, rfl, rfl, rfl⟩, rfl⟩

variable (h : Alongside F e e')

include h

/-- Iterations of engines without a population begin alike. -/
theorem commence_twins (hs : s.population = none) (ht : t.population = none) (hlab : Lab.Twin base base' s.lab t.lab) :
    Pairs (fun _ _ s' t' => ∃ p q, Twins e base base' s' t' p q) Both (e.commence s) (e'.commence t) := by
  have hcurrent : Pairs (fun p q s' t' => Twins e base base' s' t' p q) Both (e.current s) (e'.current t) := by
    rw [e.current_of_none hs, e'.current_of_none ht]
    exact populate_twins h hlab
  refine hcurrent.bind (fun p q s₁ t₁ hst => ?_) fun _ _ _ _ => id
  refine (Pairs.of_ends (reportWorkers_quiet e s₁) (reportWorkers_quiet e' t₁)).imp ?_ fun _ _ _ _ => id
  exact fun _ _ _ _ hquiet => ⟨p, q, hst.quiet hquiet.1.1 hquiet.2.1⟩

variable (hevaluation : e.Evaluates evaluation) (hevaluation' : e'.Evaluates evaluation')

include hevaluation hevaluation'

/-- **Generation by generation, what is seen of one run is seen of the other one**, as far as both go. The induction
    goes along the run of the first engine. -/
theorem yieldsUpTo_overlaps (limit limit' : Nat) (hst : Twins e base base' s t p q) :
    Overlaps (Yield.Twin base base') (e.yieldsUpTo evaluation limit s) (e'.yieldsUpTo evaluation' limit' t) := by
  induction limit generalizing limit' s t p q with
  | zero => exact .nil_left _
  | succ limit ih =>
      cases limit' with
      | zero => exact .nil_right _
      | succ limit' =>
          unfold yieldsUpTo
          by_cases hs : s.isFinished e.plan.maxGenerations = true
          · rw [if_pos hs]
            exact .nil_left _
          · by_cases ht : t.isFinished e'.plan.maxGenerations = true
            · rw [if_pos ht]
              exact .nil_right _
            · rw [if_neg hs, if_neg ht]
              cases hout : e.stepBy evaluation s with
              | error er s₁ => exact .nil_left _
              | ok r s₁ =>
                  cases hout' : e'.stepBy evaluation' t with
                  | error er t₁ => exact .nil_right _
                  | ok r' t₁ =>
                      -- the limits may differ, but both generations have been labelled
                      have hlabel : e'.canLabel q.generation = e.canLabel p.generation :=
                        (canLabel_of_ok hst.population' hout').trans (canLabel_of_ok hst.population hout).symm
                      have hstep := stepBy_twins h hevaluation hevaluation' hlabel hst
                      rw [hout, hout'] at hstep
                      have habreast : Abreast e base base' r r' s₁ t₁ := hstep
                      obtain ⟨-, -, p₁, q₁, hnext⟩ := hstep
                      exact .cons habreast.twin (ih limit' hnext)

theorem yields_overlap (hs : s.population = none) (ht : t.population = none) (hlab : Lab.Twin base base' s.lab t.lab) :
    Overlaps (Yield.Twin base base') (e.yields evaluation s) (e'.yields evaluation' t) := by
  have hcommence := commence_twins h hs ht hlab
  cases hout : e.commence s with
  | error er s₁ =>
      rw [yields_of_error e evaluation hout]
      exact .nil_left _
  | ok _ s₁ =>
      cases hout' : e'.commence t with
      | error er t₁ =>
          rw [yields_of_error e' evaluation' hout']
          exact .nil_right _
      | ok _ t₁ =>
          rw [hout, hout'] at hcommence
          obtain ⟨p, q, hst⟩ := hcommence
          rw [yields_of_ok e evaluation hout, yields_of_ok e' evaluation' hout']
          exact yieldsUpTo_overlaps h hevaluation hevaluation' _ _ hst

end Overlap

end Engine

end RegisterEvolution
