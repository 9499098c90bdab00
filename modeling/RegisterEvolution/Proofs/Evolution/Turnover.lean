import RegisterEvolution.Proofs.Evolution.Phases
import RegisterEvolution.Proofs.Evolution.Ranking

/-!
# `Proofs.Evolution.Turnover` — from one population to the next

A generation either leaves the programs that an engine holds as they are, in another order perhaps, or replaces them by
what has been bred from a pool of them. Nothing else can happen to a population, whatever the task, the generator and
the observers do, and whether the generation comes to its end or fails.

* `Engine.breedsFrom` — the pool that the next generation breeds from, and the lab on which it does so;
* `Engine.Handover`, `step_hands_over` — what a generation may leave an engine with;
* `Engine.Stretch` — the states that an engine passes through from a given one on.
-/

namespace RegisterEvolution

variable {γ σ τ : Type} [Generator γ]

namespace Engine

/-! ## Up to breeding -/

/-- A generation of a given population up to its breeding: the population that it ranks, and the pool. -/
def poolingFrom (e : Engine σ) (evaluation : Population → Run γ σ Nat) (p : Population) :
    Evolving γ σ (Population × Population) := do
  e.evaluatePhaseBy evaluation p
  let ranked ← e.rankPhase p
  let pool ← e.selectPhase ranked
  return (ranked, pool)

/-- The next generation up to its breeding. -/
def pooling (e : Engine σ) (evaluation : Population → Run γ σ Nat) : Evolving γ σ (Population × Population) := do
  let p ← e.current
  e.poolingFrom evaluation p

/-- The pool that the next generation breeds from, and the lab on which it does so, unless it fails before. -/
def breedsFrom (e : Engine σ) (evaluation : Population → Run γ σ Nat) (s : EngineState γ σ) :
    Option (Population × Lab γ σ) :=
  match e.pooling evaluation s with
  | .ok (_, pool) s' => some (pool, s'.lab)
  | .error _ _ => none

/-- A generation from its breeding on. -/
def turnOver (e : Engine σ) (ranked pool : Population) : Evolving γ σ Population := do
  e.replacePhase ranked pool
  e.remember ranked

theorem stepBy_eq_turnOver (e : Engine σ) (evaluation : Population → Run γ σ Nat) :
    e.stepBy evaluation = e.pooling evaluation >>= fun chosen => e.turnOver chosen.1 chosen.2 := by
  unfold stepBy afterEvaluation pooling poolingFrom turnOver
  simp only [bind_assoc, pure_bind]

section Pooling

variable {e : Engine σ} (I : Stages γ e τ) {s : EngineState γ σ} {last : Option Population} {p pool : Population}
  {lab : Lab γ σ} {evaluation : Population → Run γ σ Nat}

/-- What is asserted while a generation chooses its pool; whatever it fails with, `B` is what an error leaves. -/
theorem Stages.poolingFrom_ends {B : Assertion τ} (hevaluation : I.ways evaluation)
    (hheld : ∀ last s w p, I.held last s w p → B last s w p)
    (hspoiled : ∀ last s w p, I.spoiled last s w p → B last s w p)
    (hscored : ∀ last s w p, I.scored last s w p → B last s w p)
    (hranked : ∀ last s w p, I.ranked last s w p → B last s w p) (h : At I.view I.held last p s) :
    Ends (fun chosen s' => chosen.1.select e.plan.gap = .ok chosen.2 ∧ At I.view I.ranked last chosen.1 s')
      (fun _ s' => ∃ q, At I.view B last q s') (e.poolingFrom evaluation p s) := by
  have hleft : ∀ {A : Assertion τ}, (∀ last s w p, A last s w p → B last s w p) → ∀ {q : Population}
      {s' : EngineState γ σ}, At I.view A last q s' → ∃ q, At I.view B last q s' :=
    fun himp q s' hat => ⟨q, hat.population, hat.lastRanked, himp _ _ _ _ hat.asserted⟩
  refine (I.evaluatePhaseBy_ends hevaluation h).bind ?_ ?_
  · intro _ s₁ h₁
    refine (I.rankPhase_ends h₁).bind ?_ ?_
    · rintro r s₂ ⟨h₂, -⟩
      exact (I.selectPhase_ends h₂).bind (fun pool s₃ h₃ => h₃) fun _ s₃ he => hleft hranked he.2
    · rintro _ s₂ ⟨-, r, hr⟩
      exact hleft hranked hr
  · rintro _ s₁ (⟨-, hat | hat⟩ | ⟨-, hat⟩)
    · exact hleft hspoiled hat
    · exact hleft hscored hat
    · exact hleft hheld hat

/-- What is asserted on the lab on which the next generation breeds. -/
theorem Stages.of_breedsFrom (hevaluation : I.ways evaluation) (h : I.Holds s)
    (hbreeds : e.breedsFrom evaluation s = some (pool, lab)) :
    ∃ r, r.select e.plan.gap = .ok pool ∧ I.ranked s.lastRanked lab.store (I.view lab.world) r := by
  have hpooling : Ends (fun chosen s' => chosen.1.select e.plan.gap = .ok chosen.2 ∧
      At I.view I.ranked s.lastRanked chosen.1 s') (fun _ _ => True) (e.pooling evaluation s) := by
    refine (I.current_ends h).bind ?_ fun _ _ _ => trivial
    rintro p s₁ ⟨hp, -⟩
    have hpooling := I.poolingFrom_ends (B := fun _ _ _ _ => True) hevaluation (fun _ _ _ _ _ => trivial)
      (fun _ _ _ _ _ => trivial) (fun _ _ _ _ _ => trivial) (fun _ _ _ _ _ => trivial) hp
    exact hpooling.imp (fun _ _ hout => hout) fun _ _ _ => trivial
  unfold breedsFrom at hbreeds
  cases hout : e.pooling evaluation s with
  | error er s' =>
      rw [hout] at hbreeds
      exact nomatch hbreeds
  | ok chosen s' =>
      obtain ⟨r, pool'⟩ := chosen
      rw [hout] at hpooling hbreeds
      obtain ⟨rfl, rfl⟩ := Prod.mk.inj (Option.some.inj hbreeds)
      exact ⟨r, hpooling.1, hpooling.2.asserted⟩

end Pooling

/-! ## What a generation leaves -/

/-- The stages of a generation that say which programs the engine holds up to its breeding. -/
def holding (e : Engine σ) (ps : List Program) : Stages γ e Unit where
  view _ := ()
  mayFail := True
  ways := e.Evaluates
  vacant _ _ := False
  held _ _ _ p := p.programs.Perm ps
  spoiled _ _ _ p := p.programs.Perm ps
  scored _ _ _ p := p.programs.Perm ps
  ranked _ _ _ p := p.programs.Perm ps
  left _ _ _ _ := True
  generates _ := False.elim
  evaluates _ _ _ _ _ hp _ := (Ends.of_final (P := fun _ => True) trivial).imp (fun _ _ _ => hp)
    fun _ _ _ => ⟨trivial, hp⟩
  ranks _ s _ p hp := (Population.rank_perm s p).trans hp
  selects _ _ _ _ _ := .inl trivial
  breeds _ _ _ _ _ _ := (Ends.of_final (P := fun _ => True) trivial).imp (fun _ _ _ _ _ => trivial)
    fun _ _ _ => ⟨trivial, trivial⟩
  notices := e.dispatch_watched
  left_of_held _ _ _ _ _ _ := trivial
  left_of_spoiled _ _ _ _ _ := trivial
  left_of_scored _ _ _ _ _ := trivial
  left_of_ranked _ _ _ _ _ := trivial

/--
What a generation may leave an engine with that held `p`: the same programs, or what has been bred from a pool of them.
The ranked population is remembered only if the generation comes to its end.
-/
inductive Handover (e : Engine σ) (evaluation : Population → Run γ σ Nat) (s : EngineState γ σ) (p : Population)
    (s' : EngineState γ σ) : Prop where
  | kept {q : Population} : q.programs.Perm p.programs → s'.population = some q → s'.lastRanked = s.lastRanked →
      Handover e evaluation s p s'
  | bred {r pool next : Population} {lab lab' : Lab γ σ} : r.programs.Perm p.programs →
      r.select e.plan.gap = .ok pool → e.breedsFrom evaluation s = some (pool, lab) →
      reproduce e.plan.breeding pool lab = .ok next lab' → s'.lab.store = lab'.store →
      s'.population = some { next with generation := r.generation + 1 } →
      s'.lastRanked = s.lastRanked ∨ s'.lastRanked = some r → Handover e evaluation s p s'

variable {e : Engine σ} {s s' : EngineState γ σ} {p r pool : Population} {evaluation : Population → Run γ σ Nat}

omit [Generator γ] in
/-- Observers change neither the populations nor the store. -/
theorem notify_keeps (e : Engine σ) (event : Event) (p : Population) (s : EngineState γ σ) :
    Ends (fun _ s' => s'.population = s.population ∧ s'.lastRanked = s.lastRanked ∧ s'.lab.store = s.lab.store)
      (fun _ s' => s'.population = s.population ∧ s'.lastRanked = s.lastRanked ∧ s'.lab.store = s.lab.store)
      (e.notify event p s) := by
  refine (Stages.onLab_ends ((e.dispatch_watched event p s.lab).imp (fun _ _ h => h) fun _ _ h => h.2)).bind ?_ ?_
  · rintro stop s₁ ⟨heq, hlab⟩
    rw [heq]
    cases stop with
    | true => exact ⟨rfl, rfl, hlab.store⟩
    | false => exact ⟨rfl, rfl, hlab.store⟩
  · rintro _ s₁ ⟨heq, hlab⟩
    rw [heq]
    exact ⟨rfl, rfl, hlab.store⟩

/-- What the engine holds when a generation has been bred, or when breeding has failed. -/
theorem replacePhase_leaves (hr : s.population = some r) :
    Ends (fun _ s' => s'.lastRanked = s.lastRanked ∧ ∃ next lab', reproduce e.plan.breeding pool s.lab = .ok next lab' ∧
        s'.lab.store = lab'.store ∧ s'.population = some { next with generation := r.generation + 1 })
      (fun _ s' => s'.lastRanked = s.lastRanked ∧ (s'.population = some r ∨
        ∃ next lab', reproduce e.plan.breeding pool s.lab = .ok next lab' ∧ s'.lab.store = lab'.store ∧
          s'.population = some { next with generation := r.generation + 1 })) (e.replacePhase r pool s) := by
  refine ends_bind.mpr (Stages.ends_enter.mpr (ends_bind.mpr ?_))
  show Ends _ _ (onLab (reproduce e.plan.breeding pool) _)
  unfold onLab
  simp only
  cases hout : reproduce e.plan.breeding pool s.lab with
  | error er lab' => exact ⟨rfl, .inl hr⟩
  | ok next lab' =>
      refine ends_bind.mpr (ends_modify.mpr ((notify_keeps e .generationEnd _ _).imp ?_ ?_))
      · rintro _ s' ⟨hpopulation, hlast, hstore⟩
        exact ⟨hlast, next, lab', rfl, hstore, hpopulation⟩
      · rintro _ s' ⟨hpopulation, hlast, hstore⟩
        exact ⟨hlast, .inr ⟨next, lab', rfl, hstore, hpopulation⟩⟩

/-- **What one generation may do to a population**, whether it comes to its end or fails. -/
theorem stepBy_hands_over (hevaluation : e.Evaluates evaluation) (hp : s.population = some p) :
    Handover e evaluation s p (finalState (e.stepBy evaluation s)) := by
  let I : Stages γ e Unit := holding e p.programs
  have hpooling : Ends (fun chosen s' => chosen.1.select e.plan.gap = .ok chosen.2 ∧
      At I.view I.ranked s.lastRanked chosen.1 s') (fun _ s' => ∃ q, At I.view I.ranked s.lastRanked q s')
      (e.pooling evaluation s) := by
    refine ends_bind.mpr ?_
    rw [e.current_of_population hp]
    exact I.poolingFrom_ends hevaluation (fun _ _ _ _ h => h) (fun _ _ _ _ h => h) (fun _ _ _ _ h => h)
      (fun _ _ _ _ h => h) ⟨hp, rfl, .refl _⟩
  rw [stepBy_eq_turnOver]
  refine Ends.final (ends_bind.mpr ?_)
  cases hout : e.pooling evaluation s with
  | error er s₁ =>
      rw [hout] at hpooling
      obtain ⟨q, hq⟩ := hpooling
      exact .kept hq.asserted hq.population hq.lastRanked
  | ok chosen s₁ =>
      obtain ⟨r, pool⟩ := chosen
      rw [hout] at hpooling
      obtain ⟨hpool, hr⟩ := hpooling
      have hbreeds : e.breedsFrom evaluation s = some (pool, s₁.lab) := by
        unfold breedsFrom
        rw [hout]
      refine (replacePhase_leaves hr.population).bind ?_ ?_
      · rintro _ s₂ ⟨hlast, next, lab', hbred, hstore, hpopulation⟩
        refine (Stages.remember_ends e r s₂).imp ?_ fun _ _ => False.elim
        rintro _ s₃ ⟨rfl, hs₃⟩
        rw [hs₃]
        exact .bred hr.asserted hpool hbreeds hbred hstore hpopulation (.inr rfl)
      · rintro _ s₂ ⟨hlast, hpopulation | ⟨next, lab', hbred, hstore, hpopulation⟩⟩
        · exact .kept hr.asserted hpopulation (hlast.trans hr.lastRanked)
        · exact .bred hr.asserted hpool hbreeds hbred hstore hpopulation (.inl (hlast.trans hr.lastRanked))

/-! ## Stretches of a run -/

/--
The states of an engine from a given one on, by generations that satisfy `P`, each with the way in which it is evaluated
and the state in which it begins; a generation may fail. Between them the generator, the journal, the phase and the
request to stop may change.
-/
inductive Stretch (e : Engine σ) (P : (Population → Run γ σ Nat) → EngineState γ σ → Prop) (s₁ : EngineState γ σ) :
    EngineState γ σ → Prop where
  | here : Stretch e P s₁ s₁
  | step {s : EngineState γ σ} {evaluation : Population → Run γ σ Nat} : e.Evaluates evaluation → Stretch e P s₁ s →
      P evaluation s → Stretch e P s₁ (finalState (e.stepBy evaluation s))
  | aside {s s' : EngineState γ σ} : Stretch e P s₁ s → s'.lab.store = s.lab.store → s'.lab.world = s.lab.world →
      s'.population = s.population → s'.lastRanked = s.lastRanked → Stretch e P s₁ s'

end Engine

end RegisterEvolution
