import RegisterEvolution.Proofs.Evolution.Iteration

/-!
# `Proofs.Evolution.Truncation` — stopping only shortens a run

Observers may ask to stop, and an engine stops after a number of generations. Of two runs of engines with the same task,
generator and settings, one therefore goes through the generations that the other one goes through first; and a run that
stops at a target ends at the first generation that reaches it in a run that does not.

* `Engine.StopsAt` — when observers ask to stop, `stopsAt_target`: what an observer with a target asks for;
* `stepBy_stops` — a generation asks to stop by the way it looks when it is over;
* `runBy_meets` — where a run ends then;
* `yields_truncate` — stopping only shortens a run.
-/

namespace RegisterEvolution

variable {γ σ : Type} {base base' : Nat}

namespace Engine

variable [Generator γ]

/-! ## Requests to stop -/

/-- When a population that looks so is ranked, the observers ask to stop if and only if `stop` says so; at other events
    they do not. -/
def StopsAt (γ : Type) (e : Engine σ) (stop : Yield → Bool) : Prop :=
  ∀ event p (lab : Lab γ σ), Ends (fun stops _ => stops = (decide (event = .ranked) && stop (.of lab.store p)))
    (fun _ _ => True) (dispatch e.observers event p lab)

section Stops

variable {e : Engine σ} {F : List Instruction → Shape → Except Error Value} {stop : Yield → Bool}
  {s : EngineState γ σ} {p : Population} {evaluation : Population → Run γ σ Nat}
  (hsteady : ∀ o ∈ e.observers, o.Steady) (hstops : e.StopsAt γ stop)

include hsteady hstops

omit [Generator γ] in
theorem notify_stops (event : Event) (p : Population) (s : EngineState γ σ) :
    Ends (fun _ s' => Quiet s s' ∧
        s'.stopRequested = (s.stopRequested || (decide (event = .ranked) && stop (.of s.lab.store p)))) Never
      (e.notify event p s) := by
  have hflag : Ends (fun _ s' => s'.stopRequested =
      (s.stopRequested || (decide (event = .ranked) && stop (.of s.lab.store p)))) (fun _ _ => True)
      (e.notify event p s) := by
    have hdispatch := hstops event p s.lab
    refine ends_bind.mpr ?_
    unfold onLab
    cases hout : dispatch e.observers event p s.lab with
    | error er lab => exact trivial
    | ok stops lab =>
        rw [hout] at hdispatch
        rw [← show stops = _ from hdispatch]
        cases stops with
        | true => exact (Bool.or_true _).symm
        | false => exact (Bool.or_false _).symm
  exact ((notify_quiet hsteady event p s).and hflag).imp (fun _ _ hout => hout) fun _ _ he => he.1

omit [Generator γ] in
/-- An event other than a ranking leaves the request to stop as it is. -/
theorem notify_other {event : Event} (hevent : event ≠ .ranked) (p : Population) (s : EngineState γ σ) :
    Ends (fun _ s' => Quiet s s' ∧ s'.stopRequested = s.stopRequested) Never (e.notify event p s) :=
  (notify_stops hsteady hstops event p s).imp (fun _ _ hout => ⟨hout.1, by rw [hout.2]; simp [hevent]⟩)
    fun _ _ => id

omit [Generator γ] in
theorem evaluatePhaseBy_stops (hF : e.task.Determined (e.task.Scope e.Bound) fun p => F p.code p.shape)
    (hevaluation : e.Evaluates evaluation) (h : Upholds (.scorable e.task e.Bound) s.lab.store p.programs) :
    Ends (fun _ s' => s'.stopRequested = s.stopRequested ∧
        Upholds (.scorable e.task e.Bound) s'.lab.store p.programs) (fun _ _ => True)
      (e.evaluatePhaseBy evaluation p s) := by
  refine ends_bind.mpr (Stages.ends_enter.mpr (ends_bind.mpr (Stages.ends_announce (fun _ journal => ?_)
    fun _ => trivial)))
  have hends := hevaluation.ends hF p { s.lab with journal := journal } h
  refine (Stages.onLab_ends (hends.imp (fun _ _ hout => hout) fun _ _ _ => trivial)).bind ?_ fun _ _ _ => trivial
  intro _ s₁ hs₁
  obtain ⟨heq, -, hupholds, -⟩ := hs₁
  refine (notify_other hsteady hstops (by decide) p s₁).imp ?_ fun _ _ => False.elim
  intro _ s₂ hs₂
  refine ⟨?_, ?_⟩
  · rw [hs₂.2, heq]
  · rw [hs₂.1.store]
    exact hupholds

omit [Generator γ] in
theorem rankPhase_stops (p : Population) (s : EngineState γ σ) :
    Ends (fun r s' => r = p.rank s.lab.store ∧ s'.lab.store = s.lab.store ∧
        s'.stopRequested = (s.stopRequested || stop (.of s.lab.store r))) Never (e.rankPhase p s) := by
  refine ends_bind.mpr (Stages.ends_enter.mpr (ends_bind.mpr (ends_get.mpr (ends_bind.mpr (ends_modify.mpr ?_)))))
  refine ends_bind.mpr (Stages.ends_report.mpr ?_)
  refine (notify_stops hsteady hstops _ _ _).bind ?_ fun _ _ => False.elim
  intro _ s₁ hs₁
  exact ⟨rfl, hs₁.1.store, hs₁.2⟩

omit [Generator γ] in
theorem selectPhase_stops (r : Population) (s : EngineState γ σ) :
    Ends (fun pool s' => r.select e.plan.gap = .ok pool ∧ s'.lab.store = s.lab.store ∧
        s'.stopRequested = s.stopRequested) (fun _ _ => True) (e.selectPhase r s) := by
  refine ends_bind.mpr (Stages.ends_enter.mpr (ends_bind.mpr ?_))
  cases r.select e.plan.gap with
  | error f => exact trivial
  | ok pool =>
      refine (notify_other hsteady hstops (by decide) pool _).bind ?_ fun _ _ => False.elim
      intro _ s₁ hs₁
      exact ⟨rfl, hs₁.1.store, hs₁.2⟩

theorem replacePhase_stops {pool : Population} (r : Population)
    (h : Upholds (.scorable e.task e.Bound) s.lab.store pool.programs) :
    Ends (fun _ s' => s.lab.store.Extends s'.lab.store ∧ s'.stopRequested = s.stopRequested) (fun _ _ => True)
      (e.replacePhase r pool s) := by
  refine ends_bind.mpr (Stages.ends_enter.mpr ?_)
  have hbred := reproduce_upholds e.plan.breeding pool s.lab h
  refine (Stages.onLab_ends (s := { s with phase := some .reproducing })
    (hbred.imp (fun _ _ hout => hout) fun _ _ _ => trivial)).bind ?_ fun _ _ _ => trivial
  intro next s₁ hs₁
  obtain ⟨heq, hgrows, -⟩ := hs₁
  refine ends_bind.mpr (ends_modify.mpr ?_)
  refine (notify_other hsteady hstops (by decide) _ _).imp ?_ fun _ _ => False.elim
  intro _ s₂ hs₂
  refine ⟨?_, ?_⟩
  · rw [hs₂.1.store]
    exact hgrows.lineage.grown
  · rw [hs₂.2]
    show s₁.stopRequested = _
    rw [heq]

/-- **A generation asks to stop if and only if it looks so when it is over**: breeding does not change what is seen of
    the ranked population. -/
theorem stepBy_stops (hF : e.task.Determined (e.task.Scope e.Bound) fun p => F p.code p.shape)
    (hevaluation : e.Evaluates evaluation) (hp : s.population = some p)
    (h : Upholds (.scorable e.task e.Bound) s.lab.store p.programs) :
    Ends (fun r s' => s'.stopRequested = (s.stopRequested || stop (.of s'.lab.store r))) (fun _ _ => True)
      (e.stepBy evaluation s) := by
  refine ends_bind.mpr ?_
  rw [e.current_of_population hp]
  refine (evaluatePhaseBy_stops hsteady hstops hF hevaluation h).bind ?_ fun _ _ _ => trivial
  intro _ s₁ hs₁
  obtain ⟨hstop₁, hupholds⟩ := hs₁
  refine (rankPhase_stops hsteady hstops p s₁).bind ?_ fun _ _ => False.elim
  rintro r s₂ ⟨rfl, hstore₂, hstop₂⟩
  have hranked : Upholds (.scorable e.task e.Bound) s₂.lab.store (p.rank s₁.lab.store).programs := by
    rw [hstore₂]
    exact hupholds.rank
  refine (selectPhase_stops hsteady hstops _ s₂).bind ?_ fun _ _ _ => trivial
  intro pool s₃ hs₃
  obtain ⟨hpool, hstore₃, hstop₃⟩ := hs₃
  have hselected : Upholds (.scorable e.task e.Bound) s₃.lab.store pool.programs := by
    rw [hstore₃]
    exact hranked.select hpool
  refine (replacePhase_stops hsteady hstops _ hselected).bind ?_ fun _ _ _ => trivial
  intro _ s₄ hs₄
  obtain ⟨hgrown, hstop₄⟩ := hs₄
  refine (Stages.remember_ends e _ s₄).imp ?_ fun _ _ => False.elim
  rintro r s₅ ⟨rfl, hs₅⟩
  -- the numbers of the ranked programs had been used up before breeding began
  have hseen : Yield.of s₅.lab.store (p.rank s₁.lab.store) = Yield.of s₁.lab.store (p.rank s₁.lab.store) := by
    refine Yield.of_congr fun q hq => ?_
    rw [hs₅, Store.fitness_eq, Store.fitness_eq, ← hstore₂, ← hstore₃]
    refine hgrown.fitnessAt_eq ?_
    rw [hstore₃]
    exact hranked.knows.lt_nextId q hq
  rw [hseen, hs₅]
  show s₄.stopRequested = _
  rw [hstop₄, hstop₃, hstop₂, hstop₁]

end Stops

section Targets

variable {e : Engine σ} {goal : Float}

omit [Generator γ] in
/-- Where nobody watches, nobody asks to stop. -/
theorem stopsAt_nil (h : e.observers = []) : e.StopsAt γ fun _ => false := by
  intro event p lab
  rw [h]
  simp [dispatch, tellAll, Tally.start]

omit [Generator γ] in
/-- A single observer that does not fail decides alone. -/
theorem dispatch_single {o : Observer σ} {event : Event} {p : Population} {verdict : Verdict} {lab : Lab γ σ}
    (hverdict : verdict ≠ .failure)
    (h : Ends (fun v _ => v = verdict) Never (o.notice event lab.store p ⟨lab.journal, lab.world⟩)) :
    Ends (fun stops _ => stops = decide (verdict = .stop)) Never (dispatch [o] event p lab) := by
  refine ends_bind.mpr (ends_bind.mpr ?_)
  unfold tell onNotes
  refine ends_bind.mpr (ends_get.mpr (ends_bind.mpr ?_))
  cases hout : o.notice event lab.store p ⟨lab.journal, lab.world⟩ with
  | error er n =>
      rw [hout] at h
      exact h.elim
  | ok v n =>
      rw [hout] at h
      obtain rfl : v = verdict := h
      cases v with
      | proceed => exact rfl
      | stop => exact rfl
      | failure => exact absurd rfl hverdict

omit [Generator γ] in
/-- What an observer with a target answers. -/
theorem target_notice (goal : Float) (event : Event) (store : Store) (p : Population) (n : Notes σ) :
    Ends (fun v _ => v = if event = .ranked ∧ (Yield.of store p).reaches goal = true then .stop else .proceed) Never
      ((Observer.target goal : Observer σ).notice event store p n) := by
  unfold Observer.target Yield.reaches Yield.of
  simp only
  by_cases hevent : event = .ranked
  · rw [if_pos hevent]
    cases p.best? store with
    | none => simp
    | some q =>
        by_cases hgoal : goal ≤ (store.fitness q).getD (0.0 / 0.0)
        · simp [hevent, hgoal, Notes.report]
        · simp [hgoal]
  · simp [hevent]

omit [Generator γ] in
theorem target_steady (goal : Float) : (Observer.target goal : Observer σ).Steady := by
  intro event store p n
  refine (target_notice goal event store p n).imp ?_ fun _ _ => id
  rintro v _ rfl
  split
  · exact nofun
  · exact nofun

omit [Generator γ] in
/-- An observer with a target asks to stop when the best fitness of a ranked population reaches it. -/
theorem stopsAt_target (h : e.observers = [Observer.target goal]) : e.StopsAt γ (·.reaches goal) := by
  intro event p lab
  rw [h]
  refine (dispatch_single ?_ (target_notice goal event lab.store p _)).imp ?_ fun _ _ => False.elim
  · split
    · exact nofun
    · exact nofun
  · rintro stops _ rfl
    by_cases hstop : event = .ranked ∧ (Yield.of lab.store p).reaches goal = true
    · simp [hstop]
    · rw [if_neg hstop]
      simpa using hstop

end Targets

/-! ## Runs of the same length -/

section Stopped

variable {ε τ υ α β α' β' : Type} {found : Option Yield}

/-- An outcome reaches what is to be found, or if there is nothing, it goes with another outcome. -/
def Meets (found : Option Yield) (reached : Yield → α → τ → Prop) (ok : α → β → τ → υ → Prop)
    (r : EStateM.Result ε τ α) (r' : EStateM.Result ε υ β) : Prop :=
  match found with
  | some y => Ends (reached y) Never r
  | none => Pairs ok Both r r'

omit [Generator γ] in
theorem Meets.bind {reached : Yield → α → τ → Prop} {ok : α → β → τ → υ → Prop} {reached' : Yield → α' → τ → Prop}
    {ok' : α' → β' → τ → υ → Prop} {m : EStateM ε τ α} {n : EStateM ε υ β} {f : α → EStateM ε τ α'}
    {g : β → EStateM ε υ β'} {x : τ} {y : υ} (h : Meets found reached ok (m x) (n y))
    (hreached : ∀ seen a x, reached seen a x → Ends (reached' seen) Never (f a x))
    (hok : ∀ a b x y, ok a b x y → Pairs ok' Both (f a x) (g b y)) :
    Meets found reached' ok' ((m >>= f) x) ((n >>= g) y) := by
  cases found with
  | none => exact Pairs.bind h hok fun _ _ _ _ => id
  | some seen => exact Ends.bind h (hreached seen) fun _ _ => id

end Stopped

section Lengths

variable {e e' : Engine σ} {F : List Instruction → Shape → Except Error Value} {s t : EngineState γ σ}
  {p q r r' : Population} {evaluation evaluation' : Population → Run γ σ Nat} {stop stop' : Yield → Bool}
  (h : Alongside F e e') (hevaluation : e.Evaluates evaluation) (hevaluation' : e'.Evaluates evaluation')
  (hstops : e.StopsAt γ stop) (hstops' : e'.StopsAt γ stop')

include h hevaluation hevaluation' hstops hstops'

/-- Two generations that go the same way, and when the engines are asked to stop. -/
theorem stepBy_flags (hmax : e'.plan.maxGenerations = e.plan.maxGenerations) (hst : Twins e base base' s t p q) :
    Pairs (fun r r' s' t' => Abreast e base base' r r' s' t' ∧
        s'.stopRequested = (s.stopRequested || stop (.of s'.lab.store r)) ∧
        t'.stopRequested = (t.stopRequested || stop' (.of t'.lab.store r'))) Both
      (e.stepBy evaluation s) (e'.stepBy evaluation' t) := by
  have hone := stepBy_stops h.steady hstops h.determined hevaluation hst.population hst.upholds
  have hother := stepBy_stops h.steady' hstops' h.determined' hevaluation' hst.population' (by
    rw [h.task, h.bound_eq]
    exact hst.upholds')
  have hlabel : e'.canLabel q.generation = e.canLabel p.generation := by
    unfold canLabel
    rw [hst.paired.generation, hmax]
  exact ((stepBy_twins h hevaluation hevaluation' hlabel hst).and hone hother).imp (fun _ _ _ _ hout => hout)
    fun _ _ _ _ _ => trivial

omit h hevaluation hevaluation' hstops hstops' in
omit [Generator γ] in
theorem Twins.generation_eq (hst : Twins e base base' s t p q) : t.generation = s.generation := by
  unfold EngineState.generation
  rw [hst.population, hst.population']
  exact hst.paired.generation

omit h hevaluation hevaluation' hstops hstops' in
omit [Generator γ] in
theorem Twins.isFinished_eq (hst : Twins e base base' s t p q) (hmax : e'.plan.maxGenerations = e.plan.maxGenerations)
    (hflag : t.stopRequested = s.stopRequested) :
    t.isFinished e'.plan.maxGenerations = s.isFinished e.plan.maxGenerations := by
  unfold EngineState.isFinished
  rw [hst.generation_eq, hflag, hmax]

/-- Engines that are asked to stop at the same sights go through the same generations. -/
theorem yieldsUpTo_abreast (hmax : e'.plan.maxGenerations = e.plan.maxGenerations)
    (hstop : ∀ y y', Yield.Twin base base' y y' → stop' y' = stop y) (limit : Nat)
    (hst : Twins e base base' s t p q) (hflag : t.stopRequested = s.stopRequested) :
    List.Forall₂ (Yield.Twin base base') (e.yieldsUpTo evaluation limit s) (e'.yieldsUpTo evaluation' limit t) := by
  induction limit generalizing s t p q with
  | zero => exact .nil
  | succ limit ih =>
      unfold yieldsUpTo
      rw [hst.isFinished_eq hmax hflag]
      by_cases hs : s.isFinished e.plan.maxGenerations = true
      · rw [if_pos hs, if_pos hs]
        exact .nil
      · rw [if_neg hs, if_neg hs]
        have hstep := stepBy_flags h hevaluation hevaluation' hstops hstops' hmax hst
        cases hout : e.stepBy evaluation s with
        | error er s₁ =>
            cases hout' : e'.stepBy evaluation' t with
            | error er t₁ => exact .nil
            | ok r' t₁ =>
                rw [hout, hout'] at hstep
                exact hstep.elim
        | ok r s₁ =>
            cases hout' : e'.stepBy evaluation' t with
            | error er t₁ =>
                rw [hout, hout'] at hstep
                exact hstep.elim
            | ok r' t₁ =>
                rw [hout, hout'] at hstep
                obtain ⟨habreast, hs₁, ht₁⟩ := hstep
                obtain ⟨-, -, p₁, q₁, hnext⟩ := id habreast
                exact .cons habreast.twin (ih hnext (by rw [hs₁, ht₁, hflag, hstop _ _ habreast.twin]))

/--
**Where a run ends whose observers ask to stop.** If nobody asks the other engine to stop and a generation that it goes
through is one to stop at, then the run ends after the first such generation; otherwise it goes as far as the other one.
-/
theorem generationsUpToBy_stops (hmax : e'.plan.maxGenerations = e.plan.maxGenerations)
    (hstop : ∀ y y', Yield.Twin base base' y y' → stop y' = stop y) (hnever : ∀ y, stop' y = false) (limit : Nat)
    (hst : Twins e base base' s t p q) (hs : s.stopRequested = false) (ht : t.stopRequested = false) :
    Meets ((e'.yieldsUpTo evaluation' limit t).find? stop)
      (fun y _ s' => ∃ r, s'.lastRanked = some r ∧ Yield.Twin base base' (.of s'.lab.store r) y)
      (fun _ _ s' t' => ∃ p q, Twins e base base' s' t' p q)
      (e.generationsUpToBy evaluation (fun _ => return ()) limit s)
      (e'.generationsUpToBy evaluation' (fun _ => return ()) limit t) := by
  induction limit generalizing s t p q with
  | zero => exact ⟨p, q, hst⟩
  | succ limit ih =>
      have hfinished := hst.isFinished_eq hmax (ht.trans hs.symm)
      unfold yieldsUpTo
      by_cases hdone : s.isFinished e.plan.maxGenerations = true
      · rw [if_pos (hfinished.trans hdone), generationsUpToBy_finished e evaluation _ hdone,
          generationsUpToBy_finished e' evaluation' _ (hfinished.trans hdone)]
        exact ⟨p, q, hst⟩
      · have hdone' : ¬t.isFinished e'.plan.maxGenerations = true := by
          rw [hfinished]
          exact hdone
        rw [if_neg hdone', generationsUpToBy_unfinished e evaluation _ hdone,
          generationsUpToBy_unfinished e' evaluation' _ hdone']
        have hstep := stepBy_flags h hevaluation hevaluation' hstops hstops' hmax hst
        cases hout : e.stepBy evaluation s with
        | error er s₁ =>
            cases hout' : e'.stepBy evaluation' t with
            | error er' t₁ =>
                rw [bind_of_error hout, bind_of_error hout']
                exact trivial
            | ok r' t₁ =>
                rw [hout, hout'] at hstep
                exact hstep.elim
        | ok r s₁ =>
            cases hout' : e'.stepBy evaluation' t with
            | error er t₁ =>
                rw [hout, hout'] at hstep
                exact hstep.elim
            | ok r' t₁ =>
                rw [hout, hout'] at hstep
                obtain ⟨habreast, hs₁, ht₁⟩ := hstep
                obtain ⟨hlast, -, p₁, q₁, hnext⟩ := id habreast
                rw [hs, Bool.false_or, ← hstop _ _ habreast.twin] at hs₁
                rw [ht, hnever] at ht₁
                rw [bind_of_ok hout, bind_of_ok hout']
                by_cases hseen : stop (.of t₁.lab.store r') = true
                · -- the request stands, so none of the generations that are left is run
                  have hdone₁ : s₁.isFinished e.plan.maxGenerations = true := by
                    unfold EngineState.isFinished
                    rw [hs₁, hseen]
                    simp
                  have hnone := generationsUpToBy_finished e evaluation (fun _ => return ()) hdone₁ limit
                  simp only [List.find?_cons, hseen]
                  refine ends_bind.mpr (ends_pure.mpr (ends_bind.mpr ?_))
                  rw [hnone]
                  exact ⟨r, hlast, habreast.twin⟩
                · rw [Bool.not_eq_true] at hseen
                  simp only [List.find?_cons, hseen]
                  exact (ih hnext (hs₁.trans hseen) ht₁).bind (fun _ _ _ => id) fun _ _ _ _ => id

omit h hevaluation hevaluation' hstops' in
/-- Nobody has asked to stop when an iteration begins. -/
theorem commence_stops (hsteady : ∀ o ∈ e.observers, o.Steady) (hs : s.population = none) :
    Ends (fun _ s' => s'.stopRequested = false) (fun _ _ => True) (e.commence s) := by
  have hpopulate : Ends (fun _ s' => s'.stopRequested = false) (fun _ _ => True) (e.populate s) := by
    refine ends_bind.mpr ((Ends.of_final (P := fun _ => True) trivial).imp ?_ fun _ _ => id)
    intro p s₁ _
    refine ends_bind.mpr (ends_get.mpr (ends_bind.mpr (ends_set.mpr ?_)))
    refine (notify_other hsteady hstops (by decide) p _).bind ?_ fun _ _ => False.elim
    exact fun _ _ hs₂ => hs₂.2
  refine ends_bind.mpr ?_
  rw [e.current_of_none hs]
  refine hpopulate.imp ?_ fun _ _ => id
  exact fun _ s₁ hs₁ => (reportWorkers_quiet e s₁).imp (fun _ _ hquiet => hquiet.2.trans hs₁) fun _ _ => False.elim

variable (hs : s.population = none) (ht : t.population = none) (hlab : Lab.Twin base base' s.lab t.lab)
  (hmax : e'.plan.maxGenerations = e.plan.maxGenerations)

include hs ht hlab in
omit hevaluation hevaluation' in
/-- Iterations begin alike, and nobody has asked to stop then. -/
theorem commence_flags :
    Pairs (fun _ _ s' t' => (∃ p q, Twins e base base' s' t' p q) ∧ s'.stopRequested = false ∧ t'.stopRequested = false)
      Both (e.commence s) (e'.commence t) :=
  ((commence_twins h hs ht hlab).and (commence_stops hstops h.steady hs) (commence_stops hstops' h.steady' ht)).imp
    (fun _ _ _ _ hout => hout) fun _ _ _ _ _ => trivial

include hs ht hlab hmax in
/-- From equal beginnings on, engines that are asked to stop at the same sights go through the same generations. -/
theorem yields_abreast (hstop : ∀ y y', Yield.Twin base base' y y' → stop' y' = stop y) :
    List.Forall₂ (Yield.Twin base base') (e.yields evaluation s) (e'.yields evaluation' t) := by
  have hcommence := commence_flags h hstops hstops' hs ht hlab
  cases hout : e.commence s with
  | error er s₁ =>
      cases hout' : e'.commence t with
      | error er' t₁ =>
          rw [yields_of_error e evaluation hout, yields_of_error e' evaluation' hout']
          exact .nil
      | ok _ t₁ =>
          rw [hout, hout'] at hcommence
          exact hcommence.elim
  | ok _ s₁ =>
      cases hout' : e'.commence t with
      | error er t₁ =>
          rw [hout, hout'] at hcommence
          exact hcommence.elim
      | ok _ t₁ =>
          rw [hout, hout'] at hcommence
          obtain ⟨⟨p, q, hst⟩, hs₁, ht₁⟩ := hcommence
          rw [yields_of_ok e evaluation hout, yields_of_ok e' evaluation' hout', hst.generation_eq, hmax]
          exact yieldsUpTo_abreast h hevaluation hevaluation' hstops hstops' hmax hstop _ hst (ht₁.trans hs₁.symm)

end Lengths

section Reached

variable {e e' : Engine σ} {F : List Instruction → Shape → Except Error Value} {s t : EngineState γ σ}
  {p q : Population} {evaluation evaluation' : Population → Run γ σ Nat} {stop stop' : Yield → Bool}

omit [Generator γ] in
/-- A run answers the last ranked generation if there is one. -/
theorem conclude_ends {last : Population} (h : s.lastRanked.or s.population = some last) :
    Ends (fun last' s' => last' = last ∧ s'.lab.store = s.lab.store) Never (e.conclude s) := by
  refine ends_bind.mpr (Stages.ends_enter.mpr (ends_bind.mpr (ends_get.mpr ?_)))
  simp only [h]
  exact ends_bind.mpr (Stages.ends_report.mpr (ends_pure.mpr ⟨rfl, rfl⟩))

omit [Generator γ] in
/-- Runs of engines that correspond answer what corresponds. -/
theorem conclude_twins (hst : Twins e base base' s t p q) :
    Pairs (fun last last' s' t' => Yield.Twin base base' (.of s'.lab.store last) (.of t'.lab.store last')) Both
      (e.conclude s) (e'.conclude t) := by
  have hlast : ∃ last last', s.lastRanked.or s.population = some last ∧ t.lastRanked.or t.population = some last' ∧
      last.Paired (Program.Twin base base') last' := by
    rw [hst.population, hst.population']
    have hranked := hst.lastRanked
    cases hr : s.lastRanked with
    | none =>
        cases hr' : t.lastRanked with
        | none => exact ⟨p, q, rfl, rfl, hst.paired⟩
        | some r' =>
            rw [hr, hr'] at hranked
            exact nomatch hranked
    | some r =>
        cases hr' : t.lastRanked with
        | none =>
            rw [hr, hr'] at hranked
            exact nomatch hranked
        | some r' =>
            rw [hr, hr'] at hranked
            cases hranked with
            | some hpaired => exact ⟨r, r', rfl, rfl, hpaired⟩
  obtain ⟨last, last', hr, hr', hpaired⟩ := hlast
  refine (Pairs.of_ends (conclude_ends hr) (conclude_ends hr')).imp ?_ fun _ _ _ _ => id
  rintro _ _ s' t' ⟨⟨rfl, hs'⟩, rfl, ht'⟩
  rw [hs', ht']
  exact Yield.twin hpaired hst.lab.store

/-- The journal is not among what is seen of generations. -/
theorem yields_withJournal (h : Alongside F e e) (hevaluation : e.Evaluates evaluation) (hstops : e.StopsAt γ stop)
    (hs : s.population = none) (journal : Array Record) :
    e.yields evaluation (s.withJournal journal) = e.yields evaluation s := by
  have hlab : Lab.Twin s.lab.store.nextId s.lab.store.nextId (s.withJournal journal).lab s.lab := ⟨rfl, .start _ _⟩
  have hyields := (yields_abreast h hevaluation hevaluation hstops hstops (s := s.withJournal journal) hs hs hlab rfl
    fun y y' hy => by rw [hy.eq]).imp fun _ _ hy => hy.eq
  rwa [List.forall₂_eq_eq_eq] at hyields

/--
**A run ends at the first generation that its observers ask to stop at**, counted in the iteration of an engine that
nobody asks to stop. If there is none, the two engines answer the same.
-/
theorem runBy_meets (h : Alongside F e e') (hevaluation : e.Evaluates evaluation)
    (hevaluation' : e'.Evaluates evaluation') (hstops : e.StopsAt γ stop) (hstops' : e'.StopsAt γ fun _ => false)
    (hmax : e'.plan.maxGenerations = e.plan.maxGenerations)
    (hstop : ∀ y y', Yield.Twin base base' y y' → stop y' = stop y) (hs : s.population = none)
    (ht : t.population = none) (hlab : Lab.Twin base base' s.lab t.lab) :
    Meets ((e'.yields evaluation' t).find? stop)
      (fun y last s' => Yield.Twin base base' (.of s'.lab.store last) y)
      (fun last last' s' t' => Yield.Twin base base' (.of s'.lab.store last) (.of t'.lab.store last'))
      (e.runBy evaluation s) (e'.runBy evaluation' t) := by
  have hself : Alongside F e' e' := ⟨rfl, rfl, rfl, rfl, rfl, h.determined', h.steady', h.steady'⟩
  obtain ⟨journal, hstart⟩ := e.exists_reported s
  obtain ⟨journal', hstart'⟩ := e'.exists_reported t
  rw [← yields_withJournal hself hevaluation' hstops' ht journal', runBy_of_reported e _ hstart,
    runBy_of_reported e' _ hstart']
  have hcommence := commence_flags h hstops hstops' (s := s.withJournal journal) (t := t.withJournal journal') hs ht
    ⟨hlab.source, hlab.store⟩
  cases hout : e.commence (s.withJournal journal) with
  | error er s₁ =>
      cases hout' : e'.commence (t.withJournal journal') with
      | error er' t₁ =>
          rw [yields_of_error e' evaluation' hout', bind_of_error hout, bind_of_error hout']
          exact trivial
      | ok _ t₁ =>
          rw [hout, hout'] at hcommence
          exact hcommence.elim
  | ok _ s₁ =>
      cases hout' : e'.commence (t.withJournal journal') with
      | error er t₁ =>
          rw [hout, hout'] at hcommence
          exact hcommence.elim
      | ok _ t₁ =>
          rw [hout, hout'] at hcommence
          obtain ⟨⟨p, q, hst⟩, hs₁, ht₁⟩ := hcommence
          rw [yields_of_ok e' evaluation' hout', bind_of_ok hout, bind_of_ok hout']
          have hrest := generationsUpToBy_stops h hevaluation hevaluation' hstops hstops' hmax hstop (fun _ => rfl)
            (e'.plan.maxGenerations - t₁.generation).toNat hst hs₁ ht₁
          have hlimit : e'.plan.maxGenerations - t₁.generation = e.plan.maxGenerations - s₁.generation := by
            rw [hst.generation_eq, hmax]
          show Meets _ _ _ ((e.generationsUpToBy evaluation (fun _ => return ())
              (e.plan.maxGenerations - s₁.generation).toNat >>= fun _ => e.conclude) s₁)
            ((e'.generationsUpToBy evaluation' (fun _ => return ())
              (e'.plan.maxGenerations - t₁.generation).toNat >>= fun _ => e'.conclude) t₁)
          rw [← hlimit]
          refine hrest.bind ?_ ?_
          · rintro y _ s₂ ⟨r, hlast, hseen⟩
            have hanswer : s₂.lastRanked.or s₂.population = some r := by
              rw [hlast]
              rfl
            refine (conclude_ends hanswer).imp ?_ fun _ _ => id
            rintro _ s₃ ⟨rfl, hs₃⟩
            rw [hs₃]
            exact hseen
          · rintro _ _ s₂ t₂ ⟨p₂, q₂, hst₂⟩
            exact conclude_twins hst₂

end Reached

/-! ## Stopping only shortens a run -/

/--
**Stopping only shortens a run.** Take two new engines with the same task, which does the same with the same
instructions, with equal generators and counters of numbers, with settings that differ at most in the number of
generations, in the number of workers and in whether they report, and with observers that never fail. Of the generations
that the two go through, as they are seen one after the other, one list is the beginning of the other one, and so it is
with what two iterations collect that come to their end. If besides they may run equally many generations, nobody
watches the second engine, and an observer with a target alone watches the first one, then the run of the first engine
answers the first generation of the second engine that reaches the target; if there is none, the two runs answer the
same.
-/
theorem yields_truncate {e e' : Engine σ} {F : List Instruction → Shape → Except Error Value}
    {evaluation evaluation' : Population → Run γ σ Nat} {s t : EngineState γ σ} (htask : e'.task = e.task)
    (hplan : e'.plan = { e.plan with
      maxGenerations := e'.plan.maxGenerations, workers := e'.plan.workers, quiet := e'.plan.quiet })
    (hF : e.task.Determined (e.task.Scope e.Bound) fun p => F p.code p.shape) (hsteady : ∀ o ∈ e.observers, o.Steady)
    (hsteady' : ∀ o ∈ e'.observers, o.Steady) (hevaluation : e.Evaluates evaluation)
    (hevaluation' : e'.Evaluates evaluation') (hs : s.population = none) (ht : t.population = none)
    (hsource : t.lab.source = s.lab.source) (hnext : t.lab.store.nextId = s.lab.store.nextId) :
    (e.yields evaluation s <+: e'.yields evaluation' t ∨ e'.yields evaluation' t <+: e.yields evaluation s) ∧
      (∀ ys ys' s' t', e.generationsBy evaluation see s = .ok ys s' →
        e'.generationsBy evaluation' see t = .ok ys' t' → ys <+: ys' ∨ ys' <+: ys) ∧
      ∀ goal, e.observers = [Observer.target goal] → e'.observers = [] →
        e'.plan.maxGenerations = e.plan.maxGenerations →
        match (e'.yields evaluation' t).find? (·.reaches goal) with
        | some y => Ends (fun last s' => Yield.of s'.lab.store last = y) Never (e.runBy evaluation s)
        | none => Pairs (fun last last' s' t' => Yield.of s'.lab.store last = Yield.of t'.lab.store last') Both
            (e.runBy evaluation s) (e'.runBy evaluation' t) := by
  have h : Alongside F e e' := by
    refine ⟨htask, ?_, ?_, ?_, ?_, hF, hsteady, hsteady'⟩ <;> rw [hplan]
  have hlab : Lab.Twin s.lab.store.nextId s.lab.store.nextId s.lab t.lab := by
    refine ⟨hsource, ?_⟩
    have hstart := Store.Twin.start s.lab.store t.lab.store
    rwa [hnext] at hstart
  have hinitial := ((yields_overlap h hevaluation hevaluation' hs ht hlab).imp fun _ _ hy => hy.eq).initial
  refine ⟨hinitial, ?_, ?_⟩
  · intro ys ys' s' t' hys hys'
    have hseen := generationsBy_yields e evaluation s
    have hseen' := generationsBy_yields e' evaluation' t
    rw [hys] at hseen
    rw [hys'] at hseen'
    obtain rfl : ys = e.yields evaluation s := hseen
    obtain rfl : ys' = e'.yields evaluation' t := hseen'
    exact hinitial
  · intro goal hwatched halone hmax
    have hmeets := runBy_meets h hevaluation hevaluation' (stopsAt_target hwatched) (stopsAt_nil halone) hmax
      (fun y y' hy => by rw [hy.eq]) hs ht hlab
    cases hfind : (e'.yields evaluation' t).find? (·.reaches goal) with
    | none =>
        rw [hfind] at hmeets
        exact Pairs.imp hmeets (fun _ _ _ _ hy => hy.eq) fun _ _ _ _ => id
    | some y =>
        rw [hfind] at hmeets
        exact Ends.imp hmeets (fun _ _ hy => hy.eq) fun _ _ => id

/-- An engine that runs until a program of a single instruction is best. -/
def contented : Engine Unit := { brief with observers := [Observer.target 1.0] }

/-- An engine of two workers that nobody watches. -/
def shared : Engine Unit := { brief with plan := { brief.plan with workers := 2 }, observers := [], processors := 2 }

/-- What the two workers come to if the answers to the last programs are delivered first. -/
def sharedEvaluation : Population → Run Least Unit Nat := fun p lab =>
  evaluateDelivered p ((pending lab.store shared.plan.reevaluate p).map fun item =>
    (item.1, workerAnswer shared.task lab () item.2)).reverse lab

/-- From one beginning on, the engine that is watched goes as far as the other one needs to reach the target. -/
theorem yields_truncate_contented :
    ∃ s : EngineState Least Unit, s = .start .least () ∧
      (contented.yields (evaluate contented.task false) s <+: shared.yields sharedEvaluation s ∨
        shared.yields sharedEvaluation s <+: contented.yields (evaluate contented.task false) s) ∧
      match (shared.yields sharedEvaluation s).find? (·.reaches 1.0) with
      | some y => Ends (fun last s' => Yield.of s'.lab.store last = y) Never
          (contented.runBy (evaluate contented.task false) s)
      | none => Pairs (fun last last' s' t' => Yield.of s'.lab.store last = Yield.of t'.lab.store last') Both
          (contented.runBy (evaluate contented.task false) s) (shared.runBy sharedEvaluation s) := by
  have hF : contented.task.Determined (contented.task.Scope contented.Bound)
      fun p => .ok (.float (brevityOf p.code p.shape)) := fun p r world hscope => ⟨rfl, hscope⟩
  have hsteady : ∀ o ∈ contented.observers, o.Steady := by
    intro o ho
    rw [List.mem_singleton.mp ho]
    exact target_steady 1.0
  have hsteady' : ∀ o ∈ shared.observers, o.Steady := fun _ ho => absurd ho List.not_mem_nil
  have hevaluation : contented.Evaluates (evaluate contented.task false : Population → Run Least Unit Nat) :=
    .alone
  have hevaluation' : shared.Evaluates sharedEvaluation :=
    .pooled _ fun p lab => ⟨fun _ => (), List.reverse_perm _⟩
  obtain ⟨s, hs⟩ : ∃ s : EngineState Least Unit, s = .start .least () := ⟨_, rfl⟩
  have hnew : s.population = none := by
    rw [hs]
    rfl
  have htask : shared.task = contented.task := rfl
  have hplan : shared.plan = { contented.plan with
    maxGenerations := shared.plan.maxGenerations, workers := shared.plan.workers, quiet := shared.plan.quiet } := rfl
  obtain ⟨hyields, -, hrun⟩ :=
    yields_truncate (F := fun code shape => .ok (.float (brevityOf code shape))) htask hplan hF
    hsteady hsteady' hevaluation hevaluation' hnew hnew rfl rfl
  exact ⟨s, hs, hyields, hrun 1.0 rfl rfl rfl⟩

end Engine

end RegisterEvolution
