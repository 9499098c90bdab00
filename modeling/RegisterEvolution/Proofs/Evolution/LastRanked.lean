import RegisterEvolution.Proofs.Evolution.Progress

/-!
# `Proofs.Evolution.LastRanked` — what a run answers

A run answers the last generation that has come to its end, or else the population that the engine holds. That is the
population which was ranked most recently, as long as the generation that ranked it has come to its end. It is another
one when a generation fails after its ranking and leaves nothing to be run: a later run finds itself finished at once.

* `Memory`, `Engine.History` — what has been ranked in a history of calls;
* `Engine.Faithful` — the last ranked generation of an engine, compared with what is remembered;
* `Engine.run_answers_ranked` — when the answer of a run is the population ranked most recently;
* `Engine.overdue_run_answers_unranked` — a run that answers another one.
-/

namespace RegisterEvolution

variable {γ σ : Type}

/-! ## Histories -/

/-- What is remembered of the rankings since the first population was made. -/
structure Memory where
  /-- The population ranked most recently. -/
  ranked : Option Population
  /-- Whether the generation that ranked it has come to its end. -/
  settled : Bool

/-- Nothing has been ranked. -/
def Memory.blank : Memory := ⟨none, true⟩

namespace Engine

variable [Generator γ]

section Memory

variable (e : Engine σ)

/-- What is remembered after a first population has been asked for. -/
def afterPopulate (s : EngineState γ σ) (m : Memory) : Memory :=
  match Population.generate e.plan.program e.task e.plan.breeding.populationSize s.lab with
  | .ok _ _ => .blank
  | .error _ _ => m

variable (evaluation : Population → Run γ σ Nat)

/-- The population that the next generation ranks, unless it fails before. -/
def ranking (s : EngineState γ σ) : Option Population :=
  match e.current s with
  | .error _ _ => none
  | .ok p s₁ =>
    match e.evaluatePhaseBy evaluation p s₁ with
    | .error _ _ => none
    | .ok _ s₂ => some (p.rank s₂.lab.store)

/-- What is remembered after a generation. -/
def afterStep (s : EngineState γ σ) (m : Memory) : Memory :=
  match e.ranking evaluation s, e.stepBy evaluation s with
  | some r, .ok _ _ => ⟨some r, true⟩
  | some r, .error _ _ => ⟨some r, false⟩
  | none, _ => m

/-- What is remembered after the next generations, at most `limit` of them. -/
def afterGenerations : Nat → EngineState γ σ → Memory → Memory
  | 0, _, m => m
  | limit + 1, s, m =>
    if s.isFinished e.plan.maxGenerations then m
    else
      match e.stepBy evaluation s with
      | .ok _ s' => afterGenerations limit s' (e.afterStep evaluation s m)
      | .error _ _ => e.afterStep evaluation s m

/-- What a run does before its first generation. -/
def opening : Evolving γ σ Unit := do
  e.reportStart
  e.commence

/-- What a run does when its last generation is over. -/
def conclude : Evolving γ σ Population := do
  enter .terminated
  e.answerLast

/-- What a run does from its first generation on. -/
def restBy : Evolving γ σ Population := do
  let _ ← e.generationsUpToBy evaluation (fun _ => return ()) (e.plan.maxGenerations - (← get).generation).toNat
  e.conclude

/-- A run is what it does before its first generation, and what it does from then on. -/
theorem runBy_eq : e.runBy evaluation = e.opening >>= fun _ => e.restBy evaluation := by
  unfold runBy generationsBy opening restBy conclude
  simp only [bind_assoc, pure_bind]

/-- What is remembered after all generations that are left. -/
def afterRest (s : EngineState γ σ) (m : Memory) : Memory :=
  e.afterGenerations evaluation (e.plan.maxGenerations - s.generation).toNat s m

/-- What is remembered after a run. -/
def afterRun (s : EngineState γ σ) (m : Memory) : Memory :=
  match e.opening s with
  | .ok _ s' => e.afterRest evaluation s' m
  | .error _ _ => m

/-- The states of an engine in a history of calls, failed ones included, with what is remembered then. Each call may
    evaluate in a way of its own. -/
inductive History : EngineState γ σ → Memory → Prop where
  | start (source : γ) (world : σ) : History (.start source world) .blank
  | populate {s : EngineState γ σ} {m : Memory} : History s m →
      History (finalState (e.populate s)) (e.afterPopulate s m)
  | step {s : EngineState γ σ} {m : Memory} (evaluation : Population → Run γ σ Nat) : History s m →
      History (finalState (e.stepBy evaluation s)) (e.afterStep evaluation s m)
  | run {s : EngineState γ σ} {m : Memory} (evaluation : Population → Run γ σ Nat) : History s m →
      History (finalState (e.runBy evaluation s)) (e.afterRun evaluation s m)

end Memory

variable {e : Engine σ} {s : EngineState γ σ} {m : Memory} {evaluation : Population → Run γ σ Nat}

/-! ## The ranking of a generation -/

omit [Generator γ] in
/-- A generation is ranked by the fitness that evaluation has left. -/
theorem rankPhase_answers (e : Engine σ) (p : Population) (s : EngineState γ σ) :
    Ends (fun r _ => r = p.rank s.lab.store) (fun _ _ => True) (e.rankPhase p s) := by
  refine ends_bind.mpr (Stages.ends_enter.mpr (ends_bind.mpr (ends_get.mpr (ends_bind.mpr (ends_modify.mpr ?_)))))
  refine ends_bind.mpr (Stages.ends_report.mpr ?_)
  exact (Ends.of_final (P := fun _ => True) trivial).bind (fun _ _ _ => rfl) fun _ _ => id

/-- A generation that comes to its end answers the population that it has ranked. -/
theorem stepBy_answers_ranking (e : Engine σ) (evaluation : Population → Run γ σ Nat) (s : EngineState γ σ) :
    Ends (fun r _ => e.ranking evaluation s = some r) (fun _ _ => True) (e.stepBy evaluation s) := by
  refine ends_bind.mpr ?_
  cases hcurrent : e.current s with
  | error er s₁ => exact trivial
  | ok p s₁ =>
      refine ends_bind.mpr ?_
      cases hevaluated : e.evaluatePhaseBy evaluation p s₁ with
      | error er s₂ => exact trivial
      | ok _ s₂ =>
          have hranking : e.ranking evaluation s = some (p.rank s₂.lab.store) := by
            unfold ranking
            rw [hcurrent]
            simp only
            rw [hevaluated]
          rw [hranking]
          refine (rankPhase_answers e p s₂).bind ?_ fun _ _ => id
          rintro r s₃ rfl
          refine (Ends.of_final (P := fun _ => True) trivial).bind (fun pool s₄ _ => ?_) fun _ _ => id
          refine (Ends.of_final (P := fun _ => True) trivial).bind (fun _ s₅ _ => ?_) fun _ _ => id
          exact (Stages.remember_ends e _ s₅).imp (fun _ _ hr => congrArg some hr.1.symm) fun _ _ => False.elim

/-! ## What calls leave behind -/

/-- The stages of a run of which nothing is asserted but that the engine holds populations, however it evaluates. -/
def bare (e : Engine σ) : Stages γ e Unit where
  view _ := ()
  mayFail := True
  ways _ := True
  vacant _ _ := True
  held _ _ _ _ := True
  spoiled _ _ _ _ := True
  scored _ _ _ _ := True
  ranked _ _ _ _ := True
  left _ _ _ _ := True
  generates _ _ := (Ends.of_final (P := fun _ => True) trivial).imp (fun _ _ => id) fun _ _ h => ⟨h, h⟩
  evaluates _ _ _ _ _ _ _ := (Ends.of_final (P := fun _ => True) trivial).imp (fun _ _ => id) fun _ _ h => ⟨h, h⟩
  ranks _ _ _ _ := id
  selects _ _ _ _ _ := .inl trivial
  breeds _ _ _ _ _ _ := (Ends.of_final (P := fun _ => True) trivial).imp (fun _ _ _ _ _ => trivial) fun _ _ h => ⟨h, h⟩
  notices := e.dispatch_watched
  left_of_held _ _ _ _ h _ := h
  left_of_spoiled _ _ _ _ := id
  left_of_scored _ _ _ _ := id
  left_of_ranked _ _ _ _ := id

/-- What an engine holds, compared with what is remembered. -/
structure Faithful (s : EngineState γ σ) (m : Memory) : Prop where
  ranked : m.settled = true → s.lastRanked = m.ranked
  vacant : s.population = none → s.lastRanked = none ∧ m = .blank

namespace Faithful

omit [Generator γ] in
/-- Only the populations play a part. -/
theorem congr {s' : EngineState γ σ} (h : Faithful s m) (hpopulation : s'.population = s.population)
    (hlast : s'.lastRanked = s.lastRanked) : Faithful s' m :=
  ⟨fun hsettled => hlast.trans (h.ranked hsettled), fun hnone => by
    rw [hlast]
    exact h.vacant (hpopulation.symm.trans hnone)⟩

omit [Generator γ] in
theorem of_some {p : Population} (hp : s.population = some p) (hlast : m.settled = true → s.lastRanked = m.ranked) :
    Faithful s m := ⟨hlast, fun hnone => nomatch hnone.symm.trans hp⟩

/-- A first population has not been ranked; if none is made, everything stays as it is. -/
theorem populate (h : Faithful s m) :
    Ends (fun p s' => s'.population = some p ∧ Faithful s' .blank ∧ e.afterPopulate s m = .blank)
      (fun _ s' => Faithful s' (e.afterPopulate s m)) (e.populate s) := by
  unfold Engine.populate afterPopulate
  refine ends_bind.mpr ?_
  unfold onLab
  cases Population.generate e.plan.program e.task e.plan.breeding.populationSize s.lab with
  | error er lab => exact h.congr rfl rfl
  | ok p lab =>
      refine ends_bind.mpr (ends_bind.mpr ?_)
      have hat : At (bare (γ := γ) e).view (bare (γ := γ) e).held none p
          ⟨lab, some p, none, some .initialized, false⟩ := ⟨rfl, rfl, trivial⟩
      refine ((bare e).notify_ends .initialized p hat).bind (fun _ s' hs' => ?_) fun _ s' he => ?_
      · exact ⟨hs'.population, .of_some hs'.population fun _ => hs'.lastRanked, rfl⟩
      · exact .of_some he.2.population fun _ => he.2.lastRanked

/-- An engine that holds no population remembers nothing, so that making one is nothing to be remembered either. -/
theorem current (h : Faithful s m) :
    Ends (fun p s' => s'.population = some p ∧ Faithful s' m ∧ (s' = s ∨ (m = .blank ∧ s.population = none)))
      (fun _ s' => Faithful s' m) (e.current s) := by
  cases hpopulation : s.population with
  | some p =>
      rw [e.current_of_population hpopulation]
      exact ⟨hpopulation, h, .inl rfl⟩
  | none =>
      obtain ⟨-, rfl⟩ := h.vacant hpopulation
      have hafter : e.afterPopulate s .blank = .blank := by
        unfold afterPopulate
        split <;> rfl
      rw [e.current_of_none hpopulation]
      refine h.populate.imp (fun p s' hs' => ⟨hs'.1, hs'.2.1, .inr ⟨rfl, rfl⟩⟩) fun _ s' hs' => ?_
      rwa [hafter] at hs'

/-- A generation that fails leaves the last ranked generation as it was. -/
theorem step_leaves (evaluation : Population → Run γ σ Nat) (h : Faithful s m) :
    Ends (fun r s' => s'.lastRanked = some r ∧ ∃ q, s'.population = some q)
      (fun _ s' => Faithful s' m ∧ (e.ranking evaluation s = none ∨ ∃ q, s'.population = some q))
      (e.stepBy evaluation s) := by
  have hcurrent := h.current (e := e)
  refine ends_bind.mpr ?_
  cases hout : e.current s with
  | error er s₁ =>
      rw [hout] at hcurrent
      refine ⟨hcurrent, .inl ?_⟩
      unfold ranking
      rw [hout]
  | ok p s₁ =>
      rw [hout] at hcurrent
      obtain ⟨hp, hfaithful, -⟩ := hcurrent
      have hat : At (bare (γ := γ) e).view (bare (γ := γ) e).held s₁.lastRanked p s₁ := ⟨hp, rfl, trivial⟩
      refine ((bare e).stepFrom_ends trivial hat).imp ?_ ?_
      · rintro r s₂ ⟨⟨_, _, _, _, -, -, -, -, hat'⟩, -⟩
        exact ⟨hat'.lastRanked, _, hat'.population⟩
      · rintro _ s₂ ⟨-, q, hq⟩
        exact ⟨.of_some hq.population fun hsettled => hq.lastRanked.trans (hfaithful.ranked hsettled),
          .inr ⟨q, hq.population⟩⟩

/-- **A generation that comes to its end is the last ranked one**, and the one that ranked most recently. -/
theorem step (evaluation : Population → Run γ σ Nat) (h : Faithful s m) :
    Ends (fun r s' => Faithful s' (e.afterStep evaluation s m) ∧ e.afterStep evaluation s m = ⟨some r, true⟩ ∧
        ∃ q, s'.population = some q)
      (fun _ s' => Faithful s' (e.afterStep evaluation s m)) (e.stepBy evaluation s) := by
  have hout := (stepBy_answers_ranking e evaluation s).and (h.step_leaves evaluation)
  unfold afterStep
  cases hstep : e.stepBy evaluation s with
  | ok r s' =>
      rw [hstep] at hout
      obtain ⟨hr, hlast, q, hq⟩ := hout
      rw [hr]
      exact ⟨.of_some hq fun _ => hlast, rfl, q, hq⟩
  | error er s' =>
      rw [hstep] at hout
      obtain ⟨-, hfaithful, hheld⟩ := hout
      cases hr : e.ranking evaluation s with
      | none => exact hfaithful
      | some r =>
          obtain ⟨q, hq⟩ := hheld.resolve_left (by rw [hr]; exact nofun)
          exact .of_some hq nofun

/-- The generations that are left. A memory that they leave as it is means that there are none. -/
theorem generationsUpToBy (evaluation : Population → Run γ σ Nat) (limit : Nat) (h : Faithful s m) {p : Population}
    (hp : s.population = some p) :
    Ends
      (fun _ s' => Faithful s' (e.afterGenerations evaluation limit s m) ∧ (∃ q, s'.population = some q) ∧
        ((∃ r, e.afterGenerations evaluation limit s m = ⟨some r, true⟩) ∨
          (e.afterGenerations evaluation limit s m = m ∧ s' = s ∧
            (limit = 0 ∨ s.isFinished e.plan.maxGenerations = true))))
      (fun _ s' => Faithful s' (e.afterGenerations evaluation limit s m))
      (e.generationsUpToBy evaluation (fun _ => return ()) limit s) := by
  induction limit generalizing s m p with
  | zero => exact ⟨h, ⟨p, hp⟩, .inr ⟨rfl, rfl, .inl rfl⟩⟩
  | succ limit ih =>
      refine ends_bind.mpr (Stages.ends_isFinished.mpr ?_)
      unfold afterGenerations
      cases hfinished : s.isFinished e.plan.maxGenerations with
      | true => exact ⟨h, ⟨p, hp⟩, .inr ⟨rfl, rfl, .inr rfl⟩⟩
      | false =>
          have hstep := h.step (e := e) evaluation
          refine ends_bind.mpr ?_
          cases hout : e.stepBy evaluation s with
          | error er s₁ =>
              rw [hout] at hstep
              exact hstep
          | ok r s₁ =>
              rw [hout] at hstep
              obtain ⟨hfaithful, hafter, q, hq⟩ := hstep
              refine ends_bind.mpr ?_
              show Ends _ _ ((e.generationsUpToBy evaluation _ limit >>= _) s₁)
              refine (ih hfaithful hq).bind ?_ fun _ _ he => he
              rintro _ s₂ ⟨hfaithful', hheld, hend⟩
              exact ⟨hfaithful', hheld, .inl (hend.elim id fun hsame => ⟨r, hsame.1.trans hafter⟩)⟩

/-- What a run does before its first generation is nothing to be remembered. -/
theorem opening (h : Faithful s m) :
    Ends (fun _ s' => Faithful s' m ∧ (∃ p, s'.population = some p) ∧ ((m = .blank ∧ s.population = none) ∨
        (s'.lastRanked.or s'.population = s.lastRanked.or s.population ∧
          s'.isFinished e.plan.maxGenerations = s.isFinished e.plan.maxGenerations)))
      (fun _ s' => Faithful s' m) (e.opening s) := by
  have hstart : Ends (fun _ s' => ∃ journal, s' = { s with lab := { s.lab with journal := journal } }) Never
      (e.reportStart s) := Stages.ends_reportStart fun journal => ⟨journal, rfl⟩
  refine hstart.bind ?_ fun _ _ => False.elim
  rintro _ _ ⟨journal, rfl⟩
  have hreported : Faithful { s with lab := { s.lab with journal := journal } } m := h.congr rfl rfl
  refine hreported.current.bind ?_ fun _ _ he => he
  rintro p s₁ ⟨hp, hfaithful, hsame⟩
  have hsame' : (m = .blank ∧ s.population = none) ∨ (s₁.lastRanked.or s₁.population = s.lastRanked.or s.population ∧
      s₁.isFinished e.plan.maxGenerations = s.isFinished e.plan.maxGenerations) := by
    refine hsame.symm.imp id ?_
    rintro rfl
    exact ⟨rfl, rfl⟩
  unfold reportWorkers
  split
  · exact ⟨hfaithful.congr rfl rfl, ⟨p, hp⟩, hsame'⟩
  · exact ⟨hfaithful, ⟨p, hp⟩, hsame'⟩

/-- The generations that are left and the answer after them. An engine that is not finished goes through one. -/
theorem rest (evaluation : Population → Run γ σ Nat) (h : Faithful s m) {p : Population} (hp : s.population = some p) :
    Ends
      (fun last s' => Faithful s' (e.afterRest evaluation s m) ∧ s'.lastRanked.or s'.population = some last ∧
        ((∃ r, e.afterRest evaluation s m = ⟨some r, true⟩) ∨ (e.afterRest evaluation s m = m ∧
          s.lastRanked.or s.population = some last ∧ s.isFinished e.plan.maxGenerations = true)))
      (fun _ s' => Faithful s' (e.afterRest evaluation s m)) (e.restBy evaluation s) := by
  unfold Engine.restBy afterRest
  refine ends_bind.mpr (ends_get.mpr ?_)
  refine (h.generationsUpToBy evaluation _ hp).bind ?_ fun _ _ he => he
  rintro _ s₁ ⟨hfaithful, ⟨q, hq⟩, hend⟩
  refine ends_bind.mpr (Stages.ends_enter.mpr ?_)
  refine ends_bind.mpr (ends_get.mpr ?_)
  cases hlast : s₁.lastRanked.or s₁.population with
  | none =>
      rw [hq] at hlast
      exact nomatch (Option.or_eq_none_iff.mp hlast).2
  | some last =>
      refine ⟨hfaithful.congr rfl rfl, hlast, hend.imp id ?_⟩
      rintro ⟨hafter, rfl, hfinished⟩
      refine ⟨hafter, hlast, hfinished.elim (fun hzero => ?_) id⟩
      have hle : e.plan.maxGenerations ≤ s₁.generation := by omega
      unfold EngineState.isFinished
      rw [decide_eq_true hle, Bool.or_true]

/-- **A run answers the last ranked generation**, which is remembered as long as there has been something to be run. -/
theorem run (evaluation : Population → Run γ σ Nat) (h : Faithful s m) :
    Ends
      (fun last s' => Faithful s' (e.afterRun evaluation s m) ∧ s'.lastRanked.or s'.population = some last ∧
        (s.isFinished e.plan.maxGenerations = false →
          (∃ r, e.afterRun evaluation s m = ⟨some r, true⟩) ∨
            (e.afterRun evaluation s m = .blank ∧ s.population = none)) ∧
        ((e.afterRun evaluation s m).settled = false → s.lastRanked.or s.population = some last))
      (fun _ s' => Faithful s' (e.afterRun evaluation s m)) (e.runBy evaluation s) := by
  have hopening := h.opening (e := e)
  rw [runBy_eq]
  refine ends_bind.mpr ?_
  unfold afterRun
  cases hout : e.opening s with
  | error er s₁ =>
      rw [hout] at hopening
      exact hopening
  | ok _ s₁ =>
      rw [hout] at hopening
      obtain ⟨hfaithful, ⟨p, hp⟩, hsame⟩ := hopening
      refine (hfaithful.rest evaluation hp).imp ?_ fun _ _ he => he
      rintro last s₂ ⟨hfaithful', hlast, hend⟩
      refine ⟨hfaithful', hlast, fun hunfinished => hend.imp id fun hnone => ?_, fun hunsettled => ?_⟩
      · -- no generation has been run, so that the engine has been finished by its first population
        obtain ⟨hafter, -, hfinished⟩ := hnone
        change e.afterRest evaluation s₁ m = .blank ∧ s.population = none
        rw [hafter]
        refine hsame.resolve_right fun hsame' => ?_
        exact nomatch hunfinished.symm.trans (hsame'.2.symm.trans hfinished)
      · -- a memory that is not settled is not blank, and not one of a generation of this run
        change (e.afterRest evaluation s₁ m).settled = false at hunsettled
        obtain ⟨r, hr⟩ | ⟨hafter, hanswer, -⟩ := hend
        · rw [hr] at hunsettled
          exact nomatch hunsettled
        · rw [hafter] at hunsettled
          obtain ⟨rfl, -⟩ | ⟨hheld, -⟩ := hsame
          · exact nomatch hunsettled
          · exact hheld.symm.trans hanswer

end Faithful

/-- **Every state of every history** is faithful to what is remembered then. -/
theorem History.faithful (h : e.History s m) : Faithful s m := by
  induction h with
  | start source world => exact ⟨fun _ => rfl, fun _ => ⟨rfl, rfl⟩⟩
  | populate _ ih => exact Ends.final (ih.populate.imp (fun _ _ hs' => by rw [hs'.2.2]; exact hs'.2.1) fun _ _ he => he)
  | step evaluation _ ih => exact Ends.final ((ih.step evaluation).imp (fun _ _ hs' => hs'.1) fun _ _ he => he)
  | run evaluation _ ih => exact Ends.final ((ih.run evaluation).imp (fun _ _ hs' => hs'.1) fun _ _ he => he)

/-! ## First populations -/

omit [Generator γ] in
/-- Observers that let an event pass leave everything as it is. -/
theorem notify_of_dispatch {event : Event} {p : Population}
    (hquiet : dispatch e.observers event p s.lab = .ok false s.lab) : e.notify event p s = .ok () s := by
  show EStateM.bind (onLab (dispatch e.observers event p)) _ s = _
  unfold EStateM.bind onLab
  rw [hquiet]
  rfl

/-- The first population is held, when observers let that pass. -/
theorem populate_of_generate {p : Population} {lab : Lab γ σ}
    (hgenerate : Population.generate e.plan.program e.task e.plan.breeding.populationSize s.lab = .ok p lab)
    (hquiet : dispatch e.observers .initialized p lab = .ok false lab) :
    e.populate s = .ok p ⟨lab, some p, none, some .initialized, false⟩ := by
  show EStateM.bind (onLab (Population.generate e.plan.program e.task e.plan.breeding.populationSize)) _ s = _
  unfold EStateM.bind onLab
  rw [hgenerate]
  show EStateM.bind (e.notify .initialized p) (fun _ => pure p) ⟨lab, some p, none, some .initialized, false⟩ = _
  unfold EStateM.bind
  rw [notify_of_dispatch hquiet]
  rfl

/-- An engine that can make its first population holds it, with nothing to be remembered. -/
theorem first_population [Generator.Honest γ] {shape : Shape} {sizes : BankSizes} (h : e.unwatched.Viable shape sizes)
    (hquiet : ∀ p (lab : Lab γ σ), dispatch e.observers .initialized p lab = .ok false lab) (source : γ) (world : σ) :
    ∃ p lab, Population.generate e.plan.program e.task e.plan.breeding.populationSize
        (EngineState.start source world).lab = .ok p lab ∧ Viable.Sane h none lab.store p ∧ p.generation = 0 ∧
      e.populate (EngineState.start source world) = .ok p ⟨lab, some p, none, some .initialized, false⟩ ∧
      e.History ⟨lab, some p, none, some .initialized, false⟩ .blank := by
  have hgeneration := generate_generation e.plan.program e.task e.plan.breeding.populationSize
    (EngineState.start source world).lab
  obtain ⟨p, lab, hgenerate, hsane, hzero⟩ := (((Viable.generates h (EngineState.start source world).lab).and
    hgeneration).imp (fun _ _ => id) fun _ _ he => he.1).exists_ok
  have hpopulate := populate_of_generate (e := e) hgenerate (hquiet p lab)
  have hafter : e.afterPopulate (EngineState.start source world) .blank = .blank := by
    unfold afterPopulate
    split <;> rfl
  have hhistory := History.populate (.start (e := e) source world)
  rw [hpopulate, hafter] at hhistory
  exact ⟨p, lab, hgenerate, hsane, hzero, hpopulate, hhistory⟩

/-! ## Answers -/

/--
**The answer of a run.** In every history of calls, whoever fails in it, a run that succeeds answers the population
ranked most recently, if the generation that ranked it has come to its end. A run of an engine that is not finished
always does so, unless it stops before its first generation. If that generation has failed, the run answers the last
generation before it, or what the engine holds when there is none.
-/
theorem run_answers_ranked (h : e.History s m) {last : Population} {s' : EngineState γ σ}
    (hrun : e.runBy evaluation s = .ok last s') :
    ((e.afterRun evaluation s m).settled = true → ∀ r, (e.afterRun evaluation s m).ranked = some r → last = r) ∧
      (s.isFinished e.plan.maxGenerations = false →
        e.afterRun evaluation s m = ⟨some last, true⟩ ∨ (e.afterRun evaluation s m = .blank ∧ s.population = none)) ∧
      ((e.afterRun evaluation s m).settled = false → s.lastRanked.or s.population = some last) := by
  have hout := h.faithful.run (e := e) evaluation
  rw [hrun] at hout
  obtain ⟨hfaithful, hlast, hranked, hunsettled⟩ := hout
  have hanswer : (e.afterRun evaluation s m).settled = true →
      ∀ r, (e.afterRun evaluation s m).ranked = some r → last = r := by
    intro hsettled r hr
    rw [hfaithful.ranked hsettled, hr] at hlast
    exact (Option.some.inj hlast).symm
  refine ⟨hanswer, fun hunfinished => (hranked hunfinished).imp ?_ id, hunsettled⟩
  rintro ⟨r, hr⟩
  rw [hr] at hanswer
  rw [hr, hanswer rfl r rfl]

/-- A run from the first population on. -/
theorem run_answers_ranked_brief :
    ∃ (s s' : EngineState Least Unit) (last : Population), brief.History s .blank ∧ brief.run s = .ok last s' ∧
      brief.afterRun (evaluate brief.task brief.plan.reevaluate) s .blank = ⟨some last, true⟩ := by
  obtain ⟨shape, sizes, h⟩ := brief_viable
  have hunwatched : brief.unwatched.Viable shape sizes :=
    ⟨h.bound, h.usable, h.feasible, h.gap, h.size, h.answers, List.forall_mem_nil _⟩
  obtain ⟨p, lab, hgenerate, -, hzero, hpopulate, hhistory⟩ :=
    first_population hunwatched (fun _ _ => rfl) Least.least ()
  have hsustained := h.sustained (.populate hgenerate)
  rw [hpopulate] at hsustained
  obtain ⟨last, s', hrun, -⟩ := (hsustained.run _ .alone brief_writable).exists_ok
  have hunfinished : EngineState.isFinished (⟨lab, some p, none, some .initialized, false⟩ : EngineState Least Unit)
      brief.plan.maxGenerations = false := by
    show decide ((100 : Int) ≤ p.generation) = false
    rw [hzero]
    rfl
  obtain hranked | ⟨-, hnone⟩ := (run_answers_ranked hhistory hrun).2.1 hunfinished
  · exact ⟨_, s', last, hhistory, hrun, hranked⟩
  · exact nomatch hnone

/-! ## A run that answers an unranked population -/

/-- An engine that holds a population keeps it until its first generation. -/
theorem opening_of_population {p : Population} (hp : s.population = some p) :
    Ends (fun _ s' => s'.population = some p ∧ s'.lastRanked = s.lastRanked) Never (e.opening s) := by
  have hstart : Ends (fun _ s' => s'.population = some p ∧ s'.lastRanked = s.lastRanked) Never (e.reportStart s) :=
    Stages.ends_reportStart fun _ => ⟨hp, rfl⟩
  refine hstart.bind ?_ fun _ _ => False.elim
  rintro _ t ⟨ht, hlast⟩
  refine ends_bind.mpr ?_
  rw [e.current_of_population ht]
  unfold reportWorkers
  split
  · exact ⟨ht, hlast⟩
  · exact ⟨ht, hlast⟩

/-- With no generation left, the answer is what is held as ranked last, or the population when there is none. -/
theorem rest_past_end {p : Population} (hp : s.population = some p) (hpast : e.plan.maxGenerations ≤ p.generation) :
    e.afterRest evaluation s m = m ∧
      Ends (fun last _ => s.lastRanked.or (some p) = some last) Never (e.restBy evaluation s) := by
  have hnone : (e.plan.maxGenerations - s.generation).toNat = 0 := by
    unfold EngineState.generation
    rw [hp]
    show (e.plan.maxGenerations - p.generation).toNat = 0
    omega
  constructor
  · unfold afterRest
    rw [hnone]
    rfl
  · refine ends_bind.mpr (ends_get.mpr ?_)
    rw [hnone]
    refine ends_bind.mpr (ends_pure.mpr (ends_bind.mpr (Stages.ends_enter.mpr (ends_bind.mpr (ends_get.mpr ?_)))))
    simp only
    rw [hp]
    cases hlast : s.lastRanked.or (some p) with
    | none => exact nomatch (Option.or_eq_none_iff.mp hlast).2
    | some last => exact rfl

/-- An engine with no generation left answers what it holds, and remembers what it did before. -/
theorem run_past_end {p : Population} (hp : s.population = some p) (hpast : e.plan.maxGenerations ≤ p.generation) :
    e.afterRun evaluation s m = m ∧
      Ends (fun last _ => s.lastRanked.or (some p) = some last) Never (e.runBy evaluation s) := by
  obtain ⟨_, s₁, hout, hp₁, hlast₁⟩ := (opening_of_population (e := e) hp).exists_ok
  obtain ⟨hafter, hanswer⟩ := rest_past_end (m := m) hp₁ hpast
  rw [hlast₁] at hanswer
  constructor
  · unfold afterRun
    rw [hout]
    exact hafter
  · rw [runBy_eq]
    refine ends_bind.mpr ?_
    rw [hout]
    exact hanswer

/-- An observer that fails at the end of a generation, and lets everything else pass. -/
def tardy : Observer σ := ⟨"tardy", fun event _ _ => return if event = .generationEnd then .failure else .proceed⟩

omit [Generator γ] in
/-- Until the end of a generation such an observer is as good as none. -/
theorem notify_tardy (hobservers : e.observers = [tardy]) {event : Event} (hevent : event ≠ .generationEnd)
    (p : Population) : (e.notify event p : Evolving γ σ Unit) = e.unwatched.notify event p := by
  funext s
  have hquiet : dispatch e.observers event p s.lab = .ok false s.lab := by
    rw [hobservers]
    cases event with
    | generationEnd => exact absurd rfl hevent
    | initialized => rfl
    | evaluated => rfl
    | ranked => rfl
    | selected => rfl
  rw [notify_of_dispatch hquiet, notify_of_dispatch (e := e.unwatched) rfl]

omit [Generator γ] in
/-- So evaluation, ranking and selection are those of the engine without it. -/
theorem phases_tardy (hobservers : e.observers = [tardy]) (evaluation : Population → Run γ σ Nat) (p : Population) :
    e.evaluatePhaseBy evaluation p = e.unwatched.evaluatePhaseBy evaluation p ∧
      (e.rankPhase p : Evolving γ σ Population) = e.unwatched.rankPhase p ∧
      (e.selectPhase p : Evolving γ σ Population) = e.unwatched.selectPhase p := by
  have hevaluated := fun q => notify_tardy (γ := γ) hobservers (by decide : Event.evaluated ≠ .generationEnd) q
  have hranked := fun q => notify_tardy (γ := γ) hobservers (by decide : Event.ranked ≠ .generationEnd) q
  have hselected := fun q => notify_tardy (γ := γ) hobservers (by decide : Event.selected ≠ .generationEnd) q
  refine ⟨?_, ?_, ?_⟩
  · unfold evaluatePhaseBy
    simp only [hevaluated]
    rfl
  · unfold rankPhase
    simp only [hranked]
    rfl
  · unfold selectPhase
    simp only [hselected]
    rfl

variable [Generator.Honest γ] {shape : Shape} {sizes : BankSizes} {p r pool : Population} {last : Option Population}

/-- The next population is held when the observer fails. -/
theorem replacePhase_tardy (h : e.unwatched.Viable shape sizes) (hobservers : e.observers = [tardy])
    (hr : Viable.Sane h last s.lab.store r) (hlast : s.lastRanked = last) (hpool : r.select e.plan.gap = .ok pool) :
    Ends Never (fun _ s' => (∃ next, s'.population = some next ∧ next.generation = r.generation + 1) ∧
        s'.lastRanked = last)
      (e.replacePhase r pool s) := by
  obtain ⟨offspring, lab, hbred, -⟩ := (Viable.breeds h last r pool s.lab hr hpool).exists_ok
  obtain ⟨er, lab', hfails⟩ : ∃ er lab', dispatch e.observers .generationEnd
      { offspring with generation := r.generation + 1 } lab = .error er lab' := by
    rw [hobservers]
    exact ⟨_, _, rfl⟩
  refine ends_bind.mpr (Stages.ends_enter.mpr (ends_bind.mpr ?_))
  unfold onLab
  simp only
  rw [show reproduce e.plan.breeding pool s.lab = .ok offspring lab from hbred]
  refine ends_bind.mpr (ends_modify.mpr (ends_bind.mpr ?_))
  unfold onLab
  simp only
  rw [hfails]
  exact ⟨⟨_, rfl, rfl⟩, hlast⟩

/-- **A generation with such an observer fails after its ranking**, when the engine already holds the next one. -/
theorem step_tardy (h : e.unwatched.Viable shape sizes) (hobservers : e.observers = [tardy])
    (hevaluation : e.unwatched.Evaluates evaluation) (hp : s.population = some p)
    (hsane : Viable.Sane h s.lastRanked s.lab.store p) (hlabel : e.canLabel p.generation = true) :
    Ends Never (fun _ s' => (∃ r, e.ranking evaluation s = some r ∧ r.generation = p.generation) ∧
        (∃ next, s'.population = some next ∧ next.generation = p.generation + 1) ∧ s'.lastRanked = s.lastRanked)
      (e.stepBy evaluation s) := by
  have hat : At (Viable.stages (γ := γ) h).view (Viable.stages (γ := γ) h).held s.lastRanked p s := ⟨hp, rfl, hsane⟩
  obtain ⟨_, s₁, hevaluated, h₁⟩ :=
    ((h.stages.evaluatePhaseBy_ends hevaluation hat).imp (fun _ _ => id) fun _ _ he =>
      he.elim And.left fun hnone => Bool.noConfusion (hlabel.symm.trans hnone.1)).exists_ok
  rw [← (phases_tardy hobservers evaluation p).1] at hevaluated
  have hranking : e.ranking evaluation s = some (p.rank s₁.lab.store) := by
    unfold ranking
    rw [e.current_of_population hp]
    simp only
    rw [hevaluated]
  rw [stepBy_of_population _ _ hp, hranking]
  refine ends_bind.mpr ?_
  rw [hevaluated]
  refine ends_bind.mpr ?_
  rw [(phases_tardy hobservers evaluation p).2.1]
  refine Ends.imp ((h.stages.rankPhase_ends h₁).and (rankPhase_answers e.unwatched p s₁)) ?_ fun _ _ he => he.1.1.elim
  rintro r s₂ ⟨⟨h₂, -⟩, rfl⟩
  refine ends_bind.mpr ?_
  rw [(phases_tardy hobservers evaluation _).2.2]
  refine Ends.imp (h.stages.selectPhase_ends h₂) ?_ fun _ _ he => he.1.elim
  rintro pool s₃ ⟨hpool, h₃⟩
  refine (replacePhase_tardy h hobservers h₃.asserted h₃.lastRanked hpool).bind (fun _ _ => False.elim) ?_
  rintro _ s₄ ⟨hnext, hlast⟩
  exact ⟨⟨_, rfl, rfl⟩, hnext, hlast⟩

/--
**The first population is ranked, and a run answers the second one**: the only generation fails at its end, and the run
after it finds itself finished.
-/
theorem run_tardy (h : e.unwatched.Viable shape sizes) (hobservers : e.observers = [tardy])
    (hlimit : e.plan.maxGenerations = 1) (source : γ) (world : σ) :
    ∃ (s s' : EngineState γ σ) (m : Memory) (r last : Population), e.History s m ∧ e.run s = .ok last s' ∧
      e.afterRun (evaluate e.task e.plan.reevaluate) s m = ⟨some r, false⟩ ∧ r.generation = 0 ∧
      last.generation = 1 := by
  have hquiet : ∀ q (now : Lab γ σ), dispatch e.observers .initialized q now = .ok false now := by
    rw [hobservers]
    exact fun _ _ => rfl
  obtain ⟨p, lab, -, hsane, hzero, -, hhistory⟩ := first_population h hquiet source world
  -- the generation fails, and the next population is held
  have hlabel : e.canLabel p.generation = true := by
    simp [canLabel, Value.areWritable, Value.isWritable_small, hzero, hlimit]
  have halone : e.unwatched.Evaluates (γ := γ) (evaluate e.task e.plan.reevaluate) := .alone
  have hstep := step_tardy (s := ⟨lab, some p, none, some .initialized, false⟩) h hobservers halone rfl hsane hlabel
  have hfails := hhistory.step (evaluate e.task e.plan.reevaluate)
  unfold afterStep at hfails
  cases hout : e.stepBy (evaluate e.task e.plan.reevaluate) ⟨lab, some p, none, some .initialized, false⟩ with
  | ok r s' =>
      rw [hout] at hstep
      exact hstep.elim
  | error er s =>
      rw [hout] at hstep hfails
      obtain ⟨⟨r, hr, hrzero⟩, ⟨next, hnext, hnumber⟩, hlast⟩ := hstep
      rw [hr] at hfails
      obtain ⟨hremembered, hrun⟩ := run_past_end (m := ⟨some r, false⟩) hnext (by omega : e.plan.maxGenerations ≤ _)
      obtain ⟨last, s', hrun, hanswer⟩ := hrun.exists_ok
      rw [hlast] at hanswer
      obtain rfl := Option.some.inj hanswer
      exact ⟨s, s', _, r, next, hfails, hrun, hremembered, by omega, by omega⟩

/-- An engine with the default settings but for a single generation, and with such an observer. -/
def overdue : Engine Unit := { brief with plan := { brief.plan with maxGenerations := 1 }, observers := [tardy] }

theorem overdue_run_answers_unranked :
    ∃ (s s' : EngineState Least Unit) (m : Memory) (r last : Population), overdue.History s m ∧
      overdue.run s = .ok last s' ∧
      overdue.afterRun (evaluate overdue.task overdue.plan.reevaluate) s m = ⟨some r, false⟩ ∧ r.generation = 0 ∧
      last.generation = 1 := by
  obtain ⟨shape, sizes, h⟩ := brief_viable
  have hoverdue : overdue.unwatched.Viable shape sizes :=
    ⟨h.bound, h.usable, h.feasible, h.gap, h.size, h.answers, List.forall_mem_nil _⟩
  exact run_tardy hoverdue rfl rfl Least.least ()

end Engine

end RegisterEvolution
