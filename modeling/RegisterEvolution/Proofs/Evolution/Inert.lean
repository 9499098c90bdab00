import RegisterEvolution.Proofs.Evolution.Iteration
import RegisterEvolution.Proofs.Evolution.Turnover

/-!
# `Proofs.Evolution.Inert` — engines that have come to their end

Every generation that comes to its end adds one to the number that the engine holds, so that a run which succeeds leaves
an engine that is finished, whether by the limit or because somebody has asked to stop. From then on there is nothing to
be done: a further run or iteration writes its reports and answers what is known already.

* `generationsUpToBy_advances` — how far the engine has come when some generations are over;
* `EngineState.Settled`, `runBy_settles` — what a run leaves behind when it succeeds;
* `Engine.Drive`, `Engine.driveBy` — the ways to take an engine to its end;
* `drives_settled` — any number of them on an engine that has come to its end.
-/

namespace RegisterEvolution

variable {γ σ α : Type}

/-- An engine on which a run has succeeded that answered `last`: nothing is left to be run, and `last` is what it
    answers. -/
structure EngineState.Settled (maxGenerations : Int) (last : Population) (s : EngineState γ σ) : Prop where
  held : ∃ p, s.population = some p
  finished : s.isFinished maxGenerations = true
  phase : s.phase = some .terminated
  last : s.lastRanked.or s.population = some last

theorem EngineState.Settled.withJournal {maxGenerations : Int} {last : Population} {s : EngineState γ σ}
    (h : s.Settled maxGenerations last) (journal : Array Record) :
    (s.withJournal journal).Settled maxGenerations last := ⟨h.held, h.finished, h.phase, h.last⟩

namespace Engine

variable [Generator γ]

/-! ## The number of a generation -/

section Advance

variable (e : Engine σ) (evaluation : Population → Run γ σ Nat) (visit : Population → Evolving γ σ α)
  {s : EngineState γ σ} {p : Population}

/-- The next generation has the next number. -/
theorem replacePhase_advances (r pool : Population) (s : EngineState γ σ) :
    Ends (fun _ s' => ∃ next, s'.population = some next ∧ next.generation = r.generation + 1) (fun _ _ => True)
      (e.replacePhase r pool s) := by
  refine ends_bind.mpr (Stages.ends_enter.mpr (ends_bind.mpr ?_))
  show Ends _ _ (onLab (reproduce e.plan.breeding pool) _)
  unfold onLab
  simp only
  cases reproduce e.plan.breeding pool s.lab with
  | error er lab => exact trivial
  | ok offspring lab =>
      refine ends_bind.mpr (ends_modify.mpr ((notify_keeps e .generationEnd _ _).imp ?_ fun _ _ _ => trivial))
      exact fun _ s' hs' => ⟨_, hs'.1, rfl⟩

/-- **A generation that comes to its end** adds one to the number. -/
theorem stepBy_advances (hp : s.population = some p) :
    Ends (fun _ s' => ∃ next, s'.population = some next ∧ next.generation = p.generation + 1) (fun _ _ => True)
      (e.stepBy evaluation s) := by
  have hany : ∀ {β : Type} {r : EStateM.Result Error (EngineState γ σ) β}, Ends (fun _ _ => True) (fun _ _ => True) r :=
    Ends.of_final (P := fun _ => True) trivial
  refine ends_bind.mpr ?_
  rw [e.current_of_population hp]
  refine hany.bind (fun _ s₁ _ => ?_) fun _ _ => id
  refine (rankPhase_answers e p s₁).bind ?_ fun _ _ => id
  rintro r s₂ rfl
  refine hany.bind (fun pool s₃ _ => ?_) fun _ _ => id
  refine (replacePhase_advances e _ pool s₃).bind ?_ fun _ _ => id
  rintro _ s₄ ⟨next, hnext, hgeneration⟩
  refine (Stages.remember_ends e _ s₄).imp ?_ fun _ _ => False.elim
  rintro _ s₅ ⟨-, hs₅⟩
  rw [hs₅]
  exact ⟨next, hnext, hgeneration⟩

/-- **Some generations** add as many as there are; if there are fewer than allowed, none is left. The visits look at
    the engine and leave it as it is. -/
theorem generationsUpToBy_advances (hvisit : ∀ r s, ∃ a, visit r s = .ok a s) (limit : Nat)
    (hp : s.population = some p) :
    Ends (fun visits s' => ∃ q, s'.population = some q ∧ q.generation = p.generation + visits.length ∧
        (visits.length = limit ∨ s'.isFinished e.plan.maxGenerations = true)) (fun _ _ => True)
      (e.generationsUpToBy evaluation visit limit s) := by
  induction limit generalizing s p with
  | zero => exact ⟨p, hp, (Int.add_zero _).symm, .inl rfl⟩
  | succ limit ih =>
      by_cases hfinished : s.isFinished e.plan.maxGenerations = true
      · rw [generationsUpToBy_finished e evaluation visit hfinished]
        exact ⟨p, hp, (Int.add_zero _).symm, .inr hfinished⟩
      · rw [generationsUpToBy_unfinished e evaluation visit hfinished]
        refine (stepBy_advances e evaluation hp).bind ?_ fun _ _ => id
        rintro r s₁ ⟨next, hnext, hgeneration⟩
        obtain ⟨first, hfirst⟩ := hvisit r s₁
        rw [bind_of_ok hfirst]
        refine (ih hnext).bind ?_ fun _ _ => id
        rintro rest s₂ ⟨q, hq, hnumber, hend⟩
        refine ⟨q, hq, ?_, hend.imp (congrArg (· + 1)) id⟩
        rw [hnumber, hgeneration, List.length_cons]
        omega

omit [Generator γ] in
theorem generation_of_population (hp : s.population = some p) : s.generation = p.generation := by
  unfold EngineState.generation
  rw [hp]
  rfl

/-- When all generations that are left are over, the engine is finished. -/
theorem generationsUpToBy_finishes (hvisit : ∀ r s, ∃ a, visit r s = .ok a s) (hp : s.population = some p) :
    Ends (fun _ s' => (∃ q, s'.population = some q) ∧ s'.isFinished e.plan.maxGenerations = true) (fun _ _ => True)
      (e.generationsUpToBy evaluation visit (e.plan.maxGenerations - s.generation).toNat s) := by
  refine (generationsUpToBy_advances e evaluation visit hvisit _ hp).imp ?_ fun _ _ => id
  rintro visits s' ⟨q, hq, hgeneration, hall | hfinished⟩
  · refine ⟨⟨q, hq⟩, ?_⟩
    rw [generation_of_population hp] at hall
    have hlimit : e.plan.maxGenerations ≤ s'.generation := by
      rw [generation_of_population hq]
      omega
    unfold EngineState.isFinished
    rw [decide_eq_true hlimit, Bool.or_true]
  · exact ⟨⟨q, hq⟩, hfinished⟩

end Advance

/-! ## What a run leaves behind -/

section Settle

variable (e : Engine σ)

/-- An engine holds a population when its first generation begins. -/
theorem commence_holds (s : EngineState γ σ) :
    Ends (fun _ s' => ∃ p, s'.population = some p) (fun _ _ => True) (e.commence s) := by
  have hcurrent : Ends (fun _ s' => ∃ p, s'.population = some p) (fun _ _ => True) (e.current s) := by
    cases hp : s.population with
    | some p =>
        rw [e.current_of_population hp]
        exact ⟨p, hp⟩
    | none =>
        rw [e.current_of_none hp]
        exact ((bare e).populate_ends trivial).imp (fun p _ hat => ⟨p, hat.1.population⟩) fun _ _ _ => trivial
  refine hcurrent.bind ?_ fun _ _ => id
  rintro _ s₁ ⟨p, hp⟩
  exact (reportWorkers_quiet e s₁).imp (fun _ _ hquiet => ⟨p, hquiet.1.population.trans hp⟩) fun _ _ => False.elim

theorem opening_holds (s : EngineState γ σ) :
    Ends (fun _ s' => ∃ p, s'.population = some p) (fun _ _ => True) (e.opening s) := by
  obtain ⟨journal, hstart⟩ := e.exists_reported s
  unfold opening
  rw [bind_of_ok hstart]
  exact commence_holds e _

omit [Generator γ] in
theorem conclude_settles {s : EngineState γ σ} (hheld : ∃ p, s.population = some p)
    (hfinished : s.isFinished e.plan.maxGenerations = true) :
    Ends (fun last s' => s'.Settled e.plan.maxGenerations last) (fun _ _ => True) (e.conclude s) := by
  refine ends_bind.mpr (Stages.ends_enter.mpr (ends_bind.mpr (ends_get.mpr ?_)))
  cases hlast : s.lastRanked.or s.population with
  | none => exact trivial
  | some last => exact ⟨hheld, hfinished, rfl, hlast⟩

/-- **A run that succeeds** leaves an engine that has come to its end, whatever the reason. -/
theorem runBy_settles (evaluation : Population → Run γ σ Nat) (s : EngineState γ σ) :
    Ends (fun last s' => s'.Settled e.plan.maxGenerations last) (fun _ _ => True) (e.runBy evaluation s) := by
  rw [runBy_eq]
  refine (opening_holds e s).bind ?_ fun _ _ => id
  rintro _ s₁ ⟨p, hp⟩
  refine ends_bind.mpr (ends_get.mpr ?_)
  refine (generationsUpToBy_finishes e evaluation _ (fun _ s => ⟨(), rfl⟩) hp).bind ?_ fun _ _ => id
  exact fun _ s₂ hs₂ => conclude_settles e hs₂.1 hs₂.2

end Settle

/-! ## Engines that have come to their end -/

/-- The ways to take an engine to its end: a run, or an iteration that is not abandoned. -/
inductive Drive where
  | run
  | iterate

/-- What such a call answers. -/
inductive Driven (α : Type) where
  | returned (last : Population)
  | visited (visits : List α)

/-- What is left to be answered when the engine has come to its end. -/
def Drive.idle (last : Population) : Drive → Driven α
  | run => .returned last
  | iterate => .visited []

/-- Takes an engine to its end. -/
def driveBy (e : Engine σ) (evaluation : Population → Run γ σ Nat) (visit : Population → Evolving γ σ α) :
    Drive → Evolving γ σ (Driven α)
  | .run => do return .returned (← e.runBy evaluation)
  | .iterate => do return .visited (← e.generationsBy evaluation visit)

section Idle

variable {e : Engine σ} {evaluation : Population → Run γ σ Nat} {visit : Population → Evolving γ σ α}
  {s : EngineState γ σ} {last p : Population}

/-- An engine that holds a population goes on with it, and reports on its pool at most. -/
theorem commence_of_population (hp : s.population = some p) :
    ∃ journal, e.commence s = .ok () (s.withJournal journal) := by
  unfold commence
  rw [bind_of_ok (e.current_of_population hp)]
  unfold reportWorkers
  split
  · exact ⟨_, rfl⟩
  · exact ⟨s.lab.journal, rfl⟩

theorem opening_of_held (hp : s.population = some p) : ∃ journal, e.opening s = .ok () (s.withJournal journal) := by
  obtain ⟨journal, hstart⟩ := e.exists_reported s
  obtain ⟨journal', hcommence⟩ := commence_of_population (e := e) (s := s.withJournal journal) hp
  refine ⟨journal', ?_⟩
  unfold opening
  rw [bind_of_ok hstart]
  exact hcommence

omit [Generator γ] in
theorem conclude_settled (h : s.Settled e.plan.maxGenerations last) :
    ∃ journal, e.conclude s = .ok last (s.withJournal journal) := by
  have hconclude : Ends (fun r s' => r = last ∧ ∃ journal, s' = s.withJournal journal) Never (e.conclude s) := by
    refine ends_bind.mpr (Stages.ends_enter.mpr (ends_bind.mpr (ends_get.mpr ?_)))
    -- the phase is entered that the engine is in
    rw [← h.phase]
    simp only
    rw [h.last]
    exact ⟨rfl, _, rfl⟩
  obtain ⟨_, _, hout, rfl, journal, rfl⟩ := hconclude.exists_ok
  exact ⟨journal, hout⟩

/-- **A further call has nothing to do**, whatever the task, the observers and the evaluation are by then. -/
theorem driveBy_settled (h : s.Settled e.plan.maxGenerations last) (d : Drive) :
    ∃ journal, e.driveBy evaluation visit d s = .ok (d.idle last) (s.withJournal journal) := by
  obtain ⟨p, hp⟩ := h.held
  cases d with
  | run =>
      obtain ⟨journal, hopening⟩ := opening_of_held (e := e) hp
      have hsettled := h.withJournal journal
      obtain ⟨journal', hconclude⟩ := conclude_settled hsettled
      have hrun : e.runBy evaluation s = .ok last (s.withJournal journal') := by
        rw [runBy_eq, bind_of_ok hopening]
        show (e.generationsUpToBy evaluation (fun _ => return ()) _ >>= fun _ => e.conclude) _ = _
        rw [bind_of_ok (generationsUpToBy_finished e evaluation _ hsettled.finished _)]
        exact hconclude
      exact ⟨journal', bind_of_ok hrun⟩
  | iterate =>
      obtain ⟨journal, hcommence⟩ := commence_of_population (e := e) hp
      have hsettled := h.withJournal journal
      have hiterate : e.generationsBy evaluation visit s = .ok [] (s.withJournal journal) := by
        unfold generationsBy
        rw [bind_of_ok hcommence]
        show (e.generationsUpToBy evaluation visit _ >>= fun visits => enter .terminated >>= fun _ => pure visits) _ = _
        rw [bind_of_ok (generationsUpToBy_finished e evaluation visit hsettled.finished _)]
        show EStateM.Result.ok [] { s.withJournal journal with phase := some .terminated } = _
        rw [← hsettled.phase]
      exact ⟨journal, bind_of_ok hiterate⟩

/-- **Any number of further calls**, by induction on them. -/
theorem drives_settled (h : s.Settled e.plan.maxGenerations last) (drives : List Drive) :
    ∃ journal, drives.mapM (e.driveBy evaluation visit) s =
      .ok (drives.map (Drive.idle last)) (s.withJournal journal) := by
  induction drives generalizing s with
  | nil => exact ⟨s.lab.journal, rfl⟩
  | cons d rest ih =>
      obtain ⟨journal, hfirst⟩ : ∃ journal,
          e.driveBy evaluation visit d s = .ok (d.idle last) (s.withJournal journal) := driveBy_settled h d
      obtain ⟨journal', hrest⟩ := ih (h.withJournal journal)
      refine ⟨journal', ?_⟩
      rw [List.mapM_cons, bind_of_ok hfirst, bind_of_ok hrest]
      rfl

end Idle

end Engine

end RegisterEvolution
