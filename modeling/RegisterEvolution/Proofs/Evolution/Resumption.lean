import RegisterEvolution.Proofs.Evolution.Independence
import RegisterEvolution.Proofs.Evolution.Inert
import RegisterEvolution.Proofs.Evolution.Notices

/-!
# `Proofs.Evolution.Resumption` — runs that are interrupted and taken up again

An engine holds all that its next generation depends on, so that it does not matter whether its generations are asked
for one after the other or run through. The only trace of an interruption is in the journal, in which a run reports when
it starts. Comparing an engine with itself, numbers correspond if they are equal, and so does everything else.

* `EngineState.Resembles` — engines in the same state but for the journal;
* `Observer.Heedless`, `Observer.common_heedless` — observers that do not read the journal;
* `Engine.EvaluatesAlike.of_delivery` — pools of a task to which no world matters;
* `Engine.takeBy` — the first generations of an iteration that is abandoned then;
* `takeBy_resumes` — what a run makes of the other generations;
* `runs_settle_and_resume` — calls after a run that has succeeded, and runs after an abandoned iteration.
-/

namespace RegisterEvolution

variable {γ σ α β : Type}

/-! ## Engines compared with themselves -/

theorem Program.Twin.refl (p : Program) : Program.Twin 0 0 p p :=
  ⟨rfl, rfl, p.id, (Nat.zero_add _).symm, (Nat.zero_add _).symm⟩

theorem Population.Paired.twin_refl (p : Population) : p.Paired (Program.Twin 0 0) p :=
  (Population.Paired.refl p).imp fun a _ hab => hab ▸ .refl a

theorem Population.Paired.eq_of_twin {p q : Population} (h : p.Paired (Program.Twin 0 0) q) : p = q :=
  (h.imp fun _ _ => Program.Twin.eq).eq

theorem Store.Shifted.refl (s : Store) : Store.Shifted 0 0 s s :=
  ⟨⟨s.nextId, (Nat.zero_add _).symm, (Nat.zero_add _).symm⟩, fun _ => rfl⟩

/-- Stores that agree from the very beginning on are the same. -/
theorem Store.Shifted.eq {s t : Store} (h : Store.Shifted 0 0 s t) : s = t := by
  obtain ⟨k, hs, ht⟩ := h.nextId
  have hsize : s.cells.size = t.cells.size := hs.trans ht.symm
  obtain ⟨cells⟩ := s
  obtain ⟨cells'⟩ := t
  refine congrArg Store.mk (Array.ext hsize fun i hi hi' => ?_)
  have hcell := h.cells i
  simp only [cell?, Nat.zero_add, Array.getElem?_eq_getElem hi, Array.getElem?_eq_getElem hi',
    Option.join_some] at hcell
  exact hcell.symm

/-- Engines in the same state but for the journal and the warning about small pools. -/
def EngineState.Resembles (s t : EngineState γ σ) : Prop :=
  t = { s with lab := { s.lab with journal := t.lab.journal, warned := t.lab.warned } }

namespace EngineState.Shifted

variable {s t : EngineState γ σ}

theorem refl (s : EngineState γ σ) : s.Shifted Eq 0 0 s := by
  have hheld : ∀ p : Option Population, Option.Rel (Population.Paired (Program.Twin 0 0)) p p := by
    intro p
    cases p with
    | none => exact .none
    | some p => exact .some (.twin_refl p)
  exact ⟨⟨rfl, .refl _, rfl⟩, hheld _, hheld _, rfl, rfl⟩

theorem resembles (h : s.Shifted Eq 0 0 t) : s.Resembles t := by
  have hheld : ∀ {p q : Option Population}, Option.Rel (Population.Paired (Program.Twin 0 0)) p q → p = q := by
    intro p q hpq
    cases hpq with
    | none => rfl
    | some hpaired => rw [hpaired.eq_of_twin]
  obtain ⟨⟨source, store, journal, warned, world⟩, population, lastRanked, phase, stopRequested⟩ := s
  obtain ⟨⟨source', store', journal', warned', world'⟩, population', lastRanked', phase', stopRequested'⟩ := t
  obtain rfl : source' = source := h.lab.source
  obtain rfl : store = store' := h.lab.store.eq
  obtain rfl : world = world' := h.lab.world
  obtain rfl : population = population' := hheld h.population
  obtain rfl : lastRanked = lastRanked' := hheld h.lastRanked
  obtain rfl : phase' = phase := h.phase
  obtain rfl : stopRequested' = stopRequested := h.stopRequested
  rfl

/-- Reports of either engine play no part. -/
theorem withJournal (h : s.Shifted Eq 0 0 t) (journal journal' : Array Record) :
    (s.withJournal journal).Shifted Eq 0 0 (t.withJournal journal') :=
  ⟨⟨h.lab.source, h.lab.store, h.lab.world⟩, h.population, h.lastRanked, h.phase, h.stopRequested⟩

end EngineState.Shifted

/-! ## Observers and tasks compared with themselves -/

/-- A computation that does not read the journal, which is there to be written into: in the same world it answers the
    same, or fails with errors that can both be quoted or neither, and leaves the same world behind. -/
abbrev Notes.Heedless (m : EStateM Error (Notes σ) α) : Prop :=
  Coupled (fun n n' : Notes σ => n.world = n'.world) Error.QuotedAlike Eq m m

/-- An observer that does not read the journal. -/
def Observer.Heedless (o : Observer σ) : Prop := ∀ event store p, Notes.Heedless (o.notice event store p)

namespace Observer

variable {o : Observer σ}

theorem NumberBlind.heedless (h : o.NumberBlind Eq) : o.Heedless :=
  fun event store p => h 0 0 event store store p p (.refl store) (.twin_refl p)

theorem Heedless.twinBlind (h : o.Heedless) : o.TwinBlind Eq 0 0 := by
  intro event s t p q hst hpq
  obtain rfl := hst.eq
  obtain rfl := hpq.eq_of_twin
  exact h event s p

/-- Writing notices down does not mean to read the journal. -/
theorem Heedless.noted (h : o.Heedless) (i : Nat) : (o.noted i).Heedless := by
  rintro event store p ⟨journal, world⟩ ⟨journal', world'⟩ hworld
  obtain rfl : world = world' := hworld
  unfold Observer.noted
  simp only
  rcases (h event store p ⟨journal, world.1⟩ ⟨journal', world.1⟩ rfl).exists_or with
    ⟨v, n, _, n', hout, hout', rfl, hnotes⟩ | ⟨e, n, e', n', hout, hout', hquoted, hnotes⟩
  · rw [hout, hout']
    exact ⟨rfl, congrArg (·, _) hnotes⟩
  · rw [hout, hout']
    exact ⟨hquoted, congrArg (·, _) hnotes⟩

/-- Reports are written without reading the journal. -/
theorem report_heedless (level : Int) (message : String) : Notes.Heedless (Notes.report (σ := σ) level message) :=
  .modify fun _ _ h => h

theorem summarize_heedless (store : Store) (p : Population) : Notes.Heedless (Notes.summarize (σ := σ) store p) := by
  unfold Notes.summarize
  cases p.summarize store with
  | ok s => exact .pure rfl
  | error f => exact .throw rfl

theorem history_heedless (record : Summary → σ → σ) : (history record).Heedless := by
  intro event store p
  unfold history
  simp only
  split
  · refine (summarize_heedless store p).bind ?_
    rintro s _ rfl
    exact Coupled.bind (V := Eq) (.modify fun _ _ h => congrArg (record s) h) fun _ _ _ => .pure rfl
  · exact .pure rfl

theorem logging_heedless (level : Int) (showsProgram : Bool) : (logging level showsProgram : Observer σ).Heedless := by
  intro event store p
  unfold logging
  simp only
  split
  · refine (summarize_heedless store p).bind ?_
    rintro s _ rfl
    refine (report_heedless level _).bind fun _ _ _ => ?_
    cases s.bestProgram with
    | none => exact .pure rfl
    | some b =>
        simp only
        split
        · exact (report_heedless level _).bind fun _ _ _ => .pure rfl
        · exact .pure rfl
  · exact .pure rfl

/-- **Observers for common purposes do not read the journal.** -/
theorem common_heedless :
    (silent : Observer σ).Heedless ∧ (∀ goal, (target goal : Observer σ).Heedless) ∧
      (∀ record, (history record : Observer σ).Heedless) ∧
      ∀ level showsProgram, (logging level showsProgram : Observer σ).Heedless :=
  ⟨fun _ _ _ => .pure rfl, fun goal => (target_numberBlind goal).heedless, history_heedless, logging_heedless⟩

end Observer

/-- Whatever a task does, it does it again with the same program in the same world. -/
theorem Task.twinBlind_same (task : Task σ) : task.TwinBlind Eq 0 0 := by
  rintro p q hpq ⟨r, world⟩ ⟨r', world'⟩ ⟨hr, hworld⟩
  obtain rfl := hpq.eq
  obtain rfl : r = r' := hr
  obtain rfl : world = world' := hworld
  cases task.score p ⟨r, world⟩ with
  | ok v b => exact ⟨rfl, rfl, rfl⟩
  | error e b => exact ⟨trivial, rfl, rfl⟩

namespace Engine

/-- Pools of a task to which no world matters evaluate alike, whatever worlds their workers are in. -/
theorem EvaluatesAlike.of_delivery {e : Engine σ}
    (htask : ∀ (lab : Lab γ σ) (world world' : σ) (p : Program),
      workerAnswer e.task lab world p = workerAnswer e.task lab world' p)
    {schedule schedule' : Population → Lab γ σ → List (Nat × Except Error Float)}
    (h : ∀ p lab, Delivery e.task lab (pending lab.store e.plan.reevaluate p) (schedule p lab))
    (h' : ∀ p lab, Delivery e.task lab (pending lab.store e.plan.reevaluate p) (schedule' p lab)) :
    e.EvaluatesAlike Eq 0 0 (fun p lab => evaluateDelivered p (schedule p lab) lab)
      fun p lab => evaluateDelivered p (schedule' p lab) lab := by
  refine .pooled schedule schedule' fun p q lab lab' _ hpq => ?_
  obtain rfl := hpq.eq_of_twin
  obtain ⟨worlds, hperm⟩ := h p lab
  obtain ⟨worlds', hperm'⟩ := h' p lab'
  refine ⟨worlds, worlds, fun _ => rfl, hperm, hperm'.trans (.of_eq (List.map_congr_left fun item _ => ?_))⟩
  rw [htask lab' (worlds' item.1) (worlds item.1)]

/-- What holds of all observers with a record holds of those of the engine with a record. -/
theorem forall_noted {e : Engine σ} {P : Observer (σ × List Notice) → Prop}
    (h : ∀ o ∈ e.observers, ∀ i, P (o.noted i)) : ∀ o ∈ e.noted.observers, P o := by
  intro o ho
  obtain ⟨⟨o', i⟩, hmem, rfl⟩ := List.mem_map.mp ho
  exact h o' (List.fst_mem_of_mem_zipIdx hmem) i

/-- Generations that correspond, counted from one beginning, are the same. -/
theorem passes_eq_of_twin {xs ys : List (Pass γ)} (h : List.Forall₂ (Pass.Twin 0 0) xs ys) : xs = ys := by
  rw [← List.forall₂_eq_eq_eq]
  refine h.imp ?_
  rintro ⟨yield, source⟩ ⟨yield', source'⟩ hab
  obtain rfl : yield = yield' := hab.yield.eq
  obtain rfl : source' = source := hab.source
  rfl

variable [Generator γ]

/-! ## Iterations that are abandoned -/

section Take

variable (e : Engine σ) (evaluation : Population → Run γ σ Nat)

/-- What is seen of a ranked generation by a visit that leaves the engine as it is. -/
def look (ranked : Population) : Evolving γ σ (Pass γ) := do return .of (← get) ranked

/-- The first `k` generations of an iteration that is abandoned then. An iteration of which nothing is asked does not
    even begin. -/
def takeBy : Nat → Evolving γ σ (List (Pass γ))
  | 0 => return []
  | k + 1 => do
    e.commence
    e.generationsUpToBy evaluation look (k + 1)

/-- A run until `k` of its generations are over. -/
def runUpToBy (k : Nat) : Evolving γ σ Unit := do
  e.opening
  let _ ← e.generationsUpToBy evaluation (fun _ => return ()) k

end Take

section Split

variable {e : Engine σ} {evaluation : Population → Run γ σ Nat} {visit : Population → Evolving γ σ α} {k limit : Nat}
  {s s' : EngineState γ σ} {p : Population}

/-- A generation that passes is one that has been run. -/
theorem exists_step_of_passes (h : 0 < (e.passesUpTo evaluation limit s).length) :
    ∃ n ranked s₁, limit = n + 1 ∧ ¬s.isFinished e.plan.maxGenerations = true ∧ e.stepBy evaluation s = .ok ranked s₁ ∧
      e.passesUpTo evaluation limit s = .of s₁ ranked :: e.passesUpTo evaluation n s₁ := by
  cases limit with
  | zero => exact absurd h (Nat.lt_irrefl 0)
  | succ n =>
      rw [passesUpTo] at h
      by_cases hfinished : s.isFinished e.plan.maxGenerations = true
      · rw [if_pos hfinished] at h
        exact absurd h (Nat.lt_irrefl 0)
      · rw [if_neg hfinished] at h
        cases hstep : e.stepBy evaluation s with
        | error er s₁ =>
            rw [hstep] at h
            exact absurd h (Nat.lt_irrefl 0)
        | ok ranked s₁ =>
            refine ⟨n, ranked, s₁, rfl, hfinished, rfl, ?_⟩
            rw [passesUpTo, if_neg hfinished, hstep]

/-- **As many generations as will pass can be taken**, and those that are left pass from where they have been taken. -/
theorem generationsUpToBy_look (hk : k ≤ (e.passesUpTo evaluation limit s).length) :
    ∃ s', e.generationsUpToBy evaluation look k s = .ok ((e.passesUpTo evaluation limit s).take k) s' ∧
      e.passesUpTo evaluation (limit - k) s' = (e.passesUpTo evaluation limit s).drop k ∧ k ≤ limit := by
  induction k generalizing limit s with
  | zero => exact ⟨s, rfl, rfl, Nat.zero_le limit⟩
  | succ k ih =>
      obtain ⟨n, ranked, s₁, rfl, hfinished, hstep, hpasses⟩ := exists_step_of_passes (Nat.zero_lt_of_lt hk)
      rw [hpasses] at hk ⊢
      obtain ⟨s', htaken, hleft, hle⟩ := ih (Nat.le_of_succ_le_succ hk)
      refine ⟨s', ?_, ?_, Nat.succ_le_succ hle⟩
      · rw [generationsUpToBy_unfinished e evaluation look hfinished, bind_of_ok hstep,
          bind_of_ok (rfl : look ranked s₁ = .ok (.of s₁ ranked) s₁), bind_of_ok htaken]
        rfl
      · rw [Nat.add_sub_add_right, hleft]
        rfl

/-- **Generations may be split**: after some of them come the others. -/
theorem generationsUpToBy_add {visits : List α} (h : e.generationsUpToBy evaluation visit k s = .ok visits s')
    (n : Nat) :
    e.generationsUpToBy evaluation visit (k + n) s =
      (do return visits ++ (← e.generationsUpToBy evaluation visit n) : Evolving γ σ (List α)) s' := by
  induction k generalizing s visits with
  | zero =>
      obtain ⟨rfl, rfl⟩ : visits = [] ∧ s' = s := by
        cases h
        exact ⟨rfl, rfl⟩
      simp
  | succ k ih =>
      rw [Nat.add_right_comm]
      by_cases hfinished : s.isFinished e.plan.maxGenerations = true
      · rw [generationsUpToBy_finished e evaluation visit hfinished] at h ⊢
        cases h
        rw [bind_of_ok (generationsUpToBy_finished e evaluation visit hfinished n)]
        rfl
      · rw [generationsUpToBy_unfinished e evaluation visit hfinished] at h ⊢
        obtain ⟨ranked, s₁, hstep, h⟩ := bind_eq_ok.mp h
        obtain ⟨first, s₂, hfirst, h⟩ := bind_eq_ok.mp h
        obtain ⟨others, s₃, hothers, h⟩ := bind_eq_ok.mp h
        obtain ⟨rfl, rfl⟩ : visits = first :: others ∧ s' = s₃ := by
          cases h
          exact ⟨rfl, rfl⟩
        rw [bind_of_ok hstep, bind_of_ok hfirst]
        have hrest := ih hothers
        cases hlast : e.generationsUpToBy evaluation visit n s' with
        | ok rest s₄ =>
            rw [bind_of_ok hlast] at hrest ⊢
            exact bind_of_ok hrest
        | error er s₄ =>
            rw [bind_of_error hlast] at hrest ⊢
            exact bind_of_error hrest

/-- A run goes on where some of its generations have come to their end. -/
theorem restBy_of_generations {visits : List Unit} (hp : s.population = some p)
    (hgenerations : e.generationsUpToBy evaluation (fun _ => return ()) k s = .ok visits s') (hall : visits.length = k)
    (hk : k ≤ (e.plan.maxGenerations - s.generation).toNat) : e.restBy evaluation s = e.restBy evaluation s' := by
  have hadvances := generationsUpToBy_advances e evaluation (fun _ => return ()) (fun _ s => ⟨(), rfl⟩) k hp
  rw [hgenerations] at hadvances
  obtain ⟨q, hq, hgeneration, -⟩ := hadvances
  have hlimit : (e.plan.maxGenerations - s.generation).toNat = k + (e.plan.maxGenerations - s'.generation).toNat := by
    rw [generation_of_population hp] at hk ⊢
    rw [generation_of_population hq]
    omega
  obtain ⟨n, hn⟩ : ∃ n, n = (e.plan.maxGenerations - s'.generation).toNat := ⟨_, rfl⟩
  have hsplit := generationsUpToBy_add hgenerations n
  rw [hn, ← hlimit, ← hn] at hsplit
  show (e.generationsUpToBy evaluation (fun _ => return ()) _ >>= fun _ => e.conclude) s =
    (e.generationsUpToBy evaluation (fun _ => return ()) _ >>= fun _ => e.conclude) s'
  rw [← hn]
  cases hrest : e.generationsUpToBy evaluation (fun _ => return ()) n s' with
  | ok others s₂ =>
      rw [bind_of_ok hrest] at hsplit ⊢
      exact bind_of_ok hsplit
  | error er s₂ =>
      rw [bind_of_error hrest] at hsplit ⊢
      exact bind_of_error hsplit

end Split

/-! ## Runs after an interruption -/

/-- The same answer, or an error each, with states that differ in the journal and the warning about small pools only. -/
abbrev EndsAlike (r r' : EStateM.Result Error (EngineState γ σ) Population) : Prop :=
  Pairs (fun last last' s t => last' = last ∧ s.Resembles t) (fun _ _ s t => s.Resembles t) r r'

omit [Generator γ] in
theorem endsAlike_of_shifted {m n : Evolving γ σ Population} {s t : EngineState γ σ}
    (h : EvolvesShifted Eq 0 0 (Population.Paired (Program.Twin 0 0)) m n) (hst : s.Shifted Eq 0 0 t) :
    EndsAlike (m s) (n t) :=
  (h s t hst).imp (fun _ _ _ _ hout => ⟨hout.1.eq_of_twin.symm, hout.2.resembles⟩) fun _ _ _ _ he => he.2.resembles

section Resume

variable {e : Engine σ} (hobservers : ∀ o ∈ e.observers, o.TwinBlind Eq 0 0)
  {evaluation first rest : Population → Run γ σ Nat} {k : Nat} {s t u : EngineState γ σ} {p : Population}

include hobservers

/-- A run begins as an iteration does, with one more report. -/
theorem opening_of_commence (h : e.commence s = .ok () u) : ∃ t, e.opening s = .ok () t ∧ t.Shifted Eq 0 0 u := by
  obtain ⟨journal, hreported⟩ := exists_reported (e := e) s
  have hboth := commence_shifted hobservers _ s ((EngineState.Shifted.refl s).withJournal journal s.lab.journal)
  rw [h] at hboth
  rcases hboth.exists_or with ⟨_, t, _, _, hopening, hout, -, htu⟩ | ⟨_, _, _, _, -, herror, -⟩
  · cases hout
    exact ⟨t, (bind_of_ok hreported).trans hopening, htu⟩
  · exact nomatch herror

/-- A run of an engine that holds a population goes on where a run without an interruption is. -/
theorem runBy_of_shifted (hrest : e.EvaluatesAlike Eq 0 0 evaluation rest) (htu : t.Shifted Eq 0 0 u)
    (hp : u.population = some p) :
    e.passes rest u = e.passesUpTo evaluation (e.plan.maxGenerations - t.generation).toNat t ∧
      EndsAlike (e.restBy evaluation t) (e.runBy rest u) := by
  constructor
  · obtain ⟨journal, hcommence⟩ := commence_of_population (e := e) hp
    have hjournal : t.Shifted Eq 0 0 (u.withJournal journal) := htu.withJournal t.lab.journal journal
    unfold passes
    rw [hcommence, ← hjournal.generation_eq]
    exact (passes_eq_of_twin (passesUpTo_shifted hobservers e.task.twinBlind_same hrest _ hjournal)).symm
  · obtain ⟨journal, hopening⟩ := opening_of_held (e := e) hp
    have hjournal : t.Shifted Eq 0 0 (u.withJournal journal) := htu.withJournal t.lab.journal journal
    rw [runBy_eq, bind_of_ok hopening]
    exact endsAlike_of_shifted (restBy_shifted hobservers e.task.twinBlind_same hrest) hjournal

variable (hfirst : e.EvaluatesAlike Eq 0 0 evaluation first)

include hfirst

/-- Two engines side by side from their first generation on: the one goes through `k` generations of a run, of the other
    one they are asked for. -/
theorem generations_interrupted (htu : t.Shifted Eq 0 0 u) (hp : u.population = some p)
    (hk : k ≤ (e.passesUpTo first (e.plan.maxGenerations - u.generation).toNat u).length) :
    ∃ visits t' u', e.generationsUpToBy evaluation (fun _ => return ()) k t = .ok visits t' ∧
      e.generationsUpToBy first look k u =
        .ok ((e.passesUpTo first (e.plan.maxGenerations - u.generation).toNat u).take k) u' ∧
      t'.Shifted Eq 0 0 u' ∧ (∃ q, u'.population = some q) ∧ e.restBy evaluation t = e.restBy evaluation t' ∧
      e.passesUpTo evaluation (e.plan.maxGenerations - t'.generation).toNat t' =
        (e.passesUpTo first (e.plan.maxGenerations - u.generation).toNat u).drop k := by
  obtain ⟨u', htaken, hleft, hle⟩ := generationsUpToBy_look hk
  -- the same generations on the other side
  obtain ⟨visits, t', hrun, hlength, htu'⟩ : ∃ visits t', e.generationsUpToBy evaluation (fun _ => return ()) k t =
      .ok visits t' ∧ visits.length = k ∧ t'.Shifted Eq 0 0 u' := by
    have hvisit : ∀ r r' : Population, r.Paired (Program.Twin 0 0) r' →
        EvolvesShifted Eq 0 0 (fun (_ : Unit) (_ : Pass γ) => True) (return () : Evolving γ σ Unit) (look r') :=
      fun _ _ _ _ _ hst => ⟨trivial, hst⟩
    have hboth := generationsUpToBy_shifted hobservers e.task.twinBlind_same hfirst hvisit k t u htu
    rcases hboth.exists_or with ⟨visits, t', _, _, hrun, htaken', hvisits, htu'⟩ | ⟨_, _, _, _, -, herror, -⟩
    · cases htaken.symm.trans htaken'
      refine ⟨visits, t', hrun, ?_, htu'⟩
      rw [hvisits.length_eq, List.length_take, Nat.min_eq_left hk]
    · cases htaken.symm.trans herror
  obtain ⟨q, hq, hgeneration⟩ : ∃ q, u'.population = some q ∧ q.generation = p.generation + k := by
    have hadvances := generationsUpToBy_advances e first look (fun _ s => ⟨_, rfl⟩) k hp
    rw [htaken] at hadvances
    obtain ⟨q, hq, hgeneration, -⟩ := hadvances
    rw [List.length_take, Nat.min_eq_left hk] at hgeneration
    exact ⟨q, hq, hgeneration⟩
  refine ⟨visits, t', u', hrun, htaken, htu', ⟨q, hq⟩, ?_, ?_⟩
  · rcases exists_of_rel htu.population with ⟨-, hnone⟩ | ⟨p', _, hp', -, -⟩
    · cases hnone.symm.trans hp
    · refine restBy_of_generations hp' hrun hlength ?_
      rw [← htu.generation_eq]
      exact hle
  · have hlimit : (e.plan.maxGenerations - t'.generation).toNat =
        (e.plan.maxGenerations - u.generation).toNat - k := by
      rw [← htu'.generation_eq, generation_of_population hq, generation_of_population hp]
      omega
    rw [hlimit, ← hleft]
    exact passes_eq_of_twin (passesUpTo_shifted hobservers e.task.twinBlind_same hfirst _ htu')

/-- **A run that goes on after an interruption** goes through the generations that have not been asked for, and ends as
    the run without an interruption does. -/
theorem takeBy_resumes (hrest : e.EvaluatesAlike Eq 0 0 evaluation rest) (hk : k ≤ (e.passes evaluation s).length) :
    ∃ s₁, e.takeBy first k s = .ok ((e.passes evaluation s).take k) s₁ ∧
      (0 < k → ∃ t, e.runUpToBy evaluation k s = .ok () t ∧ t.Resembles s₁) ∧
      e.passes rest s₁ = (e.passes evaluation s).drop k ∧ EndsAlike (e.runBy evaluation s) (e.runBy rest s₁) := by
  have hblind := e.task.twinBlind_same
  cases k with
  | zero =>
      have hpasses := passes_eq_of_twin (passes_alike hobservers hblind hrest (.refl s))
      exact ⟨s, rfl, nofun, hpasses.symm, endsAlike_of_shifted (runBy_alike hobservers hblind hrest) (.refl s)⟩
  | succ k =>
      cases hcommence : e.commence s with
      | error er s₀ =>
          unfold passes at hk
          rw [hcommence] at hk
          exact absurd hk (Nat.not_succ_le_zero k)
      | ok _ u =>
          have hpasses : e.passes evaluation s =
              e.passesUpTo first (e.plan.maxGenerations - u.generation).toNat u := by
            unfold passes
            rw [hcommence]
            exact passes_eq_of_twin (passesUpTo_shifted hobservers hblind hfirst _ (.refl u))
          rw [hpasses] at hk ⊢
          have hheld := commence_holds e s
          rw [hcommence] at hheld
          obtain ⟨p, hp⟩ := hheld
          obtain ⟨t, hopening, htu⟩ := opening_of_commence hobservers hcommence
          obtain ⟨_, t', u', hrun, htaken, htu', ⟨q, hq⟩, hrestBy, hleft⟩ :=
            generations_interrupted hobservers hfirst htu hp hk
          obtain ⟨hpasses', hends⟩ := runBy_of_shifted hobservers hrest htu' hq
          refine ⟨u', ?_, fun _ => ⟨t', ?_, htu'.resembles⟩, hpasses'.trans hleft, ?_⟩
          · rw [takeBy, bind_of_ok hcommence]
            exact htaken
          · unfold runUpToBy
            rw [bind_of_ok hopening, bind_of_ok hrun]
            rfl
          · rw [runBy_eq e evaluation, bind_of_ok hopening, hrestBy]
            exact hends

end Resume

/--
**A finished engine is inert, and an interruption leaves no trace.** First, take any engine on which a run has
succeeded, from any state and with any evaluation, whether it has come to its limit or somebody has asked to stop. It is
terminated, and whatever further runs and full iterations there are, with any task, observers, evaluation and visits,
they succeed, every run answers the same population, every iteration visits nothing, and all that changes is the
journal: nothing is drawn, no program is built or scored, and nobody is told of anything, since the generator, the store
and the world are what they were.

Second, take an engine whose observers, which write down what they are told and answer, do not read the journal. For a
number `k` of generations, at most as many as pass in a run, take `k` generations of an iteration, abandon it and run.
The generations taken are the first ones of the run without an interruption, with the same generator after each, and the
engine is in the state in which that run is then. The generations that pass afterwards are the other ones, and both runs
answer the same population or both fail, with the same generator, programs, fitness and notices in the end. The three
evaluations may use pools of their own, which deliver in any order.
-/
theorem runs_settle_and_resume (e : Engine σ) :
    (∀ (evaluation : Population → Run γ σ Nat) (s s' : EngineState γ σ) (last : Population),
      e.runBy evaluation s = .ok last s' → s'.phase = some .terminated ∧
        ∀ {α : Type} (e' : Engine σ) (evaluation' : Population → Run γ σ Nat) (visit : Population → Evolving γ σ α)
          (drives : List Drive), e'.plan = e.plan → ∃ journal, drives.mapM (e'.driveBy evaluation' visit) s' =
            .ok (drives.map (Drive.idle last)) (s'.withJournal journal)) ∧
      ((∀ o ∈ e.observers, o.Heedless) →
        ∀ (evaluation first rest : Population → Run γ (σ × List Notice) Nat) (s : EngineState γ (σ × List Notice))
          (k : Nat), e.noted.EvaluatesAlike Eq 0 0 evaluation first → e.noted.EvaluatesAlike Eq 0 0 evaluation rest →
            k ≤ (e.noted.passes evaluation s).length →
              ∃ s₁, e.noted.takeBy first k s = .ok ((e.noted.passes evaluation s).take k) s₁ ∧
                (0 < k → ∃ t, e.noted.runUpToBy evaluation k s = .ok () t ∧ t.Resembles s₁) ∧
                e.noted.passes rest s₁ = (e.noted.passes evaluation s).drop k ∧
                EndsAlike (e.noted.runBy evaluation s) (e.noted.runBy rest s₁)) := by
  constructor
  · intro evaluation s s' last hrun
    have hsettled := runBy_settles e evaluation s
    rw [hrun] at hsettled
    refine ⟨hsettled.phase, fun e' evaluation' visit drives hplan => ?_⟩
    exact drives_settled (by rw [hplan]; exact hsettled) drives
  · intro hheedless evaluation first rest s k hfirst hrest hk
    exact takeBy_resumes (forall_noted fun o ho i => ((hheedless o ho).noted i).twinBlind) hfirst hrest hk

/-- An engine that runs a generation lets it pass. -/
theorem passes_of_step {e : Engine σ} {evaluation : Population → Run γ σ Nat} {s s₁ s₂ : EngineState γ σ}
    {r : Population} (hcommence : e.commence s = .ok () s₁) (hstep : e.stepBy evaluation s₁ = .ok r s₂)
    (hleft : s₁.isFinished e.plan.maxGenerations = false) : 0 < (e.passes evaluation s).length := by
  have hlimit : 0 < (e.plan.maxGenerations - s₁.generation).toNat := by
    unfold EngineState.isFinished at hleft
    have := (Bool.or_eq_false_iff.mp hleft).2
    simp only [decide_eq_false_iff_not] at this
    omega
  obtain ⟨n, hn⟩ := Nat.exists_eq_succ_of_ne_zero hlimit.ne'
  unfold passes
  rw [hcommence]
  simp only
  rw [hn, passesUpTo, hleft, hstep]
  exact Nat.zero_lt_succ _

/-- With the default settings there is a generation, also if notices are written down. -/
theorem exists_pass_brief : ∃ s : EngineState Least (Unit × List Notice),
    1 ≤ (brief.noted.passes (evaluate brief.noted.task false) s).length := by
  obtain ⟨shape, sizes, h⟩ := brief_viable
  have hunwatched : brief.unwatched.Viable shape sizes :=
    ⟨h.bound, h.usable, h.feasible, h.gap, h.size, h.answers, List.forall_mem_nil _⟩
  obtain ⟨p, lab, hgenerate, -, hzero, hpopulate, -⟩ := first_population hunwatched (fun _ _ => rfl) Least.least ()
  have hsustained := h.sustained (.populate hgenerate)
  rw [hpopulate] at hsustained
  have hlabel : brief.canLabel p.generation = true := by
    rw [hzero]
    exact Viable.canLabel_of_between brief_writable (Int.le_refl 0) (by decide)
  obtain ⟨r, s₂, hstep, -⟩ := (hsustained.step _ .alone hlabel).exists_ok
  change brief.step ⟨lab, some p, none, some .initialized, false⟩ = .ok r s₂ at hstep
  -- the engine with a record does the same
  obtain ⟨s₀, hs₀⟩ : ∃ s₀ : EngineState Least Unit, s₀ = .start .least () := ⟨_, rfl⟩
  obtain ⟨t₀, hbeside₀⟩ : ∃ t₀ : EngineState Least (Unit × List Notice), s₀.Beside WithNotices t₀ :=
    ⟨.start .least ((), []), hs₀ ▸ EngineState.start_beside Least.least ()⟩
  have hcurrent := current_inStep (noted_beside brief) s₀ t₀ hbeside₀
  rw [current_of_none brief (by rw [hs₀]; rfl), hs₀, hpopulate] at hcurrent
  obtain ⟨t, hcurrent', hbeside⟩ := hcurrent.exists_ok
  have hstep' := step_inStep (noted_beside brief) _ _ hbeside
  rw [hstep] at hstep'
  obtain ⟨t₂, hstep', -⟩ := hstep'.exists_ok
  have hleft : t.isFinished brief.noted.plan.maxGenerations = false := by
    unfold EngineState.isFinished EngineState.generation
    rw [← hbeside.stopRequested, ← hbeside.population]
    show decide ((100 : Int) ≤ p.generation) = false
    rw [hzero]
    rfl
  exact ⟨_, passes_of_step (bind_of_ok hcurrent') hstep' hleft⟩

/-- What two workers come to whose answers are delivered in an order of one's choice. -/
def deliveredBy (order : List (Nat × Except Error Float) → List (Nat × Except Error Float)) (p : Population) :
    Run Least (Unit × List Notice) Nat := fun lab =>
  evaluateDelivered p (order ((pending lab.store shared.noted.plan.reevaluate p).map fun item =>
    (item.1, workerAnswer shared.noted.task lab ((), []) item.2))) lab

/-- The workers of such pools score as they do in any other world. -/
theorem deliveredBy_alike {order order' : List (Nat × Except Error Float) → List (Nat × Except Error Float)}
    (h : ∀ answers, (order answers).Perm answers) (h' : ∀ answers, (order' answers).Perm answers) :
    shared.noted.EvaluatesAlike Eq 0 0 (deliveredBy order) (deliveredBy order') := by
  refine .of_delivery (fun lab world world' p => ?_) (fun p lab => ⟨fun _ => ((), []), h _⟩)
    fun p lab => ⟨fun _ => ((), []), h' _⟩
  have hscore : ∀ world, score shared.noted.task p { lab with world := world } =
      Run.ofExcept (toFitness p (.float (if p.size = 1 then 1.0 else 0.0)))
        { lab with store := lab.store.setRegisters p (lab.store.registers p), world := world } := fun _ => rfl
  unfold workerAnswer
  rw [hscore, hscore]
  cases toFitness p (.float (if p.size = 1 then 1.0 else 0.0)) with
  | ok x => rfl
  | error er => rfl

/--
The default settings, run to the end and called again, and interrupted after the first generation; and two workers,
whose answers are in order in the run, in reverse in the iteration and in order again after all generations.
-/
theorem runs_settle_and_resume_brief :
    (∃ (s s' : EngineState Least Unit) (last : Population), brief.runBy (evaluate brief.task false) s = .ok last s' ∧
        s'.phase = some .terminated ∧
        ∃ journal, [Drive.run, .iterate, .run].mapM (brief.driveBy (evaluate brief.task false) look) s' =
          .ok [.returned last, .visited [], .returned last] (s'.withJournal journal)) ∧
      (∃ s s₁ t : EngineState Least (Unit × List Notice),
        1 ≤ (brief.noted.passes (evaluate brief.noted.task false) s).length ∧
        brief.noted.takeBy (evaluate brief.noted.task false) 1 s =
          .ok ((brief.noted.passes (evaluate brief.noted.task false) s).take 1) s₁ ∧
        brief.noted.runUpToBy (evaluate brief.noted.task false) 1 s = .ok () t ∧ t.Resembles s₁ ∧
        brief.noted.passes (evaluate brief.noted.task false) s₁ =
          (brief.noted.passes (evaluate brief.noted.task false) s).drop 1 ∧
        EndsAlike (brief.noted.runBy (evaluate brief.noted.task false) s)
          (brief.noted.runBy (evaluate brief.noted.task false) s₁)) ∧
      ∃ s s₁ : EngineState Least (Unit × List Notice), s = .start .least ((), []) ∧
        shared.noted.takeBy (deliveredBy List.reverse) (shared.noted.passes (deliveredBy id) s).length s =
          .ok (shared.noted.passes (deliveredBy id) s) s₁ ∧
        shared.noted.passes (deliveredBy id) s₁ = [] ∧
        EndsAlike (shared.noted.runBy (deliveredBy id) s) (shared.noted.runBy (deliveredBy id) s₁) := by
  refine ⟨?_, ?_, ?_⟩
  · obtain ⟨shape, sizes, h⟩ := brief_viable
    obtain ⟨s, hs⟩ : ∃ s : EngineState Least Unit, s = .start .least () := ⟨_, rfl⟩
    have hcourse : brief.Course s s := .begin (by rw [hs]; rfl) (by rw [hs]; rfl)
    have hsustained := h.sustained hcourse
    obtain ⟨last, s', hrun, -⟩ := (hsustained.run _ .alone brief_writable).exists_ok
    obtain ⟨hphase, hinert⟩ := (runs_settle_and_resume brief).1 _ _ s' last hrun
    exact ⟨s, s', last, hrun, hphase, hinert brief _ look [.run, .iterate, .run] rfl⟩
  · obtain ⟨s, hpass⟩ := exists_pass_brief
    have halone : brief.noted.EvaluatesAlike Eq 0 0
        (evaluate brief.noted.task false : Population → Run Least (Unit × List Notice) Nat)
        (evaluate brief.noted.task false) := .alone
    have hheedless : ∀ o ∈ brief.observers, o.Heedless := by
      intro o ho
      rw [List.mem_singleton.mp ho]
      exact Observer.common_heedless.1
    obtain ⟨s₁, htake, hrun, hpasses, hends⟩ :=
      (runs_settle_and_resume brief).2 hheedless _ _ _ s 1 halone halone hpass
    obtain ⟨t, hrun, ht⟩ := hrun Nat.one_pos
    exact ⟨s, s₁, t, hpass, htake, hrun, ht, hpasses, hends⟩
  · obtain ⟨s, hs⟩ : ∃ s : EngineState Least (Unit × List Notice), s = .start .least ((), []) := ⟨_, rfl⟩
    have hfirst : shared.noted.EvaluatesAlike Eq 0 0 (deliveredBy id) (deliveredBy List.reverse) :=
      deliveredBy_alike (fun _ => .refl _) List.reverse_perm
    have hrest : shared.noted.EvaluatesAlike Eq 0 0 (deliveredBy id) (deliveredBy id) :=
      deliveredBy_alike (fun _ => .refl _) fun _ => .refl _
    obtain ⟨s₁, htake, -, hpasses, hends⟩ :=
      (runs_settle_and_resume shared).2 (List.forall_mem_nil _) _ _ _ s _ hfirst hrest (le_refl _)
    rw [List.take_length] at htake
    rw [List.drop_length] at hpasses
    exact ⟨s, s₁, hs, htake, hpasses, hends⟩

end Engine

end RegisterEvolution
