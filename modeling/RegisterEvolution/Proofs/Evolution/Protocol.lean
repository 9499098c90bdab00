import RegisterEvolution.Proofs.Evolution.Dispatch
import RegisterEvolution.Proofs.Evolution.Notices
import RegisterEvolution.Proofs.Evolution.Truncation

/-!
# `Proofs.Evolution.Protocol` — the events of a run, in their order

A run tells its observers of the first population, and of every generation four times over. Observers may ask to stop,
which ends the run after the generation they are told of, or fail, which ends it at once. Each phase follows an agenda
of one event; the events of a generation are put together from these, and those of a run by induction along it.

* `lap`, `protocol` — what observers are told of in a generation, and in a run;
* `Engine.stepBy_follows` — one generation follows the agenda of its events, however it is evaluated;
* `Engine.Obeys` — what the turns of a run have to do with the protocol;
* `Engine.runBy_obeys` — the turns of a run of a fresh engine, whatever its observers answer.
-/

namespace RegisterEvolution

open Binary64

variable {γ σ α β : Type}

/-! ## The protocol -/

section Protocol

variable (size kept : Nat)

/-- What observers are told of in the generation numbered `g`, of `size` programs and with a pool of `kept`. -/
def lap (g : Nat) : List Subject :=
  [(.evaluated, g, size), (.ranked, g, size), (.selected, g, kept), (.generationEnd, (g : Int) + 1, size)]

/-- What observers are told of in so many generations, from the one numbered `g` on. -/
def laps : Nat → Nat → List Subject
  | _, 0 => []
  | g, count + 1 => lap size kept g ++ laps (g + 1) count

/-- What observers are told of in a run of so many generations. -/
def protocol (count : Nat) : List Subject := (.initialized, 0, size) :: laps size kept 0 count

end Protocol

/-- How many generations are over as soon as the one is that an event belongs to. -/
def Subject.due : Subject → Nat
  | (.initialized, g, _) => g.toNat
  | (.generationEnd, g, _) => g.toNat
  | (_, g, _) => g.toNat + 1

section Protocol

variable {size kept g count : Nat} {x : Subject}

theorem due_of_mem_lap (h : x ∈ lap size kept g) : x.due = g + 1 := by
  simp only [lap, List.mem_cons, List.not_mem_nil, or_false] at h
  rcases h with rfl | rfl | rfl | rfl
  · rfl
  · rfl
  · rfl
  · show ((g : Int) + 1).toNat = g + 1
    omega

theorem due_of_mem_laps (h : x ∈ laps size kept g count) : g < x.due ∧ x.due ≤ g + count := by
  induction count generalizing g with
  | zero => exact nomatch h
  | succ count ih =>
      rcases List.mem_append.mp h with h | h
      · have := due_of_mem_lap h
        omega
      · have := ih h
        omega

theorem length_laps : (laps size kept g count).length = 4 * count := by
  induction count generalizing g with
  | zero => rfl
  | succ count ih =>
      rw [laps, List.length_append, ih]
      show 4 + 4 * count = _
      omega

end Protocol

namespace Engine

/-! ## Computations without a turn -/

namespace Follows

variable {n : Nat} {s s' : EngineState γ (σ × List Notice)} {agenda : List Subject}
  {P : α → EngineState γ (σ × List Notice) → Prop}

/-- A first part that neither fails nor touches the record or the request to stop adds nothing to the agenda. -/
theorem after {m : Evolving γ (σ × List Notice) β} {f : β → Evolving γ (σ × List Notice) α} {b : β}
    (hm : m s = .ok b s') (hrecord : s'.lab.world.2 = s.lab.world.2) (hstop : s'.stopRequested = s.stopRequested)
    (h : Follows n s' agenda P (f b s')) : Follows n s agenda P ((m >>= f) s) := by
  have hquiet : Follows n s [] (fun b' s'' => b' = b ∧ s'' = s') (m s) := .quiet (by
    rw [hm]
    exact ⟨hrecord, hstop, rfl, rfl⟩)
  refine hquiet.bind ?_
  rintro _ _ ⟨rfl, rfl⟩
  exact h

/-- A first part on the lab that neither fails nor touches the record adds nothing to the agenda either. -/
theorem afterLab {m : Run γ (σ × List Notice) β} {f : β → Evolving γ (σ × List Notice) α}
    {Q : β → Lab γ (σ × List Notice) → Prop}
    (hm : Ends (fun b lab' => lab'.world.2 = s.lab.world.2 ∧ Q b lab') Never (m s.lab))
    (hf : ∀ b lab', Q b lab' → Follows n { s with lab := lab' } agenda P (f b { s with lab := lab' })) :
    Follows n s agenda P ((onLab m >>= f) s) := by
  obtain ⟨b, lab', hout, hrecord, hq⟩ := hm.exists_ok
  have hlab : onLab m s = .ok b { s with lab := lab' } := by
    unfold onLab
    rw [hout]
  exact after hlab hrecord rfl (hf b lab' hq)

end Follows

/-! ## The phases of a generation -/

section Phases

variable [Generator γ] [Generator.Honest γ] {e : Engine σ} {shape : Shape} {sizes : BankSizes}

/-- How many programs the populations of an engine have. -/
abbrev programCount (e : Engine σ) : Nat := e.plan.breeding.populationSize.toNat

/-- How many programs are selected when so many are to be kept. -/
abbrev poolSize (e : Engine σ) (kept : Nat) : Nat := min kept e.programCount

/-- The engine holds a population of the generation numbered `g`, with which nothing can go wrong. -/
structure Poised (h : e.unwatched.Viable shape sizes) (g : Nat) (p : Population)
    (s : EngineState γ (σ × List Notice)) : Prop where
  population : s.population = some p
  generation : p.generation = g
  sane : Viable.Sane h none s.lab.store p

variable {h : e.unwatched.Viable shape sizes} {g kept : Nat} {p r pool : Population}
  {s s' : EngineState γ (σ × List Notice)}

omit [Generator γ] [Generator.Honest γ] in
theorem Poised.size_eq (hp : Poised h g p s) : p.size = e.programCount :=
  hp.sane.complete.programs.length_eq

omit [Generator γ] [Generator.Honest γ] in
theorem Poised.unmoved (hp : Poised h g p s) (hs : Unmoved s s') : Poised h g p s' :=
  ⟨hs.population.trans hp.population, hp.generation, by rw [hs.store]; exact hp.sane⟩

omit [Generator γ] [Generator.Honest γ] in
/-- What a computation that does not touch the record comes to in a world without one, it comes to with a record. -/
theorem noted_ends {m : Run γ σ α} {n : Run γ (σ × List Notice) α}
    (hmn : ∀ record, RunsInStep (WithRecord record) m n) {lab : Lab γ (σ × List Notice)} {P : α → Store → Prop}
    (hm : Ends (fun a lab' => P a lab'.store) Never (m { lab with world := lab.world.1 })) :
    Ends (fun a lab' => lab'.world.2 = lab.world.2 ∧ P a lab'.store) Never (n lab) := by
  have hbeside : Lab.Beside (WithRecord lab.world.2) { lab with world := lab.world.1 } lab :=
    ⟨rfl, rfl, rfl, rfl, rfl⟩
  refine ((hmn lab.world.2 _ _ hbeside).ends hm).imp ?_ ?_
  · rintro a lab' ⟨lab₀, hlab, hp⟩
    rw [← hlab.store]
    exact ⟨by rw [show lab'.world = (lab₀.world, lab.world.2) from hlab.world], hp⟩
  · rintro _ _ ⟨_, -, he⟩
    exact he

variable {evaluation : Population → Run γ σ Nat}

omit [Generator γ] [Generator.Honest γ] in
/-- Evaluation, by itself or by a pool, in a world with a record. -/
theorem evaluation_noted (h : e.unwatched.Viable shape sizes) (hevaluation : e.Evaluates evaluation)
    {lab : Lab γ (σ × List Notice)} (hp : Viable.Sane h none lab.store p) :
    Ends (fun _ lab' => lab'.world.2 = lab.world.2 ∧ Viable.Sane h none lab'.store p) Never
      ((evaluation p).noted lab) := by
  refine noted_ends (P := fun _ s => Viable.Sane h none s p)
    (fun record => Run.noted_inStep (withRecord_untouched record) _) ?_
  exact (hevaluation.succeeds h.answers p { lab with world := lab.world.1 } hp.upholds).imp
    (fun _ _ hout => ⟨hout.1, hp.complete, hp.lastRanked, hp.generation⟩) fun _ _ => id

variable (hquotable : ∀ o ∈ e.observers, o.Quotable)

include hquotable

omit [Generator γ] [Generator.Honest γ] in
theorem evaluatePhaseBy_follows (hevaluation : e.Evaluates evaluation) (hlabel : e.canLabel g = true)
    (hp : Poised h g p s) :
    Follows e.observers.length s [(.evaluated, g, e.programCount)] (fun _ s' => Poised h g p s')
      (e.noted.evaluatePhaseBy (fun q => (evaluation q).noted) p s) := by
  have hannounce : e.noted.announce p { s with phase := some .evaluating } =
      report Record.debugLevel (e.noted.evaluatingMessage p) { s with phase := some .evaluating } := by
    rw [← hp.generation] at hlabel
    unfold announce
    rw [show e.noted.canLabel p.generation = true from hlabel]
    rfl
  refine .after rfl rfl rfl (.after hannounce rfl rfl (.afterLab (evaluation_noted h hevaluation hp.sane) ?_))
  intro _ lab hsane
  have hevaluated : Poised h g p { s with lab := lab, phase := some .evaluating } :=
    ⟨hp.population, hp.generation, hsane⟩
  rw [← hp.generation, ← hp.size_eq]
  exact (notify_follows hquotable .evaluated p _).imp fun _ _ hs' => hevaluated.unmoved hs'

omit [Generator γ] [Generator.Honest γ] in
theorem rankPhase_follows (hp : Poised h g p s) :
    Follows e.observers.length s [(.ranked, g, e.programCount)] (fun r s' => Poised h g r s')
      (e.noted.rankPhase p s) := by
  have hranked : ∀ journal, Poised h g (p.rank s.lab.store)
      { s with
        phase := some .ranked, population := some (p.rank s.lab.store), lab := { s.lab with journal := journal } } :=
    fun journal => ⟨rfl, hp.generation, hp.sane.upholds.rank, hp.sane.complete.rank _, hp.sane.lastRanked,
      hp.sane.generation⟩
  refine .after rfl rfl rfl (.after rfl rfl rfl (.after rfl rfl rfl (.after rfl rfl rfl ?_)))
  rw [← (hranked s.lab.journal).generation, ← (hranked s.lab.journal).size_eq]
  refine (notify_follows hquotable .ranked _ _).bind ?_
  intro _ s' hs'
  exact .quiet ⟨rfl, rfl, (hranked _).unmoved hs'⟩

omit [Generator γ] [Generator.Honest γ] in
theorem selectPhase_follows (hr : Poised h g r s)
    (hkept : Population.keptCount e.plan.breeding.populationSize e.plan.gap = .ok kept) :
    Follows e.observers.length s [(.selected, g, e.poolSize kept)]
      (fun pool s' => r.select e.plan.gap = .ok pool ∧ Poised h g r s') (e.noted.selectPhase r s) := by
  have hpool : r.select e.plan.gap = .ok { r with programs := r.programs.take kept } := by
    have hcapacity : r.capacity = e.plan.breeding.populationSize := hr.sane.complete.capacity
    unfold Population.select
    rw [hcapacity, hkept, ← hcapacity]
    rfl
  have hsize : Population.size { r with programs := r.programs.take kept } =
      e.poolSize kept := by
    unfold poolSize
    rw [← hr.size_eq]
    exact List.length_take
  unfold selectPhase
  show Follows _ _ _ _ ((enter .selecting >>= fun _ => Engine.onLab (Run.ofFault (r.select e.plan.gap)) >>= _) s)
  rw [hpool]
  refine .after rfl rfl rfl (.after rfl rfl rfl ?_)
  rw [← hr.generation, ← hsize]
  refine (notify_follows hquotable .selected _ _).bind ?_
  intro _ s' hs'
  have hr₁ : Poised h g r { s with phase := some .selecting } := ⟨hr.population, hr.generation, hr.sane⟩
  exact .quiet ⟨rfl, rfl, rfl, hr₁.unmoved hs'⟩

theorem replacePhase_follows (hr : Poised h g r s) (hpool : r.select e.plan.gap = .ok pool) :
    Follows e.observers.length s [(.generationEnd, (g : Int) + 1, e.programCount)]
      (fun _ s' => ∃ next, Poised h (g + 1) next s') (e.noted.replacePhase r pool s) := by
  have hbreeds : Ends (fun next lab' => lab'.world.2 = s.lab.world.2 ∧
      Viable.Sane h none lab'.store { next with generation := r.generation + 1 }) Never
      (reproduce e.plan.breeding pool s.lab) := by
    refine noted_ends (P := fun next t => Viable.Sane h none t { next with generation := r.generation + 1 })
      (fun _ => reproduce_inStep Lab.carried_beside _ pool) ?_
    exact (Viable.breeds h none r pool _ hr.sane hpool).imp (fun _ _ hout => hout none (.inl rfl)) fun _ _ => id
  refine .after rfl rfl rfl (.afterLab hbreeds ?_)
  intro offspring lab hsane
  have hnext : Poised h (g + 1) { offspring with generation := r.generation + 1 }
      { s with
        lab := lab, phase := some .replaced,
        population := some { offspring with generation := r.generation + 1 } } :=
    ⟨rfl, by rw [hr.generation]; rfl, hsane⟩
  refine .after rfl rfl rfl ?_
  rw [← hr.generation, ← hnext.size_eq]
  exact (notify_follows hquotable .generationEnd _ _).imp fun _ _ hs' => ⟨_, hnext.unmoved hs'⟩

/-- **One generation follows the agenda of its events.** -/
theorem stepBy_follows (hevaluation : e.Evaluates evaluation) (hlabel : e.canLabel g = true) (hp : Poised h g p s)
    (hkept : Population.keptCount e.plan.breeding.populationSize e.plan.gap = .ok kept) :
    Follows e.observers.length s
      (lap e.programCount (e.poolSize kept) g)
      (fun _ s' => ∃ next, Poised h (g + 1) next s') (e.noted.stepBy (fun q => (evaluation q).noted) s) := by
  rw [stepBy_of_population _ _ hp.population]
  -- the agenda of a generation is made of those of its phases
  show Follows _ s ([_] ++ ([_] ++ ([_] ++ ([_] ++ [])))) _ _
  refine (evaluatePhaseBy_follows hquotable hevaluation hlabel hp).bind fun _ s₁ h₁ => ?_
  refine (rankPhase_follows hquotable h₁).bind fun r s₂ h₂ => ?_
  refine (selectPhase_follows hquotable h₂ hkept).bind fun pool s₃ h₃ => ?_
  refine (replacePhase_follows hquotable h₃.2 h₃.1).bind ?_
  rintro _ s₄ ⟨next, hnext⟩
  have hanswer : ∀ phase, Poised h (g + 1) next { s₄ with phase := phase, lastRanked := some r } :=
    fun _ => ⟨hnext.population, hnext.generation, hnext.sane⟩
  refine .after rfl rfl rfl ?_
  cases s₄.isFinished e.noted.plan.maxGenerations with
  | true => exact .quiet ⟨rfl, rfl, next, hanswer (some .terminated)⟩
  | false => exact .quiet ⟨rfl, rfl, next, hanswer s₄.phase⟩

/-- The first population is the one of the generation numbered zero. -/
theorem populate_follows (hstop : s.stopRequested = false) :
    Follows e.observers.length s [(.initialized, 0, e.programCount)]
      (fun _ s' => ∃ p, Poised h 0 p s') (e.noted.populate s) := by
  have hgenerates : Ends (fun p lab' => lab'.world.2 = s.lab.world.2 ∧ Viable.Sane h none lab'.store p ∧
      p.generation = 0) Never
      (Population.generate e.plan.program e.noted.task e.plan.breeding.populationSize s.lab) := by
    refine noted_ends (P := fun p t => Viable.Sane h none t p ∧ p.generation = 0)
      (fun record => generate_inStep (e.task.noted_beside (withRecord_untouched record)) _ _) ?_
    exact ((Viable.generates h _).and (generate_generation ..)).imp (fun _ _ hout => hout) fun _ _ he => he.1
  refine .afterLab hgenerates ?_
  rintro p lab ⟨hsane, hgeneration⟩
  have hp : Poised h 0 p { s with
      lab := lab, population := some p, lastRanked := none, stopRequested := false, phase := some .initialized } :=
    ⟨rfl, hgeneration, hsane⟩
  refine .after rfl rfl rfl (.after rfl rfl hstop.symm ?_)
  rw [← hp.size_eq, ← hgeneration]
  refine (notify_follows hquotable .initialized p _).bind ?_
  intro _ s' hs'
  exact .quiet ⟨rfl, rfl, p, hp.unmoved hs'⟩

end Phases

/-! ## Generations until none is left -/

/-- In turns from the generation numbered `g` on, the generation in which an observer asks to stop is the last one. -/
def Halts (size kept g : Nat) (turns : List Turn) : Prop :=
  ∀ t ∈ turns, t.stops = true → turns.map Turn.subject <+: laps size kept g (t.subject.due - g)

/-- Between two states, observers have had turns of the protocol, from the generation numbered `g` on. -/
structure Rounds (n size kept g limit : Nat) (s s' : EngineState γ (σ × List Notice)) (turns : List Turn) : Prop where
  heard : Heard n s s' turns
  order : turns.map Turn.subject <+: laps size kept g limit
  halts : Halts size kept g turns

namespace Rounds

variable {n size kept g limit : Nat} {s s' s'' : EngineState γ (σ × List Notice)} {turns turns' : List Turn}

theorem nil : Rounds n size kept g limit s s [] :=
  ⟨⟨(List.append_nil _).symm, List.forall_mem_nil _⟩, List.nil_prefix, List.forall_mem_nil _⟩

/-- A single generation is the last one. -/
theorem of_lap (hheard : Heard n s s' turns) (horder : turns.map Turn.subject <+: lap size kept g) :
    Rounds n size kept g (limit + 1) s s' turns := by
  refine ⟨hheard, horder.trans (List.prefix_append _ _), ?_⟩
  intro t ht _
  have hdue := due_of_mem_lap (horder.subset (List.mem_map_of_mem ht))
  rw [hdue, Nat.add_sub_cancel_left]
  exact horder.trans (List.prefix_append _ _)

/-- A generation in which nobody has asked to stop goes first. -/
theorem cons (hheard : Heard n s s' turns) (hlap : turns.map Turn.subject = lap size kept g)
    (hgoes : turns.any Turn.stops = false) (h : Rounds n size kept (g + 1) limit s' s'' turns') :
    Rounds n size kept g (limit + 1) s s'' (turns ++ turns') := by
  refine ⟨hheard.trans h.heard, ?_, ?_⟩
  · rw [List.map_append, hlap]
    exact List.prefix_append_right_inj _ |>.mpr h.order
  · intro t ht hstops
    rcases List.mem_append.mp ht with ht | ht
    · exact absurd hstops (List.any_eq_false.mp hgoes t ht)
    · -- the request belongs to a later generation
      have hdue := (due_of_mem_laps (h.order.subset (List.mem_map_of_mem ht))).1
      obtain ⟨rest, hrest⟩ : ∃ rest, t.subject.due - g = rest + 1 := ⟨t.subject.due - (g + 1), by omega⟩
      have hlater := h.halts t ht hstops
      rw [show t.subject.due - (g + 1) = rest by omega] at hlater
      rw [hrest, List.map_append, hlap]
      exact List.prefix_append_right_inj _ |>.mpr hlater

/-- After a request to stop no generation is left out, and none is added. -/
theorem due_eq (h : Rounds n size kept g limit s s' turns) {count : Nat}
    (hlaps : turns.map Turn.subject = laps size kept g count) {t : Turn} (ht : t ∈ turns) (hstops : t.stops = true) :
    t.subject.due = g + count := by
  have hlength := (h.halts t ht hstops).length_le
  rw [hlaps, length_laps, length_laps] at hlength
  have hmem := List.mem_map_of_mem (f := Turn.subject) ht
  rw [hlaps] at hmem
  have hdue := due_of_mem_laps hmem
  omega

end Rounds

section Runs

variable [Generator γ] [Generator.Honest γ] {e : Engine σ} {shape : Shape} {sizes : BankSizes}
  {h : e.unwatched.Viable shape sizes} {g kept : Nat} {p : Population} {s : EngineState γ (σ × List Notice)}

omit [Generator γ] [Generator.Honest γ] in
theorem Poised.generation_eq (hp : Poised h g p s) : s.generation = g := by
  unfold EngineState.generation
  rw [hp.population]
  exact hp.generation

omit [Generator.Honest γ] in
/-- Once an observer has asked to stop, there is no further generation. -/
theorem generationsUpToBy_of_stop (e : Engine σ) (evaluation : Population → Run γ σ Nat) {s : EngineState γ σ}
    (hstop : s.stopRequested = true) (limit : Nat) :
    e.generationsUpToBy evaluation (fun _ => return ()) limit s = .ok [] s := by
  cases limit with
  | zero => rfl
  | succ limit =>
      have hfinished : s.isFinished e.plan.maxGenerations = true := by
        unfold EngineState.isFinished
        rw [hstop]
        rfl
      show (if s.isFinished e.plan.maxGenerations then _ else _ : Evolving γ σ (List Unit)) s = _
      rw [hfinished]
      rfl

/-- What the generations that are left come to when no observer fails: all of them, or those up to a request to stop. -/
structure Halted (h : e.unwatched.Viable shape sizes) (kept g limit : Nat)
    (s s' : EngineState γ (σ × List Notice)) (turns : List Turn) (count : Nat) : Prop where
  rounds : Rounds e.observers.length e.programCount (e.poolSize kept) g limit s s' turns
  subjects : turns.map Turn.subject = laps e.programCount (e.poolSize kept) g count
  calm : ∀ t ∈ turns, t.fails = false
  stop : s'.stopRequested = (s.stopRequested || turns.any Turn.stops)
  /-- An engine that has been asked to stop before has no turn. -/
  idle : s.stopRequested = true → turns = []
  enough : count = limit ∨ s'.stopRequested = true
  poised : ∃ q, Poised h (g + count) q s'

/-- What the generations that are left come to when an observer fails. -/
structure Broken (e : Engine σ) (kept g limit : Nat) (s s' : EngineState γ (σ × List Notice)) (turns : List Turn)
    (last : Turn) : Prop where
  rounds : Rounds e.observers.length e.programCount (e.poolSize kept) g limit s s' (turns ++ [last])
  calm : ∀ t ∈ turns, t.fails = false
  fails : last.fails = true
  goes : s.stopRequested = false

namespace Halted

variable {limit count : Nat} {s' s'' : EngineState γ (σ × List Notice)} {turns turns' : List Turn}

omit [Generator γ] [Generator.Honest γ] in
theorem nil (hp : Poised h g p s) (hend : limit = 0 ∨ s.stopRequested = true) : Halted h kept g limit s s [] 0 :=
  ⟨.nil, rfl, List.forall_mem_nil _, by simp, fun _ => rfl, hend.imp Eq.symm id, p, hp⟩

omit [Generator γ] [Generator.Honest γ] in
/-- The generation in which an observer asks to stop is the last one. -/
theorem single (hgoes : s.stopRequested = false) (hheard : Heard e.observers.length s s' turns)
    (hlap : turns.map Turn.subject = lap e.programCount (e.poolSize kept) g) (hcalm : ∀ t ∈ turns, t.fails = false)
    (hstop : s'.stopRequested = turns.any Turn.stops) (hstops : turns.any Turn.stops = true)
    (hp : Poised h (g + 1) p s') : Halted h kept g (limit + 1) s s' turns 1 := by
  refine ⟨.of_lap hheard (by rw [hlap]), ?_, hcalm, ?_, ?_, .inr (hstop.trans hstops), p, hp⟩
  · rw [hlap]
    exact (List.append_nil _).symm
  · rw [hstop, hgoes, Bool.false_or]
  · exact fun hasked => Bool.noConfusion (hasked.symm.trans hgoes)

omit [Generator γ] [Generator.Honest γ] in
/-- A generation in which nobody asks to stop is followed by the ones that are left. -/
theorem cons (hgoes : s.stopRequested = false) (hheard : Heard e.observers.length s s' turns)
    (hlap : turns.map Turn.subject = lap e.programCount (e.poolSize kept) g) (hcalm : ∀ t ∈ turns, t.fails = false)
    (hstop : s'.stopRequested = false) (hstops : turns.any Turn.stops = false)
    (hrest : Halted h kept (g + 1) limit s' s'' turns' count) :
    Halted h kept g (limit + 1) s s'' (turns ++ turns') (count + 1) := by
  refine ⟨hrest.rounds.cons hheard hlap hstops, ?_, ?_, ?_, ?_, hrest.enough.imp (congrArg Nat.succ) id, ?_⟩
  · rw [List.map_append, hlap, hrest.subjects]
    rfl
  · exact fun t ht => (List.mem_append.mp ht).elim (hcalm t) (hrest.calm t)
  · rw [hrest.stop, hstop, hgoes, List.any_append, hstops]
    simp only [Bool.false_or]
  · exact fun hasked => Bool.noConfusion (hasked.symm.trans hgoes)
  · rw [show g + (count + 1) = g + 1 + count by omega]
    exact hrest.poised

end Halted

omit [Generator γ] [Generator.Honest γ] in
/-- A generation in which nobody asks to stop goes before the one in which an observer fails. -/
theorem Broken.cons {limit : Nat} {s' s'' : EngineState γ (σ × List Notice)} {turns turns' : List Turn} {last : Turn}
    (hgoes : s.stopRequested = false) (hheard : Heard e.observers.length s s' turns)
    (hlap : turns.map Turn.subject = lap e.programCount (e.poolSize kept) g) (hcalm : ∀ t ∈ turns, t.fails = false)
    (hstops : turns.any Turn.stops = false) (hrest : Broken e kept (g + 1) limit s' s'' turns' last) :
    Broken e kept g (limit + 1) s s'' (turns ++ turns') last := by
  refine ⟨?_, fun t ht => (List.mem_append.mp ht).elim (hcalm t) (hrest.calm t), hrest.fails, hgoes⟩
  rw [List.append_assoc]
  exact hrest.rounds.cons hheard hlap hstops

/-- The generations that are left, one after the other; the induction is on how many there may be. -/
theorem generationsUpToBy_obeys {evaluation : Population → Run γ σ Nat} (hquotable : ∀ o ∈ e.observers, o.Quotable)
    (hevaluation : e.Evaluates evaluation) (hwritable : (Value.int e.plan.maxGenerations).isWritable = true)
    (limit : Nat) (hp : Poised h g p s)
    (hkept : Population.keptCount e.plan.breeding.populationSize e.plan.gap = .ok kept)
    (hlimit : (e.plan.maxGenerations - g).toNat = limit) :
    Ends (fun _ s' => ∃ turns count, Halted h kept g limit s s' turns count)
      (fun er s' => (∃ oe, er = .observer oe) ∧ ∃ turns last, Broken e kept g limit s s' turns last)
      (e.noted.generationsUpToBy (fun q => (evaluation q).noted) (fun _ => return ()) limit s) := by
  induction limit generalizing g p s with
  | zero => exact ⟨[], 0, .nil hp (.inl rfl)⟩
  | succ limit ih =>
      have hleft : (g : Int) < e.plan.maxGenerations := by omega
      refine ends_bind.mpr (Stages.ends_isFinished.mpr ?_)
      cases hfinished : s.isFinished e.noted.plan.maxGenerations with
      | true =>
          -- generations are left, so that an observer must have asked to stop
          have hnot : ¬ e.noted.plan.maxGenerations ≤ g := Int.not_le.mpr hleft
          unfold EngineState.isFinished at hfinished
          rw [hp.generation_eq, decide_eq_false hnot, Bool.or_false] at hfinished
          exact ⟨[], 0, .nil hp (.inr hfinished)⟩
      | false =>
          have hgoes : s.stopRequested = false := (Bool.or_eq_false_iff.mp hfinished).1
          have hlabel : e.canLabel g = true := Viable.canLabel_of_between hwritable (Int.natCast_nonneg g) hleft
          refine Ends.bind (stepBy_follows hquotable hevaluation hlabel hp hkept) ?_ ?_
          · rintro r s₁ ⟨turns, hheard, hlap, hcalm, hstop, next, hnext⟩
            rw [hgoes, Bool.false_or] at hstop
            refine ends_bind.mpr ?_
            show Ends _ _ ((e.noted.generationsUpToBy _ _ limit >>= _) s₁)
            cases hstops : turns.any Turn.stops with
            | true =>
                refine ends_bind.mpr ?_
                rw [generationsUpToBy_of_stop _ _ (hstop.trans hstops)]
                exact ⟨turns, 1, .single hgoes hheard hlap hcalm hstop hstops hnext⟩
            | false =>
                rw [hstops] at hstop
                refine (ih hnext (by push_cast; omega)).bind ?_ ?_
                · rintro _ s₂ ⟨turns', count, hrest⟩
                  exact ⟨turns ++ turns', count + 1, hrest.cons hgoes hheard hlap hcalm hstop hstops⟩
                · rintro er s₂ ⟨hobserver, turns', last, hrest⟩
                  exact ⟨hobserver, turns ++ turns', last, hrest.cons hgoes hheard hlap hcalm hstops⟩
          · rintro er s₁ ⟨hobserver, turns, last, hheard, horder, hcalm, hfails⟩
            exact ⟨hobserver, turns, last, .of_lap hheard horder, hcalm, hfails, hgoes⟩

/-! ## Whole runs -/

/-- The turns of a run of at most `limit` generations, in the record that `n` observers have written. -/
structure Obeys (n size kept limit : Nat) (record : List Notice) (turns : List Turn) : Prop where
  /-- The record holds what the observers have answered in these turns, and nothing else. -/
  record_eq : record = turns.flatMap Turn.notices
  complete : ∀ t ∈ turns, t.answers.length = n
  /-- Every observer is told of every turn. -/
  heard : ∀ i < n, heardBy i record = turns.map Turn.subject
  order : turns.map Turn.subject <+: protocol size kept limit
  /-- The generation in which an observer asks to stop is the last one. -/
  stop : ∀ t ∈ turns, t.stops = true → turns.map Turn.subject <+: protocol size kept t.subject.due
  /-- The turn in which an observer fails is the last one. -/
  failure : ∀ t ∈ turns.dropLast, t.fails = false

omit [Generator γ] [Generator.Honest γ] in
/-- The first population, and the generations after it unless an observer asks to stop right away. -/
theorem Obeys.of_rounds {n size kept limit : Nat} {s₀ s s' : EngineState γ (σ × List Notice)} {first : Turn}
    {turns : List Turn} (h₀ : s₀.lab.world.2 = []) (hheard : Heard n s₀ s [first])
    (hfirst : first.subject = (.initialized, 0, size)) (hstop : first.stops = true → turns = [])
    (h : Rounds n size kept 0 limit s s' turns) (hcalm : ∀ t ∈ (first :: turns).dropLast, t.fails = false) :
    Obeys n size kept limit s'.lab.world.2 (first :: turns) := by
  have hall := hheard.trans h.heard
  have hrecord : s'.lab.world.2 = (first :: turns).flatMap Turn.notices := by rw [hall.record, h₀]; rfl
  refine ⟨hrecord, hall.complete, ?_, ?_, ?_, hcalm⟩
  · intro i hi
    rw [hrecord]
    exact heardBy_turns hi hall.complete
  · rw [List.map_cons, hfirst]
    exact List.cons_prefix_cons.mpr ⟨rfl, h.order⟩
  · intro t ht hstops
    rw [List.map_cons, hfirst]
    refine List.cons_prefix_cons.mpr ⟨rfl, ?_⟩
    rcases List.mem_cons.mp ht with rfl | ht
    · rw [hstop hstops]
      exact List.nil_prefix
    · exact h.halts t ht hstops

/-- The turns of a run that ends after `count` generations: after all of them, or after the first request to stop. -/
structure Ended (size kept limit : Nat) (turns : List Turn) (count : Nat) : Prop where
  calm : ∀ t ∈ turns, t.fails = false
  order : turns.map Turn.subject = protocol size kept count
  enough : count = limit ∨ ∃ t ∈ turns, t.stops = true ∧ t.subject.due = count

omit [Generator γ] [Generator.Honest γ] in
theorem Ended.of_rounds {n size kept limit count : Nat} {s s' : EngineState γ (σ × List Notice)} {first : Turn}
    {turns : List Turn} (hfirst : first.subject = (.initialized, 0, size)) (hstop : first.stops = true → turns = [])
    (h : Rounds n size kept 0 limit s s' turns) (hlaps : turns.map Turn.subject = laps size kept 0 count)
    (hcalm : ∀ t ∈ first :: turns, t.fails = false)
    (hend : count = limit ∨ (first.stops || turns.any Turn.stops) = true) :
    Ended size kept limit (first :: turns) count := by
  refine ⟨hcalm, ?_, hend.imp id fun hstops => ?_⟩
  · rw [List.map_cons, hfirst, hlaps]
    rfl
  · rcases Bool.or_eq_true_iff.mp hstops with hstops | hstops
    · -- the request was made before the first generation
      rw [hstop hstops] at hlaps
      have hzero := congrArg List.length hlaps
      rw [length_laps, List.map_nil, List.length_nil] at hzero
      obtain rfl : count = 0 := by omega
      exact ⟨first, List.mem_cons_self .., hstops, by rw [hfirst]; rfl⟩
    · obtain ⟨t, ht, hstops⟩ := List.any_eq_true.mp hstops
      have hdue := h.due_eq hlaps ht hstops
      exact ⟨t, List.mem_cons_of_mem _ ht, hstops, by omega⟩

/-- The first population is made, and workers are reported on. -/
theorem commence_follows (hquotable : ∀ o ∈ e.observers, o.Quotable) (hpopulation : s.population = none)
    (hstop : s.stopRequested = false) :
    Follows e.observers.length s [(.initialized, 0, e.programCount)] (fun _ s' => ∃ p, Poised h 0 p s')
      (e.noted.commence s) := by
  have hcurrent : Follows e.observers.length s [(.initialized, 0, e.programCount)] (fun _ s' => ∃ p, Poised h 0 p s')
      (e.noted.current s) := by
    rw [current_of_none _ hpopulation]
    exact populate_follows hquotable hstop
  refine hcurrent.bind ?_
  rintro _ s' ⟨p, hp⟩
  unfold reportWorkers
  split
  · exact .quiet ⟨rfl, rfl, p, hp.population, hp.generation, hp.sane⟩
  · exact .quiet ⟨rfl, rfl, p, hp⟩

omit [Generator γ] [Generator.Honest γ] in
/-- The turns of a fresh engine of which no observer has failed. -/
theorem Halted.obeys {limit count : Nat} {s₀ s' : EngineState γ (σ × List Notice)} {first : Turn} {turns : List Turn}
    (h₀ : s₀.lab.world.2 = []) (hheard : Heard e.observers.length s₀ s [first])
    (hfirst : first.subject = (.initialized, 0, e.programCount)) (hcalm : first.fails = false)
    (hstop : s.stopRequested = first.stops) (hhalted : Halted h kept 0 limit s s' turns count) :
    Obeys e.observers.length e.programCount (e.poolSize kept) limit s'.lab.world.2 (first :: turns) ∧
      Ended e.programCount (e.poolSize kept) limit (first :: turns) count := by
  have hall : ∀ t ∈ first :: turns, t.fails = false := List.forall_mem_cons.mpr ⟨hcalm, hhalted.calm⟩
  have hnone : first.stops = true → turns = [] := fun hstops => hhalted.idle (hstop.trans hstops)
  have hend := hhalted.enough
  rw [hhalted.stop, hstop] at hend
  exact ⟨.of_rounds h₀ hheard hfirst hnone hhalted.rounds fun t ht => hall t (List.mem_of_mem_dropLast ht),
    .of_rounds hfirst hnone hhalted.rounds hhalted.subjects hall hend⟩

omit [Generator γ] [Generator.Honest γ] in
/-- The turns of a fresh engine of which an observer has failed in the last one, after the first population. -/
theorem Broken.obeys {limit : Nat} {s₀ s' : EngineState γ (σ × List Notice)} {first last : Turn} {turns : List Turn}
    (h₀ : s₀.lab.world.2 = []) (hheard : Heard e.observers.length s₀ s [first])
    (hfirst : first.subject = (.initialized, 0, e.programCount)) (hcalm : first.fails = false)
    (hstop : s.stopRequested = first.stops) (hbroken : Broken e kept 0 limit s s' turns last) :
    Obeys e.observers.length e.programCount (e.poolSize kept) limit s'.lab.world.2 (first :: (turns ++ [last])) := by
  have hgoes := hstop.symm.trans hbroken.goes
  refine .of_rounds h₀ hheard hfirst (fun hstops => Bool.noConfusion (hstops.symm.trans hgoes)) hbroken.rounds ?_
  rw [← List.cons_append, List.dropLast_concat]
  exact List.forall_mem_cons.mpr ⟨hcalm, hbroken.calm⟩

/-- What the generations of a fresh engine come to, whatever its observers answer. -/
theorem generationsBy_obeys {evaluation : Population → Run γ σ Nat} (hquotable : ∀ o ∈ e.observers, o.Quotable)
    (hevaluation : e.Evaluates evaluation) (hwritable : (Value.int e.plan.maxGenerations).isWritable = true)
    (hpopulation : s.population = none) (hstop : s.stopRequested = false) (hrecord : s.lab.world.2 = [])
    (hkept : Population.keptCount e.plan.breeding.populationSize e.plan.gap = .ok kept) :
    Ends
      (fun _ s' => ∃ turns count, Obeys e.observers.length e.programCount (e.poolSize kept) e.plan.maxGenerations.toNat
          s'.lab.world.2 turns ∧
        Ended e.programCount (e.poolSize kept) e.plan.maxGenerations.toNat turns count ∧
        s'.phase = some .terminated ∧ ∃ q, Poised h count q s')
      (fun er s' => (∃ oe, er = .observer oe) ∧ ∃ turns, Obeys e.observers.length e.programCount (e.poolSize kept)
          e.plan.maxGenerations.toNat s'.lab.world.2 turns ∧ ∃ last ∈ turns.getLast?, last.fails = true)
      (e.noted.generationsBy (fun q => (evaluation q).noted) (fun _ => return ()) s) := by
  refine Ends.bind (commence_follows (h := h) hquotable hpopulation hstop) ?_ ?_
  · rintro _ s₁ ⟨turns₀, hheard, hsubject, hcalm, hstop₁, q, hq⟩
    obtain ⟨first, rfl, hfirst⟩ := List.map_eq_singleton_iff.mp hsubject
    have hcalm₀ : first.fails = false := hcalm first (List.mem_singleton_self _)
    rw [hstop, Bool.false_or, List.any_cons, List.any_nil, Bool.or_false] at hstop₁
    have hlimit : (e.noted.plan.maxGenerations - ((0 : Nat) : Int)).toNat = e.plan.maxGenerations.toNat := by
      show (e.plan.maxGenerations - 0).toNat = _
      rw [Int.sub_zero]
    refine ends_bind.mpr (ends_get.mpr ?_)
    rw [hq.generation_eq, hlimit]
    refine (generationsUpToBy_obeys hquotable hevaluation hwritable _ hq hkept hlimit).bind ?_ ?_
    · rintro _ s₂ ⟨turns, count, hhalted⟩
      obtain ⟨r, hr⟩ := hhalted.poised
      rw [Nat.zero_add] at hr
      obtain ⟨hobeys, hended⟩ := hhalted.obeys hrecord hheard hfirst hcalm₀ hstop₁
      exact ⟨first :: turns, count, hobeys, hended, rfl, r, hr.population, hr.generation, hr.sane⟩
    · rintro er s₂ ⟨hobserver, turns, last, hbroken⟩
      refine ⟨hobserver, first :: (turns ++ [last]), hbroken.obeys hrecord hheard hfirst hcalm₀ hstop₁, last, ?_,
        hbroken.fails⟩
      rw [List.getLast?_cons, List.getLast?_concat]
      rfl
  · rintro er s₁ ⟨hobserver, turns₀, first, hheard, horder, -, hfails⟩
    -- there is one turn only
    obtain rfl : turns₀ = [] := by
      have := horder.length_le
      rw [List.length_map, List.length_append] at this
      exact List.length_eq_zero_iff.mp (by simpa using this)
    refine ⟨hobserver, [first], .of_rounds hrecord hheard ?_ (fun _ => rfl) .nil (List.forall_mem_nil _), first, rfl,
      hfails⟩
    exact (List.cons_prefix_cons.mp horder).1

/-- **What observers are told in a run**, whatever they answer. -/
theorem runBy_obeys {evaluation : Population → Run γ σ Nat} (h : e.unwatched.Viable shape sizes)
    (hquotable : ∀ o ∈ e.observers, o.Quotable) (hevaluation : e.Evaluates evaluation)
    (hwritable : (Value.int e.plan.maxGenerations).isWritable = true)
    (hkept : Population.keptCount e.plan.breeding.populationSize e.plan.gap = .ok kept) (source : γ) (world : σ) :
    Ends
      (fun _ s' => ∃ turns count, Obeys e.observers.length e.programCount (e.poolSize kept) e.plan.maxGenerations.toNat
          s'.lab.world.2 turns ∧
        Ended e.programCount (e.poolSize kept) e.plan.maxGenerations.toNat turns count ∧
        s'.phase = some .terminated ∧ s'.generation = (count : Int))
      (fun er s' => (∃ oe, er = .observer oe) ∧ ∃ turns, Obeys e.observers.length e.programCount (e.poolSize kept)
          e.plan.maxGenerations.toNat s'.lab.world.2 turns ∧ ∃ last ∈ turns.getLast?, last.fails = true)
      (e.noted.runBy (fun q => (evaluation q).noted) (.start source (world, []))) := by
  refine ends_bind.mpr (Stages.ends_reportStart fun journal => ?_)
  refine (generationsBy_obeys (h := h) hquotable hevaluation hwritable rfl rfl rfl hkept).bind ?_ fun _ _ he => he
  rintro _ s' ⟨turns, count, hobeys, hended, hphase, q, hq⟩
  refine ends_bind.mpr (ends_get.mpr ?_)
  cases hlast : s'.lastRanked.or s'.population with
  | none =>
      rw [hq.population] at hlast
      exact nomatch (Option.or_eq_none_iff.mp hlast).2
  | some last => exact ⟨turns, count, hobeys, hended, hphase, hq.generation_eq⟩

end Runs

/-! ## Fresh engines -/

/-- An engine is made of the plan that its settings describe, and of what it is given. -/
theorem ofSettings_ok {settings : RunSettings} {task : Task σ} {observers : List (Observer σ)} {processors : Nat}
    {seconds : String} {e : Engine σ} (h : ofSettings settings task observers processors seconds = .ok e) :
    settings.plan = .ok e.plan ∧ e = ⟨e.plan, task, observers, processors, seconds⟩ ∧
      ∀ others, ofSettings settings task others processors seconds = .ok { e with observers := others } := by
  unfold ofSettings at h ⊢
  obtain ⟨⟨⟩, hvalid, h⟩ := except_bind_eq_ok.mp h
  obtain ⟨program, hprogram, h⟩ := except_bind_eq_ok.mp h
  obtain ⟨bound, hbind, h⟩ := except_bind_eq_ok.mp h
  obtain ⟨plan, hplan, h⟩ := except_bind_eq_ok.mp h
  obtain rfl := Except.ok.inj h
  refine ⟨hplan, rfl, fun others => ?_⟩
  rw [hvalid, hprogram, hplan]
  show (do let _ ← program.bind task.inputCount task.actionCount; _) = _
  rw [hbind]
  rfl

variable [Generator γ] [Generator.Honest γ]

/--
**Observers are told of the events of a run in the order of the protocol.** An engine with accepted settings and not
more generations than can be written, a task that answers on every program of the bound shape, observers whose errors
can be quoted and a generator that keeps its promise runs alike whether its observers write their notices down or not,
and however programs are scored. Every observer, whatever any of them answers, is told of a prefix of the protocol. If
one fails, the run ends with the error of an observer, and the event is the last one, of which all have been told;
otherwise the run terminates, after the first generation in which an observer has asked to stop, or after all of them.
-/
theorem run_obeys_protocol {settings : RunSettings} {task : Task σ} (observers : List (Observer σ)) (processors : Nat)
    (seconds : String) {size limit : Int} {program bound : ProgramSettings} (hvalid : settings.validate = .ok ())
    (hsize : settings.populationSize = .int size) (hlt : size < 2 ^ 53) (hlimit : settings.maxGenerations = .int limit)
    (hwritable : (Value.int limit).isWritable = true) (hprogram : settings.programSettings = .ok program)
    (hbind : program.bind task.inputCount task.actionCount = .ok bound)
    (hanswers : task.Answers (bound.shape = .ok ·) fun _ _ _ => True) (hquotable : ∀ o ∈ observers, o.Quotable)
    (source : γ) (world : σ) :
    ∃ e kept, ofSettings settings task observers processors seconds = .ok e ∧
      Population.keptCount size e.plan.gap = .ok kept ∧ 1 ≤ kept ∧
      ∀ evaluation : Population → Run γ σ Nat, e.Evaluates evaluation →
        Agree (EngineState.Beside WithNotices) (e.runBy evaluation (.start source world))
          (e.noted.runBy (fun p => (evaluation p).noted) (.start source (world, []))) ∧
        Ends
          (fun _ s' => ∃ turns count,
            Obeys observers.length size.toNat (min kept size.toNat) limit.toNat s'.lab.world.2 turns ∧
            Ended size.toNat (min kept size.toNat) limit.toNat turns count ∧ s'.phase = some .terminated ∧
            s'.generation = (count : Int))
          (fun er s' => (∃ oe, er = .observer oe) ∧ ∃ turns,
            Obeys observers.length size.toNat (min kept size.toNat) limit.toNat s'.lab.world.2 turns ∧
            ∃ last ∈ turns.getLast?, last.fails = true)
          (e.noted.runBy (fun p => (evaluation p).noted) (.start source (world, []))) := by
  obtain ⟨e₀, shape, sizes, he₀, -, rfl, hviable⟩ :=
    viable_of_validate processors seconds hvalid hsize hlt hprogram hbind hanswers (List.forall_mem_nil Observer.Steady)
  obtain ⟨hplan, heq, hobservers⟩ := ofSettings_ok he₀
  obtain rfl := settings.maxGenerations_of_plan hplan hlimit
  have hunwatched : Viable (unwatched { e₀ with observers := observers }) shape sizes := by
    rw [heq] at hviable ⊢
    exact hviable
  obtain ⟨kept, hkept, hpos⟩ := Population.keptCount_ok hviable.gap hviable.one_le_size hviable.size
  refine ⟨{ e₀ with observers := observers }, kept, hobservers observers, hkept, hpos, fun evaluation hevaluation => ?_⟩
  exact ⟨runBy_inStep (noted_beside _) (fun p => Run.noted_inStep withNotices_untouched _) rfl rfl _ _
      (EngineState.start_beside source world),
    runBy_obeys hunwatched hquotable hevaluation hwritable hkept source world⟩

/-- The protocol of a run with the default settings, of which one observer wants a certain fitness. -/
theorem run_obeys_protocol_default :
    ∃ e kept, ofSettings {} brevity [Observer.silent, Observer.target 0.5] 1 "0.00" = .ok e ∧
      Population.keptCount 100 e.plan.gap = .ok kept ∧
      Ends
        (fun _ s' => ∃ turns count, Obeys 2 100 (min kept 100) 100 s'.lab.world.2 turns ∧
          Ended 100 (min kept 100) 100 turns count ∧ s'.phase = some .terminated ∧ s'.generation = (count : Int))
        (fun er s' => (∃ oe, er = .observer oe) ∧ ∃ turns, Obeys 2 100 (min kept 100) 100 s'.lab.world.2 turns ∧
          ∃ last ∈ turns.getLast?, last.fails = true)
        (e.noted.runBy (fun p => (evaluate e.task e.plan.reevaluate p).noted) (.start Least.least ((), []))) := by
  have hvalid : ({} : RunSettings).validate = .ok () := rfl
  obtain ⟨bound, hbind⟩ : ∃ bound, ({} : ProgramSettings).bind brevity.inputCount brevity.actionCount = .ok bound :=
    ⟨_, rfl⟩
  have hanswers : brevity.Answers (bound.shape = .ok ·) fun _ _ _ => True :=
    (brevity_answers _).imp fun _ _ _ _ => trivial
  have hquotable : ∀ o ∈ ([Observer.silent, Observer.target 0.5] : List (Observer Unit)), o.Quotable :=
    List.forall_mem_cons.mpr ⟨(silent_steady _ (List.mem_singleton_self _)).quotable,
      List.forall_mem_singleton.mpr (target_steady 0.5).quotable⟩
  obtain ⟨e, kept, he, hkept, -, hrun⟩ := run_obeys_protocol [Observer.silent, Observer.target 0.5] 1 "0.00" hvalid
    rfl (by decide) rfl (Value.isWritable_small (by decide)) rfl hbind hanswers hquotable Least.least ()
  exact ⟨e, kept, he, hkept, (hrun _ .alone).2⟩

/-! ## Out of protocol -/

omit [Generator.Honest γ] in
/-- A run fails as soon as its first population cannot be made. -/
theorem runBy_of_commence {e : Engine σ} {evaluation : Population → Run γ σ Nat} {err : Error → Prop}
    (h : ∀ s : EngineState γ σ, s.population = none →
      Ends (fun _ s' => Ends (fun _ _ => False) (fun er _ => err er) (e.generationsUpToBy evaluation
        (fun _ => return ()) (e.plan.maxGenerations - s'.generation).toNat s')) (fun er _ => err er) (e.commence s))
    (source : γ) (world : σ) :
    Ends (fun _ _ => False) (fun er _ => err er) (e.runBy evaluation (.start source world)) := by
  refine ends_bind.mpr (Stages.ends_reportStart fun journal => ?_)
  refine ((h _ rfl).bind ?_ fun _ _ he => he).bind (fun _ _ => False.elim) fun _ _ he => he
  intro _ s' hs'
  exact ends_bind.mpr (ends_get.mpr (hs'.bind (fun _ _ => False.elim) fun _ _ he => he))

/-- An engine with nobody but a silent observer holds its first population when it begins, and is not asked to stop. -/
theorem commence_brief {s : EngineState γ Unit} (hpopulation : s.population = none) :
    Ends (fun _ s' => s'.stopRequested = false ∧
      ∃ p, s'.population = some p ∧ p.generation = 0 ∧ p.programs ≠ []) Never (brief.commence s) := by
  obtain ⟨shape, sizes, hviable⟩ := brief_viable
  have hpopulate : Ends (fun p s' => s'.stopRequested = false ∧
      s'.population = some p ∧ p.generation = 0 ∧ p.programs ≠ []) Never (brief.populate s) := by
    refine (Stages.onLab_ends ((hviable.generates s.lab).and (generate_generation ..))).bind ?_ fun _ _ he => he.2.1
    rintro p s' ⟨-, hsane, hgeneration⟩
    refine ⟨rfl, rfl, hgeneration, ?_⟩
    rw [← List.length_pos_iff, hsane.complete.programs.length_eq]
    decide
  have hcurrent := hpopulate
  rw [← current_of_none brief hpopulation] at hcurrent
  exact hcurrent.bind (fun p _ hp => ⟨hp.1, p, hp.2⟩) fun _ _ => id

/-- A run fails when its first generation does. -/
theorem run_of_stepFrom {e : Engine Unit} {er : Error} (hcommence : e.commence = brief.commence (γ := γ))
    (hleft : 0 < e.plan.maxGenerations)
    (hfirst : ∀ (p : Population) (s : EngineState γ Unit), p.generation = 0 → p.programs ≠ [] →
      Ends (fun _ _ => False) (fun er' _ => er' = er) (e.stepFrom (evaluate e.task e.plan.reevaluate) p s))
    (source : γ) : ∃ s', e.run (.start source ()) = .error er s' := by
  have hfails : Ends (fun _ _ => False) (fun er' _ => er' = er) (e.run (.start source ())) := by
    refine runBy_of_commence (fun s hpopulation => ?_) source ()
    rw [hcommence]
    refine (commence_brief hpopulation).imp ?_ fun _ _ => False.elim
    rintro _ s' ⟨hstop, p, hp, hgeneration, hne⟩
    have hzero : s'.generation = 0 := by
      unfold EngineState.generation
      rw [hp]
      exact hgeneration
    obtain ⟨limit, hlimit⟩ : ∃ limit, (e.plan.maxGenerations - s'.generation).toNat = limit + 1 :=
      ⟨(e.plan.maxGenerations - s'.generation).toNat - 1, by omega⟩
    have hfinished : s'.isFinished e.plan.maxGenerations = false := by
      unfold EngineState.isFinished
      rw [hstop, hzero]
      simp [hleft]
    rw [hlimit]
    refine ends_bind.mpr (Stages.ends_isFinished.mpr ?_)
    rw [hfinished]
    refine Ends.bind ?_ (fun _ _ => False.elim) fun _ _ => id
    rw [stepBy_of_population _ _ hp]
    exact hfirst p s' hgeneration hne
  obtain ⟨er', s', hrun, rfl⟩ := hfails.exists_error
  exact ⟨s', hrun⟩

/-- An engine with an observer whose error cannot be quoted, and another one. -/
def disturbed : Engine Unit := { brief with observers := [Listener.mumbler.observer, Observer.silent] }

/--
**Without these provisos a run breaks the protocol off.** With more generations than can be written, with a task that
answers with an integer out of range, and with an observer whose error cannot be quoted, a run ends with a general
error, which is not the error of an observer, though the settings are accepted.
-/
theorem accepted_run_breaks_off :
    (∃ s', ofSettings { maxGenerations := .int (10 ^ Decimal.integerDigitLimit) } brevity [Observer.silent] 1 "0.00" =
        .ok (endless (10 ^ Decimal.integerDigitLimit)) ∧
      (endless (10 ^ Decimal.integerDigitLimit)).run (.start Least.least ()) =
        .error (.fault Fault.integerTooLong) s') ∧
    (∃ s', ofSettings { reevaluate := .bool true } (lavish (10 ^ 400)) [Observer.silent] 1 "0.00" =
        .ok (spendthrift (10 ^ 400)) ∧
      (spendthrift (10 ^ 400)).run (.start Least.least ()) = .error (.fault Fault.integerTooLarge) s') ∧
    ∃ s', ofSettings {} brevity disturbed.observers 1 "0.00" = .ok disturbed ∧
      disturbed.run (.start Least.least ()) = .error (.fault Fault.integerTooLong) s' := by
  refine ⟨?_, ?_, ?_⟩
  · have hunwritable := Value.isWritable_ten_pow
    have hpos : (0 : Int) < 10 ^ Decimal.integerDigitLimit := by positivity
    generalize (10 ^ Decimal.integerDigitLimit : Int) = n at hunwritable hpos
    obtain ⟨s', hrun⟩ := run_of_stepFrom (e := endless n) rfl hpos
      (fun p s _ _ => endless_unlabelled hunwritable p s) Least.least
    exact ⟨s', ofSettings_endless (Int.le_of_lt hpos), hrun⟩
  · have hn := ofInt_ten_pow
    generalize (10 ^ 400 : Int) = n at hn
    obtain ⟨s', hrun⟩ := run_of_stepFrom (e := spendthrift n) rfl (Int.natCast_pos.mpr (by decide : 0 < 100))
      (fun p s hgeneration hne => spendthrift_unscored hn hne hgeneration s) Least.least
    exact ⟨s', rfl, hrun⟩
  · obtain ⟨shape, sizes, hviable⟩ := brief_viable
    have hfails : Ends (fun _ _ => False) (fun er _ => er = .fault Fault.integerTooLong)
        (disturbed.run (.start Least.least ())) := by
      refine runBy_of_commence (fun s hpopulation => ?_) Least.least ()
      refine Ends.bind ?_ (fun _ _ => False.elim) fun _ _ he => he
      rw [current_of_none _ hpopulation]
      exact (Stages.onLab_ends (hviable.generates s.lab)).bind (fun _ _ _ => rfl) fun _ _ he => he.2.elim
    obtain ⟨er, s', hrun, rfl⟩ := hfails.exists_error
    exact ⟨s', rfl, hrun⟩

end Engine

end RegisterEvolution
