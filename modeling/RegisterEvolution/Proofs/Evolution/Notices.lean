import RegisterEvolution.Proofs.Evolution.Lockstep
import RegisterEvolution.Proofs.Evolution.Progress

/-!
# `Proofs.Evolution.Notices` — what observers are told

To speak of the events that observers see, every observer is made to write down what it has been told and what it has
answered, in a record that is part of the world. The engine with such a record is beside the one without, so that the
record changes nothing. In it, an event is a turn: all observers are told, one after the other, and a failure is one
among their answers.

* `Engine.noted`, `Engine.noted_beside` — the engine with a record;
* `Run.noted`, `Run.noted_inStep` — computations that do not touch the record;
* `Turn`, `dispatch_noted` — what telling observers of an event adds to the record;
* `Engine.Follows` — computations that tell observers what is on an agenda, unless one of them fails.
-/

namespace RegisterEvolution

variable {γ σ α β : Type}

/-! ## Engines with a record of notices -/

/-- What an observer has been told, and what it has answered; to raise an error is to fail. -/
structure Notice where
  observer : Nat
  event : Event
  population : Population
  answer : Verdict

/-- The observer numbered `i`, which writes its notices down. -/
def Observer.noted (o : Observer σ) (i : Nat) : Observer (σ × List Notice) :=
  ⟨o.name, fun event store p n =>
    match o.notice event store p ⟨n.journal, n.world.1⟩ with
    | .ok v n' => .ok v ⟨n'.journal, (n'.world, n.world.2 ++ [⟨i, event, p, v⟩])⟩
    | .error e n' => .error e ⟨n'.journal, (n'.world, n.world.2 ++ [⟨i, event, p, .failure⟩])⟩⟩

/-- The task in a world with a record of notices, which it does not touch. -/
def Task.noted (task : Task σ) : Task (σ × List Notice) :=
  ⟨task.name, task.inputCount, task.actionCount, fun p b =>
    match task.score p ⟨b.registers, b.world.1⟩ with
    | .ok v b' => .ok v ⟨b'.registers, (b'.world, b.world.2)⟩
    | .error e b' => .error e ⟨b'.registers, (b'.world, b.world.2)⟩⟩

/-- The engine whose observers write down what they are told. -/
def Engine.noted (e : Engine σ) : Engine (σ × List Notice) :=
  ⟨e.plan, e.task.noted, e.observers.zipIdx.map fun (o, i) => o.noted i, e.processors, e.seconds⟩

/-- A computation in a world with a record of notices, which it does not touch. -/
def Run.noted (m : Run γ σ α) : Run γ (σ × List Notice) α := fun lab =>
  let keep (lab' : Lab γ σ) : Lab γ (σ × List Notice) := { lab' with world := (lab'.world, lab.world.2) }
  match m { lab with world := lab.world.1 } with
  | .ok a lab' => .ok a (keep lab')
  | .error e lab' => .error e (keep lab')

/-- The same world, without and with a record of notices. -/
abbrev WithNotices (w : σ) (w' : σ × List Notice) : Prop := w = w'.1

/-- The same world, without and with a certain record. -/
abbrev WithRecord (record : List Notice) (w : σ) (w' : σ × List Notice) : Prop := w' = (w, record)

/-- Worlds that are related as long as the record is not touched. -/
def Untouched (W : σ → σ × List Notice → Prop) : Prop := ∀ w w', W w w' → w = w'.1 ∧ ∀ v, W v (v, w'.2)

theorem withNotices_untouched : Untouched (WithNotices (σ := σ)) := fun _ _ h => ⟨h, fun _ => rfl⟩

theorem withRecord_untouched (record : List Notice) : Untouched (WithRecord (σ := σ) record) := by
  rintro w _ rfl
  exact ⟨rfl, fun _ => rfl⟩

/-- A computation that does not touch the record does what it does without it. -/
theorem Run.noted_inStep {W : σ → σ × List Notice → Prop} (hW : Untouched W) (m : Run γ σ α) :
    RunsInStep W m m.noted := by
  rintro ⟨source, store, journal, warned, world⟩ ⟨_, _, _, _, _, record⟩ ⟨rfl, rfl, rfl, rfl, hworld⟩
  obtain ⟨rfl, hkeeps⟩ := hW _ _ hworld
  unfold Run.noted
  simp only
  cases m ⟨source, store, journal, warned, world⟩ with
  | ok a lab => exact ⟨rfl, rfl, rfl, rfl, rfl, hkeeps _⟩
  | error e lab => exact ⟨rfl, rfl, rfl, rfl, rfl, hkeeps _⟩

theorem Observer.noted_beside (o : Observer σ) (i : Nat) : o.Beside WithNotices (o.noted i) := by
  refine ⟨rfl, ?_⟩
  rintro event store p ⟨journal, world⟩ ⟨_, _, record⟩ ⟨rfl, rfl⟩
  unfold Observer.noted
  simp only
  cases o.notice event store p ⟨journal, world⟩ with
  | ok v n => exact ⟨rfl, rfl, rfl⟩
  | error e n => exact ⟨rfl, rfl, rfl⟩

theorem Task.noted_beside {W : σ → σ × List Notice → Prop} (hW : Untouched W) (task : Task σ) :
    task.Beside W task.noted := by
  refine ⟨rfl, rfl, rfl, ?_⟩
  rintro p ⟨registers, world⟩ ⟨_, _, record⟩ ⟨rfl, hworld⟩
  obtain ⟨rfl, hkeeps⟩ := hW _ _ hworld
  unfold Task.noted
  simp only
  cases task.score p ⟨registers, world⟩ with
  | ok v b => exact ⟨rfl, rfl, hkeeps _⟩
  | error e b => exact ⟨rfl, rfl, hkeeps _⟩

/-- **Writing notices down changes nothing else.** -/
theorem Engine.noted_beside (e : Engine σ) : e.Beside WithNotices e.noted := by
  have hobservers : ∀ (os : List (Observer σ)) (n : Nat),
      List.Forall₂ (Observer.Beside WithNotices) os ((os.zipIdx n).map fun (o, i) => o.noted i) := by
    intro os
    induction os with
    | nil => exact fun _ => .nil
    | cons o rest ih => exact fun n => .cons (o.noted_beside n) (ih (n + 1))
  exact ⟨rfl, e.task.noted_beside withNotices_untouched, hobservers e.observers 0⟩

theorem EngineState.start_beside (source : γ) (world : σ) :
    (start source world).Beside WithNotices (start source (world, [])) :=
  ⟨⟨rfl, rfl, rfl, rfl, rfl⟩, rfl, rfl, rfl, rfl⟩

/-! ## Turns -/

/-- The telling of an event: what the observers have answered, one after the other. -/
structure Turn where
  event : Event
  population : Population
  answers : List Verdict

namespace Turn

/-- The notices of a turn. -/
def notices (t : Turn) : List Notice := t.answers.zipIdx.map fun (answer, i) => ⟨i, t.event, t.population, answer⟩

/-- Whether an observer has asked to stop. -/
def stops (t : Turn) : Bool := t.answers.contains .stop

/-- Whether an observer has failed. -/
def fails (t : Turn) : Bool := t.answers.contains .failure

end Turn

/-- What an observer is told: an event, the number of a generation, and a number of programs. -/
abbrev Subject := Event × Int × Nat

/-- What the observers have been told of in a turn. -/
def Turn.subject (t : Turn) : Subject := (t.event, t.population.generation, t.population.size)

/-- What an observer has been told of in a notice. -/
def Notice.subject (n : Notice) : Subject := (n.event, n.population.generation, n.population.size)

/-- What the observer numbered `i` has been told of, according to a record. -/
def heardBy (i : Nat) (record : List Notice) : List Subject :=
  (record.filter fun n => n.observer == i).map Notice.subject

theorem heardBy_append (i : Nat) (record more : List Notice) :
    heardBy i (record ++ more) = heardBy i record ++ heardBy i more := by
  unfold heardBy
  rw [List.filter_append, List.map_append]

/-- Of answers that are numbered from `start` on, one is under the number of an observer. -/
theorem heardBy_answers {i start : Nat} (t : Turn) {answers : List Verdict} (hle : start ≤ i)
    (hlt : i < start + answers.length) :
    heardBy i ((answers.zipIdx start).map fun (answer, j) => ⟨j, t.event, t.population, answer⟩) = [t.subject] := by
  induction answers generalizing start with
  | nil =>
      rw [List.length_nil] at hlt
      omega
  | cons answer rest ih =>
      by_cases hstart : start = i
      · subst hstart
        have hnone : ∀ x ∈ rest.zipIdx (start + 1), ¬ (x.2 == start) = true := by
          intro x hx
          have := (List.mem_zipIdx hx).1
          simp only [beq_iff_eq]
          omega
        simp only [heardBy, List.zipIdx_cons, List.map_cons, beq_self_eq_true, List.filter_cons_of_pos,
          List.filter_map, Function.comp_def]
        rw [List.filter_eq_nil_iff.mpr hnone]
        rfl
      · rw [List.length_cons] at hlt
        have hrest := @ih (start + 1) (by omega) (by omega)
        unfold heardBy at hrest ⊢
        rw [List.zipIdx_cons, List.map_cons, List.filter_cons_of_neg (by simpa using hstart)]
        exact hrest

/-- **Every observer hears of every turn**, once each. -/
theorem heardBy_turns {n i : Nat} (hi : i < n) {turns : List Turn} (h : ∀ t ∈ turns, t.answers.length = n) :
    heardBy i (turns.flatMap Turn.notices) = turns.map Turn.subject := by
  induction turns with
  | nil => rfl
  | cons t rest ih =>
      have hfirst : heardBy i t.notices = [t.subject] :=
        heardBy_answers t (Nat.zero_le i) (by rw [h t (List.mem_cons_self ..)]; omega)
      rw [List.flatMap_cons, heardBy_append, hfirst, ih fun t' ht' => h t' (List.mem_cons_of_mem t ht')]
      rfl

/-! ## Telling observers -/

/-- An observer whose errors can be quoted, so that its failures are among its answers. -/
def Observer.Quotable (o : Observer σ) : Prop :=
  ∀ event store p n, Ends (fun _ _ => True) (fun e _ => ∃ quote, e.quote = .ok quote) (o.notice event store p n)

theorem Observer.Steady.quotable {o : Observer σ} (h : o.Steady) : o.Quotable :=
  fun event store p n => (h event store p n).imp (fun _ _ _ => trivial) fun _ _ => False.elim

section Dispatch

variable (event : Event) (p : Population)

/-- Telling an observer adds one notice, and its answer decides what becomes of the tally. -/
theorem tell_noted {o : Observer σ} (ho : o.Quotable) (i : Nat) (t : Tally) (lab : Lab γ (σ × List Notice)) :
    Ends (fun t' lab' => ∃ answer, lab'.store = lab.store ∧ lab'.world.2 = lab.world.2 ++ [⟨i, event, p, answer⟩] ∧
        t'.stops = (t.stops || answer == .stop) ∧ t'.failure.isSome = (t.failure.isSome || answer == .failure))
      Never (tell event p t (o.noted i) lab) := by
  have hquote := ho event lab.store p ⟨lab.journal, lab.world.1⟩
  unfold tell onNotes Observer.noted
  refine ends_bind.mpr (ends_get.mpr (ends_bind.mpr ?_))
  simp only
  cases hout : o.notice event lab.store p ⟨lab.journal, lab.world.1⟩ with
  | error e n =>
      rw [hout] at hquote
      obtain ⟨quote, hquote⟩ := hquote
      simp only [ends_ok, hquote]
      refine ⟨.failure, rfl, rfl, by simp [Tally.fail], ?_⟩
      simp [Tally.fail]
  | ok verdict n =>
      cases verdict with
      | proceed => exact ⟨.proceed, rfl, rfl, by simp, by simp⟩
      | stop => exact ⟨.stop, rfl, rfl, by simp, by simp⟩
      | failure =>
          refine ⟨.failure, rfl, rfl, by simp [Tally.fail], ?_⟩
          simp [Tally.fail]

/-- Telling observers adds a notice of each. The numbers go up along the list. -/
theorem tellAll_noted {os : List (Observer σ)} (h : ∀ o ∈ os, o.Quotable) (start : Nat) (t : Tally)
    (lab : Lab γ (σ × List Notice)) :
    Ends (fun t' lab' => ∃ answers : List Verdict, answers.length = os.length ∧ lab'.store = lab.store ∧
        lab'.world.2 = lab.world.2 ++ (answers.zipIdx start).map (fun (answer, i) => ⟨i, event, p, answer⟩) ∧
        t'.stops = (t.stops || answers.contains .stop) ∧
        t'.failure.isSome = (t.failure.isSome || answers.contains .failure))
      Never (tellAll event p ((os.zipIdx start).map fun (o, i) => o.noted i) t lab) := by
  induction os generalizing start t lab with
  | nil => exact ⟨[], rfl, rfl, by simp, by simp, by simp⟩
  | cons o rest ih =>
      obtain ⟨ho, hrest⟩ := List.forall_mem_cons.mp h
      refine (tell_noted event p ho start t lab).bind ?_ fun _ _ => id
      rintro t₁ lab₁ ⟨answer, hstore₁, hrecord₁, hstops₁, hfailure₁⟩
      refine (ih hrest (start + 1) t₁ lab₁).imp ?_ fun _ _ => id
      rintro t₂ lab₂ ⟨answers, hlength, hstore₂, hrecord₂, hstops₂, hfailure₂⟩
      refine ⟨answer :: answers, by simp [hlength], hstore₂.trans hstore₁, ?_, ?_, ?_⟩
      · rw [hrecord₂, hrecord₁, List.append_assoc]
        rfl
      · rw [hstops₂, hstops₁, Bool.or_assoc, List.contains_cons, BEq.comm]
      · rw [hfailure₂, hfailure₁, Bool.or_assoc, List.contains_cons, BEq.comm]

/-- **Telling observers of an event adds a turn**, and fails when an observer has failed. -/
theorem dispatch_noted {os : List (Observer σ)} (h : ∀ o ∈ os, o.Quotable) (lab : Lab γ (σ × List Notice)) :
    Ends (fun stops lab' => ∃ t : Turn, t.subject = (event, p.generation, p.size) ∧ t.answers.length = os.length ∧
        lab'.store = lab.store ∧ lab'.world.2 = lab.world.2 ++ t.notices ∧ t.fails = false ∧ stops = t.stops)
      (fun er lab' => (∃ oe, er = .observer oe) ∧ ∃ t : Turn, t.subject = (event, p.generation, p.size) ∧
        t.answers.length = os.length ∧ lab'.store = lab.store ∧ lab'.world.2 = lab.world.2 ++ t.notices ∧
        t.fails = true)
      (dispatch (os.zipIdx.map fun (o, i) => o.noted i) event p lab) := by
  refine (tellAll_noted event p h 0 .start lab).bind ?_ fun _ _ => False.elim
  rintro tally lab' ⟨answers, hlength, hstore, hrecord, hstops, hfailure⟩
  simp only [Tally.start, Option.isSome_none, Bool.false_or] at hstops hfailure
  cases hout : tally.failure with
  | none =>
      rw [hout] at hfailure
      exact ⟨⟨event, p, answers⟩, rfl, hlength, hstore, hrecord, hfailure.symm, hstops⟩
  | some oe =>
      rw [hout] at hfailure
      exact ⟨⟨oe, rfl⟩, ⟨event, p, answers⟩, rfl, hlength, hstore, hrecord, hfailure.symm⟩

end Dispatch

/-! ## Agendas -/

namespace Engine

variable {n : Nat} {s s' s'' : EngineState γ (σ × List Notice)} {turns turns' : List Turn}
  {agenda agenda' : List Subject}

/-- Between two states, `n` observers each have had these turns. -/
structure Heard (n : Nat) (s s' : EngineState γ (σ × List Notice)) (turns : List Turn) : Prop where
  record : s'.lab.world.2 = s.lab.world.2 ++ turns.flatMap Turn.notices
  complete : ∀ t ∈ turns, t.answers.length = n

theorem Heard.trans (h : Heard n s s' turns) (h' : Heard n s' s'' turns') : Heard n s s'' (turns ++ turns') :=
  ⟨by rw [h'.record, h.record, List.flatMap_append, List.append_assoc],
    fun t ht => (List.mem_append.mp ht).elim (h.complete t) (h'.complete t)⟩

/--
A computation from `s` tells observers what is on the agenda, in this order and without a failure, and remembers the
requests to stop; or an observer fails in one of these turns, which is the last one then.
-/
def Follows (n : Nat) (s : EngineState γ (σ × List Notice)) (agenda : List Subject)
    (P : α → EngineState γ (σ × List Notice) → Prop) :
    EStateM.Result Error (EngineState γ (σ × List Notice)) α → Prop :=
  Ends
    (fun a s' => ∃ turns, Heard n s s' turns ∧ turns.map Turn.subject = agenda ∧ (∀ t ∈ turns, t.fails = false) ∧
      s'.stopRequested = (s.stopRequested || turns.any Turn.stops) ∧ P a s')
    (fun er s' => (∃ oe, er = .observer oe) ∧ ∃ turns last, Heard n s s' (turns ++ [last]) ∧
      (turns ++ [last]).map Turn.subject <+: agenda ∧ (∀ t ∈ turns, t.fails = false) ∧ last.fails = true)

namespace Follows

variable {P P' : α → EngineState γ (σ × List Notice) → Prop} {Q : β → EngineState γ (σ × List Notice) → Prop}

theorem imp {r : EStateM.Result Error (EngineState γ (σ × List Notice)) α} (h : Follows n s agenda P r)
    (hP : ∀ a s', P a s' → P' a s') : Follows n s agenda P' r :=
  Ends.imp h (fun a s' ⟨turns, hheard, hagenda, hcalm, hstop, hp⟩ =>
    ⟨turns, hheard, hagenda, hcalm, hstop, hP a s' hp⟩) fun _ _ he => he

/-- A computation that neither fails nor touches the record or the request to stop. -/
theorem quiet {r : EStateM.Result Error (EngineState γ (σ × List Notice)) α}
    (h : Ends (fun a s' => s'.lab.world.2 = s.lab.world.2 ∧ s'.stopRequested = s.stopRequested ∧ P a s') Never r) :
    Follows n s [] P r := by
  refine Ends.imp h ?_ fun _ _ => False.elim
  rintro a s' ⟨hrecord, hstop, hp⟩
  exact ⟨[], ⟨by simpa using hrecord, List.forall_mem_nil _⟩, rfl, List.forall_mem_nil _, by simpa using hstop, hp⟩

/-- One computation after the other follows one agenda after the other. -/
theorem bind {m : Evolving γ (σ × List Notice) α} {f : α → Evolving γ (σ × List Notice) β}
    (h : Follows n s agenda P (m s)) (hf : ∀ a s', P a s' → Follows n s' agenda' Q (f a s')) :
    Follows n s (agenda ++ agenda') Q ((m >>= f) s) := by
  refine ends_bind.mpr (Ends.imp h ?_ ?_)
  · rintro a s' ⟨turns, hheard, hagenda, hcalm, hstop, hp⟩
    refine Ends.imp (hf a s' hp) ?_ ?_
    · rintro b s'' ⟨turns', hheard', hagenda', hcalm', hstop', hq⟩
      refine ⟨turns ++ turns', hheard.trans hheard', by rw [List.map_append, hagenda, hagenda'], ?_, ?_, hq⟩
      · exact fun t ht => (List.mem_append.mp ht).elim (hcalm t) (hcalm' t)
      · rw [hstop', hstop, List.any_append, Bool.or_assoc]
    · rintro er s'' ⟨hobserver, turns', last, hheard', hagenda', hcalm', hfails⟩
      refine ⟨hobserver, turns ++ turns', last, ?_, ?_, ?_, hfails⟩
      · rw [List.append_assoc]
        exact hheard.trans hheard'
      · rw [List.append_assoc, List.map_append, hagenda]
        exact List.prefix_append_right_inj agenda |>.mpr hagenda'
      · exact fun t ht => (List.mem_append.mp ht).elim (hcalm t) (hcalm' t)
  · rintro er s' ⟨hobserver, turns, last, hheard, hagenda, hcalm, hfails⟩
    exact ⟨hobserver, turns, last, hheard, hagenda.trans (List.prefix_append ..), hcalm, hfails⟩

end Follows

/-- What the telling of an event leaves as it is. -/
structure Unmoved (s s' : EngineState γ (σ × List Notice)) : Prop where
  store : s'.lab.store = s.lab.store
  population : s'.population = s.population
  lastRanked : s'.lastRanked = s.lastRanked
  phase : s'.phase = s.phase

/-- **Telling observers of an event follows the agenda of this event.** -/
theorem notify_follows {e : Engine σ} (hquotable : ∀ o ∈ e.observers, o.Quotable) (event : Event) (p : Population)
    (s : EngineState γ (σ × List Notice)) :
    Follows e.observers.length s [(event, p.generation, p.size)] (fun _ s' => Unmoved s s')
      (e.noted.notify event p s) := by
  have hdispatch := dispatch_noted event p hquotable s.lab
  change Ends _ _ (dispatch e.noted.observers event p s.lab) at hdispatch
  refine ends_bind.mpr ?_
  unfold onLab
  cases hout : dispatch e.noted.observers event p s.lab with
  | error er lab =>
      rw [hout] at hdispatch
      obtain ⟨hobserver, t, hsubject, hlength, -, hrecord, hfails⟩ := hdispatch
      refine ⟨hobserver, [], t, ⟨by simpa using hrecord, by simpa using hlength⟩, ?_, List.forall_mem_nil _, hfails⟩
      rw [List.nil_append, List.map_singleton, hsubject]
  | ok stops lab =>
      rw [hout] at hdispatch
      obtain ⟨t, hsubject, hlength, hstore, hrecord, hcalm, rfl⟩ := hdispatch
      have hheard : ∀ stop, Heard e.observers.length s { s with lab := lab, stopRequested := stop } [t] :=
        fun stop => ⟨by simpa using hrecord, by simpa using hlength⟩
      have hagenda : [t].map Turn.subject = [(event, p.generation, p.size)] := by rw [List.map_singleton, hsubject]
      have hcalm' : ∀ t' ∈ [t], t'.fails = false := List.forall_mem_singleton.mpr hcalm
      cases hstops : t.stops with
      | true => exact ⟨[t], hheard true, hagenda, hcalm', by simp [hstops], hstore, rfl, rfl, rfl⟩
      | false => exact ⟨[t], hheard s.stopRequested, hagenda, hcalm', by simp [hstops], hstore, rfl, rfl, rfl⟩

end Engine

end RegisterEvolution
