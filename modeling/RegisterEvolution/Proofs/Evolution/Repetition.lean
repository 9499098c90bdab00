import RegisterEvolution.Proofs.Evolution.Lockstep
import RegisterEvolution.Proofs.Evolution.Succession

/-!
# `Proofs.Evolution.Repetition` — evaluating and ranking once more

A task is consistent if the scores that it gives are those of a function of the program, although it may fail here and
there. Then an evaluation that succeeds comes to the same whether it is the first one or has been begun, or even
completed, before; and ranking depends on the scores alone.

* `Task.Consistent` — scores that do not depend on the world or on what has been scored before;
* `Completed` — what an evaluation with such a task comes to, `Completed.again` and `Completed.unique`;
* `Engine.Evaluates.completes` — by itself or by a pool, an engine completes an evaluation or changes no score;
* `Population.rank_congr` — ranking looks at scores only;
* `Run.Calm` — evaluation and events draw nothing;
* `Lab.Alike` — labs between which breeding sees no difference.
-/

namespace RegisterEvolution

variable {γ σ : Type} {task : Task σ} {shapes : Shape → Prop} {F : Program → Value} {reevaluate : Bool}
  {s s' t t' : Store} {ps : List Program} {p : Program}

/-! ## Consistent tasks -/

/-- Where the task scores a program of certain shapes, on banks that scoring can meet, the score is given by `F`. -/
def Task.Consistent (task : Task σ) (shapes : Shape → Prop) (F : Program → Value) : Prop :=
  ∀ p r world, shapes p.shape → p.shape.flaw? p.code = none → task.Banks p r →
    Ends (fun v _ => v = F p) (fun _ _ => True) (task.score p ⟨r, world⟩)

/-- The standard of every task for programs of certain shapes: banks that scoring can meet, and finite scores. -/
def Standard.scorable (task : Task σ) (shapes : Shape → Prop) : Standard task where
  shapes := shapes
  banks := task.Banks
  worth _ x := x.isFinite = true
  fresh _ _ hfresh := .fresh hfresh
  hereditary _ _ _ _ _ h := h
  scored _ _ _ _ _ hbanks :=
    hbanks.final.imp (fun _ _ hb => ⟨hb, fun _ hx => (isFinite_of_toFitness hx).2⟩) fun _ _ hb => hb

section Values

variable (hF : task.Consistent shapes F)

include hF

/-- A score is the one that the function gives. -/
theorem score_values (lab : Lab γ σ) (h : Upholds (.scorable task shapes) lab.store ps) (hp : p ∈ ps) :
    Ends (fun x _ => toFitness p (F p) = .ok x) (fun _ _ => True) (score task p lab) := by
  obtain ⟨c, hc, hbanks, -⟩ := (h.each p hp).entry
  have hvalue := hF p c.registers lab.world (h.each p hp).shape (h.each p hp).flawless hbanks
  unfold score onBench
  rw [Store.registers_eq hc]
  cases hout : task.score p ⟨c.registers, lab.world⟩ with
  | error e b => exact trivial
  | ok v b =>
      rw [hout] at hvalue
      obtain rfl : v = F p := hvalue
      cases hx : toFitness p (F p) with
      | error e => simp [Run.ofExcept, hx]
      | ok x => simp [Run.ofExcept, hx]

/-- A worker comes to no other score. -/
theorem workerAnswer_values (lab : Lab γ σ) (world : σ) (h : Upholds (.scorable task shapes) lab.store ps)
    (hp : p ∈ ps) {x : Float} (hx : workerAnswer task lab world p = .ok x) : toFitness p (F p) = .ok x := by
  have hscore := score_values hF { lab with world := world } h hp
  unfold workerAnswer at hx
  cases hout : score task p { lab with world := world } with
  | error e lab' =>
      rw [hout] at hx
      exact nomatch hx
  | ok y lab' =>
      rw [hout] at hx hscore
      obtain rfl := Except.ok.inj hx
      exact hscore

end Values

/-! ## Completed evaluations -/

/-- Scores that `F` gives to programs at their positions. -/
def Given (F : Program → Value) (items : List (Nat × Program)) (scores : List (Nat × Float)) : Prop :=
  ∀ i x, (i, x) ∈ scores → ∃ p, (i, p) ∈ items ∧ toFitness p (F p) = .ok x

/-- Every score that is answered is that of one of the given programs. -/
theorem scoreAll_values (hF : task.Consistent shapes F) (items : List (Nat × Program)) (lab : Lab γ σ)
    (h : Upholds (.scorable task shapes) lab.store ps) (hitems : ∀ item ∈ items, item.2 ∈ ps) :
    Ends (fun scores _ => Given F items scores) (fun _ _ => True) (scoreAll task items lab) := by
  induction items generalizing lab with
  | nil => exact fun _ _ hx => nomatch hx
  | cons item rest ih =>
      obtain ⟨i, p⟩ := item
      have hp : p ∈ ps := hitems _ (List.mem_cons_self ..)
      refine ((score_values hF lab h hp).and (score_ends lab h hp)).bind ?_ fun _ _ _ => trivial
      intro x lab' hx
      refine (ih lab' hx.2.1.1 fun item hitem => hitems item (List.mem_cons_of_mem _ hitem)).bind ?_
        fun _ _ _ => trivial
      intro scores lab'' hscores j y hy
      rcases List.mem_cons.mp hy with hy | hy
      · obtain ⟨rfl, rfl⟩ := Prod.mk.inj hy
        exact ⟨p, List.mem_cons_self .., hx.1⟩
      · obtain ⟨q, hq, hvalue⟩ := hscores j y hy
        exact ⟨q, List.mem_cons_of_mem _ hq, hvalue⟩

/-- Scores that a pool delivers are given by the function, too. -/
theorem Delivery.values (hF : task.Consistent shapes F) {lab : Lab γ σ} {items : List (Nat × Program)}
    {scores : List (Nat × Float)} (hd : Delivery task lab items (accepted scores))
    (h : Upholds (.scorable task shapes) lab.store ps) (hitems : ∀ item ∈ items, item.2 ∈ ps) :
    Given F items scores := by
  obtain ⟨worlds, hperm⟩ := hd
  intro i x hx
  obtain ⟨⟨j, p⟩, hp, heq⟩ := List.mem_map.mp (hperm.mem_iff.mp (mem_accepted.mpr hx))
  obtain ⟨rfl, hanswer⟩ := Prod.mk.inj heq
  exact ⟨p, hp, workerAnswer_values hF lab _ h (hitems _ hp) hanswer⟩

/-- Pending programs have the fitness that `F` gives them. -/
def Fulfilled (F : Program → Value) (reevaluate : Bool) (ps : List Program) (s s' : Store) : Prop :=
  ∀ p ∈ ps, isPending s reevaluate p = true → ∃ x, toFitness p (F p) = .ok x ∧ s'.fitnessAt p.id = some x

/-- The fitness of a pending program is what has been written down for it. -/
theorem writeScores_values {population : Population} {scores : List (Nat × Float)} {lab : Lab γ σ}
    (h : Upholds (.scorable task shapes) lab.store population.programs)
    (hscored : Scored (.scorable task shapes) (pending s reevaluate population) scores)
    (hgiven : Given F (pending s reevaluate population) scores) :
    Ends (fun _ lab' => Fulfilled F reevaluate population.programs s lab'.store) Never
      (writeScores population (inOrder scores) lab) := by
  refine (writeScores_ends population (inOrder scores) lab h ?_).imp ?_ fun _ _ => id
  · intro i x hx
    obtain ⟨p, hp, hworth⟩ := hscored.exists_item i x (List.mem_mergeSort.mp hx)
    exact ⟨p, (mem_pending.mp hp).1, hworth⟩
  · intro _ lab' hwritten p hp hpending
    obtain ⟨i, hi⟩ := List.mem_iff_getElem?.mp hp
    obtain ⟨x, hx⟩ := hscored.exists_score _ (mem_pending.mpr ⟨hi, hpending⟩)
    rcases hwritten.2.fitnessAt_eq p.id with ⟨j, y, q, hy, hq, hid, heq⟩ | ⟨hnone, -⟩
    · obtain ⟨q', hq', hvalue⟩ := hgiven j y (List.mem_mergeSort.mp hy)
      obtain rfl := Option.some.inj (hq.symm.trans (mem_pending.mp hq').1)
      obtain rfl := h.eq_of_id_eq (List.mem_of_getElem? hq) hp hid
      exact ⟨y, hvalue, heq⟩
    · exact absurd rfl (hnone i x p (List.mem_mergeSort.mpr hx) hi)

/-- What an evaluation comes to: pending programs have the fitness that `F` gives them, and no other one changes. -/
structure Completed (F : Program → Value) (reevaluate : Bool) (ps : List Program) (s s' : Store) : Prop where
  nextId_eq : s'.nextId = s.nextId
  pending : Fulfilled F reevaluate ps s s'
  others : ∀ id, (∀ p ∈ ps, isPending s reevaluate p = true → p.id ≠ id) → s'.fitnessAt id = s.fitnessAt id

section Evaluation

variable {e : Engine σ} {evaluation : Population → Run γ σ Nat}

theorem Engine.Evaluates.fulfils (hevaluation : e.Evaluates evaluation) (hF : e.task.Consistent shapes F)
    (population : Population) (lab : Lab γ σ)
    (h : Upholds (.scorable e.task shapes) lab.store population.programs) :
    Ends (fun _ lab' => Fulfilled F e.plan.reevaluate population.programs lab.store lab'.store) (fun _ _ => True)
      (evaluation population lab) := by
  have hitems : ∀ item ∈ pending lab.store e.plan.reevaluate population, item.2 ∈ population.programs :=
    fun _ => mem_programs_of_pending
  cases hevaluation with
  | alone =>
      refine ((scoreAll_ends _ lab h hitems).and (scoreAll_values hF _ lab h hitems)).bind ?_ fun _ _ _ => trivial
      intro scores lab' hout
      obtain ⟨⟨⟨hupholds, -⟩, hscored⟩, hgiven⟩ := hout
      exact (writeScores_values hupholds hscored hgiven).bind (fun _ _ hfulfilled => hfulfilled) fun _ _ => False.elim
  | pooled schedule hschedule =>
      have hd := hschedule population lab
      show Ends _ _ (evaluateDelivered population (schedule population lab) lab)
      unfold evaluateDelivered
      cases hgather : gather (schedule population lab) with
      | error er => exact trivial
      | ok scores =>
          rw [gather_ok hgather] at hd
          exact (writeScores_values h (hd.scored h hitems) (hd.values hF h hitems)).bind
            (fun _ _ hfulfilled => hfulfilled) fun _ _ => False.elim

/-- **An evaluation with a consistent task** gives pending programs the fitness that is due to them, whichever way it is
    done; when it fails, no fitness has changed. -/
theorem Engine.Evaluates.completes (hevaluation : e.Evaluates evaluation) (hF : e.task.Consistent shapes F)
    (population : Population) (lab : Lab γ σ)
    (h : Upholds (.scorable e.task shapes) lab.store population.programs) :
    Ends (fun _ lab' => Upholds (.scorable e.task shapes) lab'.store population.programs ∧
        Completed F e.plan.reevaluate population.programs lab.store lab'.store)
      (fun _ lab' => Upholds (.scorable e.task shapes) lab'.store population.programs ∧
        lab.store.SameScores lab'.store)
      (evaluation population lab) :=
  ((hevaluation.upholds population lab h).and (hevaluation.fulfils hF population lab h)).imp
    (fun _ _ hout => ⟨hout.1.1, hout.1.2.nextId_eq, hout.2, hout.1.2.others⟩) fun _ _ he => he.1

end Evaluation

theorem Store.SameScores.symm (h : s.SameScores s') : s'.SameScores s :=
  ⟨h.nextId_eq.symm, fun id => (h.fitnessAt_eq id).symm⟩

theorem isPending_congr (h : s.SameScores s') (reevaluate : Bool) (p : Program) :
    isPending s' reevaluate p = isPending s reevaluate p := by
  unfold isPending
  rw [Store.fitness_eq, Store.fitness_eq, h.fitnessAt_eq]

namespace Completed

/-- Only the scores count that there are before and after. -/
theorem congr (h : Completed F reevaluate ps s t) (hs : s.SameScores s') (ht : t.SameScores t') :
    Completed F reevaluate ps s' t' := by
  refine ⟨by rw [ht.nextId_eq, h.nextId_eq, hs.nextId_eq], ?_, ?_⟩
  · intro p hp hpending
    rw [isPending_congr hs] at hpending
    rw [ht.fitnessAt_eq]
    exact h.pending p hp hpending
  · intro id hid
    rw [ht.fitnessAt_eq, hs.fitnessAt_eq]
    refine h.others id fun p hp hpending => hid p hp ?_
    rw [isPending_congr hs]
    exact hpending

/-- **There is one way to complete an evaluation.** -/
theorem unique (h : Completed F reevaluate ps s t) (h' : Completed F reevaluate ps s t') : t.SameScores t' := by
  refine ⟨h'.nextId_eq.trans h.nextId_eq.symm, ?_⟩
  intro id
  by_cases hid : ∃ p ∈ ps, isPending s reevaluate p = true ∧ p.id = id
  · obtain ⟨p, hp, hpending, rfl⟩ := hid
    obtain ⟨x, hx, hfitness⟩ := h.pending p hp hpending
    obtain ⟨y, hy, hfitness'⟩ := h'.pending p hp hpending
    obtain rfl := Except.ok.inj (hx.symm.trans hy)
    exact hfitness'.trans hfitness.symm
  · have hnone : ∀ p ∈ ps, isPending s reevaluate p = true → p.id ≠ id :=
      fun p hp hpending heq => hid ⟨p, hp, hpending, heq⟩
    rw [h'.others id hnone, h.others id hnone]

/-- A program that is pending after an evaluation was so before it; only scoring everything again makes it so. -/
theorem pending_of_pending (h : Completed F reevaluate ps s t) (hnodup : (ps.map (·.id)).Nodup) (hp : p ∈ ps)
    (hpending : isPending t reevaluate p = true) : isPending s reevaluate p = true := by
  by_cases hbefore : isPending s reevaluate p = true
  · exact hbefore
  · -- other programs have other numbers, so that the fitness of this one has stayed
    have hsame : t.fitnessAt p.id = s.fitnessAt p.id := by
      refine h.others p.id fun q hq hq' hid => hbefore ?_
      obtain rfl := List.inj_on_of_nodup_map hnodup hq hp hid
      exact hq'
    unfold isPending at *
    rw [Store.fitness_eq] at *
    rw [← hsame]
    exact hpending

/-- **Once an evaluation is completed, completing it again changes no fitness.** -/
theorem again (h : Completed F reevaluate ps s t) (h' : Completed F reevaluate ps t t')
    (hnodup : (ps.map (·.id)).Nodup) : t.SameScores t' := by
  refine ⟨h'.nextId_eq, ?_⟩
  intro id
  by_cases hid : ∃ p ∈ ps, isPending t reevaluate p = true ∧ p.id = id
  · obtain ⟨p, hp, hpending, rfl⟩ := hid
    obtain ⟨x, hx, hfitness⟩ := h.pending p hp (h.pending_of_pending hnodup hp hpending)
    obtain ⟨y, hy, hfitness'⟩ := h'.pending p hp hpending
    obtain rfl := Except.ok.inj (hx.symm.trans hy)
    exact hfitness'.trans hfitness.symm
  · exact h'.others id fun p hp hpending heq => hid ⟨p, hp, hpending, heq⟩

/-- The order of the programs does not matter. -/
theorem perm {qs : List Program} (h : Completed F reevaluate ps s t) (hperm : ps.Perm qs) :
    Completed F reevaluate qs s t :=
  ⟨h.nextId_eq, fun p hp => h.pending p (hperm.mem_iff.mpr hp), fun id hid => h.others id fun p hp =>
    hid p (hperm.mem_iff.mp hp)⟩

/-- An evaluation that completes what has been completed before completes it from the beginning. -/
theorem trans (h : Completed F reevaluate ps s t) (h' : Completed F reevaluate ps t t')
    (hnodup : (ps.map (·.id)).Nodup) : Completed F reevaluate ps s t' :=
  h.congr (.refl s) (h.again h' hnodup)

/-- Afterwards every program has a finite fitness. -/
theorem rated {population : Population} (h : Completed F reevaluate population.programs s t)
    (hupholds : Upholds (.scorable task shapes) t population.programs) : Rated t population.programs := by
  intro p hp
  by_cases hpending : isPending s reevaluate p = true
  · obtain ⟨x, hx, hfitness⟩ := h.pending p hp hpending
    exact ⟨x, hfitness, (isFinite_of_toFitness hx).2⟩
  · have hsame : t.fitnessAt p.id = s.fitnessAt p.id := by
      refine h.others p.id fun q hq hq' hid => hpending ?_
      obtain rfl := hupholds.eq_of_id_eq hq hp hid
      exact hq'
    cases hx : s.fitnessAt p.id with
    | some x =>
        rw [hx] at hsame
        exact ⟨x, hsame, hupholds.worth hp hsame⟩
    | none =>
        unfold isPending at hpending
        rw [Store.fitness_eq, hx] at hpending
        exact absurd (Bool.or_true reevaluate) hpending

end Completed

/-! ## Ranking -/

namespace Population

/-- Ranking looks at scores only. -/
theorem rank_congr (h : s.SameScores s') (p : Population) : p.rank s' = p.rank s := by
  have hkey : rankKey s' = rankKey s := by
    funext q
    unfold rankKey
    rw [Store.fitness_eq, Store.fitness_eq, h.fitnessAt_eq]
  have hle : rankLe s' = rankLe s := by
    funext a b
    unfold rankLe
    rw [hkey]
  unfold rank
  rw [hle]

end Population

/-! ## Computations that draw nothing -/

/-- A lab in which nothing has been drawn and no warning about small pools has been given. -/
structure Lab.Undrawn (lab lab' : Lab γ σ) : Prop where
  source : lab'.source = lab.source
  warned : lab'.warned = lab.warned

theorem Lab.Undrawn.trans {lab lab' lab'' : Lab γ σ} (h : lab.Undrawn lab') (h' : lab'.Undrawn lab'') :
    lab.Undrawn lab'' := ⟨h'.source.trans h.source, h'.warned.trans h.warned⟩

/-- A computation that draws nothing, also when it fails. -/
def Run.Calm {α : Type} (m : Run γ σ α) : Prop :=
  ∀ lab, Ends (fun _ lab' => lab.Undrawn lab') (fun _ lab' => lab.Undrawn lab') (m lab)

namespace Run.Calm

variable {α β : Type}

theorem pure {a : α} : Calm (Pure.pure a : Run γ σ α) := fun _ => ⟨rfl, rfl⟩

theorem bind {m : Run γ σ α} {k : α → Run γ σ β} (hm : m.Calm) (hk : ∀ a, (k a).Calm) : (m >>= k).Calm :=
  fun lab => (hm lab).bind
    (fun a lab' h => (hk a lab').imp (fun _ _ h' => h.trans h') fun _ _ h' => h.trans h') fun _ _ h => h

theorem get_bind {k : Lab γ σ → Run γ σ β} (hk : ∀ lab, (k lab).Calm) : (get >>= k : Run γ σ β).Calm :=
  fun lab => hk lab lab

theorem report (record : Record) : (Run.report record : Run γ σ Unit).Calm := fun _ => ⟨rfl, rfl⟩

theorem score (task : Task σ) (p : Program) : (score task p : Run γ σ Float).Calm := by
  intro lab
  unfold RegisterEvolution.score onBench
  cases task.score p ⟨lab.store.registers p, lab.world⟩ with
  | error e b => exact ⟨rfl, rfl⟩
  | ok v b =>
      simp only
      cases toFitness p v with
      | error e => exact ⟨rfl, rfl⟩
      | ok x => exact ⟨rfl, rfl⟩

theorem scoreAll (task : Task σ) (items : List (Nat × Program)) :
    (scoreAll task items : Run γ σ (List (Nat × Float))).Calm := by
  induction items with
  | nil => exact .pure
  | cons item rest ih => exact (score task item.2).bind fun x => ih.bind fun scores => .pure

theorem writeScores (population : Population) (scores : List (Nat × Float)) :
    (writeScores population scores : Run γ σ Unit).Calm := by
  induction scores with
  | nil => exact .pure
  | cons score rest ih =>
      obtain ⟨i, x⟩ := score
      unfold RegisterEvolution.writeScores
      cases population.programs[i]? with
      | none => exact ih
      | some p =>
          refine Calm.bind ?_ fun _ => ih
          exact Calm.bind (fun _ => ⟨rfl, rfl⟩) fun _ => report _

theorem evaluate (task : Task σ) (reevaluate : Bool) (population : Population) :
    (evaluate task reevaluate population : Run γ σ Nat).Calm :=
  get_bind fun _ => (scoreAll task _).bind fun _ => (writeScores population _).bind fun _ => .pure

theorem evaluateDelivered (population : Population) (delivered : List (Nat × Except Error Float)) :
    (evaluateDelivered population delivered : Run γ σ Nat).Calm := by
  unfold RegisterEvolution.evaluateDelivered
  cases gather delivered with
  | error e => exact fun _ => ⟨rfl, rfl⟩
  | ok scores => exact Calm.bind pure fun _ => (writeScores population _).bind fun _ => pure

theorem tell (event : Event) (p : Population) (t : Tally) (o : Observer σ) :
    (tell event p t o : Run γ σ Tally).Calm := by
  intro lab
  unfold RegisterEvolution.tell onNotes
  refine ends_bind.mpr (ends_get.mpr (ends_bind.mpr ?_))
  cases o.notice event lab.store p ⟨lab.journal, lab.world⟩ with
  | error e n =>
      simp only [ends_ok]
      cases e.quote with
      | ok quote => exact ⟨rfl, rfl⟩
      | error failure =>
          simp only
          split
          · exact ⟨rfl, rfl⟩
          · exact ⟨rfl, rfl⟩
  | ok verdict n =>
      cases verdict with
      | proceed => exact ⟨rfl, rfl⟩
      | stop => exact ⟨rfl, rfl⟩
      | failure => exact ⟨rfl, rfl⟩

theorem tellAll (event : Event) (p : Population) (os : List (Observer σ)) (t : Tally) :
    (tellAll event p os t : Run γ σ Tally).Calm := by
  induction os generalizing t with
  | nil => exact .pure
  | cons o rest ih => exact (tell event p t o).bind fun t' => ih t'

theorem dispatch (os : List (Observer σ)) (event : Event) (p : Population) :
    (dispatch os event p : Run γ σ Bool).Calm := by
  refine (tellAll event p os .start).bind ?_
  intro t
  cases t.failure with
  | none => exact .pure
  | some e => exact fun _ => ⟨rfl, rfl⟩

end Run.Calm

/-- No evaluation draws anything. -/
theorem Engine.Evaluates.calm {e : Engine σ} {evaluation : Population → Run γ σ Nat}
    (hevaluation : e.Evaluates evaluation) (population : Population) : (evaluation population).Calm := by
  cases hevaluation with
  | alone => exact Run.Calm.evaluate e.task e.plan.reevaluate population
  | pooled schedule _ => exact fun lab => Run.Calm.evaluateDelivered population (schedule population lab) lab

/-! ## Labs that breeding cannot tell apart -/

/-- Labs with the same generator, numbers, scores and warning; banks, journal and world may differ. -/
structure Lab.Alike (lab lab' : Lab γ σ) : Prop where
  source : lab.source = lab'.source
  scores : lab.store.SameScores lab'.store
  warned : lab.warned = lab'.warned

theorem Store.fitnessAt_push (s : Store) (c : Option Cell) (id : Nat) :
    fitnessAt ⟨s.cells.push c⟩ id = if id = s.nextId then c.bind (·.fitness) else s.fitnessAt id := by
  unfold fitnessAt
  by_cases hid : id = s.nextId
  · rw [if_pos hid, cell?_push_eq, if_pos hid]
  · rw [if_neg hid, cell?_push_eq, if_neg hid]

theorem Store.SameScores.push (h : s.SameScores s') (c : Option Cell) :
    SameScores ⟨s.cells.push c⟩ ⟨s'.cells.push c⟩ := by
  have hnext := h.nextId_eq
  constructor
  · rw [nextId_push, nextId_push, hnext]
  · intro id
    rw [fitnessAt_push, fitnessAt_push, hnext, h.fitnessAt_eq]

/-- Constructions look at the next number only. -/
theorem Store.construct_inStep (shape : Shape) (code : List Instruction) (fitness : Option Float) :
    InStep SameScores (construct shape code fitness) (construct shape code fitness) := by
  intro s s' h
  unfold construct
  cases shape.flaw? code with
  | some flaw => exact ⟨by rw [h.nextId_eq], h.push none⟩
  | none =>
      simp only
      cases freshRegisters shape with
      | ok r => exact ⟨by rw [h.nextId_eq], h.push _⟩
      | error f => exact ⟨rfl, h.push none⟩

/-- A computation on the store concerns nothing else in a lab. -/
theorem Run.onStore_alike {α : Type} {c : EStateM Error Store α} (hc : InStep Store.SameScores c c) :
    InStep (Lab.Alike (γ := γ) (σ := σ)) (onStore c) (onStore c) := by
  intro lab lab' h
  have hstore := hc lab.store lab'.store h.scores
  unfold onStore
  cases hout : c lab.store with
  | ok a store =>
      rw [hout] at hstore
      obtain ⟨store', hstore', hsame⟩ := hstore.exists_ok
      rw [hstore']
      exact ⟨rfl, { h with scores := hsame }⟩
  | error e store =>
      rw [hout] at hstore
      obtain ⟨store', hstore', hsame⟩ := hstore.exists_error
      rw [hstore']
      exact ⟨rfl, { h with scores := hsame }⟩

/-- **Breeding cannot tell such labs apart.** -/
theorem Lab.carried_alike : Lab.Carried (Lab.Alike (γ := γ) (σ := σ)) where
  draw d lab lab' h := by
    unfold Run.draw
    rw [← h.source]
    cases d lab.source with
    | ok a source => exact ⟨rfl, { h with source := rfl }⟩
    | error e source => exact ⟨rfl, { h with source := rfl }⟩
  construct shape code := Run.onStore_alike (Store.construct_inStep shape code none)
  clone p := by
    refine Run.onStore_alike fun s s' h => ?_
    unfold Store.copy
    rw [Store.fitness_eq, Store.fitness_eq, h.fitnessAt_eq]
    exact Store.construct_inStep p.shape p.code _ s s' h
  report _ := .modify fun _ _ h => { h with }
  warned _ _ h := h.warned
  warn _ _ h := { h with warned := rfl }

end RegisterEvolution
