import RegisterEvolution.Proofs.Evolution.Repetition
import RegisterEvolution.Proofs.Program.Safety

/-!
# `Proofs.Evolution.Delivery` — scores that arrive in any order

A pool of workers scores copies of the pending programs and delivers what it comes to in any order. Every answer carries
the position of its program, and no score is written down before the last answer is in. So if a task does the same with
a program wherever and whenever it is asked, a pool comes to what scoring one program after the other comes to.

* `Task.Determined`, `Task.due` — a task that does the same with a program each time, and the fitness due to it;
* `Delivery` — what a pool of workers delivers;
* `Assessed` — what an evaluation comes to, `Assessed.unique`: there is one way to come to it;
* `evaluate_assessed`, `evaluateDelivered_assessed` — either kind of evaluation assesses the pending programs or fails
  without a trace in their fitness;
* `evaluateDelivered_agrees` — both come to the same, whatever the order of the delivery.
-/

namespace RegisterEvolution

variable {γ σ : Type} {task : Task σ} {scope : Program → Registers → Prop} {F : Program → Except Error Value}

/-! ## Determined tasks -/

/--
A task that scores a program by `F`, or fails as `F` says, whatever the world is like. The scope says on which banks of
a program the task can be relied on; scoring leaves such banks behind.
-/
def Task.Determined (task : Task σ) (scope : Program → Registers → Prop) (F : Program → Except Error Value) : Prop :=
  ∀ p r world, scope p r → Ends (fun v b => F p = .ok v ∧ scope p b.registers)
    (fun e b => F p = .error e ∧ scope p b.registers) (task.score p ⟨r, world⟩)

/-- The fitness that is due to a program in such a task, or the error in which scoring it ends. -/
def Task.due (task : Task σ) (F : Program → Except Error Value) (p : Program) : Except Error Float :=
  match F p with
  | .ok v => toFitness p v
  | .error e => .error (taskFailure task p e)

/-- Programs with entries in the scope of a task; programs of one number are one program. -/
structure Store.Covers (s : Store) (scope : Program → Registers → Prop) (ps : List Program) : Prop where
  entry : ∀ p ∈ ps, ∃ c, s.cell? p.id = some c ∧ scope p c.registers
  eq_of_id_eq : ∀ p ∈ ps, ∀ q ∈ ps, p.id = q.id → p = q

variable {s s' s'' : Store} {ps : List Program} {p : Program}

/-- Banks in the scope may be written down. -/
theorem Store.Covers.setRegisters (h : s.Covers scope ps) (hp : p ∈ ps) {r : Registers} (hr : scope p r) :
    (s.setRegisters p r).Covers scope ps := by
  refine ⟨?_, h.eq_of_id_eq⟩
  intro q hq
  obtain ⟨c, hc, hscope⟩ := h.entry q hq
  rw [Store.cell?_setRegisters, hc]
  by_cases hid : p.id = q.id
  · obtain rfl := h.eq_of_id_eq p hp q hq hid
    exact ⟨{ c with registers := r }, by simp, hr⟩
  · exact ⟨c, by simp [hid], hscope⟩

/-! ## Answers -/

/-- What is due to several programs, at their positions. -/
def Task.answers (task : Task σ) (F : Program → Except Error Value) (items : List (Nat × Program)) :
    List (Nat × Except Error Float) := items.map fun item => (item.1, task.due F item.2)

/-! ## Scoring -/

section Scores

variable (hF : task.Determined scope F)

include hF

/-- A scoring comes to the fitness that is due, and changes banks only. -/
theorem score_due (lab : Lab γ σ) (h : lab.store.Covers scope ps) (hp : p ∈ ps) :
    Ends (fun x lab' => task.due F p = .ok x ∧ lab'.store.Covers scope ps ∧ lab.store.SameScores lab'.store)
      (fun e lab' => task.due F p = .error e ∧ lab'.store.Covers scope ps ∧ lab.store.SameScores lab'.store)
      (score task p lab) := by
  obtain ⟨c, hc, hscope⟩ := h.entry p hp
  have hscored := hF p c.registers lab.world hscope
  have hkeep : ∀ b : Bench σ, scope p b.registers → (lab.store.setRegisters p b.registers).Covers scope ps ∧
      lab.store.SameScores (lab.store.setRegisters p b.registers) := fun b hb =>
    ⟨h.setRegisters hp hb, Store.nextId_setRegisters .., Store.fitnessAt_setRegisters lab.store p b.registers⟩
  unfold score onBench Task.due
  rw [Store.registers_eq hc]
  cases hout : task.score p ⟨c.registers, lab.world⟩ with
  | error e b =>
      rw [hout] at hscored
      rw [hscored.1]
      exact ⟨rfl, hkeep b hscored.2⟩
  | ok v b =>
      rw [hout] at hscored
      rw [hscored.1]
      simp only
      cases toFitness p v with
      | error e => exact ⟨rfl, hkeep b hscored.2⟩
      | ok x => exact ⟨rfl, hkeep b hscored.2⟩

/-- Scoring one program after the other comes to what gathering their answers in this order comes to. -/
theorem scoreAll_gathers (items : List (Nat × Program)) (lab : Lab γ σ) (h : lab.store.Covers scope ps)
    (hitems : ∀ item ∈ items, item.2 ∈ ps) :
    Ends (fun scores lab' => gather (task.answers F items) = .ok scores ∧ lab'.store.Covers scope ps ∧
        lab.store.SameScores lab'.store)
      (fun e lab' => gather (task.answers F items) = .error e ∧ lab'.store.Covers scope ps ∧
        lab.store.SameScores lab'.store)
      (scoreAll task items lab) := by
  induction items generalizing lab with
  | nil => exact ⟨rfl, h, .refl _⟩
  | cons item rest ih =>
      obtain ⟨i, p⟩ := item
      have hgather : gather (task.answers F ((i, p) :: rest)) = (do
          let x ← task.due F p
          let scores ← gather (task.answers F rest)
          return (i, x) :: scores) := rfl
      rw [hgather]
      refine (score_due hF lab h (hitems _ (List.mem_cons_self ..))).bind ?_ ?_
      · intro x lab' hx
        obtain ⟨hdue, hcovers, hsame⟩ := hx
        rw [hdue]
        refine (ih lab' hcovers fun item hitem => hitems item (List.mem_cons_of_mem _ hitem)).bind ?_ ?_
        · intro scores lab'' hscores
          obtain ⟨hrest, hcovers', hsame'⟩ := hscores
          rw [hrest]
          exact ⟨rfl, hcovers', hsame.trans hsame'⟩
        · intro e lab'' he
          obtain ⟨hrest, hcovers', hsame'⟩ := he
          rw [hrest]
          exact ⟨rfl, hcovers', hsame.trans hsame'⟩
      · intro e lab' he
        obtain ⟨hdue, hcovers, hsame⟩ := he
        rw [hdue]
        exact ⟨rfl, hcovers, hsame⟩

/-- A worker comes to what is due. -/
theorem workerAnswer_eq (lab : Lab γ σ) (world : σ) (h : lab.store.Covers scope ps) (hp : p ∈ ps) :
    workerAnswer task lab world p = task.due F p := by
  have hscore := score_due hF { lab with world := world } h hp
  unfold workerAnswer
  cases hout : score task p { lab with world := world } with
  | ok x lab' =>
      rw [hout] at hscore
      exact hscore.1.symm
  | error e lab' =>
      rw [hout] at hscore
      exact hscore.1.symm

theorem Delivery.perm {lab : Lab γ σ} {items : List (Nat × Program)} {delivered : List (Nat × Except Error Float)}
    (hd : Delivery task lab items delivered) (h : lab.store.Covers scope ps) (hitems : ∀ item ∈ items, item.2 ∈ ps) :
    delivered.Perm (task.answers F items) := by
  obtain ⟨worlds, hperm⟩ := hd
  have hanswers : items.map (fun item => (item.1, workerAnswer task lab (worlds item.1) item.2)) =
      task.answers F items :=
    List.map_congr_left fun item hitem => by rw [workerAnswer_eq hF lab _ h (hitems item hitem)]
  rw [← hanswers]
  exact hperm

end Scores

/-! ## Assessments -/

/-- What an evaluation comes to: pending programs have the fitness that is due to them, and no other one changes. -/
structure Assessed (due : Program → Except Error Float) (reevaluate : Bool) (ps : List Program) (s s' : Store) :
    Prop where
  nextId_eq : s'.nextId = s.nextId
  pending : ∀ p ∈ ps, isPending s reevaluate p = true → ∃ x, due p = .ok x ∧ s'.fitnessAt p.id = some x
  others : ∀ id, (∀ p ∈ ps, isPending s reevaluate p = true → p.id ≠ id) → s'.fitnessAt id = s.fitnessAt id

/-- **There is one way to assess programs.** -/
theorem Assessed.unique {due : Program → Except Error Float} {reevaluate : Bool} (h : Assessed due reevaluate ps s s')
    (h' : Assessed due reevaluate ps s s'') : s'.SameScores s'' := by
  refine ⟨by rw [h'.nextId_eq, h.nextId_eq], ?_⟩
  intro id
  by_cases hid : ∃ p ∈ ps, isPending s reevaluate p = true ∧ p.id = id
  · obtain ⟨p, hp, hpending, rfl⟩ := hid
    obtain ⟨x, hx, hfitness⟩ := h.pending p hp hpending
    obtain ⟨y, hy, hfitness'⟩ := h'.pending p hp hpending
    obtain rfl := Except.ok.inj (hx.symm.trans hy)
    rw [hfitness, hfitness']
  · have hnone : ∀ p ∈ ps, isPending s reevaluate p = true → p.id ≠ id :=
      fun p hp hpending heq => hid ⟨p, hp, hpending, heq⟩
    rw [h'.others id hnone, h.others id hnone]

variable {population : Population} {reevaluate : Bool} {lab lab' : Lab γ σ} {scores : List (Nat × Float)}
  {delivered : List (Nat × Except Error Float)}

/-- A score that has arrived is that of a pending program. -/
theorem exists_due (hperm : (accepted scores).Perm (task.answers F (pending s reevaluate population))) {i : Nat}
    {x : Float} (hx : (i, x) ∈ inOrder scores) :
    ∃ p, population.programs[i]? = some p ∧ isPending s reevaluate p = true ∧ task.due F p = .ok x := by
  have haccepted : (i, Except.ok x) ∈ accepted scores := List.mem_map.mpr ⟨(i, x), List.mem_mergeSort.mp hx, rfl⟩
  obtain ⟨⟨j, p⟩, hp, heq⟩ := List.mem_map.mp (hperm.mem_iff.mp haccepted)
  obtain ⟨rfl, hdue⟩ := Prod.mk.inj heq
  obtain ⟨hget, hpending⟩ := mem_pending.mp hp
  exact ⟨p, hget, hpending, hdue⟩

/-- Every pending program has a score that has arrived. -/
theorem exists_score (hperm : (accepted scores).Perm (task.answers F (pending s reevaluate population))) {i : Nat}
    (hp : population.programs[i]? = some p) (hpending : isPending s reevaluate p = true) :
    ∃ x, (i, x) ∈ inOrder scores := by
  have hanswer : (i, task.due F p) ∈ task.answers F (pending s reevaluate population) :=
    List.mem_map.mpr ⟨(i, p), mem_pending.mpr ⟨hp, hpending⟩, rfl⟩
  obtain ⟨⟨j, x⟩, hx, heq⟩ := List.mem_map.mp (hperm.mem_iff.mpr hanswer)
  obtain ⟨rfl, -⟩ := Prod.mk.inj heq
  exact ⟨x, List.mem_mergeSort.mpr hx⟩

/-- **Once the scores are in, in whatever order, writing them down assesses the pending programs.** The banks may have
    changed since it was found out which programs are pending. -/
theorem writeScores_assessed (hcovers : lab'.store.Covers scope population.programs)
    (hsame : lab.store.SameScores lab'.store)
    (hperm : (accepted scores).Perm (task.answers F (pending lab.store reevaluate population))) :
    Ends (fun _ lab'' => Assessed (task.due F) reevaluate population.programs lab.store lab''.store) Never
      (writeScores population (inOrder scores) lab') := by
  refine (writeScores_written population (inOrder scores) lab' ?_).imp ?_ fun _ _ => id
  · intro i x hx
    obtain ⟨p, hp, -, -⟩ := exists_due hperm hx
    obtain ⟨c, hc, -⟩ := hcovers.entry p (List.mem_of_getElem? hp)
    exact ⟨p, c, hp, hc⟩
  · intro _ lab'' hwritten
    refine ⟨by rw [hwritten.nextId_eq, hsame.nextId_eq], ?_, ?_⟩
    · intro p hp hpending
      obtain ⟨i, hi⟩ := List.mem_iff_getElem?.mp hp
      obtain ⟨x, hx⟩ := exists_score hperm hi hpending
      rcases hwritten.fitnessAt_eq p.id with ⟨j, y, q, hy, hq, hid, heq⟩ | ⟨hnone, -⟩
      · obtain ⟨q', hq', -, hdue⟩ := exists_due hperm hy
        obtain rfl := Option.some.inj (hq.symm.trans hq')
        obtain rfl := hcovers.eq_of_id_eq q (List.mem_of_getElem? hq) p hp hid
        exact ⟨y, hdue, heq⟩
      · exact absurd rfl (hnone i x p hx hi)
    · intro id hid
      rcases hwritten.fitnessAt_eq id with ⟨j, y, q, hy, hq, hqid, -⟩ | ⟨-, heq⟩
      · obtain ⟨q', hq', hpending, -⟩ := exists_due hperm hy
        obtain rfl := Option.some.inj (hq.symm.trans hq')
        exact absurd hqid (hid q (List.mem_of_getElem? hq) hpending)
      · rw [heq, hsame.fitnessAt_eq]

theorem length_pending (s : Store) (reevaluate : Bool) (population : Population) :
    (pending s reevaluate population).length = (population.programs.filter (isPending s reevaluate)).length := by
  rw [← map_snd_pending, List.length_map]

/-- The first of several programs that fails, and its error. -/
def Task.FailsFirst (task : Task σ) (F : Program → Except Error Value) (ps : List Program) (e : Error) : Prop :=
  ∃ before p after, ps = before ++ p :: after ∧ (∀ q ∈ before, ∃ x, task.due F q = .ok x) ∧ task.due F p = .error e

theorem Task.FailsFirst.exists_mem {e : Error} (h : task.FailsFirst F ps e) : ∃ p ∈ ps, task.due F p = .error e := by
  obtain ⟨before, p, after, rfl, -, hp⟩ := h
  exact ⟨p, by simp, hp⟩

section Evaluation

variable (hF : task.Determined scope F)

include hF

/-- **Evaluation one program after the other** assesses the pending programs, or fails with the error of the first one
    of them that fails and leaves every fitness as it is. -/
theorem evaluate_assessed (h : lab.store.Covers scope population.programs) :
    Ends (fun count lab' => count = (population.programs.filter (isPending lab.store reevaluate)).length ∧
        Assessed (task.due F) reevaluate population.programs lab.store lab'.store)
      (fun e lab' => task.FailsFirst F (population.programs.filter (isPending lab.store reevaluate)) e ∧
        lab.store.SameScores lab'.store)
      (evaluate task reevaluate population lab) := by
  refine (scoreAll_gathers hF (pending lab.store reevaluate population) lab h
    fun _ => mem_programs_of_pending).bind ?_ ?_
  · intro scores lab' hout
    obtain ⟨hgather, hcovers, hsame⟩ := hout
    have haccepted := gather_ok hgather
    have hlength := congrArg List.length haccepted
    refine (writeScores_assessed hcovers hsame (.of_eq haccepted.symm)).bind ?_ fun _ _ => False.elim
    intro _ lab'' hassessed
    refine ⟨?_, hassessed⟩
    rw [← length_pending]
    simpa [Task.answers, accepted] using hlength.symm
  · intro e lab' he
    obtain ⟨hgather, -, hsame⟩ := he
    refine ⟨?_, hsame⟩
    -- what has been gathered are the answers to the pending programs, in their order
    obtain ⟨before, i, after, hsplit, hbefore⟩ := gather_error hgather
    obtain ⟨items, items', hitems, rfl, hrest⟩ := List.map_eq_append_iff.mp hsplit
    obtain ⟨⟨j, p⟩, items'', rfl, hp, rfl⟩ := List.map_eq_cons_iff.mp hrest
    obtain ⟨rfl, hdue⟩ := Prod.mk.inj hp
    refine ⟨items.map (·.2), p, items''.map (·.2), ?_, ?_, hdue⟩
    · rw [← map_snd_pending, hitems]
      simp
    · intro q hq
      obtain ⟨item, hitem, rfl⟩ := List.mem_map.mp hq
      exact hbefore _ (List.mem_map.mpr ⟨item, hitem, rfl⟩)

/-- **Evaluation by a pool of workers** assesses the pending programs as well, in whatever order their scores arrive, or
    it fails with the error of one of them and leaves everything as it is. -/
theorem evaluateDelivered_assessed (h : lab.store.Covers scope population.programs)
    (hd : Delivery task lab (pending lab.store reevaluate population) delivered) :
    Ends (fun count lab' => count = (population.programs.filter (isPending lab.store reevaluate)).length ∧
        Assessed (task.due F) reevaluate population.programs lab.store lab'.store)
      (fun e lab' => (∃ p ∈ population.programs.filter (isPending lab.store reevaluate), task.due F p = .error e) ∧
        lab' = lab)
      (evaluateDelivered population delivered lab) := by
  have hperm := hd.perm hF h fun _ => mem_programs_of_pending
  unfold evaluateDelivered
  cases hgather : gather delivered with
  | error e =>
      obtain ⟨before, i, after, hsplit, -⟩ := gather_error hgather
      have hmem : (i, Except.error e) ∈ delivered := by simp [hsplit]
      obtain ⟨⟨j, p⟩, hp, heq⟩ := List.mem_map.mp (hperm.mem_iff.mp hmem)
      obtain ⟨-, hdue⟩ := Prod.mk.inj heq
      refine ⟨⟨p, ?_, hdue⟩, rfl⟩
      rw [← map_snd_pending]
      exact List.mem_map.mpr ⟨(j, p), hp, rfl⟩
  | ok scores =>
      obtain rfl := gather_ok hgather
      have hlength := hperm.length_eq
      refine (writeScores_assessed h (.refl _) hperm).bind ?_ fun _ _ => False.elim
      intro _ lab' hassessed
      refine ⟨?_, hassessed⟩
      rw [← length_pending]
      simpa [Task.answers, accepted] using hlength

/--
**Evaluation by a pool agrees with evaluation one program after the other, and either is all or nothing.** If no pending
program fails, both answer the number of pending programs, give each of them the fitness that is due to it, change no
other fitness and leave the same scores behind. If one fails, both fail and change no fitness, and the error of the
evaluation one after the other is that of the first pending program that fails.
-/
theorem evaluateDelivered_agrees (h : lab.store.Covers scope population.programs)
    (hd : Delivery task lab (pending lab.store reevaluate population) delivered) :
    ((∀ p ∈ population.programs, isPending lab.store reevaluate p = true → ∃ x, task.due F p = .ok x) →
      ∃ count one pool, evaluate task reevaluate population lab = .ok count one ∧
        evaluateDelivered population delivered lab = .ok count pool ∧
        count = (population.programs.filter (isPending lab.store reevaluate)).length ∧
        Assessed (task.due F) reevaluate population.programs lab.store pool.store ∧
        one.store.SameScores pool.store) ∧
    ((∃ p ∈ population.programs, isPending lab.store reevaluate p = true ∧ ∃ e, task.due F p = .error e) →
      ∃ e one e', evaluate task reevaluate population lab = .error e one ∧
        task.FailsFirst F (population.programs.filter (isPending lab.store reevaluate)) e ∧
        lab.store.SameScores one.store ∧
        evaluateDelivered population delivered lab = .error e' lab ∧
        ∃ p ∈ population.programs.filter (isPending lab.store reevaluate), task.due F p = .error e') := by
  have hone : Ends _ _ (evaluate task reevaluate population lab) := evaluate_assessed hF h
  have hpool := evaluateDelivered_assessed hF h hd
  constructor
  · intro hdue
    -- an error would be that of a pending program
    have hnone : ∀ e, ¬∃ p ∈ population.programs.filter (isPending lab.store reevaluate),
        task.due F p = .error e := by
      rintro e ⟨p, hp, he⟩
      obtain ⟨x, hx⟩ := hdue p (List.mem_filter.mp hp).1 (List.mem_filter.mp hp).2
      exact nomatch hx.symm.trans he
    cases hout : evaluate task reevaluate population lab with
    | error e one =>
        rw [hout] at hone
        exact absurd hone.1.exists_mem (hnone e)
    | ok count one =>
        cases hout' : evaluateDelivered population delivered lab with
        | error e pool =>
            rw [hout'] at hpool
            exact absurd hpool.1 (hnone e)
        | ok count' pool =>
            rw [hout] at hone
            rw [hout'] at hpool
            obtain rfl : count' = count := hpool.1.trans hone.1.symm
            exact ⟨count', one, pool, rfl, rfl, hpool.1, hpool.2, hone.2.unique hpool.2⟩
  · rintro ⟨p, hp, hpending, e, he⟩
    -- after an assessment a fitness would be due to every pending program
    have hsome : ∀ s', ¬Assessed (task.due F) reevaluate population.programs lab.store s' := by
      intro s' hassessed
      obtain ⟨x, hx, -⟩ := hassessed.pending p hp hpending
      exact nomatch hx.symm.trans he
    cases hout : evaluate task reevaluate population lab with
    | ok count one =>
        rw [hout] at hone
        exact absurd hone.2 (hsome _)
    | error e₁ one =>
        cases hout' : evaluateDelivered population delivered lab with
        | ok count pool =>
            rw [hout'] at hpool
            exact absurd hpool.2 (hsome _)
        | error e₂ pool =>
            rw [hout] at hone
            rw [hout'] at hpool
            obtain ⟨hfails, rfl⟩ := hpool
            exact ⟨e₁, one, e₂, rfl, hone.1, hone.2, rfl, hfails⟩

end Evaluation

/-- A task that scores programs of one instruction and fails on all others. -/
def fussy : Task Unit :=
  ⟨"fussy", 1, 1, fun p => if p.size = 1 then return .float 1.0 else throw (.fault ⟨.badValue, "too long"⟩)⟩

/-- What that task does with a program. -/
def fussyOf (p : Program) : Except Error Value :=
  if p.size = 1 then .ok (.float 1.0) else .error (.fault ⟨.badValue, "too long"⟩)

theorem fussy_determined : fussy.Determined (fun _ _ => True) fussyOf := by
  intro p r world _
  unfold fussy fussyOf
  by_cases hsize : p.size = 1
  · simp [hsize]
  · simp [hsize]

/-- A program of one instruction, and another one. -/
def duo (code : List Instruction) : Population :=
  .ofPrograms [{ Program.quotient with code := Program.quotient.code.drop 1 }, ⟨1, code, Program.quotient.shape⟩] none 0

/-- A lab with two unscored programs. -/
def duoLab : Lab Unit Unit :=
  { Lab.start () () with store := ⟨#[some ⟨none, .zeros 2 1⟩, some ⟨none, .zeros 2 1⟩]⟩ }

theorem duo_covers (code : List Instruction) : duoLab.store.Covers (fun _ _ => True) (duo code).programs := by
  constructor
  · intro p hp
    rcases List.mem_pair.mp hp with rfl | rfl
    · exact ⟨_, rfl, trivial⟩
    · exact ⟨_, rfl, trivial⟩
  · intro p hp q hq hid
    rcases List.mem_pair.mp hp with rfl | rfl <;> rcases List.mem_pair.mp hq with rfl | rfl
    · rfl
    · exact nomatch hid
    · exact nomatch hid
    · rfl

/-- What workers deliver for the two programs, the answer to the second one first. -/
def duoReversed (code : List Instruction) : List (Nat × Except Error Float) :=
  ((pending duoLab.store false (duo code)).map fun item => (item.1, workerAnswer fussy duoLab () item.2)).reverse

/-- Two programs of one instruction are scored either way; if the second one is longer, nothing is. -/
theorem evaluateDelivered_agrees_reversed :
    (∃ one pool, evaluate fussy false (duo (Program.quotient.code.drop 1)) duoLab = .ok 2 one ∧
      evaluateDelivered (duo (Program.quotient.code.drop 1)) (duoReversed (Program.quotient.code.drop 1)) duoLab =
        .ok 2 pool ∧ one.store.SameScores pool.store) ∧
    ∃ e one e', evaluate fussy false (duo Program.quotient.code) duoLab = .error e one ∧
      duoLab.store.SameScores one.store ∧
      evaluateDelivered (duo Program.quotient.code) (duoReversed Program.quotient.code) duoLab = .error e' duoLab := by
  have hdelivery : ∀ code, Delivery fussy duoLab (pending duoLab.store false (duo code)) (duoReversed code) :=
    fun code => ⟨fun _ => (), List.reverse_perm _⟩
  have hshort := evaluateDelivered_agrees fussy_determined (duo_covers _) (hdelivery (Program.quotient.code.drop 1))
  have hlong := evaluateDelivered_agrees fussy_determined (duo_covers _) (hdelivery Program.quotient.code)
  constructor
  · obtain ⟨count, one, pool, hone, hpool, hcount, -, hsame⟩ := hshort.1 fun p hp _ => by
      rcases List.mem_pair.mp hp with rfl | rfl
      · exact ⟨1.0, rfl⟩
      · exact ⟨1.0, rfl⟩
    obtain rfl : count = 2 := hcount
    exact ⟨one, pool, hone, hpool, hsame⟩
  · obtain ⟨e, one, e', hone, -, hsame, hpool, -⟩ := hlong.2 ⟨_, List.mem_pair.mpr (.inr rfl), rfl, _, rfl⟩
    exact ⟨e, one, e', hone, hsame, hpool⟩

end RegisterEvolution
