import RegisterEvolution.Proofs.Evolution.Scoring

/-!
# `Proofs.Evolution.Answers` — evaluation with a task that answers

A task answers if it scores every program without a flaw on every bank that scoring can meet, and always with a finite
number. Evaluation with such a task cannot fail, and it calls the task once for each program that is pending.

* `Task.Banks`, `Task.Answers` — the banks that scoring can meet, and tasks that answer on them;
* `Task.Answers.standard` — the standard of such a task;
* `evaluate_ok` — evaluation succeeds;
* `evaluate_calls` — the calls that an evaluation makes, in the order in which it makes them.
-/

namespace RegisterEvolution

variable {γ σ τ : Type} {task : Task σ} {shapes : Shape → Prop} {worth : List Instruction → Shape → Float → Prop}

/-- The banks on which a program can be scored: fresh ones, and those that an earlier scoring has left. -/
inductive Task.Banks (task : Task σ) (p : Program) : Registers → Prop where
  | fresh {r : Registers} : Store.freshRegisters p.shape = .ok r → Banks task p r
  | scored {r : Registers} (world : σ) : Banks task p r → Banks task p (finalState (task.score p ⟨r, world⟩)).registers

/--
A task that scores every program of certain shapes, in every world, with a finite number that is of worth for its
instructions and its shape.
-/
def Task.Answers (task : Task σ) (shapes : Shape → Prop) (worth : List Instruction → Shape → Float → Prop) : Prop :=
  ∀ p r world, shapes p.shape → p.shape.flaw? p.code = none → task.Banks p r →
    Ends (fun v _ => ∃ x, v.toNumber = .ok x ∧ x.isFinite = true ∧ worth p.code p.shape x) Never
      (task.score p ⟨r, world⟩)

theorem Task.Answers.imp {worth' : List Instruction → Shape → Float → Prop} (h : task.Answers shapes worth)
    (hworth : ∀ code shape x, worth code shape x → worth' code shape x) : task.Answers shapes worth' :=
  fun p r world hshape hflaw hbanks => (h p r world hshape hflaw hbanks).imp
    (fun _ _ ⟨x, hx, hfinite, hx'⟩ => ⟨x, hx, hfinite, hworth _ _ _ hx'⟩) fun _ _ => id

/-! ## The standard of a task that answers -/

/-- Scoring leaves banks on which the program can be scored again. -/
theorem Task.Banks.final {p : Program} {r : Registers} {world : σ} (h : task.Banks p r) :
    Ends (fun _ b => task.Banks p b.registers) (fun _ b => task.Banks p b.registers) (task.score p ⟨r, world⟩) :=
  .of_final (.scored world h)

/-- A number that a task that answers gives is accepted. -/
theorem toFitness_ok {p : Program} {v : Value} {x : Float} (h : v.toNumber = .ok x) (hfinite : x.isFinite = true) :
    toFitness p v = .ok x := by
  unfold toFitness
  rw [h]
  exact if_pos hfinite

/-- The scores of a task that answers are finite and of worth. -/
def Task.Answers.standard (h : task.Answers shapes worth) : Standard task where
  shapes := shapes
  banks := task.Banks
  worth p x := x.isFinite = true ∧ worth p.code p.shape x
  fresh _ _ hfresh := .fresh hfresh
  hereditary p q x hcode hshape hx := by
    rw [hcode, hshape]
    exact hx
  scored p r world hshape hflaw hbanks := by
    refine ((h p r world hshape hflaw hbanks).and hbanks.final).imp ?_ fun _ _ he => he.2
    intro v b hv
    refine ⟨hv.2, ?_⟩
    intro x hx
    obtain ⟨y, hy, hfinite, hworth⟩ := hv.1
    obtain ⟨hnumber, -⟩ := isFinite_of_toFitness hx
    obtain rfl := Except.ok.inj (hy.symm.trans hnumber)
    exact ⟨hfinite, hworth⟩

variable (h : task.Answers shapes worth)

include h

theorem score_ok {ps : List Program} {p : Program} (lab : Lab γ σ) (hps : Upholds h.standard lab.store ps)
    (hp : p ∈ ps) : Ends (fun _ _ => True) Never (score task p lab) := by
  obtain ⟨c, hc, hbanks, -⟩ := (hps.each p hp).entry
  have hanswer := h p c.registers lab.world (hps.each p hp).shape (hps.each p hp).flawless hbanks
  obtain ⟨v, b, hv, x, hx, hfinite, -⟩ := hanswer.exists_ok
  unfold score onBench
  rw [Store.registers_eq hc, hv]
  simp only
  rw [toFitness_ok hx hfinite]
  exact trivial

theorem scoreAll_ok {ps : List Program} (items : List (Nat × Program)) (lab : Lab γ σ)
    (hps : Upholds h.standard lab.store ps) (hitems : ∀ item ∈ items, item.2 ∈ ps) :
    Ends (fun _ _ => True) Never (scoreAll task items lab) := by
  induction items generalizing lab with
  | nil => exact trivial
  | cons item rest ih =>
      obtain ⟨i, p⟩ := item
      have hp : p ∈ ps := hitems _ (List.mem_cons_self ..)
      refine ((score_ok h lab hps hp).and (score_ends lab hps hp)).bind ?_ fun _ _ he => he.1
      intro x lab' hx
      exact (ih lab' hx.2.1.1 fun item hitem => hitems item (List.mem_cons_of_mem _ hitem)).bind
        (fun _ _ _ => trivial) fun _ _ he => he

/-- **Evaluation with a task that answers succeeds**: every pending program has a fitness of worth afterwards. -/
theorem evaluate_ok (reevaluate : Bool) (population : Population) (lab : Lab γ σ)
    (hps : Upholds h.standard lab.store population.programs) :
    Ends (fun _ lab' => Upholds h.standard lab'.store population.programs ∧
        Evaluated h.standard reevaluate population.programs lab.store lab'.store)
      Never (evaluate task reevaluate population lab) := by
  have hitems : ∀ item ∈ pending lab.store reevaluate population, item.2 ∈ population.programs :=
    fun _ => mem_programs_of_pending
  have hsucceeds : Ends (fun _ _ => True) Never (evaluate task reevaluate population lab) := by
    refine ((scoreAll_ok h _ lab hps hitems).and (scoreAll_ends _ lab hps hitems)).bind ?_ fun _ _ he => he.1
    intro scores lab' hout
    exact (writeScores_evaluated hout.2.1.1 hout.2.1.2 hout.2.2).bind (fun _ _ _ => trivial) fun _ _ he => he
  exact (hsucceeds.and (evaluate_ends reevaluate population lab hps)).imp (fun _ _ hout => hout.2) fun _ _ he => he.1

omit h

/-! ## The calls that an evaluation makes -/

/-- The pending programs without their positions. -/
theorem map_snd_pending (s : Store) (reevaluate : Bool) (population : Population) :
    (pending s reevaluate population).map (·.2) = population.programs.filter (isPending s reevaluate) := by
  have hzip : ∀ (ps : List Program) (n : Nat),
      ((ps.zipIdx n).filter fun item => isPending s reevaluate item.1).map (·.1) =
        ps.filter (isPending s reevaluate) := by
    intro ps
    induction ps with
    | nil => exact fun _ => rfl
    | cons p rest ih =>
        intro n
        rw [List.zipIdx_cons, List.filter_cons, List.filter_cons]
        split
        · rw [List.map_cons, ih]
        · exact ih (n + 1)
  unfold pending
  rw [List.map_map]
  exact hzip population.programs 0

variable {view : σ → τ} {push : τ → Program → τ}
  (hcalls : ∀ p b, view (finalState (task.score p b)).world = push (view b.world) p)

include hcalls

/-- A view of the world that every call of the task pushes on is pushed on once by a scoring. -/
theorem score_calls (p : Program) (lab : Lab γ σ) :
    view (finalState (score task p lab)).world = push (view lab.world) p := by
  have hcall := hcalls p ⟨lab.store.registers p, lab.world⟩
  unfold score onBench
  cases hout : task.score p ⟨lab.store.registers p, lab.world⟩ with
  | error e b =>
      rw [hout] at hcall
      exact hcall
  | ok v b =>
      rw [hout] at hcall
      simp only
      cases toFitness p v with
      | error e => exact hcall
      | ok x => exact hcall

theorem scoreAll_calls (items : List (Nat × Program)) (lab : Lab γ σ) :
    Ends (fun _ lab' => view lab'.world = (items.map (·.2)).foldl push (view lab.world)) (fun _ _ => True)
      (scoreAll task items lab) := by
  induction items generalizing lab with
  | nil => exact rfl
  | cons item rest ih =>
      obtain ⟨i, p⟩ := item
      have hfirst := Ends.of_final (P := fun lab' : Lab γ σ => view lab'.world = push (view lab.world) p)
        (score_calls hcalls p lab)
      refine hfirst.bind ?_ fun _ _ _ => trivial
      intro x lab' hx
      refine (ih lab').bind ?_ fun _ _ _ => trivial
      intro scores lab'' hrest
      show view lab''.world = (rest.map (·.2)).foldl push (push (view lab.world) p)
      rw [hrest, hx]

omit hcalls in
theorem writeScores_world (population : Population) (scores : List (Nat × Float)) (lab : Lab γ σ) :
    Ends (fun _ lab' => lab'.world = lab.world) (fun _ _ => True) (writeScores population scores lab) := by
  induction scores generalizing lab with
  | nil => exact rfl
  | cons score rest ih =>
      obtain ⟨i, x⟩ := score
      unfold writeScores
      cases population.programs[i]? with
      | none => exact ih lab
      | some p => exact ih _

/-- **An evaluation calls the task once for each pending program**, in the order of the population. -/
theorem evaluate_calls (reevaluate : Bool) (population : Population) (lab : Lab γ σ) :
    Ends (fun _ lab' => view lab'.world =
        (population.programs.filter (isPending lab.store reevaluate)).foldl push (view lab.world))
      (fun _ _ => True) (evaluate task reevaluate population lab) := by
  refine (scoreAll_calls hcalls (pending lab.store reevaluate population) lab).bind ?_ fun _ _ _ => trivial
  intro scores lab' hscores
  refine (writeScores_world population (inOrder scores) lab').bind ?_ fun _ _ _ => trivial
  intro _ lab'' hworld
  show view lab''.world = _
  rw [hworld, hscores, map_snd_pending]

end RegisterEvolution
