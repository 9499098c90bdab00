import Mathlib.Data.List.Nodup
import RegisterEvolution.Evolution.Evaluation
import RegisterEvolution.Proofs.Program.Store

/-!
# `Proofs.Evolution.Scoring` — what evaluation writes down

Evaluation scores the pending programs one after the other and then writes the scores down. A `Standard` says what is
known about the banks on which a program is scored and about the scores that a task accepts; a store that upholds it
before evaluation does so afterwards, whether evaluation succeeds or fails.

* `Standard` — what banks and scores of a program satisfy, as far as a task preserves it;
* `Upholds` — programs under different numbers, each with an entry up to the standard;
* `evaluate_ends` — evaluation gives every pending program a fitness and changes no other fitness.
-/

namespace RegisterEvolution

variable {γ σ : Type}

/-! ## Standards -/

/--
What is known about the banks and the scores of programs of certain shapes: fresh banks are up to the standard, scoring
keeps it, and a score that is accepted has the worth of the instructions that were scored.
-/
structure Standard (task : Task σ) where
  shapes : Shape → Prop
  banks : Program → Registers → Prop
  worth : Program → Float → Prop
  fresh : ∀ p r, Store.freshRegisters p.shape = .ok r → banks p r
  hereditary : ∀ p q x, q.code = p.code → q.shape = p.shape → worth p x → worth q x
  scored : ∀ p r world, shapes p.shape → p.shape.flaw? p.code = none → banks p r →
    Ends (fun v b => banks p b.registers ∧ ∀ x, toFitness p v = .ok x → worth p x) (fun _ b => banks p b.registers)
      (task.score p ⟨r, world⟩)

/-- A program without a flaw that has an entry up to the standard. -/
structure Upheld {task : Task σ} (S : Standard task) (s : Store) (p : Program) : Prop where
  shape : S.shapes p.shape
  flawless : p.shape.flaw? p.code = none
  entry : ∃ c, s.cell? p.id = some c ∧ S.banks p c.registers ∧ ∀ x, c.fitness = some x → S.worth p x

/-- Programs under different numbers, each of which is up to the standard. -/
structure Upholds {task : Task σ} (S : Standard task) (s : Store) (ps : List Program) : Prop where
  each : ∀ p ∈ ps, Upheld S s p
  nodup : (ps.map (·.id)).Nodup

/-- An accepted score is a finite number. -/
theorem isFinite_of_toFitness {p : Program} {v : Value} {x : Float} (h : toFitness p v = .ok x) :
    v.toNumber = .ok x ∧ x.isFinite = true := by
  unfold toFitness at h
  split at h
  · rename_i y hy
    split at h
    · rename_i hfinite
      obtain rfl := Except.ok.inj h
      exact ⟨hy, hfinite⟩
    · exact nomatch h
  · exact nomatch h

/-- The standard of every task: accepted scores are finite. -/
def Standard.finite (task : Task σ) : Standard task where
  shapes _ := True
  banks _ _ := True
  worth _ x := x.isFinite = true
  fresh _ _ _ := trivial
  hereditary _ _ _ _ _ h := h
  scored p r world _ _ _ := by
    cases task.score p ⟨r, world⟩ with
    | ok v b => exact ⟨trivial, fun x hx => (isFinite_of_toFitness hx).2⟩
    | error e b => exact trivial

variable {task : Task σ} {S : Standard task} {s s' : Store} {ps : List Program} {p q : Program}

namespace Upholds

theorem eq_of_id_eq (h : Upholds S s ps) (hp : p ∈ ps) (hq : q ∈ ps) (hid : p.id = q.id) : p = q :=
  List.inj_on_of_nodup_map h.nodup hp hq hid

theorem exists_cell (h : Upholds S s ps) (hp : p ∈ ps) : ∃ c, s.cell? p.id = some c := by
  obtain ⟨c, hc, -⟩ := (h.each p hp).entry
  exact ⟨c, hc⟩

theorem worth (h : Upholds S s ps) (hp : p ∈ ps) {x : Float} (hx : s.fitnessAt p.id = some x) : S.worth p x := by
  obtain ⟨c, hc, -, hworth⟩ := (h.each p hp).entry
  rw [Store.fitnessAt_eq hc] at hx
  exact hworth x hx

theorem sublist (h : Upholds S s ps) {qs : List Program} (hsub : qs.Sublist ps) : Upholds S s qs :=
  ⟨fun p hp => h.each p (hsub.mem hp), h.nodup.sublist (hsub.map _)⟩

theorem perm (h : Upholds S s ps) {qs : List Program} (hperm : ps.Perm qs) : Upholds S s qs :=
  ⟨fun p hp => h.each p (hperm.mem_iff.mpr hp), (hperm.map _).nodup_iff.mp h.nodup⟩

/-- Entries that are only added do not matter. -/
theorem later (h : Upholds S s ps) (hle : s.Extends s') : Upholds S s' ps :=
  ⟨fun p hp => ⟨(h.each p hp).shape, (h.each p hp).flawless, by
    obtain ⟨c, hc, hrest⟩ := (h.each p hp).entry
    exact ⟨c, hle.cell?_some hc, hrest⟩⟩, h.nodup⟩

/-- Banks up to the standard may be written down. -/
theorem setRegisters (h : Upholds S s ps) (hp : p ∈ ps) {r : Registers} (hr : S.banks p r) :
    Upholds S (s.setRegisters p r) ps := by
  refine ⟨fun q hq => ⟨(h.each q hq).shape, (h.each q hq).flawless, ?_⟩, h.nodup⟩
  obtain ⟨c, hc, hbanks, hworth⟩ := (h.each q hq).entry
  rw [Store.cell?_setRegisters, hc]
  -- programs have numbers of their own, so that a write under a number concerns one program
  by_cases hid : p.id = q.id
  · obtain rfl := h.eq_of_id_eq hp hq hid
    exact ⟨{ c with registers := r }, by rw [if_pos rfl]; rfl, hr, hworth⟩
  · exact ⟨c, by rw [if_neg hid], hbanks, hworth⟩

/-- A score of worth may be written down. -/
theorem setFitness (h : Upholds S s ps) (hp : p ∈ ps) {x : Float} (hx : S.worth p x) :
    Upholds S (s.setFitness p (some x)) ps := by
  refine ⟨fun q hq => ⟨(h.each q hq).shape, (h.each q hq).flawless, ?_⟩, h.nodup⟩
  obtain ⟨c, hc, hbanks, hworth⟩ := (h.each q hq).entry
  rw [Store.cell?_setFitness, hc]
  by_cases hid : p.id = q.id
  · obtain rfl := h.eq_of_id_eq hp hq hid
    refine ⟨{ c with fitness := some x }, by rw [if_pos rfl]; rfl, hbanks, ?_⟩
    intro y hy
    obtain rfl := Option.some.inj hy
    exact hx
  · exact ⟨c, by rw [if_neg hid], hbanks, hworth⟩

end Upholds

/-! ## Scoring one program after the other -/

/-- A store with the same numbers and scores; banks may differ. -/
structure Store.SameScores (s s' : Store) : Prop where
  nextId_eq : s'.nextId = s.nextId
  fitnessAt_eq : ∀ id, s'.fitnessAt id = s.fitnessAt id

theorem Store.SameScores.refl (s : Store) : s.SameScores s := ⟨rfl, fun _ => rfl⟩

theorem Store.SameScores.trans {s'' : Store} (h : s.SameScores s') (h' : s'.SameScores s'') : s.SameScores s'' :=
  ⟨by rw [h'.nextId_eq, h.nextId_eq], fun id => by rw [h'.fitnessAt_eq, h.fitnessAt_eq]⟩

/-- Scoring a program changes its banks only, and a result has its worth. -/
theorem score_ends (lab : Lab γ σ) (h : Upholds S lab.store ps) (hp : p ∈ ps) :
    Ends (fun x lab' => (Upholds S lab'.store ps ∧ lab.store.SameScores lab'.store) ∧ S.worth p x)
      (fun _ lab' => Upholds S lab'.store ps ∧ lab.store.SameScores lab'.store) (score task p lab) := by
  obtain ⟨c, hc, hbanks, -⟩ := (h.each p hp).entry
  have hscored := S.scored p c.registers lab.world (h.each p hp).shape (h.each p hp).flawless hbanks
  -- the banks are put back into the entry, whatever the outcome
  have hkeep : ∀ b : Bench σ, S.banks p b.registers → Upholds S (lab.store.setRegisters p b.registers) ps ∧
      lab.store.SameScores (lab.store.setRegisters p b.registers) := fun b hb =>
    ⟨h.setRegisters hp hb, Store.nextId_setRegisters .., Store.fitnessAt_setRegisters lab.store p b.registers⟩
  unfold score onBench
  rw [Store.registers_eq hc]
  cases hout : task.score p ⟨c.registers, lab.world⟩ with
  | error e b =>
      rw [hout] at hscored
      exact hkeep b hscored
  | ok v b =>
      rw [hout] at hscored
      simp only
      cases hv : toFitness p v with
      | error e => exact hkeep b hscored.1
      | ok x => exact ⟨hkeep b hscored.1, hscored.2 x hv⟩

/-- Scores of worth that belong to the given programs, at their positions; each program has one. -/
structure Scored {task : Task σ} (S : Standard task) (items : List (Nat × Program)) (scores : List (Nat × Float)) :
    Prop where
  exists_item : ∀ i x, (i, x) ∈ scores → ∃ p, (i, p) ∈ items ∧ S.worth p x
  exists_score : ∀ item ∈ items, ∃ x, (item.1, x) ∈ scores

theorem Scored.nil : Scored S [] [] := ⟨nofun, nofun⟩

/-- One more program and its score. -/
theorem Scored.cons {i : Nat} {x : Float} {items : List (Nat × Program)} {scores : List (Nat × Float)}
    (hx : S.worth p x) (h : Scored S items scores) : Scored S ((i, p) :: items) ((i, x) :: scores) := by
  constructor
  · intro j y hy
    rcases List.mem_cons.mp hy with hy | hy
    · obtain ⟨rfl, rfl⟩ := Prod.mk.inj hy
      exact ⟨p, List.mem_cons_self .., hx⟩
    · obtain ⟨q, hq, hworth⟩ := h.exists_item j y hy
      exact ⟨q, List.mem_cons_of_mem _ hq, hworth⟩
  · intro item hitem
    rcases List.mem_cons.mp hitem with rfl | hitem
    · exact ⟨x, List.mem_cons_self ..⟩
    · obtain ⟨y, hy⟩ := h.exists_score item hitem
      exact ⟨y, List.mem_cons_of_mem _ hy⟩

theorem scoreAll_ends (items : List (Nat × Program)) (lab : Lab γ σ) (h : Upholds S lab.store ps)
    (hitems : ∀ item ∈ items, item.2 ∈ ps) :
    Ends (fun scores lab' => (Upholds S lab'.store ps ∧ lab.store.SameScores lab'.store) ∧ Scored S items scores)
      (fun _ lab' => Upholds S lab'.store ps ∧ lab.store.SameScores lab'.store) (scoreAll task items lab) := by
  induction items generalizing lab with
  | nil => exact ⟨⟨h, .refl _⟩, .nil⟩
  | cons item rest ih =>
      obtain ⟨i, p⟩ := item
      refine (score_ends lab h (hitems _ (List.mem_cons_self ..))).bind ?_ fun _ _ he => he
      intro x lab' hx
      refine (ih lab' hx.1.1 fun item hitem => hitems item (List.mem_cons_of_mem _ hitem)).bind
        (fun scores lab'' hscores => ?_) fun _ _ he => ⟨he.1, hx.1.2.trans he.2⟩
      exact ⟨⟨hscores.1.1, hx.1.2.trans hscores.1.2⟩, hscores.2.cons hx.2⟩

/-! ## Writing scores down -/

/-- The fitness that entries have after scores have been written down: one of those of a number, or the old one. -/
structure Written (ps : List Program) (scores : List (Nat × Float)) (s s' : Store) : Prop where
  nextId_eq : s'.nextId = s.nextId
  fitnessAt_eq : ∀ id,
    (∃ i x p, (i, x) ∈ scores ∧ ps[i]? = some p ∧ p.id = id ∧ s'.fitnessAt id = some x) ∨
      ((∀ i x p, (i, x) ∈ scores → ps[i]? = some p → p.id ≠ id) ∧ s'.fitnessAt id = s.fitnessAt id)

/-- One more score is written down first; a later score of the same number prevails over it. -/
theorem Written.cons {i : Nat} {x : Float} {rest : List (Nat × Float)} {c : Cell} (hp : ps[i]? = some p)
    (hc : s.cell? p.id = some c) (h : Written ps rest (s.setFitness p (some x)) s') :
    Written ps ((i, x) :: rest) s s' := by
  refine ⟨by rw [h.nextId_eq, Store.nextId_setFitness], ?_⟩
  intro id
  rcases h.fitnessAt_eq id with ⟨j, y, q, hy, hq, hid, heq⟩ | ⟨hnone, heq⟩
  · exact .inl ⟨j, y, q, List.mem_cons_of_mem _ hy, hq, hid, heq⟩
  · -- none of the later scores is of this number, so that the first one decides
    rw [Store.fitnessAt_setFitness hc] at heq
    by_cases hid : p.id = id
    · rw [if_pos hid] at heq
      exact .inl ⟨i, x, p, List.mem_cons_self .., hp, hid, heq⟩
    · rw [if_neg hid] at heq
      refine .inr ⟨?_, heq⟩
      intro j y q hy hq
      rcases List.mem_cons.mp hy with hy | hy
      · obtain ⟨rfl, rfl⟩ := Prod.mk.inj hy
        rw [hp] at hq
        obtain rfl := Option.some.inj hq
        exact hid
      · exact hnone j y q hy hq

/-- Scores of programs with entries can be written down, and are found in the entries then. The induction goes along the
    scores. -/
theorem writeScores_written (population : Population) (scores : List (Nat × Float)) (lab : Lab γ σ)
    (hscores : ∀ i x, (i, x) ∈ scores →
      ∃ p c, population.programs[i]? = some p ∧ lab.store.cell? p.id = some c) :
    Ends (fun _ lab' => Written population.programs scores lab.store lab'.store) Never
      (writeScores population scores lab) := by
  induction scores generalizing lab with
  | nil => exact ⟨rfl, fun id => .inr ⟨fun i x p hx => absurd hx List.not_mem_nil, rfl⟩⟩
  | cons score rest ih =>
      obtain ⟨i, x⟩ := score
      obtain ⟨p, c, hp, hc⟩ := hscores i x (List.mem_cons_self ..)
      unfold writeScores
      rw [hp]
      -- entries are changed, but none is lost; the report on the score changes the journal only
      have hwrite : ∀ now : Lab γ σ, now.store = lab.store.setFitness p (some x) →
          Ends (fun _ lab' => Written population.programs ((i, x) :: rest) lab.store lab'.store) Never
            (writeScores population rest now) := by
        intro now hstore
        refine (ih now ?_).imp ?_ fun _ _ => id
        · intro j y hy
          obtain ⟨q, d, hq, hd⟩ := hscores j y (List.mem_cons_of_mem _ hy)
          rw [hstore]
          by_cases hid : p.id = q.id
          · exact ⟨q, { d with fitness := some x }, hq, by simp [Store.cell?_setFitness, hid, hd]⟩
          · exact ⟨q, d, hq, by simp [Store.cell?_setFitness, hid, hd]⟩
        · intro _ lab' hwritten
          rw [hstore] at hwritten
          exact hwritten.cons hp hc
      exact hwrite _ rfl

/-- Scores of worth keep a standard up. -/
theorem writeScores_upholds (population : Population) (scores : List (Nat × Float)) (lab : Lab γ σ)
    (h : Upholds S lab.store population.programs)
    (hscores : ∀ i x, (i, x) ∈ scores → ∃ p, population.programs[i]? = some p ∧ S.worth p x) :
    Ends (fun _ lab' => Upholds S lab'.store population.programs) Never (writeScores population scores lab) := by
  induction scores generalizing lab with
  | nil => exact h
  | cons score rest ih =>
      obtain ⟨i, x⟩ := score
      obtain ⟨p, hp, hx⟩ := hscores i x (List.mem_cons_self ..)
      unfold writeScores
      rw [hp]
      exact ih _ (h.setFitness (List.mem_of_getElem? hp) hx) fun j y hy => hscores j y (List.mem_cons_of_mem _ hy)

/-- Writing scores of worth down. -/
theorem writeScores_ends (population : Population) (scores : List (Nat × Float)) (lab : Lab γ σ)
    (h : Upholds S lab.store population.programs)
    (hscores : ∀ i x, (i, x) ∈ scores → ∃ p, population.programs[i]? = some p ∧ S.worth p x) :
    Ends (fun _ lab' => Upholds S lab'.store population.programs ∧
        Written population.programs scores lab.store lab'.store) Never (writeScores population scores lab) := by
  refine ((writeScores_upholds population scores lab h hscores).and
    (writeScores_written population scores lab ?_)).imp (fun _ _ hout => hout) fun _ _ he => he.1
  intro i x hx
  obtain ⟨p, hp, -⟩ := hscores i x hx
  obtain ⟨c, hc⟩ := h.exists_cell (List.mem_of_getElem? hp)
  exact ⟨p, c, hp, hc⟩

/-! ## Evaluation -/

/-- The pending programs are those of the population that are to be scored, at their positions. -/
theorem mem_pending {reevaluate : Bool} {population : Population} {i : Nat} :
    (i, p) ∈ pending s reevaluate population ↔
      population.programs[i]? = some p ∧ isPending s reevaluate p = true := by
  unfold pending
  simp only [List.mem_map, List.mem_filter, Prod.exists, Prod.mk.injEq]
  constructor
  · rintro ⟨q, j, ⟨hmem, hpending⟩, rfl, rfl⟩
    exact ⟨List.mk_mem_zipIdx_iff_getElem?.mp hmem, hpending⟩
  · rintro ⟨hget, hpending⟩
    exact ⟨p, i, ⟨List.mk_mem_zipIdx_iff_getElem?.mpr hget, hpending⟩, rfl, rfl⟩

theorem mem_programs_of_pending {reevaluate : Bool} {population : Population} {item : Nat × Program}
    (h : item ∈ pending s reevaluate population) : item.2 ∈ population.programs :=
  List.mem_of_getElem? (mem_pending.mp h).1

/-- What an evaluation has done: every pending program has a fitness of worth, and no other fitness has changed. -/
structure Evaluated {task : Task σ} (S : Standard task) (reevaluate : Bool) (ps : List Program) (s s' : Store) :
    Prop where
  nextId_eq : s'.nextId = s.nextId
  pending : ∀ p ∈ ps, isPending s reevaluate p = true → ∃ x, s'.fitnessAt p.id = some x ∧ S.worth p x
  others : ∀ id, (∀ p ∈ ps, isPending s reevaluate p = true → p.id ≠ id) → s'.fitnessAt id = s.fitnessAt id

/-- **Once there is a score for every pending program, writing the scores down evaluates the population.** The banks may
    have changed since it was found out which programs are pending. -/
theorem writeScores_evaluated {reevaluate : Bool} {population : Population} {lab lab' : Lab γ σ}
    {scores : List (Nat × Float)} (h : Upholds S lab'.store population.programs)
    (hsame : lab.store.SameScores lab'.store) (hscored : Scored S (pending lab.store reevaluate population) scores) :
    Ends (fun _ lab'' => Upholds S lab''.store population.programs ∧
        Evaluated S reevaluate population.programs lab.store lab''.store) Never
      (writeScores population (inOrder scores) lab') := by
  -- every score that is written down belongs to a pending program
  have hback : ∀ i x, (i, x) ∈ inOrder scores →
      ∃ p, population.programs[i]? = some p ∧ isPending lab.store reevaluate p = true ∧ S.worth p x := by
    intro i x hx
    obtain ⟨p, hp, hworth⟩ := hscored.exists_item i x (List.mem_mergeSort.mp hx)
    obtain ⟨hget, hpending⟩ := mem_pending.mp hp
    exact ⟨p, hget, hpending, hworth⟩
  refine (writeScores_ends population (inOrder scores) lab' h ?_).imp ?_ fun _ _ => id
  · intro i x hx
    obtain ⟨p, hp, -, hworth⟩ := hback i x hx
    exact ⟨p, hp, hworth⟩
  · intro _ lab'' hwritten
    obtain ⟨hupholds', hwritten⟩ := hwritten
    refine ⟨hupholds', by rw [hwritten.nextId_eq, hsame.nextId_eq], ?_, ?_⟩
    · intro p hp hpending
      obtain ⟨i, hi⟩ := List.mem_iff_getElem?.mp hp
      obtain ⟨x, hx⟩ := hscored.exists_score _ (mem_pending.mpr ⟨hi, hpending⟩)
      rcases hwritten.fitnessAt_eq p.id with ⟨j, y, q, hy, hq, hid, heq⟩ | ⟨hnone, -⟩
      · obtain rfl := h.eq_of_id_eq (List.mem_of_getElem? hq) hp hid
        obtain ⟨q', hq', -, hworth⟩ := hback j y hy
        obtain rfl := Option.some.inj (hq.symm.trans hq')
        exact ⟨y, heq, hworth⟩
      · exact absurd rfl (hnone i x p (List.mem_mergeSort.mpr hx) hi)
    · intro id hid
      rcases hwritten.fitnessAt_eq id with ⟨j, y, q, hy, hq, hqid, -⟩ | ⟨-, heq⟩
      · obtain ⟨q', hq', hpending, -⟩ := hback j y hy
        obtain rfl := Option.some.inj (hq.symm.trans hq')
        exact absurd hqid (hid q (List.mem_of_getElem? hq) hpending)
      · rw [heq, hsame.fitnessAt_eq]

/-- **Evaluation gives every pending program a fitness of worth and changes no other one**; when it fails, no fitness
    has changed. -/
theorem evaluate_ends (reevaluate : Bool) (population : Population) (lab : Lab γ σ)
    (h : Upholds S lab.store population.programs) :
    Ends (fun _ lab' => Upholds S lab'.store population.programs ∧
        Evaluated S reevaluate population.programs lab.store lab'.store)
      (fun _ lab' => Upholds S lab'.store population.programs ∧ lab.store.SameScores lab'.store)
      (evaluate task reevaluate population lab) := by
  have hitems : ∀ item ∈ pending lab.store reevaluate population, item.2 ∈ population.programs :=
    fun _ => mem_programs_of_pending
  refine (scoreAll_ends (pending lab.store reevaluate population) lab h hitems).bind ?_ fun _ _ he => he
  intro scores lab' hout
  obtain ⟨⟨hupholds, hsame⟩, hscored⟩ := hout
  exact (writeScores_evaluated hupholds hsame hscored).bind (fun _ _ hevaluated => hevaluated) fun _ _ => False.elim

end RegisterEvolution
