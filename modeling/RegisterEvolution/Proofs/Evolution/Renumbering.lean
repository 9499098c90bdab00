import RegisterEvolution.Proofs.Evolution.Twins
import RegisterEvolution.Tasks.Classification
import RegisterEvolution.Tasks.Control

/-!
# `Proofs.Evolution.Renumbering` — labs that count their programs from different beginnings

Numbers are given to programs one after the other, so where the counting begins depends on what has been built before.
Apart from messages nothing in a lab looks at a number but to find an entry of the store, and nobody looks at the
warning about small pools but who gives it. So if the task and the observers do not look at numbers either, labs with
other beginnings and with another warning do the same.

* `Store.Shifted`, `Lab.Shifted` — stores that agree from two beginnings on, and labs with such stores;
* `Lab.counted_shifted` — breeding cannot tell such labs apart;
* `Task.NumberBlind`, `Observer.NumberBlind` — tasks and observers that do not look at numbers;
* `Task.TwinBlind`, `Observer.TwinBlind` — the same for two given beginnings;
* `evaluate_shifted`, `evaluateDelivered_shifted` — scoring on such labs, by the engine itself and by pools;
* `dispatch_shifted` — events on such labs.
-/

namespace RegisterEvolution

variable {γ σ : Type} {base base' : Nat} {W : σ → σ → Prop} {s t : Store} {p q : Program}

/-! ## Stores -/

/-- Stores that agree, banks and all, on the numbers from two beginnings on. -/
structure Store.Shifted (base base' : Nat) (s t : Store) : Prop where
  nextId : ∃ k, s.nextId = base + k ∧ t.nextId = base' + k
  cells : ∀ k, t.cell? (base' + k) = s.cell? (base + k)

namespace Store.Shifted

/-- Any two stores agree on the numbers that they have not used up. -/
theorem start (s t : Store) : Store.Shifted s.nextId t.nextId s t := by
  have hnone : ∀ (s : Store) (k : Nat), s.cell? (s.nextId + k) = none := by
    intro s k
    cases hc : s.cell? (s.nextId + k) with
    | none => rfl
    | some c =>
        have hlt := lt_nextId hc
        omega
  exact ⟨⟨0, rfl, rfl⟩, fun k => by rw [hnone, hnone]⟩

variable (h : Store.Shifted base base' s t)

include h

/-- Stores that agree on banks and fitness agree on fitness. -/
theorem twin : Store.Twin base base' s t :=
  ⟨h.nextId, fun k => by unfold fitnessAt; rw [h.cells]⟩

theorem cell?_eq (hpq : Program.Twin base base' p q) : t.cell? q.id = s.cell? p.id := by
  obtain ⟨k, hk, hk'⟩ := hpq.offset
  rw [hk, hk', h.cells]

theorem registers_eq (hpq : Program.Twin base base' p q) : t.registers q = s.registers p := by
  unfold registers
  rw [h.cell?_eq hpq]

/-- Either store has one more entry. -/
theorem push (c : Option Cell) : Store.Shifted base base' ⟨s.cells.push c⟩ ⟨t.cells.push c⟩ := by
  obtain ⟨k, hk, hk'⟩ := h.nextId
  constructor
  · exact ⟨k + 1, by rw [nextId_push, hk, Nat.add_assoc], by rw [nextId_push, hk', Nat.add_assoc]⟩
  · intro j
    rw [cell?_push_eq, cell?_push_eq, hk, hk', h.cells]
    by_cases hj : j = k
    · simp [hj]
    · simp [hj]

/-- The entries of twins are changed in the same way. -/
theorem modifyCell (hpq : Program.Twin base base' p q) (f : Cell → Cell) :
    Store.Shifted base base' (s.modifyCell p.id f) (t.modifyCell q.id f) := by
  obtain ⟨k, hk, hk'⟩ := hpq.offset
  refine ⟨by simpa using h.nextId, fun j => ?_⟩
  rw [cell?_modifyCell, cell?_modifyCell, h.cells, hk, hk']
  by_cases hj : k = j
  · simp [hj]
  · simp [hj]

end Store.Shifted

/-! ## Labs -/

/-- Labs with the same generator, with stores that agree from two beginnings on, and with worlds that are related. The
    journals and the warnings may differ. -/
structure Lab.Shifted (W : σ → σ → Prop) (base base' : Nat) (lab lab' : Lab γ σ) : Prop where
  source : lab'.source = lab.source
  store : Store.Shifted base base' lab.store lab'.store
  world : W lab.world lab'.world

/-- Computations on such labs with results that are related; of errors nothing is said. -/
abbrev RunsShifted {α β : Type} (W : σ → σ → Prop) (base base' : Nat) (V : α → β → Prop) (m : Run γ σ α)
    (n : Run γ σ β) : Prop := Coupled (Lab.Shifted W base base') (fun _ _ => True) V m n

/-- **Breeding cannot tell such labs apart.** -/
theorem Lab.counted_shifted :
    Lab.Counted base base' (Store.Shifted base base') (Lab.Shifted (γ := γ) W base base') where
  twin _ _ hst := hst.twin
  push _ _ c hst := hst.push c
  source _ _ h := h.source
  store _ _ h := h.store
  draw _ _ _ h := { h with source := rfl }
  grow _ _ _ _ h hst := { h with store := hst }
  aside _ _ _ _ _ _ h := ⟨h.source, h.store, h.world⟩

/-! ## Scoring -/

/-- A task that does the same with programs of the same instructions and shape, whatever their numbers are, and leaves
    related worlds behind. -/
def Task.NumberBlind (W : σ → σ → Prop) (task : Task σ) : Prop :=
  ∀ p q : Program, q.code = p.code → q.shape = p.shape →
    Coupled (Bench.Beside W) (fun _ _ => True) Eq (task.score p) (task.score q)

/-- A task that does the same with twins and leaves related worlds behind. -/
def Task.TwinBlind (W : σ → σ → Prop) (base base' : Nat) (task : Task σ) : Prop :=
  ∀ p q : Program, Program.Twin base base' p q →
    Coupled (Bench.Beside W) (fun _ _ => True) Eq (task.score p) (task.score q)

theorem Task.NumberBlind.twinBlind {task : Task σ} (h : task.NumberBlind W) : task.TwinBlind W base base' :=
  fun p q hpq => h p q hpq.code hpq.shape

/-- A task that computes the same with programs of the same instructions and shape. -/
theorem Task.NumberBlind.of_eq {task : Task σ}
    (h : ∀ (id id' : Nat) (code : List Instruction) (shape : Shape),
      task.score ⟨id, code, shape⟩ = task.score ⟨id', code, shape⟩) : task.NumberBlind Eq := by
  rintro ⟨id, code, shape⟩ ⟨id', code', shape'⟩ hcode hshape
  obtain rfl : code' = code := hcode
  obtain rfl : shape' = shape := hshape
  rw [h id id' code' shape']
  rintro ⟨r, world⟩ ⟨r', world'⟩ ⟨hr, hworld⟩
  obtain rfl : r = r' := hr
  obtain rfl : world = world' := hworld
  cases task.score ⟨id', code', shape'⟩ ⟨r, world⟩ with
  | ok v b => exact ⟨rfl, rfl, rfl⟩
  | error e b => exact ⟨trivial, rfl, rfl⟩

/-- Classification does not look at numbers. -/
theorem Classification.numberBlind (c : Classification) : (c.task : Task σ).NumberBlind Eq := by
  refine .of_eq fun id id' code shape => ?_
  have hobserve : ∀ samples a, c.observeAll (σ := σ) ⟨id, code, shape⟩ samples a =
      c.observeAll ⟨id', code, shape⟩ samples a := by
    intro samples
    induction samples with
    | nil => exact fun _ => rfl
    | cons x rest ih =>
        intro a
        unfold observeAll
        simp only [ih]
        rfl
  show (do return .float (← c.evaluate ⟨id, code, shape⟩) : Scoring σ Value) = _
  unfold evaluate
  rw [hobserve]
  rfl

/-- Playing in an environment does not look at numbers. -/
theorem Control.numberBlind (c : Control σ) : c.task.NumberBlind Eq := by
  refine .of_eq fun id id' code shape => ?_
  have hplay : ∀ limit state score, c.playOn ⟨id, code, shape⟩ limit state score =
      c.playOn ⟨id', code, shape⟩ limit state score := by
    intro limit
    induction limit with
    | zero => exact fun _ _ => rfl
    | succ limit ih =>
        intro state score
        unfold playOn
        simp only [ih]
        rfl
  have hepisodes : ∀ count seed, c.episodes ⟨id, code, shape⟩ count seed =
      c.episodes ⟨id', code, shape⟩ count seed := by
    intro count
    induction count with
    | zero => exact fun _ => rfl
    | succ count ih =>
        intro seed
        unfold episodes episode
        simp only [hplay, ih]
  show (do return .float (← c.evaluate ⟨id, code, shape⟩) : Scoring σ Value) = _
  unfold evaluate
  rw [hepisodes]
  rfl

section Scoring

variable {task : Task σ} {population population' : Population}

/-- A score is accepted of either program or of none. -/
theorem toFitness_alike {R : Lab γ σ → Lab γ σ → Prop} (p q : Program) (v : Value) :
    Coupled R (fun _ _ => True) Eq (Run.ofExcept (toFitness p v)) (Run.ofExcept (toFitness q v)) := by
  unfold toFitness
  cases v.toNumber with
  | error f => exact .throw trivial
  | ok x =>
      simp only
      by_cases hx : x.isFinite = true
      · rw [if_pos hx, if_pos hx]
        exact .pure rfl
      · rw [if_neg hx, if_neg hx]
        exact .throw trivial

section Programs

variable (htask : task.TwinBlind W base base')

include htask

/-- Twins are scored alike. -/
theorem score_shifted (hpq : Program.Twin base base' p q) :
    RunsShifted (γ := γ) W base base' Eq (score task p) (score task q) := by
  intro lab lab' h
  have hbench := htask p q hpq ⟨lab.store.registers p, lab.world⟩ ⟨lab'.store.registers q, lab'.world⟩
    ⟨(h.store.registers_eq hpq).symm, h.world⟩
  -- the banks that scoring leaves are put back into the labs, whatever the outcome
  have hkeep : ∀ b b' : Bench σ, b.Beside W b' → Lab.Shifted W base base'
      { lab with store := lab.store.setRegisters p b.registers, world := b.world }
      { lab' with store := lab'.store.setRegisters q b'.registers, world := b'.world } := by
    intro b b' hbb'
    rw [hbb'.registers]
    exact ⟨h.source, h.store.modifyCell hpq _, hbb'.world⟩
  unfold score onBench
  rcases hbench.exists_or with ⟨v, b, v', b', hout, hout', rfl, hbb'⟩ | ⟨e, b, e', b', hout, hout', -, hbb'⟩
  · rw [hout, hout']
    exact toFitness_alike p q v _ _ (hkeep b b' hbb')
  · rw [hout, hout']
    exact ⟨trivial, hkeep b b' hbb'⟩

/-- Twins at the same position. -/
def ItemTwin (base base' : Nat) (item item' : Nat × Program) : Prop :=
  item'.1 = item.1 ∧ Program.Twin base base' item.2 item'.2

theorem scoreAll_shifted {items items' : List (Nat × Program)} (h : List.Forall₂ (ItemTwin base base') items items') :
    RunsShifted (γ := γ) W base base' Eq (scoreAll task items) (scoreAll task items') := by
  induction h with
  | nil => exact .pure rfl
  | @cons item item' rest rest' hitem _ ih =>
      unfold scoreAll
      rw [hitem.1]
      refine (score_shifted htask hitem.2).bind ?_
      rintro x _ rfl
      refine ih.bind ?_
      rintro scores _ rfl
      exact .pure rfl

end Programs

/-- The same positions are pending. -/
theorem Store.Shifted.pending (h : Store.Shifted base base' s t)
    (hpq : population.Paired (Program.Twin base base') population') (reevaluate : Bool) :
    List.Forall₂ (ItemTwin base base') (pending s reevaluate population) (pending t reevaluate population') := by
  have hzip : ∀ {ps qs : List Program}, List.Forall₂ (Program.Twin base base') ps qs → ∀ i,
      List.Forall₂ (fun a b => Program.Twin base base' a.1 b.1 ∧ b.2 = a.2) (ps.zipIdx i) (qs.zipIdx i) := by
    intro ps qs hpqs
    induction hpqs with
    | nil => exact fun _ => .nil
    | cons hfirst _ ih => exact fun i => .cons ⟨hfirst, rfl⟩ (ih (i + 1))
  refine List.rel_map ?_ (List.rel_filter ?_ (hzip hpq.programs 0))
  · exact fun a b hab => ⟨hab.2, hab.1⟩
  · intro a b hab
    simp only [h.twin.isPending_eq hab.1]

theorem writeScores_shifted (hpq : population.Paired (Program.Twin base base') population')
    (scores : List (Nat × Float)) :
    RunsShifted (γ := γ) W base base' Eq (writeScores population scores) (writeScores population' scores) := by
  induction scores with
  | nil => exact .pure rfl
  | cons score rest ih =>
      obtain ⟨i, x⟩ := score
      unfold writeScores
      rcases rel_getElem? hpq.programs i with ⟨hp, hq⟩ | ⟨p, q, hp, hq, htwin⟩
      · rw [hp, hq]
        exact ih
      · rw [hp, hq]
        refine Coupled.bind (V := Eq) ?_ fun _ _ _ => ih
        refine Coupled.bind (V := Eq) (.modify ?_) fun _ _ _ => Lab.counted_shifted.report _ _
        exact fun lab lab' h => ⟨h.source, h.store.modifyCell htwin _, h.world⟩

/-- **Evaluation one program after the other** comes to the same on such labs. -/
theorem evaluate_shifted (htask : task.TwinBlind W base base') (reevaluate : Bool)
    (hpq : population.Paired (Program.Twin base base') population') :
    RunsShifted (γ := γ) W base base' Eq (evaluate task reevaluate population)
      (evaluate task reevaluate population') := by
  refine .get_bind fun lab lab' h => ?_
  refine (scoreAll_shifted htask (h.store.pending hpq reevaluate)).bind ?_
  rintro scores _ rfl
  exact (writeScores_shifted hpq (inOrder scores)).bind fun _ _ _ => .pure rfl

/-! ## Pools of workers -/

/-- Two equal answers, or two failures related by `E`. -/
inductive AnswersAlike {α : Type} (E : Error → Error → Prop) : Except Error α → Except Error α → Prop where
  | ok (a : α) : AnswersAlike E (.ok a) (.ok a)
  | error {e e' : Error} : E e e' → AnswersAlike E (.error e) (.error e')

theorem AnswersAlike.isOk_eq {α : Type} {E : Error → Error → Prop} {r r' : Except Error α}
    (h : AnswersAlike E r r') : r.isOk = r'.isOk := by
  cases h with
  | ok x => rfl
  | error _ => rfl

/-- Workers in related worlds come to the same. -/
theorem workerAnswer_shifted (htask : task.TwinBlind W base base') {lab lab' : Lab γ σ}
    (h : lab.Shifted W base base' lab') {world world' : σ} (hworld : W world world')
    (hpq : Program.Twin base base' p q) :
    AnswersAlike (fun _ _ => True) (workerAnswer task lab world p) (workerAnswer task lab' world' q) := by
  have hscore := score_shifted htask hpq { lab with world := world } { lab' with world := world' }
    ⟨h.source, h.store, hworld⟩
  unfold workerAnswer
  rcases hscore.exists_or with ⟨x, next, y, next', hout, hout', rfl, -⟩ | ⟨e, next, e', next', hout, hout', -⟩
  · rw [hout, hout']
    exact .ok x
  · rw [hout, hout']
    exact .error trivial

/-- What the workers of two pools deliver if the same worlds, up to `W`, are there for the same positions. Either pool
    delivers in an order of its own. -/
def DeliveredAlike (W : σ → σ → Prop) (task : Task σ) (reevaluate : Bool) (lab lab' : Lab γ σ)
    (population population' : Population) (delivered delivered' : List (Nat × Except Error Float)) : Prop :=
  ∃ worlds worlds' : Nat → σ, (∀ i, W (worlds i) (worlds' i)) ∧
    delivered.Perm ((pending lab.store reevaluate population).map fun item =>
      (item.1, workerAnswer task lab (worlds item.1) item.2)) ∧
    delivered'.Perm ((pending lab'.store reevaluate population').map fun item =>
      (item.1, workerAnswer task lab' (worlds' item.1) item.2))

/-- The positions of pending programs are in order. -/
theorem pending_pairwise (s : Store) (reevaluate : Bool) (population : Population) :
    (pending s reevaluate population).Pairwise fun a b => a.1 < b.1 := by
  have hzip : population.programs.zipIdx.Pairwise fun a b => a.2 < b.2 := by
    rw [← List.pairwise_map (f := Prod.snd) (R := (· < ·)), List.zipIdx_map_snd]
    exact List.pairwise_lt_range' 1
  exact List.pairwise_map.mpr (hzip.filter _)

/-- Answers in any order to pending programs are, once they are gathered and put in order, the answers in order. -/
theorem accepted_inOrder {delivered answers : List (Nat × Except Error Float)} {scores : List (Nat × Float)}
    (hperm : delivered.Perm answers) (hanswers : answers.Pairwise fun a b => a.1 < b.1)
    (hgather : gather delivered = .ok scores) : accepted (inOrder scores) = answers := by
  obtain rfl := gather_ok hgather
  have hperm' : (accepted (inOrder scores)).Perm answers := ((List.mergeSort_perm scores _).map _).trans hperm
  have hsorted : (accepted (inOrder scores)).Pairwise fun a b => a.1 ≤ b.1 := by
    have hpairwise : (inOrder scores).Pairwise fun a b => decide (a.1 ≤ b.1) = true := by
      refine List.pairwise_mergeSort ?_ ?_ scores
      · intro a b c hab hbc
        simp only [decide_eq_true_eq] at *
        omega
      · intro a b
        simp only [Bool.or_eq_true, decide_eq_true_eq]
        omega
    exact List.pairwise_map.mpr (hpairwise.imp fun hab => of_decide_eq_true hab)
  refine hperm'.eq_of_pairwise ?_ hsorted (hanswers.imp fun hab => hab.le)
  -- of two answers at one position there is only one
  intro a b ha hb hab hba
  have hnodup : (answers.map Prod.fst).Nodup := List.pairwise_map.mpr (hanswers.imp fun hlt => hlt.ne)
  exact List.inj_on_of_nodup_map hnodup (hperm'.mem_iff.mp ha) hb (Nat.le_antisymm hab hba)

/-- Answers are gathered unless there is a failure among them. -/
theorem isOk_gather (delivered : List (Nat × Except Error Float)) :
    (gather delivered).isOk = delivered.all fun answer => answer.2.isOk := by
  induction delivered with
  | nil => rfl
  | cons answer rest ih =>
      obtain ⟨i, outcome⟩ := answer
      rw [List.all_cons, ← ih]
      cases outcome with
      | error e => rfl
      | ok x =>
          show (do return (i, x) :: (← gather rest) : Except Error (List (Nat × Float))).isOk = (true && _)
          cases gather rest with
          | error e => rfl
          | ok scores => rfl

/-- Answers that are alike, delivered in any orders, are gathered to the same scores, or none of them are. -/
theorem gather_alike {delivered delivered' answers answers' : List (Nat × Except Error Float)}
    (hperm : delivered.Perm answers) (hperm' : delivered'.Perm answers')
    (hanswers : answers.Pairwise fun a b => a.1 < b.1) (hanswers' : answers'.Pairwise fun a b => a.1 < b.1)
    (halike : List.Forall₂ (fun a b => b.1 = a.1 ∧ AnswersAlike (fun _ _ => True) a.2 b.2) answers answers') :
    (∃ scores scores', gather delivered = .ok scores ∧ gather delivered' = .ok scores' ∧
        inOrder scores = inOrder scores') ∨
      ∃ e e', gather delivered = .error e ∧ gather delivered' = .error e' := by
  have hok : (gather delivered).isOk = (gather delivered').isOk := by
    rw [isOk_gather, isOk_gather, hperm.all_eq, hperm'.all_eq]
    clear hperm hperm' hanswers hanswers'
    induction halike with
    | nil => rfl
    | @cons a b _ _ hab _ ih =>
        rw [List.all_cons, List.all_cons, ih, hab.2.isOk_eq]
  cases hgather : gather delivered with
  | error e =>
      cases hgather' : gather delivered' with
      | error e' => exact .inr ⟨e, e', rfl, rfl⟩
      | ok scores' =>
          rw [hgather, hgather'] at hok
          exact nomatch hok
  | ok scores =>
      cases hgather' : gather delivered' with
      | error e' =>
          rw [hgather, hgather'] at hok
          exact nomatch hok
      | ok scores' =>
          refine .inl ⟨scores, scores', rfl, rfl, ?_⟩
          rw [← accepted_inOrder hperm hanswers hgather, ← accepted_inOrder hperm' hanswers' hgather'] at halike
          unfold accepted at halike
          rw [List.forall₂_map_left_iff, List.forall₂_map_right_iff] at halike
          rw [← List.forall₂_eq_eq_eq]
          refine halike.imp ?_
          rintro ⟨i, x⟩ ⟨j, y⟩ ⟨rfl, hxy⟩
          cases hxy with
          | ok x => rfl

/-- **Evaluation by pools** comes to the same on such labs, in whatever orders the scores arrive. -/
theorem evaluateDelivered_shifted (htask : task.TwinBlind W base base') {reevaluate : Bool} {lab lab' : Lab γ σ}
    (h : lab.Shifted W base base' lab') (hpq : population.Paired (Program.Twin base base') population')
    {delivered delivered' : List (Nat × Except Error Float)}
    (hd : DeliveredAlike W task reevaluate lab lab' population population' delivered delivered') :
    Pairs (fun count count' lab lab' => count = count' ∧ lab.Shifted W base base' lab')
      (fun _ _ lab lab' => True ∧ lab.Shifted W base base' lab') (evaluateDelivered population delivered lab)
      (evaluateDelivered population' delivered' lab') := by
  obtain ⟨worlds, worlds', hworlds, hperm, hperm'⟩ := hd
  have halike : List.Forall₂ (fun a b => b.1 = a.1 ∧ AnswersAlike (fun _ _ => True) a.2 b.2)
      ((pending lab.store reevaluate population).map fun item =>
        (item.1, workerAnswer task lab (worlds item.1) item.2))
      ((pending lab'.store reevaluate population').map fun item =>
        (item.1, workerAnswer task lab' (worlds' item.1) item.2)) := by
    refine List.rel_map ?_ (h.store.pending hpq reevaluate)
    rintro ⟨i, p⟩ ⟨j, q⟩ ⟨rfl, htwin⟩
    exact ⟨rfl, workerAnswer_shifted htask h (hworlds _) htwin⟩
  unfold evaluateDelivered
  rcases gather_alike hperm hperm' (List.pairwise_map.mpr (pending_pairwise ..))
    (List.pairwise_map.mpr (pending_pairwise ..)) halike with
    ⟨scores, scores', hgather, hgather', horder⟩ | ⟨e, e', hgather, hgather'⟩
  · rw [hgather, hgather']
    have hlength : scores.length = scores'.length := by
      simpa [inOrder] using congrArg List.length horder
    show Pairs _ _ ((do writeScores population (inOrder scores); return scores.length : Run γ σ Nat) lab)
      ((do writeScores population' (inOrder scores'); return scores'.length : Run γ σ Nat) lab')
    rw [horder, hlength]
    exact ((writeScores_shifted hpq (inOrder scores')).bind fun _ _ _ => .pure rfl) lab lab' h
  · rw [hgather, hgather']
    exact ⟨trivial, h⟩

end Scoring

/-! ## Observers -/

/-- Two errors that can both be quoted, or neither. -/
def Error.QuotedAlike (e e' : Error) : Prop := e.quote.isOk = e'.quote.isOk

/-- An observer that answers the same on populations that correspond, whatever the numbers of the programs are, and
    leaves related worlds behind. What it writes into the journal may differ, and so may the wording of its errors. -/
def Observer.NumberBlind (W : σ → σ → Prop) (o : Observer σ) : Prop :=
  ∀ (base base' : Nat) (event : Event) (s t : Store) (p q : Population), Store.Shifted base base' s t →
    p.Paired (Program.Twin base base') q →
      Coupled (fun n n' : Notes σ => W n.world n'.world) Error.QuotedAlike Eq (o.notice event s p)
        (o.notice event t q)

/-- An observer that answers the same on populations and stores that correspond, and leaves related worlds behind. -/
def Observer.TwinBlind (W : σ → σ → Prop) (base base' : Nat) (o : Observer σ) : Prop :=
  ∀ (event : Event) (s t : Store) (p q : Population), Store.Shifted base base' s t →
    p.Paired (Program.Twin base base') q →
      Coupled (fun n n' : Notes σ => W n.world n'.world) Error.QuotedAlike Eq (o.notice event s p)
        (o.notice event t q)

theorem Observer.NumberBlind.twinBlind {o : Observer σ} (h : o.NumberBlind W) : o.TwinBlind W base base' := h base base'

/-- Tallies of answers that are alike: the causes of failures may differ. -/
structure Tally.Alike (t t' : Tally) : Prop where
  stops : t'.stops = t.stops
  failure : t'.failure.isSome = t.failure.isSome

/-- One more failure of either. -/
theorem Tally.Alike.fail {t t' : Tally} (h : t.Alike t') (e e' : ObserverError) : (t.fail e).Alike (t'.fail e') := by
  refine ⟨h.stops, ?_⟩
  unfold Tally.fail
  rw [Option.isSome_or, Option.isSome_or, h.failure]
  rfl

section Dispatch

variable {event : Event} {population population' : Population}
  (hpq : population.Paired (Program.Twin base base') population')

theorem onNotes_shifted {α : Type} {m n : EStateM Error (Notes σ) α}
    (h : Coupled (fun n n' : Notes σ => W n.world n'.world) Error.QuotedAlike Eq m n) :
    RunsShifted (γ := γ) W base base' (AnswersAlike Error.QuotedAlike) (onNotes m) (onNotes n) := by
  intro lab lab' hlab
  have hnotes := h ⟨lab.journal, lab.world⟩ ⟨lab'.journal, lab'.world⟩ hlab.world
  unfold onNotes
  rcases hnotes.exists_or with
    ⟨a, notes, b, notes', hout, hout', rfl, hworld⟩ | ⟨e, notes, e', notes', hout, hout', hquoted, hworld⟩
  · rw [hout, hout']
    exact ⟨.ok a, hlab.source, hlab.store, hworld⟩
  · rw [hout, hout']
    exact ⟨.error hquoted, hlab.source, hlab.store, hworld⟩

include hpq

theorem tell_shifted {o : Observer σ} (h : o.TwinBlind W base base') {t t' : Tally} (ht : t.Alike t') :
    RunsShifted (γ := γ) W base base' Tally.Alike (tell event population t o) (tell event population' t' o) := by
  refine .get_bind fun lab lab' hlab => ?_
  refine (onNotes_shifted (h event _ _ _ _ hlab.store hpq)).bind ?_
  intro answer answer' halike
  cases halike with
  | @error e e' hquoted =>
      simp only
      unfold Error.QuotedAlike at hquoted
      cases hquote : e.quote with
      | ok quote =>
          cases hquote' : e'.quote with
          | ok quote' => exact (Lab.counted_shifted.report _ _).bind fun _ _ _ => .pure (ht.fail _ _)
          | error failure' =>
              rw [hquote, hquote'] at hquoted
              exact nomatch hquoted
      | error failure =>
          cases hquote' : e'.quote with
          | ok quote' =>
              rw [hquote, hquote'] at hquoted
              exact nomatch hquoted
          | error failure' =>
              simp only [ht.failure]
              split
              · exact .pure ht
              · exact .throw trivial
  | ok verdict =>
      cases verdict with
      | proceed => exact .pure ht
      | stop => exact (Lab.counted_shifted.report _ _).bind fun _ _ _ => .pure ⟨rfl, ht.failure⟩
      | failure => exact (Lab.counted_shifted.report _ _).bind fun _ _ _ => .pure (ht.fail _ _)

theorem tellAll_shifted (observers : List (Observer σ)) (h : ∀ o ∈ observers, o.TwinBlind W base base')
    {t t' : Tally} (ht : t.Alike t') :
    RunsShifted (γ := γ) W base base' Tally.Alike (tellAll event population observers t)
      (tellAll event population' observers t') := by
  induction observers generalizing t t' with
  | nil => exact .pure ht
  | cons o rest ih =>
      obtain ⟨ho, hrest⟩ := List.forall_mem_cons.mp h
      exact (tell_shifted hpq ho ht).bind fun _ _ ht' => ih hrest ht'

/-- **Observers that do not look at numbers** ask to stop in both labs or in none, and fail in both or in none. -/
theorem dispatch_shifted {observers : List (Observer σ)} (h : ∀ o ∈ observers, o.TwinBlind W base base') :
    RunsShifted (γ := γ) W base base' Eq (dispatch observers event population)
      (dispatch observers event population') := by
  refine (tellAll_shifted hpq observers h ⟨rfl, rfl⟩).bind ?_
  intro t t' ht
  have hfailure := ht.failure
  cases hone : t.failure with
  | none =>
      cases hother : t'.failure with
      | none => exact .pure ht.stops.symm
      | some e =>
          rw [hone, hother] at hfailure
          exact nomatch hfailure
  | some e =>
      cases hother : t'.failure with
      | none =>
          rw [hone, hother] at hfailure
          exact nomatch hfailure
      | some e' => exact .throw trivial

end Dispatch

end RegisterEvolution
