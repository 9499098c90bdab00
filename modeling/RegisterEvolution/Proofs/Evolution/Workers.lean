import RegisterEvolution.Proofs.Evolution.Answers
import RegisterEvolution.Proofs.Evolution.Phases

/-!
# `Proofs.Evolution.Workers` — evaluation by a pool of workers

A worker scores a copy of a program in a world of its own, and sends its answer back. Whatever a standard says of the
scores of a task it says of these answers as well, so that a pool keeps a standard up as an engine by itself does, in
whatever order the answers arrive. Banks of workers are lost, and those of the programs are left as they are.

* `gather_ok`, `gather_error` — the scores that have arrived, or the first failure;
* `evaluateDelivered_ends` — a pool gives every pending program a fitness and changes no other fitness;
* `Engine.Evaluates.upholds`, `Engine.Evaluates.succeeds` — the same for every way in which an engine may evaluate.
-/

namespace RegisterEvolution

variable {γ σ : Type} {task : Task σ} {S : Standard task} {ps : List Program} {p : Program} {lab : Lab γ σ}
  {items : List (Nat × Program)} {delivered : List (Nat × Except Error Float)} {scores : List (Nat × Float)}

/-! ## Answers that arrive -/

/-- Scores as answers. -/
def accepted (scores : List (Nat × Float)) : List (Nat × Except Error Float) :=
  scores.map fun score => (score.1, .ok score.2)

theorem mem_accepted {i : Nat} {x : Float} : (i, .ok x) ∈ accepted scores ↔ (i, x) ∈ scores := by
  simp [accepted]

/-- Only scores are gathered. -/
theorem gather_ok (h : gather delivered = .ok scores) : delivered = accepted scores := by
  induction delivered generalizing scores with
  | nil =>
      obtain rfl := Except.ok.inj h
      rfl
  | cons answer rest ih =>
      obtain ⟨i, outcome⟩ := answer
      unfold gather at h
      obtain ⟨x, rfl, htail⟩ := except_bind_eq_ok.mp h
      obtain ⟨scores', hrest, hscores⟩ := except_bind_eq_ok.mp htail
      obtain rfl := Except.ok.inj hscores
      rw [ih hrest]
      rfl

/-- The first failure ends the gathering. -/
theorem gather_error {e : Error} (h : gather delivered = .error e) :
    ∃ before i after, delivered = before ++ (i, .error e) :: after ∧ ∀ answer ∈ before, ∃ x, answer.2 = .ok x := by
  induction delivered with
  | nil => exact nomatch h
  | cons answer rest ih =>
      obtain ⟨i, outcome⟩ := answer
      unfold gather at h
      cases outcome with
      | error e' =>
          obtain rfl : e' = e := Except.error.inj h
          exact ⟨[], i, rest, rfl, List.forall_mem_nil _⟩
      | ok x =>
          cases hrest : gather rest with
          | ok scores =>
              rw [hrest] at h
              exact nomatch h
          | error e' =>
              rw [hrest] at h
              obtain rfl : e' = e := Except.error.inj h
              obtain ⟨before, j, after, hsplit, hbefore⟩ := ih hrest
              refine ⟨(i, .ok x) :: before, j, after, by rw [hsplit]; rfl, ?_⟩
              exact List.forall_mem_cons.mpr ⟨⟨x, rfl⟩, hbefore⟩

/-! ## Pools -/

/-- A score that a worker comes to has its worth. -/
theorem workerAnswer_worth (h : Upholds S lab.store ps) (hp : p ∈ ps) (world : σ) {x : Float}
    (hx : workerAnswer task lab world p = .ok x) : S.worth p x := by
  have hscore := score_ends { lab with world := world } h hp
  unfold workerAnswer at hx
  cases hout : score task p { lab with world := world } with
  | error e lab' =>
      rw [hout] at hx
      exact nomatch hx
  | ok y lab' =>
      rw [hout] at hx hscore
      obtain rfl := Except.ok.inj hx
      exact hscore.2

/-- When all answers are scores, every program has one, and it is of worth. -/
theorem Delivery.scored (hd : Delivery task lab items (accepted scores)) (h : Upholds S lab.store ps)
    (hitems : ∀ item ∈ items, item.2 ∈ ps) : Scored S items scores := by
  obtain ⟨worlds, hperm⟩ := hd
  constructor
  · intro i x hx
    obtain ⟨⟨j, p⟩, hp, heq⟩ := List.mem_map.mp (hperm.mem_iff.mp (mem_accepted.mpr hx))
    obtain ⟨rfl, hanswer⟩ := Prod.mk.inj heq
    exact ⟨p, hp, workerAnswer_worth h (hitems _ hp) _ hanswer⟩
  · rintro ⟨i, p⟩ hp
    have hanswer := hperm.mem_iff.mpr (List.mem_map.mpr ⟨_, hp, rfl⟩)
    obtain ⟨⟨j, x⟩, hx, heq⟩ := List.mem_map.mp hanswer
    obtain ⟨rfl, -⟩ := Prod.mk.inj heq
    exact ⟨x, hx⟩

variable {reevaluate : Bool} {population : Population}

/-- **Evaluation by a pool of workers** gives every pending program a fitness of worth and changes no other one; when it
    fails, nothing has changed. -/
theorem evaluateDelivered_ends (h : Upholds S lab.store population.programs)
    (hd : Delivery task lab (pending lab.store reevaluate population) delivered) :
    Ends (fun _ lab' => Upholds S lab'.store population.programs ∧
        Evaluated S reevaluate population.programs lab.store lab'.store)
      (fun _ lab' => lab' = lab) (evaluateDelivered population delivered lab) := by
  unfold evaluateDelivered
  cases hgather : gather delivered with
  | error e => exact rfl
  | ok scores =>
      obtain rfl := gather_ok hgather
      have hscored := hd.scored h fun _ => mem_programs_of_pending
      exact (writeScores_evaluated h (.refl _) hscored).bind (fun _ _ hevaluated => hevaluated) fun _ _ => False.elim

/-- Workers score in worlds of their own. -/
theorem evaluateDelivered_world (population : Population) (delivered : List (Nat × Except Error Float))
    (lab : Lab γ σ) :
    Ends (fun _ lab' => lab'.world = lab.world) (fun _ _ => True) (evaluateDelivered population delivered lab) := by
  unfold evaluateDelivered
  cases gather delivered with
  | error e => exact trivial
  | ok scores => exact (writeScores_world population (inOrder scores) lab).bind (fun _ _ h => h) fun _ _ => id

/-- A pool has no failure to report if the task answers. -/
theorem evaluateDelivered_ok {shapes : Shape → Prop} {worth : List Instruction → Shape → Float → Prop}
    (h : task.Answers shapes worth) (hps : Upholds h.standard lab.store population.programs)
    (hd : Delivery task lab (pending lab.store reevaluate population) delivered) :
    Ends (fun _ lab' => Upholds h.standard lab'.store population.programs ∧
        Evaluated h.standard reevaluate population.programs lab.store lab'.store)
      Never (evaluateDelivered population delivered lab) := by
  have hanswers : ∀ e, gather delivered ≠ .error e := by
    intro e he
    obtain ⟨before, i, after, hsplit, -⟩ := gather_error he
    obtain ⟨worlds, hperm⟩ := hd
    have hmem : (i, Except.error e) ∈ delivered := by simp [hsplit]
    obtain ⟨⟨j, p⟩, hp, heq⟩ := List.mem_map.mp (hperm.mem_iff.mp hmem)
    obtain ⟨rfl, hanswer⟩ := Prod.mk.inj heq
    obtain ⟨x, lab', hout, -⟩ :=
      (score_ok h { lab with world := worlds j } hps (mem_programs_of_pending hp)).exists_ok
    unfold workerAnswer at hanswer
    rw [hout] at hanswer
    exact nomatch hanswer
  unfold evaluateDelivered
  cases hgather : gather delivered with
  | error e => exact absurd hgather (hanswers e)
  | ok scores =>
      obtain rfl := gather_ok hgather
      have hscored := hd.scored hps fun _ => mem_programs_of_pending
      exact (writeScores_evaluated hps (.refl _) hscored).bind (fun _ _ hevaluated => hevaluated) fun _ _ => False.elim

/-! ## Either way -/

namespace Engine

variable {e : Engine σ} {evaluation : Population → Run γ σ Nat}

/-- **Either way of evaluating keeps a standard up** and completes the scores, or fails and leaves all of them. -/
theorem Evaluates.upholds {S : Standard e.task} (hevaluation : e.Evaluates evaluation) (population : Population)
    (lab : Lab γ σ) (h : Upholds S lab.store population.programs) :
    Ends (fun _ lab' => Upholds S lab'.store population.programs ∧
        Evaluated S e.plan.reevaluate population.programs lab.store lab'.store)
      (fun _ lab' => Upholds S lab'.store population.programs ∧ lab.store.SameScores lab'.store)
      (evaluation population lab) := by
  cases hevaluation with
  | alone => exact evaluate_ends e.plan.reevaluate population lab h
  | pooled schedule hschedule =>
      refine (evaluateDelivered_ends h (hschedule population lab)).imp (fun _ _ hout => hout) ?_
      rintro _ lab' rfl
      exact ⟨h, .refl _⟩

/-- **Either way of evaluating succeeds** if the task answers. -/
theorem Evaluates.succeeds {shapes : Shape → Prop} {worth : List Instruction → Shape → Float → Prop}
    (hevaluation : e.Evaluates evaluation) (h : e.task.Answers shapes worth) (population : Population) (lab : Lab γ σ)
    (hps : Upholds h.standard lab.store population.programs) :
    Ends (fun _ lab' => Upholds h.standard lab'.store population.programs ∧
        Evaluated h.standard e.plan.reevaluate population.programs lab.store lab'.store)
      Never (evaluation population lab) := by
  cases hevaluation with
  | alone => exact evaluate_ok h e.plan.reevaluate population lab hps
  | pooled schedule hschedule => exact evaluateDelivered_ok h hps (hschedule population lab)

end Engine

end RegisterEvolution
