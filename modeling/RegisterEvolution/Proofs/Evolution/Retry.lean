import RegisterEvolution.Proofs.Evolution.Progress
import RegisterEvolution.Proofs.Evolution.Repetition

/-!
# `Proofs.Evolution.Retry` — a failed generation can be tried again

A generation draws nothing before breeding. So one that fails earlier, because the task or an observer does, leaves the
engine as it was but for scores that have been written down and an order that has been made, and both come out the same
again. A state is resumable for a population of an earlier state if it differs from that state in such a way only, and
any two resumable states of one population go on alike.

* `FailsEarly`, `Attempts` — generations that fail before anything is bred, any number of them;
* `Resumable`, `prepare_ends` — what a failed attempt leaves, and what the next one makes of it;
* `finish_concurs` — breeding from the same pool on labs that are alike;
* `retry_after_attempts` — attempts change nothing that the next generation depends on.
-/

namespace RegisterEvolution

variable {γ σ : Type}

/-! ## Observers that do not stop a run -/

/-- An observer that never asks to stop. -/
def Observer.Persistent (o : Observer σ) : Prop :=
  ∀ event store p n, Ends (fun v _ => v ≠ .stop) (fun _ _ => True) (o.notice event store p n)

section Dispatch

variable (event : Event) (p : Population)

theorem tellAll_persistent {os : List (Observer σ)} (h : ∀ o ∈ os, o.Persistent) {t : Tally} (ht : t.stops = false)
    (lab : Lab γ σ) : Ends (fun t' _ => t'.stops = false) (fun _ _ => True) (tellAll event p os t lab) := by
  induction os generalizing t lab with
  | nil => exact ht
  | cons o rest ih =>
      have hpersistent := h o (List.mem_cons_self ..) event lab.store p ⟨lab.journal, lab.world⟩
      have hrest := fun o' ho' => h o' (List.mem_cons_of_mem o ho')
      refine ends_bind.mpr ?_
      unfold tell onNotes
      refine ends_bind.mpr (ends_get.mpr (ends_bind.mpr ?_))
      cases hout : o.notice event lab.store p ⟨lab.journal, lab.world⟩ with
      | error er n =>
          simp only [ends_ok]
          cases er.quote with
          | ok quote => exact ih hrest (t := t.fail _) ht _
          | error failure =>
              simp only
              split
              · exact ih hrest ht _
              · exact trivial
      | ok verdict n =>
          rw [hout] at hpersistent
          cases verdict with
          | proceed => exact ih hrest ht _
          | stop => exact absurd rfl hpersistent
          | failure => exact ih hrest (t := t.fail _) ht _

/-- Nobody asks to stop. -/
theorem dispatch_persistent {os : List (Observer σ)} (h : ∀ o ∈ os, o.Persistent) (lab : Lab γ σ) :
    Ends (fun stops _ => stops = false) (fun _ _ => True) (dispatch os event p lab) := by
  refine (tellAll_persistent event p h (t := .start) rfl lab).bind ?_ fun _ _ => id
  intro t lab' ht
  cases t.failure with
  | none => exact ht
  | some e => exact trivial

end Dispatch

/-- The same state in another world. -/
def EngineState.inWorld (s : EngineState γ σ) (world : σ) : EngineState γ σ :=
  { s with lab := { s.lab with world := world } }

namespace Engine

/-! ## What attempts leave as it is -/

/-- A state that differs at most in the population, the scores, the phase, the journal and the world. -/
structure Kept (s t : EngineState γ σ) : Prop where
  lab : s.lab.Undrawn t.lab
  lastRanked : t.lastRanked = s.lastRanked
  stopRequested : t.stopRequested = s.stopRequested

theorem Kept.refl (s : EngineState γ σ) : Kept s s := ⟨⟨rfl, rfl⟩, rfl, rfl⟩

theorem Kept.trans {s t u : EngineState γ σ} (h : Kept s t) (h' : Kept t u) : Kept s u :=
  ⟨h.lab.trans h'.lab, h'.lastRanked.trans h.lastRanked, h'.stopRequested.trans h.stopRequested⟩

/-- What telling observers leaves as it is, too. -/
structure Told (s t : EngineState γ σ) : Prop extends Kept s t where
  store : t.lab.store = s.lab.store
  population : t.population = s.population
  phase : t.phase = s.phase

variable {e : Engine σ} {s t : EngineState γ σ}

/-- Observers that do not stop a run change nothing but the journal and the world. -/
theorem notify_told (h : ∀ o ∈ e.observers, o.Persistent) (event : Event) (p : Population) (s : EngineState γ σ) :
    Ends (fun _ s' => Told s s') (fun _ s' => Told s s') (e.notify event p s) := by
  have hwatched : Ends (fun _ lab => s.lab.Watched (fun _ => ()) lab) (fun _ lab => s.lab.Watched (fun _ => ()) lab)
      (dispatch e.observers event p s.lab) := dispatch_ends event p (fun _ _ _ _ _ _ => rfl) s.lab
  have hdispatch := ((dispatch_persistent event p h s.lab).and hwatched).and
    (Run.Calm.dispatch e.observers event p s.lab)
  refine ends_bind.mpr ?_
  unfold onLab
  cases hout : dispatch e.observers event p s.lab with
  | error er lab =>
      rw [hout] at hdispatch
      exact ⟨⟨hdispatch.2, rfl, rfl⟩, hdispatch.1.2.store, rfl, rfl⟩
  | ok stops lab =>
      rw [hout] at hdispatch
      obtain rfl : stops = false := hdispatch.1.1
      exact ⟨⟨hdispatch.2, rfl, rfl⟩, hdispatch.1.2.store, rfl, rfl⟩

/-! ## The two parts of a generation -/

/-- A generation up to its selection: the ranked population and the pool. -/
def prepare (e : Engine σ) (evaluation : Population → Run γ σ Nat) (p : Population) :
    Evolving γ σ (Population × Population) := do
  e.evaluatePhaseBy evaluation p
  let ranked ← e.rankPhase p
  let pool ← e.selectPhase ranked
  return (ranked, pool)

variable [Generator γ]

/-- A generation from its selection on. -/
def finish (e : Engine σ) (ranked pool : Population) : Evolving γ σ Population := do
  e.replacePhase ranked pool
  e.remember ranked

theorem stepFrom_eq (e : Engine σ) (evaluation : Population → Run γ σ Nat) (p : Population) :
    e.stepFrom evaluation p = e.prepare evaluation p >>= fun out => e.finish out.1 out.2 := by
  unfold stepFrom afterEvaluation prepare finish
  simp only [bind_assoc, pure_bind]

/-- A generation that fails before anything is bred from its pool, however it is evaluated. -/
def FailsEarly (e : Engine σ) (s t : EngineState γ σ) : Prop :=
  ∃ evaluation er, e.Evaluates evaluation ∧ e.stepBy evaluation s = .error er t ∧
    (t.phase = some .evaluating ∨ t.phase = some .ranked ∨ t.phase = some .selecting)

/-- The states after any number of generations that fail early. Between two of them the journal and the world may
    change. -/
inductive Attempts (e : Engine σ) (s : EngineState γ σ) : EngineState γ σ → Prop where
  | none : Attempts e s s
  | failed {t t' : EngineState γ σ} : Attempts e s t → e.FailsEarly t t' → Attempts e s t'
  | elsewhere {t : EngineState γ σ} (journal : Array Record) (world : σ) :
      Attempts e s t → Attempts e s { t with lab := { t.lab with journal := journal, world := world } }

/-- What fails from the selection on fails later. -/
theorem finish_phase (e : Engine σ) (ranked pool : Population) (s : EngineState γ σ) :
    Ends (fun _ _ => True) (fun _ t => t.phase = some .reproducing ∨ t.phase = some .replaced)
      (e.finish ranked pool s) := by
  have hreplace : Ends (fun _ _ => True) (fun _ t => t.phase = some .reproducing ∨ t.phase = some .replaced)
      (e.replacePhase ranked pool s) := by
    refine ends_bind.mpr (Stages.ends_enter.mpr (ends_bind.mpr ?_))
    unfold onLab
    simp only
    cases reproduce e.plan.breeding pool s.lab with
    | error er lab => exact .inl rfl
    | ok offspring lab =>
        refine ends_bind.mpr (ends_modify.mpr (ends_bind.mpr ?_))
        unfold onLab
        simp only
        cases dispatch e.observers .generationEnd _ lab with
        | error er lab' => exact .inr rfl
        | ok stops lab' => cases stops <;> exact trivial
  refine hreplace.bind ?_ fun _ _ h => h
  intro _ t _
  refine ends_bind.mpr (Stages.ends_isFinished.mpr ?_)
  cases t.isFinished e.plan.maxGenerations with
  | true => exact trivial
  | false => exact trivial

/-- A generation that fails early has failed before its selection was done. -/
theorem FailsEarly.prepare {p : Population} (h : e.FailsEarly s t) (hp : s.population = some p) :
    ∃ evaluation er, e.Evaluates evaluation ∧ e.prepare evaluation p s = .error er t := by
  obtain ⟨evaluation, er, hevaluation, hstep, hphase⟩ := h
  rw [e.stepBy_of_population evaluation hp, stepFrom_eq] at hstep
  have hout : EStateM.bind (e.prepare evaluation p) (fun out => e.finish out.1 out.2) s = .error er t := hstep
  unfold EStateM.bind at hout
  cases hprepare : e.prepare evaluation p s with
  | error er' t' =>
      rw [hprepare] at hout
      exact ⟨evaluation, er, hevaluation, hprepare.trans (by simpa using hout)⟩
  | ok out s' =>
      rw [hprepare] at hout
      have hlate := e.finish_phase out.1 out.2 s'
      rw [show e.finish out.1 out.2 s' = .error er t from hout] at hlate
      rcases hlate with hlate | hlate <;> rw [hlate] at hphase <;> simp at hphase

/-! ## Attempts -/

variable {F : Program → Value} {p q : Population}

/--
A state in which the generation of `p`, which has been held in `s`, can be taken up again: nothing has been drawn, and
`q` is held in the place of `p`, which is `p` as long as there are no new scores and may be ranked afterwards.
-/
structure Resumable (e : Engine σ) (F : Program → Value) (s : EngineState γ σ) (p : Population) (t : EngineState γ σ)
    (q : Population) : Prop where
  kept : Kept s t
  population : t.population = some q
  upholds : Upholds (.scorable e.task e.Bound) t.lab.store q.programs
  scores : (s.lab.store.SameScores t.lab.store ∧ q = p) ∨
    (Completed F e.plan.reevaluate p.programs s.lab.store t.lab.store ∧ (q = p ∨ q = p.rank t.lab.store))

namespace Resumable

omit [Generator γ] in
theorem perm (h : Resumable e F s p t q) : q.programs.Perm p.programs ∧ q.capacity = p.capacity ∧
    q.generation = p.generation := by
  have hpopulation : q = p ∨ q = p.rank t.lab.store := h.scores.elim (fun hs => .inl hs.2) fun hs => hs.2
  rcases hpopulation with rfl | rfl
  · exact ⟨.refl _, rfl, rfl⟩
  · exact ⟨Population.rank_perm t.lab.store p, rfl, rfl⟩

omit [Generator γ] in
theorem nextId_eq (h : Resumable e F s p t q) : t.lab.store.nextId = s.lab.store.nextId :=
  h.scores.elim (fun hs => hs.1.nextId_eq) fun hs => hs.1.nextId_eq

omit [Generator γ] in
/-- Nothing of this looks at the journal, the world or the phase. -/
theorem congr {t' : EngineState γ σ} (h : Resumable e F s p t q) (hkept : Kept t t')
    (hstore : t'.lab.store = t.lab.store) (hpopulation : t'.population = t.population) : Resumable e F s p t' q := by
  refine ⟨h.kept.trans hkept, hpopulation.trans h.population, ?_, ?_⟩
  · rw [hstore]
    exact h.upholds
  · rw [hstore]
    exact h.scores

end Resumable

variable {evaluation : Population → Run γ σ Nat} (hF : e.task.Consistent e.Bound F)
  (hobservers : ∀ o ∈ e.observers, o.Persistent) (hevaluation : e.Evaluates evaluation)

omit [Generator γ] in
include hF hevaluation in
/-- **An evaluation that is taken up again completes the scores**, wherever the attempts before it have failed; if it
    fails itself, it can be taken up again. -/
theorem evaluate_resumable (h : Resumable e F s p t q) :
    Ends (fun _ lab => Upholds (.scorable e.task e.Bound) lab.store q.programs ∧
        Completed F e.plan.reevaluate p.programs s.lab.store lab.store ∧ (q = p ∨ q = p.rank lab.store))
      (fun _ lab => Resumable e F s p { t with lab := lab } q)
      (evaluation q t.lab) := by
  have hnodup : (p.programs.map (·.id)).Nodup := (h.perm.1.map _).nodup_iff.mp h.upholds.nodup
  refine ((hevaluation.completes hF q t.lab h.upholds).and (hevaluation.calm q t.lab)).imp ?_ ?_
  · intro _ lab hout
    obtain ⟨⟨hupholds, hcompleted⟩, -⟩ := hout
    have hcompleted := hcompleted.perm h.perm.1
    refine ⟨hupholds, ?_⟩
    -- either nothing had been scored yet, or everything, and then the scores stay
    rcases h.scores with ⟨hsame, rfl⟩ | ⟨hbefore, hq⟩
    · exact ⟨hcompleted.congr hsame.symm (.refl _), .inl rfl⟩
    · refine ⟨hbefore.trans hcompleted hnodup, hq.imp id fun hq => ?_⟩
      rw [hq, Population.rank_congr (hbefore.again hcompleted hnodup)]
  · intro _ lab he
    obtain ⟨⟨hupholds, hsame⟩, hundrawn⟩ := he
    refine ⟨h.kept.trans ⟨hundrawn, rfl, rfl⟩, h.population, hupholds, h.scores.imp ?_ ?_⟩
    · rintro ⟨hbefore, rfl⟩
      exact ⟨hbefore.trans hsame, rfl⟩
    · rintro ⟨hbefore, hq⟩
      refine ⟨hbefore.congr (.refl _) hsame, hq.imp id fun hq => ?_⟩
      rw [hq, Population.rank_congr hsame]

/-- What the evaluation of a resumable state comes to. -/
structure Evaluating (e : Engine σ) (F : Program → Value) (s : EngineState γ σ) (p : Population)
    (t : EngineState γ σ) (q : Population) : Prop where
  resumable : Resumable e F s p t q
  completed : Completed F e.plan.reevaluate p.programs s.lab.store t.lab.store
  order : q = p ∨ q = p.rank t.lab.store

omit [Generator γ] in
include hF hobservers hevaluation in
theorem evaluatePhaseBy_resumable (h : Resumable e F s p t q) :
    Ends (fun _ t' => Evaluating e F s p t' q) (fun _ t' => Resumable e F s p t' q)
      (e.evaluatePhaseBy evaluation q t) := by
  -- neither entering the phase nor announcing the generation changes anything that matters
  have hresumable : ∀ journal, Resumable e F s p
      { t with lab := { t.lab with journal := journal }, phase := some .evaluating } q :=
    fun _ => h.congr ⟨⟨rfl, rfl⟩, rfl, rfl⟩ rfl rfl
  refine ends_bind.mpr (Stages.ends_enter.mpr (ends_bind.mpr (Stages.ends_announce (fun _ journal => ?_) fun _ => ?_)))
  case refine_2 => exact hresumable t.lab.journal
  have hresumable := hresumable journal
  generalize ({ t with lab := _, phase := _ } : EngineState γ σ) = now at hresumable ⊢
  have hevaluate := (evaluate_resumable hF hevaluation hresumable).and (hevaluation.calm q now.lab)
  refine ends_bind.mpr ?_
  unfold onLab
  cases hout : evaluation q now.lab with
  | error er lab =>
      rw [hout] at hevaluate
      exact hevaluate.1
  | ok n lab =>
      rw [hout] at hevaluate
      obtain ⟨⟨hupholds, hcompleted, horder⟩, hundrawn⟩ := hevaluate
      have hscored : Resumable e F s p { now with lab := lab } q :=
        ⟨hresumable.kept.trans ⟨hundrawn, rfl, rfl⟩, hresumable.population, hupholds, .inr ⟨hcompleted, horder⟩⟩
      refine (notify_told hobservers .evaluated q _).imp ?_ ?_
      · intro _ t' htold
        refine ⟨hscored.congr htold.toKept htold.store htold.population, ?_, ?_⟩
        · rw [htold.store]
          exact hcompleted
        · rw [htold.store]
          exact horder
      · intro _ t' htold
        exact hscored.congr htold.toKept htold.store htold.population

/-- What the ranking of a resumable state comes to. -/
structure Prepared (e : Engine σ) (F : Program → Value) (s : EngineState γ σ) (p : Population)
    (t : EngineState γ σ) (r : Population) : Prop where
  resumable : Resumable e F s p t r
  completed : Completed F e.plan.reevaluate p.programs s.lab.store t.lab.store
  ranked : r = p.rank t.lab.store

namespace Prepared

omit [Generator γ] in
theorem told {t' : EngineState γ σ} {r : Population} (h : Prepared e F s p t r) (htold : Told t t') :
    Prepared e F s p t' r := by
  refine ⟨h.resumable.congr htold.toKept htold.store htold.population, ?_, ?_⟩
  · rw [htold.store]
    exact h.completed
  · rw [htold.store]
    exact h.ranked

end Prepared

omit [Generator γ] in
include hobservers in
/-- A population that an earlier attempt has ranked is ranked the same again. -/
theorem rankPhase_resumable (h : Evaluating e F s p t q) :
    Ends (fun r t' => Prepared e F s p t' r) (fun _ t' => ∃ r, Resumable e F s p t' r) (e.rankPhase q t) := by
  have hrated : Rated t.lab.store p.programs := by
    have hupholds := h.resumable.upholds.perm h.resumable.perm.1
    exact h.completed.rated hupholds
  have hrank : q.rank t.lab.store = p.rank t.lab.store := by
    rcases h.order with rfl | hq
    · rfl
    · rw [hq]
      exact Population.rank_rank p hrated.finiteScores
  have hprepared : ∀ journal, Prepared e F s p
      { t with
        phase := some .ranked, population := some (q.rank t.lab.store), lab := { t.lab with journal := journal } }
      (q.rank t.lab.store) := by
    intro journal
    refine ⟨⟨h.resumable.kept.trans ⟨⟨rfl, rfl⟩, rfl, rfl⟩, rfl, h.resumable.upholds.rank, ?_⟩, h.completed, hrank⟩
    exact .inr ⟨h.completed, .inr hrank⟩
  refine ends_bind.mpr (Stages.ends_enter.mpr (ends_bind.mpr (ends_get.mpr (ends_bind.mpr (ends_modify.mpr ?_)))))
  refine ends_bind.mpr (Stages.ends_report.mpr ?_)
  exact (notify_told hobservers .ranked _ _).bind (fun _ _ htold => (hprepared _).told htold)
    fun _ _ htold => ⟨_, ((hprepared _).told htold).resumable⟩

omit [Generator γ] in
include hobservers in
theorem selectPhase_prepared {r : Population} (h : Prepared e F s p t r) :
    Ends (fun pool t' => r.select e.plan.gap = .ok pool ∧ Prepared e F s p t' r ∧ t'.phase = some .selecting)
      (fun _ t' => Resumable e F s p t' r) (e.selectPhase r t) := by
  have hnow : Prepared e F s p { t with phase := some .selecting } r :=
    ⟨h.resumable.congr ⟨⟨rfl, rfl⟩, rfl, rfl⟩ rfl rfl, h.completed, h.ranked⟩
  refine ends_bind.mpr (Stages.ends_enter.mpr (ends_bind.mpr ?_))
  cases hpool : r.select e.plan.gap with
  | error f => exact hnow.resumable
  | ok pool =>
      exact (notify_told hobservers .selected pool _).bind (fun _ _ htold => ⟨rfl, hnow.told htold, htold.phase⟩)
        fun _ _ htold => (hnow.told htold).resumable

omit [Generator γ] in
include hF hobservers hevaluation in
/-- **An attempt either ranks and selects what the first one would have, or leaves a resumable state.** -/
theorem prepare_ends (h : Resumable e F s p t q) :
    Ends (fun out t' => Prepared e F s p t' out.1 ∧ out.1.select e.plan.gap = .ok out.2 ∧ t'.phase = some .selecting)
      (fun _ t' => ∃ q', Resumable e F s p t' q') (e.prepare evaluation q t) := by
  refine (evaluatePhaseBy_resumable hF hobservers hevaluation h).bind ?_ fun _ _ he => ⟨q, he⟩
  intro _ t₁ h₁
  refine (rankPhase_resumable hobservers h₁).bind ?_ fun _ _ he => he
  intro r t₂ h₂
  exact (selectPhase_prepared hobservers h₂).bind (fun pool _ h₃ => ⟨h₃.2.1, h₃.1, h₃.2.2⟩) fun _ _ he => ⟨r, he⟩

include hF hobservers in
/-- Attempts leave a resumable state. The induction is along the attempts. -/
theorem Attempts.resumable (h : e.Attempts s t) (hp : s.population = some p)
    (hupholds : Upholds (.scorable e.task e.Bound) s.lab.store p.programs) : ∃ q, Resumable e F s p t q := by
  induction h with
  | none => exact ⟨p, .refl s, hp, hupholds, .inl ⟨.refl _, rfl⟩⟩
  | @failed t t' _ hfails ih =>
      obtain ⟨q, hq⟩ := ih
      obtain ⟨evaluation, er, hevaluation, hprepare⟩ := hfails.prepare hq.population
      have hends := prepare_ends hF hobservers hevaluation hq
      rw [hprepare] at hends
      exact hends
  | elsewhere journal world _ ih =>
      obtain ⟨q, hq⟩ := ih
      exact ⟨q, hq.congr ⟨⟨rfl, rfl⟩, rfl, rfl⟩ rfl rfl⟩

/-! ## Breeding from the same pool -/

/-- Engines in the same state but for banks, journal and world. -/
structure Alike (s t : EngineState γ σ) : Prop where
  lab : s.lab.Alike t.lab
  population : s.population = t.population
  lastRanked : s.lastRanked = t.lastRanked
  phase : s.phase = t.phase
  stopRequested : s.stopRequested = t.stopRequested

/-- Computations that, where both succeed, answer the same and leave engines in the same state. -/
def Concurs {α : Type} (m n : Evolving γ σ α) : Prop :=
  ∀ s t, Alike s t → ∀ a s' b t', m s = .ok a s' → n t = .ok b t' → a = b ∧ Alike s' t'

namespace Concurs

variable {α β : Type}

omit [Generator γ] in
theorem pure {a : α} : Concurs (Pure.pure a : Evolving γ σ α) (Pure.pure a) := by
  rintro s t hst a s' b t' ⟨⟩ ⟨⟩
  exact ⟨rfl, hst⟩

omit [Generator γ] in
theorem modify {f : EngineState γ σ → EngineState γ σ} (h : ∀ s t, Alike s t → Alike (f s) (f t)) :
    Concurs (modify f : Evolving γ σ PUnit) (modify f) := by
  rintro s t hst a s' b t' ⟨⟩ ⟨⟩
  exact ⟨rfl, h s t hst⟩

omit [Generator γ] in
/-- One computation after the other. -/
theorem bind {m n : Evolving γ σ α} {f g : α → Evolving γ σ β} (h : Concurs m n) (hfg : ∀ a, Concurs (f a) (g a)) :
    Concurs (m >>= f) (n >>= g) := by
  intro s t hst b s' c t' hm hn
  have hm : EStateM.bind m f s = .ok b s' := hm
  have hn : EStateM.bind n g t = .ok c t' := hn
  unfold EStateM.bind at hm hn
  cases hfirst : m s with
  | error er s₁ =>
      rw [hfirst] at hm
      exact nomatch hm
  | ok a s₁ =>
      cases hfirst' : n t with
      | error er t₁ =>
          rw [hfirst'] at hn
          exact nomatch hn
      | ok a' t₁ =>
          rw [hfirst] at hm
          rw [hfirst'] at hn
          obtain ⟨rfl, hst₁⟩ := h s t hst a s₁ a' t₁ hfirst hfirst'
          exact hfg a s₁ t₁ hst₁ b s' c t' hm hn

omit [Generator γ] in
/-- What labs that are alike do not tell apart concurs. -/
theorem onLab {m : Run γ σ α} (h : InStep Lab.Alike m m) : Concurs (onLab m) (onLab m) := by
  intro s t hst a s' b t' hs ht
  have hlab := h s.lab t.lab hst.lab
  unfold Engine.onLab at hs ht
  cases hm : m s.lab with
  | error er lab =>
      rw [hm] at hs
      exact nomatch hs
  | ok c lab =>
      rw [hm] at hs hlab
      obtain ⟨lab', hlab', halike⟩ := hlab.exists_ok
      rw [hlab'] at ht
      obtain ⟨rfl, rfl⟩ : c = a ∧ { s with lab := lab } = s' := by simpa using hs
      obtain ⟨rfl, rfl⟩ : c = b ∧ { t with lab := lab' } = t' := by simpa using ht
      exact ⟨rfl, { hst with lab := halike }⟩

end Concurs

omit [Generator γ] in
include hobservers in
/-- Observers may see different worlds; where neither fails, nothing comes of it. -/
theorem notify_concurs (event : Event) (p : Population) :
    Concurs (e.notify event p : Evolving γ σ Unit) (e.notify event p) := by
  intro s t hst a s' b t' hs ht
  have htoldS := notify_told hobservers event p s
  have htoldT := notify_told hobservers event p t
  rw [hs] at htoldS
  rw [ht] at htoldT
  have hS : Told s s' := htoldS
  have hT : Told t t' := htoldT
  refine ⟨rfl, ⟨?_, ?_, ?_⟩, ?_, ?_, ?_, ?_⟩
  · rw [hS.lab.source, hT.lab.source]
    exact hst.lab.source
  · rw [hS.store, hT.store]
    exact hst.lab.scores
  · rw [hS.lab.warned, hT.lab.warned]
    exact hst.lab.warned
  · rw [hS.population, hT.population]
    exact hst.population
  · rw [hS.lastRanked, hT.lastRanked]
    exact hst.lastRanked
  · rw [hS.phase, hT.phase]
    exact hst.phase
  · rw [hS.stopRequested, hT.stopRequested]
    exact hst.stopRequested

omit [Generator γ] in
theorem isFinished_concurs (e : Engine σ) : Concurs (e.isFinished : Evolving γ σ Bool) e.isFinished := by
  rintro s t hst a s' b t' ⟨⟩ ⟨⟩
  refine ⟨?_, hst⟩
  unfold EngineState.isFinished EngineState.generation
  rw [hst.population, hst.stopRequested]

include hobservers in
/-- **Breeding from the same pool comes to the same**, where it succeeds. -/
theorem finish_concurs (r pool : Population) :
    Concurs (e.finish r pool : Evolving γ σ Population) (e.finish r pool) := by
  have henter : ∀ phase, Concurs (enter phase : Evolving γ σ Unit) (enter phase) :=
    fun phase => .modify fun _ _ h => { h with phase := rfl }
  have hreplace : Concurs (e.replacePhase r pool : Evolving γ σ Unit) (e.replacePhase r pool) := by
    refine (henter _).bind fun _ => (Concurs.onLab (reproduce_inStep Lab.carried_alike _ pool)).bind ?_
    intro offspring
    refine Concurs.bind (.modify fun _ _ h => { h with phase := rfl, population := rfl }) ?_
    intro _
    exact notify_concurs hobservers _ _
  refine hreplace.bind fun _ => (isFinished_concurs e).bind ?_
  intro finished
  have hanswer : Concurs
      (do modify fun s => { s with lastRanked := some r }; return r : Evolving γ σ Population)
      (do modify fun s => { s with lastRanked := some r }; return r) :=
    Concurs.bind (.modify fun _ _ h => { h with lastRanked := rfl }) fun _ => .pure
  split
  · exact (henter _).bind fun _ => hanswer
  · exact hanswer

/-! ## Trying again -/

omit [Generator γ] in
/-- Two attempts that get as far as selection have the same pool, and are in states that breeding cannot tell apart. -/
theorem Prepared.alike {u : EngineState γ σ} {r r' : Population} (h : Prepared e F s p t r) (h' : Prepared e F s p u r')
    (hphase : t.phase = u.phase) : r = r' ∧ Alike t u := by
  have hsame := h.completed.unique h'.completed
  have hr : r = r' := by rw [h.ranked, h'.ranked, Population.rank_congr hsame]
  refine ⟨hr, ⟨?_, hsame, ?_⟩, ?_, ?_, hphase, ?_⟩
  · rw [h.resumable.kept.lab.source, h'.resumable.kept.lab.source]
  · rw [h.resumable.kept.lab.warned, h'.resumable.kept.lab.warned]
  · rw [h.resumable.population, h'.resumable.population, hr]
  · rw [h.resumable.kept.lastRanked, h'.resumable.kept.lastRanked]
  · rw [h.resumable.kept.stopRequested, h'.resumable.kept.stopRequested]

include hF hobservers hevaluation in
/-- Generations of two resumable states that succeed come to the same. -/
theorem stepBy_concurs {evaluation' : Population → Run γ σ Nat} (hevaluation' : e.Evaluates evaluation')
    {u : EngineState γ σ} {q' : Population} (ht : Resumable e F s p t q) (hu : Resumable e F s p u q')
    {r r' : Population} {t' u' : EngineState γ σ} (hstep : e.stepBy evaluation t = .ok r t')
    (hstep' : e.stepBy evaluation' u = .ok r' u') : r = r' ∧ Alike t' u' := by
  have hends := prepare_ends hF hobservers hevaluation ht
  have hends' := prepare_ends hF hobservers hevaluation' hu
  rw [e.stepBy_of_population evaluation ht.population, stepFrom_eq] at hstep
  rw [e.stepBy_of_population evaluation' hu.population, stepFrom_eq] at hstep'
  have hstep : EStateM.bind (e.prepare evaluation q) (fun out => e.finish out.1 out.2) t = .ok r t' := hstep
  have hstep' : EStateM.bind (e.prepare evaluation' q') (fun out => e.finish out.1 out.2) u = .ok r' u' := hstep'
  unfold EStateM.bind at hstep hstep'
  cases hprepare : e.prepare evaluation q t with
  | error er t₁ =>
      rw [hprepare] at hstep
      exact nomatch hstep
  | ok out t₁ =>
      cases hprepare' : e.prepare evaluation' q' u with
      | error er u₁ =>
          rw [hprepare'] at hstep'
          exact nomatch hstep'
      | ok out' u₁ =>
          rw [hprepare] at hstep hends
          rw [hprepare'] at hstep' hends'
          obtain ⟨hranked, hpool, hphase⟩ := hends
          obtain ⟨hranked', hpool', hphase'⟩ := hends'
          obtain ⟨hr, halike⟩ := hranked.alike hranked' (hphase.trans hphase'.symm)
          have hout : out = out' := by
            rw [hr, hpool'] at hpool
            exact Prod.ext hr (Except.ok.inj hpool).symm
          rw [hout] at hstep
          exact finish_concurs hobservers out'.1 out'.2 t₁ u₁ halike r t' r' u' hstep hstep'

/--
**A failed generation can be tried again.** Take a state of a run that holds a population, observers that do not ask to
stop, and a task that is consistent but may fail. After any number of generations that fail before breeding, the number
of the generation, the last ranked population, the request to stop, the generator and the next number of a program are
what they were, and the programs are the same in some order. A generation that then succeeds answers the same ranked
population, and leaves the same scores and the same next population, as one that succeeds without these attempts. Each
of these generations may be evaluated in another way.
-/
theorem retry_after_attempts (hF : e.task.Consistent e.Bound F) (hobservers : ∀ o ∈ e.observers, o.Persistent)
    {s₀ : EngineState γ σ} (hcourse : e.Course s₀ s) (hp : s.population = some p) (hattempts : e.Attempts s t) :
    (∃ q, t.population = some q ∧ q.programs.Perm p.programs ∧ q.capacity = p.capacity ∧
        q.generation = p.generation) ∧
      t.generation = s.generation ∧ t.lastRanked = s.lastRanked ∧ t.stopRequested = s.stopRequested ∧
      t.lab.source = s.lab.source ∧ t.lab.store.nextId = s.lab.store.nextId ∧
      ∀ evaluation evaluation', e.Evaluates evaluation → e.Evaluates evaluation' →
        ∀ journal world r r' t' s', e.stepBy evaluation t = .ok r t' →
          e.stepBy evaluation' { s with lab := { s.lab with journal := journal, world := world } } = .ok r' s' →
          r = r' ∧ Alike t' s' := by
  have hupholds := upholds_of_course (.scorable e.task e.Bound) (fun _ h => h) hcourse hp
  obtain ⟨q, hq⟩ := hattempts.resumable hF hobservers hp hupholds
  obtain ⟨hperm, hcapacity, hgeneration⟩ := hq.perm
  refine ⟨⟨q, hq.population, hperm, hcapacity, hgeneration⟩, ?_, hq.kept.lastRanked, hq.kept.stopRequested,
    hq.kept.lab.source, hq.nextId_eq, ?_⟩
  · unfold EngineState.generation
    rw [hq.population, hp]
    exact hgeneration
  · intro evaluation evaluation' hevaluation hevaluation' journal world r r' t' s' hstep hstep'
    -- the state without the attempts is resumable itself
    obtain ⟨q', hq'⟩ := (Attempts.none.elsewhere journal world).resumable hF hobservers hp hupholds
    exact stepBy_concurs hF hobservers hevaluation hevaluation' hq hq' hstep hstep'

/-! ## A task that recovers -/

/-- An engine for two programs that are scored by their brevity, again in each generation. -/
def serene : Engine Unit :=
  ⟨⟨⟨2, 0.5, 0.5, .twoPoint, 1⟩, 1, 0.5, true, .int 42, 1, false, {}⟩, brevity, [Observer.silent], 1, "0.00"⟩

/-- The same with a task that fails while the world is `false`. -/
def moody : Engine Bool :=
  ⟨serene.plan,
    ⟨"brevity", 1, 1, fun p => do
      if (← get).world then return .float (brevityOf p.code p.shape) else throw (.fault ⟨.badValue, "not now"⟩)⟩,
    [Observer.silent], 1, "0.00"⟩

theorem serene_viable : ∃ shape sizes, serene.Viable shape sizes :=
  brevity_viable { populationSize := .int 2, maxGenerations := .int 1, reevaluate := .bool true } rfl rfl (by decide)
    rfl rfl

/-- While the world is `true`, both engines do the same. -/
theorem serene_beside : serene.Beside (fun _ w => w = true) moody := by
  refine ⟨rfl, ⟨rfl, rfl, rfl, ?_⟩, .cons ⟨rfl, ?_⟩ .nil⟩
  · rintro p ⟨registers, ⟨⟩⟩ ⟨_, _⟩ ⟨rfl, rfl⟩
    exact ⟨rfl, rfl, rfl⟩
  · exact fun _ _ _ _ _ h => ⟨rfl, h⟩

theorem moody_consistent (shapes : Shape → Prop) :
    moody.task.Consistent shapes fun p => .float (brevityOf p.code p.shape) := by
  intro p r world _ _ _
  cases world with
  | true => exact rfl
  | false => exact trivial

theorem moody_persistent : ∀ o ∈ moody.observers, o.Persistent := by
  intro o ho
  rw [List.mem_singleton.mp ho]
  intro event store p n
  exact nofun

theorem banks_of_moody {p : Program} {r : Registers} (h : moody.task.Banks p r) : brevity.Banks p r := by
  induction h with
  | fresh hfresh => exact .fresh hfresh
  | scored world _ ih => cases world <;> exact ih

/-- While the world is `false`, a generation fails when it is evaluated. -/
theorem moody_fails {t : EngineState γ Bool} {q : Population} (hq : t.population = some q)
    (hne : q.programs ≠ []) (hgeneration : q.generation = 0) (hworld : t.lab.world = false) :
    ∃ t', moody.FailsEarly t t' := by
  have hlabel : moody.canLabel q.generation = true := by
    simp [hgeneration, canLabel, Value.areWritable, Value.isWritable_small, moody, serene]
  have hscore : ∀ journal p, Ends (fun _ _ => False) (fun _ _ => True)
      (score moody.task p { t.lab with journal := journal }) := by
    intro journal p
    unfold score onBench
    simp only [hworld]
    exact trivial
  have hfails : Ends (fun _ _ => False) (fun _ t' => True ∧ t'.phase = some .evaluating)
      (moody.stepFrom (evaluate moody.task true) q t) :=
    stepFrom_unscored hlabel fun journal => evaluate_unscored hne (hscore journal)
  obtain ⟨er, t', hstep, -, hphase⟩ := hfails.exists_error
  exact ⟨t', evaluate moody.task true, er, .alone, (moody.stepBy_of_population _ hq).trans hstep, .inl hphase⟩

/-- While the world is `true`, a generation succeeds. -/
theorem moody_succeeds [Generator.Honest γ] {shape : Shape} {sizes : BankSizes}
    (h : serene.Viable shape sizes) {t : EngineState γ Bool} (hq : t.population = some q)
    (hupholds : Upholds (.scorable moody.task moody.Bound) t.lab.store q.programs)
    (hcomplete : q.Complete shape sizes 2)
    (hlast : t.lastRanked = none) (hgeneration : q.generation = 0) (hworld : t.lab.world = true) :
    ∃ r t', moody.step t = .ok r t' := by
  have hsane : h.Sane none t.lab.store q := by
    refine ⟨⟨fun p hp => ?_, hupholds.nodup⟩, hcomplete, by simp, Int.le_of_eq hgeneration.symm⟩
    obtain ⟨hshape, hflaw, c, hc, hbanks, hworth⟩ := hupholds.each p hp
    obtain ⟨bound, hbind, hbound⟩ := hshape
    exact ⟨h.shapes_bound bound p.shape hbind hbound, hflaw, c, hc, banks_of_moody hbanks,
      fun x hx => ⟨hworth x hx, trivial⟩⟩
  -- the serene engine goes on from the same state without a world
  obtain ⟨s, hs⟩ : ∃ s : EngineState γ Unit, s.Beside (fun _ w => w = true) t :=
    ⟨⟨{ t.lab with world := () }, t.population, t.lastRanked, t.phase, t.stopRequested⟩,
      ⟨rfl, rfl, rfl, rfl, hworld⟩, rfl, rfl, rfl, rfl⟩
  have hpopulation : s.population = some q := hs.population.trans hq
  have hholds : h.stages.Holds s := by
    refine .inl ⟨q, hpopulation, rfl, ?_⟩
    rw [hs.lastRanked, hlast, hs.lab.store]
    exact hsane
  have hlabel : serene.canLabel s.generation = true := by
    unfold EngineState.generation
    rw [hpopulation]
    simp [hgeneration, canLabel, Value.areWritable, Value.isWritable_small, serene]
  obtain ⟨r, s', hstep, -⟩ := (h.turns .alone hholds hlabel).exists_ok
  have hagree := step_inStep serene_beside s t hs
  rw [show serene.step s = .ok r s' from hstep] at hagree
  obtain ⟨t', ht', -⟩ := hagree.exists_ok
  exact ⟨r, t', ht'⟩

/-- A generation that fails while the task does comes out as if it had not, once the task has recovered. -/
theorem retry_after_attempts_moody :
    ∃ (s t s' t' : EngineState Least Bool) (r : Population), moody.Course (.start .least true) s ∧
      moody.FailsEarly (s.inWorld false) t ∧ t.generation = s.generation ∧
      t.lab.store.nextId = s.lab.store.nextId ∧
      (∃ p q, s.population = some p ∧ t.population = some q ∧ q.programs.Perm p.programs) ∧
      moody.step (t.inWorld true) = .ok r t' ∧ moody.step (s.inWorld true) = .ok r s' ∧ Alike t' s' := by
  obtain ⟨shape, sizes, h⟩ := serene_viable
  obtain ⟨bound, hbind, hshape⟩ := h.bound
  have hbind : moody.plan.program.bind moody.task.inputCount moody.task.actionCount = .ok bound := hbind
  have hF := moody_consistent moody.Bound
  -- the first population has been made in the world in which the task answers
  have hgenerates : Ends (fun p _ => p.Complete shape sizes 2 ∧ p.generation = 0) Never
      (Population.generate moody.plan.program moody.task 2 (EngineState.start Least.least true).lab) :=
    ((generate_yields hbind hshape h.usable 2 _).and (generate_generation ..)).imp (fun _ _ => id) fun _ _ he => he.1
  obtain ⟨p, lab, hgenerate, hcomplete, hgeneration⟩ := hgenerates.exists_ok
  obtain ⟨s, hs⟩ : ∃ s : EngineState Least Bool, s = ⟨lab, some p, none, some .initialized, false⟩ := ⟨_, rfl⟩
  have hpopulate : moody.populate (.start Least.least true) = .ok p s := by
    rw [hs]
    show EStateM.bind (onLab _) _ _ = _
    unfold EStateM.bind onLab
    rw [show moody.plan.breeding.populationSize = 2 from rfl, hgenerate]
    rfl
  have hcourse : moody.Course (.start Least.least true) s := by
    have hpopulated : moody.Course (.start Least.least true) _ := .populate hgenerate
    rwa [hpopulate] at hpopulated
  have hp : s.population = some p := by rw [hs]
  have hne : p.programs ≠ [] := by
    rw [← List.length_pos_iff, hcomplete.programs.length_eq]
    decide
  obtain ⟨t, hfails⟩ := moody_fails (t := s.inWorld false) hp hne hgeneration rfl
  have hattempts : moody.Attempts s t := (Attempts.none.elsewhere s.lab.journal false).failed hfails
  have hupholds := upholds_of_course (.scorable moody.task moody.Bound) (fun _ h => h) hcourse hp
  obtain ⟨q', hq'⟩ := hattempts.resumable hF moody_persistent hp hupholds
  obtain ⟨⟨q, hq, hperm, hcapacity, hnumber⟩, hsame, hlast, -, -, hnext, hagain⟩ :=
    retry_after_attempts hF moody_persistent hcourse hp (hattempts.elsewhere t.lab.journal true)
  obtain rfl : q' = q := Option.some.inj (hq'.population.symm.trans hq)
  obtain ⟨r, t', ht'⟩ := moody_succeeds h (t := t.inWorld true) hq hq'.upholds (hcomplete.perm hperm hcapacity)
    (hlast.trans (by rw [hs])) (hnumber.trans hgeneration) rfl
  obtain ⟨r', s', hs'⟩ := moody_succeeds h (t := s.inWorld true) hp hupholds hcomplete (by rw [hs]; rfl) hgeneration rfl
  obtain ⟨rfl, halike⟩ := hagain _ _ .alone .alone s.lab.journal true r r' t' s' ht' hs'
  exact ⟨s, t, s', t', r, hcourse, hfails, hsame, hnext, ⟨p, q', hp, hq, hperm⟩, ht', hs', halike⟩

end Engine

end RegisterEvolution
