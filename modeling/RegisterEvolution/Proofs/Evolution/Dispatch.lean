import Mathlib.Data.List.Perm.Basic
import RegisterEvolution.Evolution.Observer
import RegisterEvolution.Proofs.Outcome

/-!
# `Proofs.Evolution.Dispatch` — what becomes of an event

An event is told to all listeners, one after the other, each from where the one before has left the journal and the
world. Nobody is left out because of what others did, and what all of them did decides what becomes of the event: it
fails for the first failure, and otherwise it says whether anyone asked to stop. Only a first failure that cannot be
quoted breaks the event off.

* `Outcome`, `Outcome.Fails` — what a listener comes to, and which of that is a failure;
* `Observer.exists_listener` — every observer is a listener whose replies are read as verdicts;
* `Told`, `exists_told` — the listeners hear of an event in their order, once each;
* `FirstFailure`, `FirstUnquotable` — the failure that is reported, and its wording, or why it has none;
* `tell_listener`, `tell_listener_upset` — one listener, in the tally;
* `Told.tellAll_eq`, `Told.tellAll_upset` — all of them;
* `Told.answer_append_eq_error_iff`, `Told.answer_perm_eq_ok_iff` — more listeners, and another order;
* `dispatch_reports_first_failure` — what becomes of the event.
-/

namespace RegisterEvolution

variable {γ σ : Type} {event : Event} {p : Population} {lab lab' lab'' : Lab γ σ} {l : Listener σ}
  {ls more : List (Listener σ)}

/-! ## Outcomes -/

/-- What a listener comes to when it is told of an event: the error that it raises, or what it hands back. -/
abbrev Outcome := Except Error Reply

namespace Outcome

/-- To fail is to raise an error or to hand back `false`. -/
inductive Fails : Outcome → Prop
  | raised (e : Error) : Fails (.error e)
  | reported : Fails (.ok (.value (.bool false)))

/-- The failure that an outcome of the named listener is, if it can be quoted. -/
def failure? (name : String) (event : Event) : Outcome → Option ObserverError
  | .error e =>
    match e.quote with
    | .ok quote => some (.raised name event.name quote e)
    | .error _ => none
  | .ok reply => if reply.verdict = .failure then some (.reported name event.name) else none

/-- What the attempt to quote an outcome raises. -/
def upset? : Outcome → Option Error
  | .error e =>
    match e.quote with
    | .ok _ => none
    | .error failure => some failure
  | .ok _ => none

/-- Whether an outcome asks to stop. -/
def stops : Outcome → Bool
  | .error _ => false
  | .ok reply => decide (reply.verdict = .stop)

/-- What is reported of an outcome. -/
def record? (name : String) (event : Event) : Outcome → Option Record
  | .error e =>
    match e.quote with
    | .ok quote => some ⟨Record.errorLevel, observerLogger, raisedMessage name event.name quote⟩
    | .error _ => none
  | .ok reply =>
    match reply.verdict with
    | .failure => some ⟨Record.errorLevel, observerLogger, failureMessage name event.name⟩
    | .stop => some ⟨Record.infoLevel, observerLogger, stopMessage name event.name⟩
    | .proceed => none

end Outcome

/-- Only the value `false` is a report of failure. -/
theorem Reply.verdict_eq_failure_iff {reply : Reply} : reply.verdict = .failure ↔ reply = .value (.bool false) := by
  refine ⟨fun h => ?_, fun h => h ▸ rfl⟩
  unfold verdict at h
  split at h
  · rfl
  · exact nomatch h
  · exact nomatch h

/-- Only the signal to stop asks for that. -/
theorem Reply.verdict_eq_stop_iff {reply : Reply} : reply.verdict = .stop ↔ reply = .signal .stop := by
  refine ⟨fun h => ?_, fun h => h ▸ rfl⟩
  unfold verdict at h
  split at h
  · exact nomatch h
  · rfl
  · exact nomatch h

/-- Something that is read as a given verdict. -/
def Verdict.reply : Verdict → Reply
  | .proceed => .value .null
  | .stop => .signal .stop
  | .failure => .value (.bool false)

theorem Verdict.verdict_reply (v : Verdict) : v.reply.verdict = v := by cases v <;> rfl

/-- What is true of listeners is true of all observers. -/
theorem Observer.exists_listener (o : Observer σ) : ∃ l : Listener σ, l.observer = o := by
  refine ⟨⟨o.name, fun event store p => Verdict.reply <$> o.notice event store p⟩, ?_⟩
  obtain ⟨name, notice⟩ := o
  refine congrArg (Observer.mk name) ?_
  funext event store p notes
  show EStateM.map Reply.verdict (EStateM.map Verdict.reply (notice event store p)) notes = notice event store p notes
  unfold EStateM.map
  cases notice event store p notes with
  | error e n => rfl
  | ok v n => exact congrArg (EStateM.Result.ok · n) v.verdict_reply

namespace Outcome

variable {r : Outcome} {name : String}

theorem stops_iff : r.stops = true ↔ r = .ok (.signal .stop) := by
  cases r with
  | error e => exact ⟨nofun, nofun⟩
  | ok reply => rw [stops, decide_eq_true_iff, Reply.verdict_eq_stop_iff, Except.ok.injEq]

theorem failure?_eq_none (h : ¬r.Fails) : r.failure? name event = none := by
  cases r with
  | error e => exact absurd (.raised e) h
  | ok reply =>
      refine if_neg fun hreply => h ?_
      obtain rfl := Reply.verdict_eq_failure_iff.mp hreply
      exact .reported

theorem upset?_eq_none (h : ¬r.Fails) : r.upset? = none := by
  cases r with
  | error e => exact absurd (.raised e) h
  | ok reply => rfl

theorem not_fails_of_none (hfailure : r.failure? name event = none) (hupset : r.upset? = none) : ¬r.Fails := by
  rintro (e | _)
  · unfold failure? at hfailure
    unfold upset? at hupset
    cases hquote : e.quote with
    | ok quote => simp [hquote] at hfailure
    | error failure => simp [hquote] at hupset
  · exact nomatch hfailure

theorem exists_of_upset? {failure : Error} (h : r.upset? = some failure) :
    ∃ e, r = .error e ∧ e.quote = .error failure := by
  cases r with
  | ok reply => exact nomatch h
  | error e =>
      refine ⟨e, rfl, ?_⟩
      unfold upset? at h
      cases hquote : e.quote with
      | ok quote => simp [hquote] at h
      | error failure' => simpa [hquote] using h

end Outcome

/-! ## Telling -/

namespace Listener

/-- What a listener comes to. -/
def outcome (l : Listener σ) (event : Event) (p : Population) (lab : Lab γ σ) : Outcome :=
  answer (l.hear event lab.store p ⟨lab.journal, lab.world⟩)

/-- What a listener leaves behind: what it has done to the journal and the world, and the report on it. -/
def leaves (l : Listener σ) (event : Event) (p : Population) (lab : Lab γ σ) : Lab γ σ :=
  let notes := finalState (l.hear event lab.store p ⟨lab.journal, lab.world⟩)
  { lab with
    journal := ((l.outcome event p lab).record? l.name event).elim notes.journal notes.journal.push
    world := notes.world }

/-- What a listener comes to does not depend on what others did before. -/
def Settled (l : Listener σ) (event : Event) (store : Store) (p : Population) : Prop :=
  ∃ r : Outcome, ∀ notes, answer (l.hear event store p notes) = r

end Listener

/--
The listeners of a list are told of an event, once each and in this order, every one from where the one before has left
off; what they come to, and what the last one leaves behind.
-/
inductive Told (event : Event) (p : Population) : Lab γ σ → List (Listener σ) → List Outcome → Lab γ σ → Prop
  | nil {lab : Lab γ σ} : Told event p lab [] [] lab
  | cons {lab lab' : Lab γ σ} {l : Listener σ} {rest : List (Listener σ)} {outcomes : List Outcome}
      (h : Told event p (l.leaves event p lab) rest outcomes lab') :
      Told event p lab (l :: rest) (l.outcome event p lab :: outcomes) lab'

/--
The failure that is reported: that of the first listener that fails, with what it raised as its cause. It is worded with
the names of listener and event, and quotes the cause.
-/
inductive FirstFailure (event : Event) : List (Listener σ) → List Outcome → ObserverError → String → Prop
  | raised (l : Listener σ) (rest : List (Listener σ)) {e : Error} {quote : String} (hquote : e.quote = .ok quote)
      (outcomes : List Outcome) :
      FirstFailure event (l :: rest) (.error e :: outcomes) (.raised l.name event.name quote e)
        ("observer " ++ l.name ++ " raised in " ++ event.name ++ ": " ++ quote)
  | reported (l : Listener σ) (rest : List (Listener σ)) (outcomes : List Outcome) :
      FirstFailure event (l :: rest) (.ok (.value (.bool false)) :: outcomes) (.reported l.name event.name)
        ("observer " ++ l.name ++ " reported failure in " ++ event.name)
  | later (l : Listener σ) {rest : List (Listener σ)} {r : Outcome} {outcomes : List Outcome} {f : ObserverError}
      {text : String} (hr : ¬r.Fails) (h : FirstFailure event rest outcomes f text) :
      FirstFailure event (l :: rest) (r :: outcomes) f text

/-- The first failure is an error that cannot be quoted: the attempt raises `failure`. -/
inductive FirstUnquotable (failure : Error) : List Outcome → Prop
  | raised {e : Error} (hquote : e.quote = .error failure) (outcomes : List Outcome) :
      FirstUnquotable failure (.error e :: outcomes)
  | later {r : Outcome} {outcomes : List Outcome} (hr : ¬r.Fails) (h : FirstUnquotable failure outcomes) :
      FirstUnquotable failure (r :: outcomes)

theorem FirstFailure.message_eq {outcomes : List Outcome} {f : ObserverError} {text : String}
    (h : FirstFailure event ls outcomes f text) : f.message = text := by
  induction h with
  | raised => rfl
  | reported => rfl
  | later _ _ _ ih => exact ih

/-- A failure that is reported can be quoted. -/
theorem FirstFailure.not_firstUnquotable {outcomes : List Outcome} {f : ObserverError} {text : String} {failure : Error}
    (h : FirstFailure event ls outcomes f text) : ¬FirstUnquotable failure outcomes := by
  induction h with
  | raised l rest hquote outcomes =>
      rintro (⟨hfailure, -⟩ | ⟨hr, -⟩)
      · exact nomatch hquote.symm.trans hfailure
      · exact hr (.raised _)
  | reported l rest outcomes =>
      rintro (_ | ⟨hr, -⟩)
      exact hr .reported
  | later l hr _ ih =>
      rintro (_ | ⟨-, h⟩)
      · exact hr (.raised _)
      · exact ih h

theorem not_firstUnquotable_of_calm {outcomes : List Outcome} {failure : Error} (h : ∀ r ∈ outcomes, ¬r.Fails) :
    ¬FirstUnquotable failure outcomes := by
  intro hfirst
  induction hfirst with
  | raised => exact h _ (List.mem_cons_self ..) (.raised _)
  | later _ _ ih => exact ih (List.forall_mem_cons.mp h).2

namespace Told

variable {outcomes : List Outcome}

theorem exists_told (event : Event) (p : Population) (lab : Lab γ σ) (ls : List (Listener σ)) :
    ∃ outcomes lab', Told event p lab ls outcomes lab' := by
  induction ls generalizing lab with
  | nil => exact ⟨[], lab, .nil⟩
  | cons l rest ih =>
      obtain ⟨outcomes, lab', h⟩ := ih (l.leaves event p lab)
      exact ⟨l.outcome event p lab :: outcomes, lab', .cons h⟩

theorem append {outcomes' : List Outcome} (h : Told event p lab ls outcomes lab')
    (h' : Told event p lab' more outcomes' lab'') : Told event p lab (ls ++ more) (outcomes ++ outcomes') lab'' := by
  induction h with
  | nil => exact h'
  | cons _ ih => exact .cons (ih h')

/-- Where the first failure is in a longer list, if there is one in the shorter one. -/
theorem firstFailure_append {outcomes' : List Outcome} {f : ObserverError} {text : String}
    (h : FirstFailure event ls outcomes f text) : FirstFailure event (ls ++ more) (outcomes ++ outcomes') f text := by
  induction h with
  | raised l rest hquote outcomes => exact .raised l (rest ++ more) hquote (outcomes ++ outcomes')
  | reported l rest outcomes => exact .reported l (rest ++ more) (outcomes ++ outcomes')
  | later l hr _ ih => exact .later l hr ih

theorem firstUnquotable_append {outcomes' : List Outcome} {failure : Error} (h : FirstUnquotable failure outcomes) :
    FirstUnquotable failure (outcomes ++ outcomes') := by
  induction h with
  | raised hquote outcomes => exact .raised hquote (outcomes ++ outcomes')
  | later hr _ ih => exact .later hr ih

/-- Of listeners some of which fail, one is the first. -/
theorem exists_firstFailure (h : Told event p lab ls outcomes lab') (hfails : ∃ r ∈ outcomes, r.Fails) :
    (∃ f text, FirstFailure event ls outcomes f text) ∨ ∃ failure, FirstUnquotable failure outcomes := by
  induction h with
  | nil => exact absurd hfails (by simp)
  | @cons lab lab' l rest outcomes _ ih =>
      by_cases hfirst : (l.outcome event p lab).Fails
      · cases hout : l.outcome event p lab with
        | error e =>
            cases hquote : e.quote with
            | ok quote => exact .inl ⟨_, _, .raised l rest hquote outcomes⟩
            | error failure => exact .inr ⟨failure, .raised hquote outcomes⟩
        | ok reply =>
            rw [hout] at hfirst
            cases hfirst
            exact .inl ⟨_, _, .reported l rest outcomes⟩
      · obtain ⟨r, hr, hrfails⟩ := hfails
        have hmem := (List.mem_cons.mp hr).resolve_left fun heq => hfirst (heq ▸ hrfails)
        rcases ih ⟨r, hmem, hrfails⟩ with ⟨f, text, hf⟩ | ⟨failure, hfailure⟩
        · exact .inl ⟨f, text, .later l hfirst hf⟩
        · exact .inr ⟨failure, .later hfirst hfailure⟩

/-- Listeners that depend on nobody come to the same in any order. -/
theorem outcomes_eq (h : Told event p lab ls outcomes lab') {store : Store} (hstore : lab.store = store)
    (hsettled : ∀ l ∈ ls, l.Settled event store p) (notes : Notes σ) :
    outcomes = ls.map fun l => answer (l.hear event store p notes) := by
  induction h with
  | nil => rfl
  | @cons lab lab' l rest outcomes _ ih =>
      subst hstore
      obtain ⟨hl, hrest⟩ := List.forall_mem_cons.mp hsettled
      obtain ⟨r, hr⟩ := hl
      rw [List.map_cons, hr notes, ← ih rfl hrest]
      exact congrArg (· :: outcomes) (hr _)

end Told

/-! ## Dispatch -/

section Tell

variable {t : Tally} {failure : Error}

/-- One listener: the tally takes over whether it stops, and its failure if it is the first one. -/
theorem tell_listener (l : Listener σ) (t : Tally) (lab : Lab γ σ)
    (h : t.failure = none → (l.outcome event p lab).upset? = none) :
    tell event p t l.observer lab =
      .ok ⟨t.stops || (l.outcome event p lab).stops, t.failure.or ((l.outcome event p lab).failure? l.name event)⟩
        (l.leaves event p lab) := by
  have hnotice : l.observer.notice event lab.store p ⟨lab.journal, lab.world⟩ =
      EStateM.map Reply.verdict (l.hear event lab.store p) ⟨lab.journal, lab.world⟩ := rfl
  have hget : (EStateM.get : Run γ σ (Lab γ σ)) lab = .ok lab lab := rfl
  unfold Listener.outcome at h
  unfold tell onNotes Listener.leaves Listener.outcome
  simp only [bind, EStateM.bind, get, getThe, MonadStateOf.get, hget, hnotice, EStateM.map]
  cases hhear : l.hear event lab.store p ⟨lab.journal, lab.world⟩ with
  | error e n =>
      rw [hhear] at h
      simp only [answer, Outcome.stops, Outcome.failure?, Outcome.record?, Outcome.upset?, Bool.or_false] at h ⊢
      cases hquote : e.quote with
      | ok quote => rfl
      | error failure =>
          simp only [hquote, reduceCtorEq, imp_false] at h
          obtain ⟨first, hfirst⟩ := Option.ne_none_iff_exists'.mp h
          simp only [hfirst, Option.isSome_some, if_true, Option.some_or]
          show EStateM.Result.ok t _ = _
          rw [← hfirst]
          rfl
  | ok reply n =>
      simp only [answer, Outcome.stops, Outcome.failure?, Outcome.record?]
      cases reply.verdict with
      | proceed =>
          simp only [reduceCtorEq, decide_false, Bool.or_false, if_false, Option.or_none]
          rfl
      | stop =>
          simp only [reduceCtorEq, decide_true, Bool.or_true, if_false, Option.or_none]
          rfl
      | failure =>
          simp only [reduceCtorEq, decide_false, Bool.or_false, if_true]
          rfl

/-- One listener whose error is the first failure and cannot be quoted: the event is broken off. -/
theorem tell_listener_upset (ht : t.failure = none) (h : (l.outcome event p lab).upset? = some failure) :
    tell event p t l.observer lab = .error failure (l.leaves event p lab) := by
  obtain ⟨e, he, hquote⟩ := Outcome.exists_of_upset? h
  have hnotice : l.observer.notice event lab.store p ⟨lab.journal, lab.world⟩ =
      EStateM.map Reply.verdict (l.hear event lab.store p) ⟨lab.journal, lab.world⟩ := rfl
  have hget : (EStateM.get : Run γ σ (Lab γ σ)) lab = .ok lab lab := rfl
  unfold Listener.outcome at he
  unfold tell onNotes Listener.leaves Listener.outcome
  simp only [bind, EStateM.bind, get, getThe, MonadStateOf.get, hget, hnotice, EStateM.map]
  cases hhear : l.hear event lab.store p ⟨lab.journal, lab.world⟩ with
  | ok reply n =>
      rw [hhear] at he
      exact nomatch he
  | error e' n =>
      rw [hhear] at he
      obtain rfl := Except.error.inj he
      simp only [answer, Outcome.record?, hquote, ht]
      rfl

end Tell

namespace Told

variable {outcomes : List Outcome}

/-- All of them: a failure stays in the tally once it is there, so that it is the first one in the end. -/
theorem tellAll_eq (h : Told event p lab ls outcomes lab') (t : Tally)
    (hquotable : t.failure = none → ∀ failure, ¬FirstUnquotable failure outcomes) :
    ∃ t', tellAll event p (ls.map Listener.observer) t lab = .ok t' lab' ∧
      (t'.stops = true ↔ t.stops = true ∨ .ok (.signal .stop) ∈ outcomes) ∧
      (∀ f, t.failure = some f → t'.failure = some f) ∧
      (t.failure = none → (∀ r ∈ outcomes, ¬r.Fails) → t'.failure = none) ∧
      (t.failure = none → ∀ f text, FirstFailure event ls outcomes f text → t'.failure = some f) := by
  -- The tally is arbitrary, because the others are told with what the first one has left in it.
  induction h generalizing t with
  | nil => exact ⟨t, rfl, by simp, fun _ => id, fun ht _ => ht, nofun⟩
  | @cons lab lab' l rest outcomes _ ih =>
      have hupset : t.failure = none → (l.outcome event p lab).upset? = none := by
        intro ht
        refine Option.eq_none_iff_forall_ne_some.mpr fun failure hfailure => ?_
        obtain ⟨e, he, hquote⟩ := Outcome.exists_of_upset? hfailure
        exact hquotable ht failure (he ▸ .raised hquote outcomes)
      have hrest : t.failure.or ((l.outcome event p lab).failure? l.name event) = none →
          ∀ failure, ¬FirstUnquotable failure outcomes := by
        rw [Option.or_eq_none_iff]
        rintro ⟨ht, hfailure⟩ failure hfirst
        exact hquotable ht failure (.later (Outcome.not_fails_of_none hfailure (hupset ht)) hfirst)
      obtain ⟨t', hothers, hstops, hkept, hcalm, hfirst⟩ :=
        ih ⟨t.stops || (l.outcome event p lab).stops, t.failure.or ((l.outcome event p lab).failure? l.name event)⟩
          hrest
      have hrun : tellAll event p ((l :: rest).map Listener.observer) t lab = .ok t' lab' := by
        show EStateM.bind (tell event p t l.observer) (fun t => tellAll event p (rest.map Listener.observer) t) lab = _
        unfold EStateM.bind
        rw [tell_listener l t lab hupset]
        exact hothers
      clear hupset hothers
      generalize l.outcome event p lab = r at *
      refine ⟨t', hrun, ?_, ?_, ?_, ?_⟩
      · rw [hstops, Bool.or_eq_true, Outcome.stops_iff, List.mem_cons, or_assoc, eq_comm (b := r)]
      · intro f hf
        exact hkept f (by rw [hf, Option.some_or])
      · intro ht hall
        obtain ⟨hr, hrest⟩ := List.forall_mem_cons.mp hall
        exact hcalm (by rw [ht, Option.none_or, Outcome.failure?_eq_none hr]) hrest
      · intro ht f text hf
        cases hf with
        | raised _ _ hquote => exact hkept _ (by simp [ht, Outcome.failure?, hquote])
        | reported => exact hkept _ (by rw [ht, Option.none_or]; rfl)
        | later _ hr hf => exact hfirst (by rw [ht, Option.none_or, Outcome.failure?_eq_none hr]) f text hf

/-- All of them, if the first failure cannot be quoted: it ends the event, with what was raised instead. -/
theorem tellAll_upset (h : Told event p lab ls outcomes lab') {failure : Error}
    (hfirst : FirstUnquotable failure outcomes)
    {t : Tally} (ht : t.failure = none) :
    ∃ lab'', tellAll event p (ls.map Listener.observer) t lab = .error failure lab'' := by
  induction h generalizing t with
  | nil => exact nomatch hfirst
  | @cons lab lab' l rest outcomes _ ih =>
      show ∃ lab'', EStateM.bind (tell event p t l.observer)
        (fun t => tellAll event p (rest.map Listener.observer) t) lab = .error failure lab''
      unfold EStateM.bind
      generalize hr : l.outcome event p lab = r at hfirst
      cases hfirst with
      | @raised e hquote =>
          have hupset : (l.outcome event p lab).upset? = some failure := by simp [hr, Outcome.upset?, hquote]
          exact ⟨_, by rw [tell_listener_upset ht hupset]⟩
      | later hcalm hfirst =>
          subst hr
          rw [tell_listener l t lab fun _ => Outcome.upset?_eq_none hcalm]
          exact ih hfirst (by rw [ht, Option.none_or, Outcome.failure?_eq_none hcalm])

/-- An event fails for the first failure. -/
theorem dispatch_of_firstFailure (h : Told event p lab ls outcomes lab') {f : ObserverError} {text : String}
    (hf : FirstFailure event ls outcomes f text) :
    dispatch (ls.map Listener.observer) event p lab = .error (.observer f) lab' := by
  obtain ⟨t, htold, -, -, -, hfirst⟩ := h.tellAll_eq .start fun _ _ => hf.not_firstUnquotable
  show EStateM.bind (tellAll event p (ls.map Listener.observer) .start) _ lab = _
  unfold EStateM.bind
  rw [htold]
  simp only [hfirst rfl f text hf]
  rfl

/-- An event whose first failure cannot be quoted fails with what was raised instead. -/
theorem dispatch_of_firstUnquotable (h : Told event p lab ls outcomes lab') {failure : Error}
    (hfirst : FirstUnquotable failure outcomes) :
    answer (dispatch (ls.map Listener.observer) event p lab) = .error failure := by
  obtain ⟨lab'', htold⟩ := h.tellAll_upset hfirst (t := .start) rfl
  show answer (EStateM.bind (tellAll event p (ls.map Listener.observer) .start) _ lab) = _
  unfold EStateM.bind
  rw [htold]
  rfl

/-- Without a failure it says whether anyone has asked to stop. -/
theorem dispatch_of_calm (h : Told event p lab ls outcomes lab') (hcalm : ∀ r ∈ outcomes, ¬r.Fails) :
    ∃ stops, dispatch (ls.map Listener.observer) event p lab = .ok stops lab' ∧
      (stops = true ↔ .ok (.signal .stop) ∈ outcomes) := by
  obtain ⟨t, htold, hstops, -, hnone, -⟩ := h.tellAll_eq .start fun _ _ => not_firstUnquotable_of_calm hcalm
  refine ⟨t.stops, ?_, by simpa [Tally.start] using hstops⟩
  show EStateM.bind (tellAll event p (ls.map Listener.observer) .start) _ lab = _
  unfold EStateM.bind
  rw [htold]
  simp only [hnone rfl hcalm]
  rfl

/-- What an event answers, from what the listeners came to. -/
theorem answer_eq_ok_iff (h : Told event p lab ls outcomes lab') {stops : Bool} :
    answer (dispatch (ls.map Listener.observer) event p lab) = .ok stops ↔
      (∀ r ∈ outcomes, ¬r.Fails) ∧ (stops = true ↔ .ok (.signal .stop) ∈ outcomes) := by
  by_cases hfails : ∃ r ∈ outcomes, r.Fails
  · have hfailed : ∃ e, answer (dispatch (ls.map Listener.observer) event p lab) = .error e := by
      rcases h.exists_firstFailure hfails with ⟨f, text, hf⟩ | ⟨failure, hfailure⟩
      · exact ⟨_, congrArg answer (h.dispatch_of_firstFailure hf)⟩
      · exact ⟨_, h.dispatch_of_firstUnquotable hfailure⟩
    obtain ⟨e, he⟩ := hfailed
    rw [he]
    obtain ⟨r, hr, hrfails⟩ := hfails
    exact ⟨nofun, fun hcalm => absurd hrfails (hcalm.1 r hr)⟩
  · push Not at hfails
    obtain ⟨stops', hrun, hstops'⟩ := h.dispatch_of_calm hfails
    rw [hrun, ← hstops']
    refine ⟨?_, fun hstops => congrArg Except.ok (Bool.eq_iff_iff.mpr hstops.2.symm)⟩
    rintro ⟨⟩
    exact ⟨hfails, Iff.rfl⟩

/-- More listeners that do not fail do not change which failure is reported. -/
theorem answer_append_eq_error_iff {outcomes' : List Outcome} (h : Told event p lab ls outcomes lab')
    (hmore : Told event p lab' more outcomes' lab'') (hcalm : ∀ r ∈ outcomes', ¬r.Fails) {e : Error} :
    answer (dispatch ((ls ++ more).map Listener.observer) event p lab) = .error e ↔
      answer (dispatch (ls.map Listener.observer) event p lab) = .error e := by
  by_cases hfails : ∃ r ∈ outcomes, r.Fails
  · rcases h.exists_firstFailure hfails with ⟨f, text, hf⟩ | ⟨failure, hfailure⟩
    · rw [h.dispatch_of_firstFailure hf, (h.append hmore).dispatch_of_firstFailure (firstFailure_append hf)]
      rfl
    · rw [h.dispatch_of_firstUnquotable hfailure,
        (h.append hmore).dispatch_of_firstUnquotable (firstUnquotable_append hfailure)]
  · push Not at hfails
    have hall : ∀ r ∈ outcomes ++ outcomes', ¬r.Fails := fun r hr =>
      (List.mem_append.mp hr).elim (hfails r) (hcalm r)
    obtain ⟨stops, hrun, -⟩ := h.dispatch_of_calm hfails
    obtain ⟨stops', hrun', -⟩ := (h.append hmore).dispatch_of_calm hall
    rw [hrun, hrun']
    exact ⟨nofun, nofun⟩

/-- The order of listeners that depend on nobody does not change whether the event fails, nor what it says otherwise. -/
theorem answer_perm_eq_ok_iff {ls' : List (Listener σ)} {outcomes' : List Outcome}
    (h' : Told event p lab ls' outcomes' lab'') (h : Told event p lab ls outcomes lab') (hperm : ls'.Perm ls)
    (hsettled : ∀ l ∈ ls, l.Settled event lab.store p) {stops : Bool} :
    answer (dispatch (ls'.map Listener.observer) event p lab) = .ok stops ↔
      answer (dispatch (ls.map Listener.observer) event p lab) = .ok stops := by
  have houtcomes : outcomes'.Perm outcomes := by
    rw [h.outcomes_eq rfl hsettled ⟨lab.journal, lab.world⟩,
      h'.outcomes_eq rfl (fun l hl => hsettled l (hperm.mem_iff.mp hl)) ⟨lab.journal, lab.world⟩]
    exact hperm.map _
  rw [h.answer_eq_ok_iff, h'.answer_eq_ok_iff, houtcomes.mem_iff]
  simp only [houtcomes.mem_iff]

end Told

/--
**An event is told to everybody, and the first failure is reported.** If the first failure can be quoted, all listeners
are told, once each and in their order, whatever the others come to, and the event fails with an error that is worded
after the first listener that failed and has what that one raised as its cause. Without a failure all are told as well,
and the event says whether anyone has handed back the signal to stop. More listeners that do not fail do not change
which failure is reported, and where no listener depends on the others, their order does not change whether the event
fails, nor what it says otherwise.
-/
theorem dispatch_reports_first_failure (event : Event) (p : Population) (ls : List (Listener σ)) (lab : Lab γ σ) :
    ∃ outcomes lab', Told event p lab ls outcomes lab' ∧
      ((∃ r ∈ outcomes, r.Fails) → (∀ failure, ¬FirstUnquotable failure outcomes) →
        ∃ f text, FirstFailure event ls outcomes f text ∧
          dispatch (ls.map Listener.observer) event p lab = .error (.observer f) lab' ∧
          (Error.observer f).name = "HookError" ∧ (Error.observer f).message = text) ∧
      ((∀ r ∈ outcomes, ¬r.Fails) →
        ∃ stops, dispatch (ls.map Listener.observer) event p lab = .ok stops lab' ∧
          (stops = true ↔ .ok (.signal .stop) ∈ outcomes)) ∧
      (∀ more outcomes' lab'', Told event p lab' more outcomes' lab'' → (∀ r ∈ outcomes', ¬r.Fails) →
        ∀ e, answer (dispatch ((ls ++ more).map Listener.observer) event p lab) = .error e ↔
          answer (dispatch (ls.map Listener.observer) event p lab) = .error e) ∧
      ∀ ls' : List (Listener σ), ls'.Perm ls → (∀ l ∈ ls, l.Settled event lab.store p) →
        ∀ stops, answer (dispatch (ls'.map Listener.observer) event p lab) = .ok stops ↔
          answer (dispatch (ls.map Listener.observer) event p lab) = .ok stops := by
  obtain ⟨outcomes, lab', h⟩ := Told.exists_told event p lab ls
  refine ⟨outcomes, lab', h, fun hfails hquotable => ?_, h.dispatch_of_calm, fun more outcomes' lab'' hmore hcalm e =>
    h.answer_append_eq_error_iff hmore hcalm, fun ls' hperm hsettled stops => ?_⟩
  · obtain ⟨f, text, hf⟩ := (h.exists_firstFailure hfails).resolve_right fun ⟨failure, hf⟩ => hquotable failure hf
    exact ⟨f, text, hf, h.dispatch_of_firstFailure hf, rfl, hf.message_eq⟩
  · obtain ⟨outcomes', lab'', h'⟩ := Told.exists_told event p lab ls'
    exact h'.answer_perm_eq_ok_iff h hperm hsettled

/-- An error of the world outside. -/
def boom : Error := .fault ⟨.failure, "boom"⟩

namespace Listener

/-- A listener that keeps a list of what it has heard. -/
def clerk : Listener (List Event) :=
  ⟨"Clerk", fun event _ _ => do
    modify fun n => { n with world := n.world ++ [event] }
    return .value .null⟩

/-- A listener that raises an error. -/
def guard : Listener (List Event) := ⟨"Guard", fun _ _ _ => throw boom⟩

/-- A listener that raises an error with an integer in it that is too long to be quoted. -/
def mumbler {σ : Type} : Listener σ :=
  ⟨"Mumbler", fun _ _ _ => throw (.unquotable boom (.fault Fault.integerTooLong))⟩

/-- A listener that reports failure. -/
def judge : Listener (List Event) := ⟨"Judge", fun _ _ _ => return .value (.bool false)⟩

/-- A listener that asks to stop. -/
def timer : Listener (List Event) := ⟨"Timer", fun _ _ _ => return .signal .stop⟩

end Listener

open Listener in
/-- The failure of the first of two is reported, also with a third listener who does not fail; and where nobody fails,
    one request to stop counts wherever it comes. -/
theorem dispatch_reports_first_failure_crowd :
    (∃ lab', dispatch ([guard, judge].map Listener.observer) .ranked ⟨[], 1, 0⟩ (Lab.start () []) =
        .error (.observer (.raised "Guard" "on_ranked" "RuntimeError('boom')" boom)) lab' ∧
      (Error.observer (.raised "Guard" "on_ranked" "RuntimeError('boom')" boom)).message =
        "observer Guard raised in on_ranked: RuntimeError('boom')") ∧
    answer (dispatch (([guard, judge] ++ [clerk]).map Listener.observer) .ranked ⟨[], 1, 0⟩ (Lab.start () [])) =
      .error (.observer (.raised "Guard" "on_ranked" "RuntimeError('boom')" boom)) ∧
    answer (dispatch ([timer, clerk].map Listener.observer) .ranked ⟨[], 1, 0⟩ (Lab.start () [])) = .ok true := by
  have hdescribe : boom.describe = "RuntimeError('boom')" := by decide
  have hquote : boom.quote = .ok "RuntimeError('boom')" := congrArg Except.ok hdescribe
  obtain ⟨_, lab', htold, hfailed, -, hmore, -⟩ :=
    dispatch_reports_first_failure .ranked ⟨[], 1, 0⟩ [guard, judge] (Lab.start () [])
  obtain ⟨_, _, -, -, -, -, hperm⟩ :=
    dispatch_reports_first_failure .ranked ⟨[], 1, 0⟩ [clerk, timer] (Lab.start () [])
  refine ⟨?_, (hmore [clerk] _ _ (.cons .nil) ?_ _).mpr rfl, (hperm [timer, clerk] (.swap ..) ?_ true).mpr rfl⟩
  · obtain _ | @⟨_, _, _, _, outcomes, hrest⟩ := htold
    have hfirst : FirstFailure .ranked [guard, judge] (.error boom :: outcomes) _ _ :=
      .raised guard [judge] hquote outcomes
    obtain ⟨f, text, hf, hrun, -, -⟩ :=
      hfailed ⟨_, List.mem_cons_self .., .raised boom⟩ fun failure => hfirst.not_firstUnquotable
    have hf : FirstFailure .ranked [guard, judge] (.error boom :: outcomes) f text := hf
    cases hf with
    | raised _ _ hquote' =>
        obtain rfl := Except.ok.inj (hquote.symm.trans hquote')
        exact ⟨lab', hrun, by decide⟩
    | later _ hcalm => exact absurd (.raised boom) hcalm
  · intro r hr hfails
    obtain rfl := List.mem_singleton.mp hr
    cases hfails
  · intro l hl
    rcases List.mem_pair.mp hl with rfl | rfl
    · exact ⟨_, fun _ => rfl⟩
    · exact ⟨_, fun _ => rfl⟩

open Listener in
/-- **An error that cannot be quoted breaks the event off** if it is the first failure: the next listener is not told,
    and what is raised instead is no failure of an observer. -/
theorem dispatch_unquotable :
    ∃ lab', dispatch ([mumbler, clerk].map Listener.observer) .ranked ⟨[], 1, 0⟩ (Lab.start () []) =
        .error (.fault Fault.integerTooLong) lab' ∧
      lab'.world = [] ∧ (Error.fault Fault.integerTooLong).name = "ValueError" ∧
      answer (dispatch ([clerk].map Listener.observer) .ranked ⟨[], 1, 0⟩ (Lab.start () [])) = .ok false :=
  ⟨_, rfl, rfl, rfl, rfl⟩

end RegisterEvolution
