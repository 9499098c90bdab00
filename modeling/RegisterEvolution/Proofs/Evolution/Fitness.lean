import RegisterEvolution.Proofs.Binary64.Arithmetic
import RegisterEvolution.Proofs.Evolution.Answers

/-!
# `Proofs.Evolution.Fitness` — what a score comes to

A task may answer with anything or raise any error. Of its answers the finite numbers become a fitness, and the errors
that are not the library's own are quoted by an error of the task. All other answers are refused with an error of the
task, but for two kinds that there is no such error for: integers that are too large for a number, and collections that
cannot be quoted in a message. Where an error cannot be quoted, what comes out is the failure to quote it.

* `Task.attempt`, `answer_score` — what a task comes to, and that a score depends on nothing else;
* `Value.Unscorable`, `unscorable_iff` — the answers that no error of a task is made for;
* `score_outcome` — the finite numbers, the errors of the task, and the other errors.
-/

namespace RegisterEvolution

variable {γ σ : Type} {task : Task σ} {p : Program} {v : Value} {f : Fault} {e : Error} {x : Float}

/-- What a task comes to when it scores a program: the value that it answers, or the error that it raises. -/
def Task.attempt (task : Task σ) (p : Program) (lab : Lab γ σ) : Except Error Value :=
  answer (task.score p ⟨lab.store.registers p, lab.world⟩)

/-- A score is read off what the task comes to. -/
theorem answer_score (task : Task σ) (p : Program) (lab : Lab γ σ) :
    answer (score task p lab) =
      match task.attempt p lab with
      | .ok v => toFitness p v
      | .error e => .error (taskFailure task p e) := by
  unfold score onBench Task.attempt
  cases task.score p ⟨lab.store.registers p, lab.world⟩ with
  | error e b => rfl
  | ok v b =>
      simp only [answer]
      cases toFitness p v with
      | ok x => rfl
      | error e => rfl

/-! ## Answers -/

/-- Answers that no error of a task is made for: an integer beyond all numbers, or a collection that holds an integer
    too long to be written out. -/
inductive Value.Unscorable : Value → Prop where
  | integer {n : Int} (h : Decimal.ofInt? n = none) : Unscorable (.int n)
  | list {items : List Value} (h : Value.areWritable items = false) : Unscorable (.list items)
  | map {entries : List (Value × Value)} (h : Value.entriesWritable entries = false) : Unscorable (.map entries)

/-- Numbers and texts are not among them, nor is anything that is read as a number. -/
theorem unscorable_iff :
    v.Unscorable ↔ ∃ f, v.toNumber = .error f ∧ (f.kind = .overflow ∨ v.isWritable = false) := by
  constructor
  · rintro (h | h | h)
    · exact ⟨Fault.integerTooLarge, by simp [Value.toNumber, h], .inl rfl⟩
    · exact ⟨_, rfl, .inr h⟩
    · exact ⟨_, rfl, .inr h⟩
  · rintro ⟨f, hf, hrefused⟩
    cases v with
    | float x => exact nomatch hf
    | bool b => exact nomatch hf
    | int n =>
        cases hn : Decimal.ofInt? n with
        | none => exact .integer hn
        | some x => simp [Value.toNumber, hn] at hf
    | null =>
        obtain rfl := Except.error.inj hf
        rcases hrefused with h | h <;> exact nomatch h
    | text s =>
        cases hs : Decimal.readFloat? s with
        | some x => simp [Value.toNumber, hs] at hf
        | none =>
            simp only [Value.toNumber, hs] at hf
            obtain rfl := Except.error.inj hf
            rcases hrefused with h | h <;> exact nomatch h
    | list items =>
        obtain rfl := Except.error.inj hf
        exact .list (hrefused.resolve_left nofun)
    | map entries =>
        obtain rfl := Except.error.inj hf
        exact .map (hrefused.resolve_left nofun)

/-- The program that an error of a task is about, where it names one. -/
def TaskError.program? : TaskError → Option Nat
  | raised _ program _ | notANumber program _ | notFinite program _ => some program
  | wrongInputCount _ _ | refused _ => none

/-- The error of an answer that is no number is one of the task, or a general failure. -/
theorem scoreError_cases (p : Program) (v : Value) (f : Fault) :
    ((∃ t, scoreError p v f = .task t ∧ t.program? = some p.id) ∧ f.kind ≠ .overflow ∧ v.isWritable = true) ∨
      (∃ f', scoreError p v f = .fault f') ∧ (f.kind = .overflow ∨ v.isWritable = false) := by
  unfold scoreError
  by_cases hkind : f.kind = .overflow
  · rw [if_pos hkind]
    exact .inr ⟨⟨f, rfl⟩, .inl hkind⟩
  · rw [if_neg hkind]
    cases hv : v.isWritable with
    | true => exact .inl ⟨⟨_, rfl, rfl⟩, hkind, rfl⟩
    | false => exact .inr ⟨⟨_, rfl⟩, .inr rfl⟩

theorem toFitness_eq_ok_iff : toFitness p v = .ok x ↔ v.toNumber = .ok x ∧ x.isFinite = true :=
  ⟨isFinite_of_toFitness, fun h => toFitness_ok h.1 h.2⟩

/-- **An answer becomes a fitness or an error of the task**, unless there is no such error for it. -/
theorem toFitness_cases (p : Program) (v : Value) :
    (¬ v.Unscorable ∧ ((∃ x, toFitness p v = .ok x) ∨ ∃ t, toFitness p v = .error (.task t) ∧ t.program? = some p.id)) ∨
      (v.Unscorable ∧ ∃ f, toFitness p v = .error (.fault f)) := by
  rw [unscorable_iff]
  unfold toFitness
  cases v.toNumber with
  | ok x =>
      refine .inl ⟨nofun, ?_⟩
      simp only
      by_cases hx : x.isFinite = true
      · rw [if_pos hx]
        exact .inl ⟨x, rfl⟩
      · rw [if_neg hx]
        exact .inr ⟨_, rfl, rfl⟩
  | error f =>
      simp only [Except.error.injEq, exists_eq_left', reduceCtorEq, exists_false, false_or]
      rcases scoreError_cases p v f with ⟨htask, hkind, hwritable⟩ | ⟨hfault, hrefused⟩
      · exact .inl ⟨by simp [hkind, hwritable], htask⟩
      · exact .inr ⟨hrefused, hfault⟩

/-! ## Errors -/

/-- An error of the library's own is passed on. -/
theorem taskFailure_of_isOwn (h : e.isOwn = true) : taskFailure task p e = e := if_pos h

variable {quote : String} {failure : Error}

/-- Every other error becomes one of the task, which quotes it and names the program. -/
theorem taskFailure_of_quote (h : e.isOwn = false) (hquote : e.quote = .ok quote) :
    taskFailure task p e = .task (.raised task.name p.id quote) := by
  unfold taskFailure
  rw [h, hquote]
  rfl

/-- What is raised by an error that is to be quoted takes its place. -/
theorem taskFailure_of_unquotable (h : e.isOwn = false) (hquote : e.quote = .error failure) :
    taskFailure task p e = failure := by
  unfold taskFailure
  rw [h, hquote]
  rfl

/-- What becomes of an error: it is quoted in one of the task, passed on, or replaced by what quoting it raises. -/
theorem taskFailure_cases (task : Task σ) (p : Program) (e : Error) :
    (∃ t, taskFailure task p e = .task t ∧ t.program? = some p.id) ∨
      (e.isOwn = true ∧ taskFailure task p e = e) ∨
        e.isOwn = false ∧ e.quote = .error (taskFailure task p e) := by
  cases hown : e.isOwn with
  | true => exact .inr (.inl ⟨rfl, taskFailure_of_isOwn hown⟩)
  | false =>
      cases hquote : e.quote with
      | ok quote => exact .inl ⟨_, taskFailure_of_quote hown hquote, rfl⟩
      | error failure => exact .inr (.inr ⟨rfl, congrArg Except.error (taskFailure_of_unquotable hown hquote).symm⟩)

/-! ## Scores -/

/--
**What a score comes to**, whatever the task answers or raises:

* it is a number exactly if the task answers with what is read as that number, and the number is finite;
* otherwise it is an error of the task that names the program, an error of the library's own that the task has raised,
  a general failure after an answer that no error of a task is made for, or what is raised by an error of the task that
  cannot be quoted;
* the library's own errors are passed on, and others are quoted;
* the answers that no error of a task is made for are those that end in a general failure.
-/
theorem score_outcome (task : Task σ) (p : Program) (lab : Lab γ σ) :
    (∀ x, answer (score task p lab) = .ok x ↔
      ∃ v, task.attempt p lab = .ok v ∧ v.toNumber = .ok x ∧ x.isFinite = true) ∧
    (∀ e, answer (score task p lab) = .error e →
      (∃ t, e = .task t ∧ t.program? = some p.id) ∨ (e.isOwn = true ∧ task.attempt p lab = .error e) ∨
        (∃ v f, task.attempt p lab = .ok v ∧ v.Unscorable ∧ e = .fault f) ∨
        ∃ raised, task.attempt p lab = .error raised ∧ raised.isOwn = false ∧ raised.quote = .error e) ∧
    (∀ e, task.attempt p lab = .error e →
      (e.isOwn = true → answer (score task p lab) = .error e) ∧
      (∀ quote, e.isOwn = false → e.quote = .ok quote →
        answer (score task p lab) = .error (.task (.raised task.name p.id quote)))) ∧
    ∀ v, task.attempt p lab = .ok v → (v.Unscorable ↔ ∃ f, answer (score task p lab) = .error (.fault f)) := by
  rw [answer_score]
  cases task.attempt p lab with
  | error e =>
      refine ⟨fun x => ⟨nofun, fun ⟨_, h, _⟩ => nomatch h⟩, ?_, ?_, nofun⟩
      · rintro _ ⟨⟩
        rcases taskFailure_cases task p e with htask | ⟨hown, hsame⟩ | ⟨hown, hquote⟩
        · exact .inl htask
        · rw [hsame]
          exact .inr (.inl ⟨hown, rfl⟩)
        · exact .inr (.inr (.inr ⟨e, rfl, hown, hquote⟩))
      · rintro _ ⟨⟩
        constructor
        · intro hown
          exact congrArg Except.error (taskFailure_of_isOwn hown)
        · intro quote hown hquote
          exact congrArg Except.error (taskFailure_of_quote hown hquote)
  | ok v =>
      refine ⟨?_, ?_, nofun, ?_⟩
      · intro x
        simp only [toFitness_eq_ok_iff, Except.ok.injEq, exists_eq_left']
      · intro e he
        rcases toFitness_cases p v with ⟨-, ⟨x, hx⟩ | ⟨t, ht, hnamed⟩⟩ | ⟨hv, f, hf⟩
        · exact nomatch hx.symm.trans he
        · exact .inl ⟨t, Except.error.inj (he.symm.trans ht), hnamed⟩
        · exact .inr (.inr (.inl ⟨v, f, rfl, hv, Except.error.inj (he.symm.trans hf)⟩))
      · rintro _ ⟨⟩
        rcases toFitness_cases p v with ⟨hv, ⟨x, hx⟩ | ⟨t, ht, -⟩⟩ | ⟨hv, hf⟩
        · exact iff_of_false hv fun ⟨f, hf⟩ => nomatch hx.symm.trans hf
        · exact iff_of_false hv fun ⟨f, hf⟩ => nomatch ht.symm.trans hf
        · exact iff_of_true hv hf

/-- A task that answers every program with the same value. -/
def constantTask (v : Value) : Task Unit := ⟨"Constant", 1, 1, fun _ => return v⟩

/-- An unscored program of no instructions, which such a task does not look at. -/
def blankProgram : Program := ⟨0, [], ⟨1, some 1, some 1, some 1, none, 0.1, 0.5, 10.0, .single⟩⟩

/-- A text with white space around its digits is a score, and null is refused with an error of the task. -/
theorem score_outcome_text :
    answer (score (constantTask (.text " 12.5 ")) blankProgram (Lab.start () ())) = .ok 12.5 ∧
      ∃ t, answer (score (constantTask .null) blankProgram (Lab.start () ())) = .error (.task t) := by
  constructor
  · exact ((score_outcome (constantTask (.text " 12.5 ")) blankProgram (Lab.start () ())).1 12.5).mpr
      ⟨.text " 12.5 ", rfl, rfl, rfl⟩
  · obtain ⟨-, herror, -, hfault⟩ := score_outcome (constantTask .null) blankProgram (Lab.start () ())
    have hscore : answer (score (constantTask .null) blankProgram (Lab.start () ())) =
      .error (.task (.notANumber 0 .null)) := rfl
    rcases herror _ hscore with ⟨t, ht, -⟩ | ⟨-, hraised⟩ | ⟨v, f, -, -, hf⟩ | ⟨raised, hraised, -⟩
    · exact ⟨t, hscore.trans (congrArg Except.error ht)⟩
    · exact nomatch hraised
    · exact nomatch hf
    · exact nomatch hraised

/-- **An integer beyond all numbers is not refused by an error of the task.** -/
theorem huge_score_fails :
    answer (score (constantTask (.int (10 ^ 400))) blankProgram (Lab.start () ())) =
      .error (.fault Fault.integerTooLarge) := by
  have hn : Decimal.ofInt? (10 ^ 400) = none := Option.isNone_iff_eq_none.mp (by decide +kernel)
  have hattempt : (constantTask (.int (10 ^ 400))).attempt blankProgram (Lab.start () ()) = .ok (.int (10 ^ 400)) := rfl
  rw [answer_score, hattempt]
  simp only [toFitness, Value.toNumber, hn]
  rfl

end RegisterEvolution
