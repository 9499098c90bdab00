import RegisterEvolution.Proofs.Evolution.Progress
import RegisterEvolution.Proofs.Settings.Refusal

/-!
# `Proofs.Evolution.Seeding` — engines that are built, and engines that are not

An engine is built before anything is drawn or scored, so that settings which do not do are noticed at once. It takes
accepted settings, program settings which can be bound to the task, and a seed to make a generator of. The settings do
not check the seed, so a negative one is only noticed by the generator.

* `Engine.seeded_iff` — which settings an engine with its own generator is built for;
* `Engine.seeded_outcome` — these, and the errors that the others end in.
-/

namespace RegisterEvolution

variable {σ : Type} {settings : RunSettings} {task : Task σ} {observers : List (Observer σ)} {processors : Nat}
  {seconds : String} {p : ProgramSettings} {n : Int}

/-- The plan keeps the seed as it is set. -/
theorem RunSettings.seed_of_plan {plan : Plan} (h : settings.plan = .ok plan) : plan.seed = settings.seed := by
  obtain ⟨program, -, h⟩ := except_bind_eq_ok.mp h
  simp only at h
  split at h
  · rename_i typed htyped
    obtain ⟨_, -, htyped⟩ := except_bind_eq_ok.mp htyped
    obtain ⟨_, -, htyped⟩ := except_bind_eq_ok.mp htyped
    obtain ⟨_, -, htyped⟩ := except_bind_eq_ok.mp htyped
    obtain ⟨_, -, htyped⟩ := except_bind_eq_ok.mp htyped
    obtain rfl := Except.ok.inj htyped
    obtain rfl := Except.ok.inj h
    rfl
  · exact nomatch h

namespace Engine

/-- Accepted settings that can be bound to the task are all that it takes to build an engine. -/
theorem ofSettings_of_valid (hprogram : settings.program = .settings p) (hvalid : settings.validate = .ok ())
    {bound : ProgramSettings} (hbind : p.bind task.inputCount task.actionCount = .ok bound) :
    ∃ e, ofSettings settings task observers processors seconds = .ok e ∧ e.plan.seed = settings.seed := by
  obtain ⟨plan, hplan, -⟩ := RunSettings.exists_plan hvalid
  refine ⟨⟨plan, task, observers, processors, seconds⟩, ?_, RunSettings.seed_of_plan hplan⟩
  unfold ofSettings RunSettings.programSettings
  rw [hvalid, hprogram, hplan]
  show (do let _ ← p.bind task.inputCount task.actionCount; _) = _
  rw [hbind]
  rfl

/-- An engine is only built from accepted settings that can be bound to the task. -/
theorem valid_of_ofSettings (hprogram : settings.program = .settings p) {e : Engine σ}
    (h : ofSettings settings task observers processors seconds = .ok e) :
    settings.validate = .ok () ∧ (∃ bound, p.bind task.inputCount task.actionCount = .ok bound) ∧
      e.plan.seed = settings.seed := by
  obtain ⟨⟨⟩, hvalid, h⟩ := except_bind_eq_ok.mp h
  obtain ⟨program, hsettings, h⟩ := except_bind_eq_ok.mp h
  obtain ⟨bound, hbind, h⟩ := except_bind_eq_ok.mp h
  obtain ⟨plan, hplan, h⟩ := except_bind_eq_ok.mp h
  obtain rfl := Except.ok.inj h
  unfold RunSettings.programSettings at hsettings
  rw [hprogram] at hsettings
  obtain rfl := Except.ok.inj hsettings
  exact ⟨hvalid, ⟨bound, hbind⟩, RunSettings.seed_of_plan hplan⟩

theorem ownSource_of_nonneg {e : Engine σ} (hseed : e.plan.seed = .int n) (hn : 0 ≤ n) :
    e.ownSource = .ok (Stream.ofSeed n.toNat) := by
  simp only [ownSource, hseed, seedSource]
  rw [if_neg (by omega)]

theorem ownSource_of_neg {e : Engine σ} (hseed : e.plan.seed = .int n) (hn : n < 0) :
    e.ownSource = .error (.fault ⟨.badValue, "expected non-negative integer"⟩) := by
  simp only [ownSource, hseed, seedSource]
  rw [if_pos hn]

/-- An engine with its own generator is built exactly for accepted settings that can be bound to the task and have a
seed that is not negative. -/
theorem seeded_iff (hprogram : settings.program = .settings p) (hseed : settings.seed = .int n) :
    (∃ out, seeded settings task observers processors seconds = .ok out) ↔
      settings.validate = .ok () ∧ (∃ bound, p.bind task.inputCount task.actionCount = .ok bound) ∧ 0 ≤ n := by
  constructor
  · rintro ⟨out, h⟩
    obtain ⟨e, he, h⟩ := except_bind_eq_ok.mp h
    obtain ⟨source, hsource, -⟩ := except_bind_eq_ok.mp h
    obtain ⟨hvalid, hbind, hkept⟩ := valid_of_ofSettings hprogram he
    refine ⟨hvalid, hbind, ?_⟩
    by_contra hn
    rw [ownSource_of_neg (hkept.trans hseed) (by omega)] at hsource
    exact nomatch hsource
  · rintro ⟨hvalid, ⟨bound, hbind⟩, hn⟩
    obtain ⟨e, he, hkept⟩ : ∃ e, ofSettings settings task observers processors seconds = .ok e ∧
        e.plan.seed = settings.seed := ofSettings_of_valid hprogram hvalid hbind
    refine ⟨(e, Stream.ofSeed n.toNat), ?_⟩
    unfold seeded
    rw [he]
    show (do let source ← e.ownSource; _) = _
    rw [ownSource_of_nonneg (hkept.trans hseed) hn]
    rfl

/-- What may keep an engine from being built other than a configuration error: one of the settings upsets its check, the
seed is negative, or a count of the task is too long for a message. -/
def SeedingUpset (settings : RunSettings) (task : Task σ) (n : Int) (kind : FaultKind) : Prop :=
  settings.Upset kind ∨
    kind = .badValue ∧ (n < 0 ∨ (Value.int task.inputCount).isWritable = false ∨
      (Value.int task.actionCount).isWritable = false)

theorem seeded_raises (hprogram : settings.program = .settings p) (hseed : settings.seed = .int n) :
    Raises (Error.Accounted (SeedingUpset settings task n)) (seeded settings task observers processors seconds) := by
  refine Raises.bind ?_ fun e he => ?_
  · refine (RunSettings.validate_raises.imp fun _ he => he.imp fun _ => .inl).bind fun _ hvalid => ?_
    unfold RunSettings.programSettings
    rw [hprogram]
    refine Raises.ok.bind fun program hok => ?_
    obtain rfl := Except.ok.inj hok
    refine (ProgramSettings.bind_raises.imp fun _ he => he.imp ?_).bind fun bound _ => ?_
    · rintro kind (hp | ⟨hkind, hcounts⟩)
      · exact .inl (.inr ⟨p, hprogram, hp⟩)
      · exact .inr ⟨hkind, .inr hcounts⟩
    · obtain ⟨plan, hplan, -⟩ := RunSettings.exists_plan hvalid
      rw [hplan]
      exact .ok
  · obtain ⟨-, -, hkept⟩ := valid_of_ofSettings hprogram he
    refine Raises.bind ?_ fun source _ => .ok
    by_cases hn : n < 0
    · rw [ownSource_of_neg (hkept.trans hseed) hn]
      exact .throw (.fault (.inr ⟨rfl, .inl hn⟩))
    · rw [ownSource_of_nonneg (hkept.trans hseed) (by omega)]
      exact .ok

/--
**What becomes of an engine that is built from settings and a seed.** It is built exactly when the settings are
accepted, the program settings can be bound to the task, and the seed is not negative. Otherwise the error is one of
configuration, or a fault for which there is a cause: a setting that its check is not made for, a negative seed, or a
count of the task that is too long to be quoted.
-/
theorem seeded_outcome (hprogram : settings.program = .settings p) (hseed : settings.seed = .int n) :
    ((∃ out, seeded settings task observers processors seconds = .ok out) ↔
      settings.validate = .ok () ∧ (∃ bound, p.bind task.inputCount task.actionCount = .ok bound) ∧ 0 ≤ n) ∧
    ∀ error, seeded settings task observers processors seconds = .error error →
      error.Accounted (SeedingUpset settings task n) :=
  ⟨seeded_iff hprogram hseed, seeded_raises hprogram hseed⟩

/-- A negative seed is not refused by the checks, and still no engine is built. -/
theorem seeded_outcome_negative :
    ({ seed := .int (-1) } : RunSettings).validate = .ok () ∧
      (∃ bound, ({} : ProgramSettings).bind brevity.inputCount brevity.actionCount = .ok bound) ∧
      ¬ ∃ out, seeded { seed := .int (-1) } brevity [] 1 "0.00" = .ok out := by
  refine ⟨rfl, ⟨_, rfl⟩, fun hbuilt => ?_⟩
  have hprogram : ({ seed := .int (-1) } : RunSettings).program = .settings {} := rfl
  obtain ⟨-, -, hn⟩ := (seeded_outcome hprogram rfl).1.mp hbuilt
  exact absurd hn (by decide)

/-- A range of constants that is a text ends in a fault of its type. -/
theorem textual_range_fails :
    seeded { program := .settings { constantRange := .text "wide" } } brevity [] 1 "0.00" =
      .error (.fault ⟨.wrongType, "must be real number, not str"⟩) := rfl

end Engine

end RegisterEvolution
