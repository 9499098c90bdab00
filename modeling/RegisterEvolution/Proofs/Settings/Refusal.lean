import RegisterEvolution.Proofs.Settings.Accepted
import RegisterEvolution.Proofs.Value

/-!
# `Proofs.Settings.Refusal` — how settings are refused

A check that refuses a value should do so with a configuration error. Where a value does not fit the comparison that a
check makes, or the message that it writes, a general fault comes out in its place. This module says which values these
are, field by field, and that nothing else can go wrong in a check.

* `Raises` — what the errors of a computation have in common;
* `Error.Accounted` — a configuration error, or a fault that has a cause;
* `Check.Upset` — the values that a check is not made for, with the kind of fault that comes of them;
* `ProgramSettings.validate_raises`, `RunSettings.validate_raises` — checked settings;
* `ProgramSettings.bind_raises` — settings that are bound to a task.
-/

namespace RegisterEvolution

/-! ## Errors with a cause -/

section Raises

variable {ε α β : Type} {P Q : ε → Prop}

/-- What every error of a computation satisfies. -/
def Raises (P : ε → Prop) (x : Except ε α) : Prop := ∀ e, x = .error e → P e

namespace Raises

theorem ok {a : α} : Raises P (.ok a) := fun _ h => nomatch h

theorem throw {e : ε} (h : P e) : Raises P (.error e : Except ε α) := by
  intro e' he
  obtain rfl := Except.error.inj he
  exact h

/-- One step after the other: the second one only counts where the first one succeeds. -/
theorem bind {x : Except ε α} {f : α → Except ε β} (hx : Raises P x) (hf : ∀ a, x = .ok a → Raises P (f a)) :
    Raises P (x >>= f) := by
  cases x with
  | error e => exact throw (hx e rfl)
  | ok a => exact hf a rfl

theorem imp {x : Except ε α} (h : Raises P x) (himp : ∀ e, P e → Q e) : Raises Q x := fun e he => himp e (h e he)

end Raises

end Raises

variable {cause cause' : FaultKind → Prop}

/-- An error of configuration, or a fault of a kind for which there is a cause. -/
inductive Error.Accounted (cause : FaultKind → Prop) : Error → Prop
  | configuration (c : ConfigurationError) : Accounted cause (.configuration c)
  | fault {f : Fault} (h : cause f.kind) : Accounted cause (.fault f)

theorem Error.Accounted.imp {e : Error} (h : e.Accounted cause) (himp : ∀ kind, cause kind → cause' kind) :
    e.Accounted cause' := by
  cases h with
  | configuration c => exact .configuration c
  | fault h => exact .fault (himp _ h)

/-! ## Collections -/

namespace Value

/-- The items of a collection that can be written out. -/
theorem areWritable_items {v : Value} {items : List Value} (hitems : Check.items? v = some items)
    (h : v.isWritable = true) : areWritable items = true := by
  unfold Check.items? at hitems
  split at hitems
  · obtain rfl := Option.some.inj hitems
    exact h
  · obtain rfl := Option.some.inj hitems
    rw [areWritable_iff]
    intro w hw
    obtain ⟨c, -, rfl⟩ := List.mem_map.mp hw
    rfl
  · obtain rfl := Option.some.inj hitems
    exact areWritable_keys h
  · exact nomatch hitems

/-- Whether a value is a number, switches among them. -/
def isNumber : Value → Bool
  | bool _ | int _ | float _ => true
  | _ => false

end Value

/-! ## Errors that quote values -/

namespace Error

variable {c : ConfigurationError} {v w : Value}

/-- A configuration error only gives way to a fault when its message would quote something that is too long. -/
theorem accounted_ofConfiguration (h : Value.areWritable c.quoted = false → cause .badValue) :
    (ofConfiguration c).Accounted cause := by
  unfold ofConfiguration
  split
  · exact .configuration c
  · rename_i hlong
    exact .fault (h (by simpa using hlong))

theorem accounted_of_quoted (hquoted : c.quoted = [v]) (hv : v.isWritable = false → cause .badValue) :
    (ofConfiguration c).Accounted cause := by
  refine accounted_ofConfiguration fun h => ?_
  rw [hquoted, Value.areWritable_singleton] at h
  exact hv h

theorem accounted_of_quoted_pair (hquoted : c.quoted = [v, w]) (hv : v.isWritable = false → cause .badValue)
    (hw : w.isWritable = false → cause .badValue) : (ofConfiguration c).Accounted cause := by
  refine accounted_ofConfiguration fun h => ?_
  rw [hquoted, Value.areWritable, Value.areWritable_singleton, Bool.and_eq_false_iff] at h
  exact h.elim hv hw

end Error

/-! ## Checks of single fields -/

namespace Check

/-- The values that the check of a field is not made for, and the kind of fault that comes of them. -/
inductive Upset : Field → Value → FaultKind → Prop
  /-- Fractions and ranges are compared as binary64 numbers, and not every integer has one near it. -/
  | tooLarge {name : String} {isOptional : Bool} {n : Int} (h : Decimal.ofInt? n = none) :
      Upset ⟨name, .real, isOptional⟩ (.int n) .overflow
  /-- The range of constants is compared before it is known to be a number. -/
  | notANumber {v : Value} (h : v.isNumber = false) : Upset ⟨"constant_range", .real, false⟩ v .wrongType
  /-- Operations are counted as items before they are known to be a collection. -/
  | notIterable {name : String} {isOptional : Bool} {v : Value} (htruthy : v.isTruthy = true) (h : items? v = none) :
      Upset ⟨name, .texts, isOptional⟩ v .wrongType
  /-- Operations are looked up before they are known to be texts. -/
  | notAKey {name : String} {isOptional : Bool} {v item : Value} {items : List Value} (h : items? v = some items)
      (hitem : item ∈ items) (hkey : isKey item = false) : Upset ⟨name, .texts, isOptional⟩ v .wrongType
  /-- The message about a value that is refused quotes it. -/
  | tooLong {field : Field} {v : Value} (h : v.isWritable = false) : Upset field v .badValue

variable {name : String} {field : Field} {isOptional : Bool} {v : Value}

theorem atLeast_raises {least : Int} (hlong : v.isWritable = false → cause .badValue) :
    Raises (Error.Accounted cause) (atLeast name least v) := by
  unfold atLeast
  split
  · split
    · exact .throw (Error.accounted_of_quoted rfl hlong)
    · exact .ok
  · exact .throw (Error.accounted_of_quoted rfl hlong)

theorem count_raises (hlong : v.isWritable = false → cause .badValue) :
    Raises (Error.Accounted cause) (count name v) := by
  unfold count
  split
  · exact .ok
  · exact atLeast_raises hlong

theorem oneOf_raises {choices : List String} : Raises (Error.Accounted (Upset field v)) (oneOf name choices v) := by
  unfold oneOf
  split
  · split
    · exact .ok
    · exact .throw (Error.accounted_of_quoted rfl .tooLong)
  · exact .throw (Error.accounted_of_quoted rfl .tooLong)

theorem fraction_raises : Raises (Error.Accounted (Upset ⟨name, .real, isOptional⟩ v)) (fraction name v) := by
  unfold fraction
  split
  · exact .ok
  · split
    · rename_i hlarge
      exact .throw (.fault (.tooLarge (Option.isNone_iff_eq_none.mp hlarge)))
    · split
      · exact .ok
      · exact .throw (Error.accounted_of_quoted rfl .tooLong)
  · split
    · exact .ok
    · exact .throw (Error.accounted_of_quoted rfl .tooLong)
  · exact .throw (Error.accounted_of_quoted rfl .tooLong)

theorem positive_raises : Raises (Error.Accounted (Upset ⟨"constant_range", .real, false⟩ v)) (positive v) := by
  unfold positive
  split
  · split
    · exact .ok
    · exact .throw (Error.accounted_of_quoted rfl .tooLong)
  · split
    · rename_i hlarge
      exact .throw (.fault (.tooLarge (Option.isNone_iff_eq_none.mp hlarge)))
    · split
      · exact .ok
      · exact .throw (Error.accounted_of_quoted rfl .tooLong)
  · split
    · exact .ok
    · exact .throw (Error.accounted_of_quoted rfl .tooLong)
  · rename_i hbool hint hfloat
    refine .throw (.fault (.notANumber ?_))
    cases v with
    | bool b => exact absurd rfl (hbool b)
    | int n => exact absurd rfl (hint n)
    | float x => exact absurd rfl (hfloat x)
    | _ => rfl

theorem opcodes_raises : Raises (Error.Accounted (Upset ⟨name, .texts, isOptional⟩ v)) (opcodes v) := by
  unfold opcodes
  split
  · exact .ok
  · split
    · exact .throw (.configuration _)
    · rename_i htruthy
      have htruthy : v.isTruthy = true := by simpa using htruthy
      split
      · rename_i hitems
        exact .throw (.fault (.notIterable htruthy hitems))
      · rename_i items hitems
        split
        · rename_i item hitem
          have hkey : isKey item = false := by simpa using List.find?_some hitem
          exact .throw (.fault (.notAKey hitems (List.mem_of_find?_eq_some hitem) hkey))
        · simp only
          split
          · exact .ok
          · -- the unknown names are quoted, and they are as long as the collection that they come from
            refine .throw (Error.accounted_ofConfiguration fun hlong => .tooLong ?_)
            rw [← Bool.not_eq_true] at hlong ⊢
            intro hwritable
            refine hlong (Value.areWritable_iff.mpr fun w hw => ?_)
            exact Value.areWritable_iff.mp (Value.areWritable_items hitems hwritable) w (List.mem_of_mem_filter hw)

theorem room_raises {registers actions : Value} (hregisters : registers.isWritable = false → cause .badValue)
    (hactions : actions.isWritable = false → cause .badValue) :
    Raises (Error.Accounted cause) (room registers actions) := by
  unfold room
  split
  · rename_i r a
    split
    · exact .throw (Error.accounted_of_quoted_pair rfl hregisters hactions)
    · exact .ok
  · exact .ok

end Check

/-! ## Program settings -/

namespace ProgramSettings

variable {p : ProgramSettings}

/-- One of the settings upsets its check. -/
def Upset (p : ProgramSettings) (kind : FaultKind) : Prop :=
  ∃ field ∈ fields, ∃ v, p.get? field.name = some v ∧ Check.Upset field v kind

/-- What the errors of every single check satisfy. -/
structure ChecksRaise (P : Error → Prop) (p : ProgramSettings) : Prop where
  limit : Raises P (Check.atLeast "max_instructions" 1 p.maxInstructions)
  registers : Raises P (Check.count "register_count" p.registerCount)
  inputs : Raises P (Check.count "input_count" p.inputCount)
  actions : Raises P (Check.count "action_count" p.actionCount)
  room : Raises P (Check.room p.registerCount p.actionCount)
  constant : Raises P (Check.fraction "constant_probability" p.constantProbability)
  inputShare : Raises P (Check.fraction "external_probability" p.externalProbability)
  range : Raises P (Check.positive p.constantRange)
  policy : Raises P (Check.oneOf "branch_policy" (BranchPolicy.all.map BranchPolicy.name) p.branchPolicy)
  opcodes : Raises P (Check.opcodes p.opcodes)

/-- The first check that fails decides about the settings. -/
theorem ChecksRaise.validate {P : Error → Prop} (h : p.ChecksRaise P) : Raises P p.validate :=
  h.limit.bind fun _ _ => h.registers.bind fun _ _ => h.inputs.bind fun _ _ => h.actions.bind fun _ _ =>
    h.room.bind fun _ _ => h.constant.bind fun _ _ => h.inputShare.bind fun _ _ => h.range.bind fun _ _ =>
      h.policy.bind fun _ _ => h.opcodes

theorem Upset.of_field {field : Field} {v : Value} {e : Error} (hfield : field ∈ fields)
    (hget : p.get? field.name = some v) (h : e.Accounted (Check.Upset field v)) : e.Accounted p.Upset :=
  h.imp fun _ hkind => ⟨field, hfield, v, hget, hkind⟩

theorem Upset.of_tooLong {field : Field} {v : Value} (hfield : field ∈ fields) (hget : p.get? field.name = some v)
    (h : v.isWritable = false) : p.Upset .badValue := ⟨field, hfield, v, hget, .tooLong h⟩

theorem checksRaise (p : ProgramSettings) : p.ChecksRaise (Error.Accounted p.Upset) := by
  have hlimit : (⟨"max_instructions", .integer, false⟩ : Field) ∈ fields := by simp [fields]
  have hregisters : (⟨"register_count", .integer, true⟩ : Field) ∈ fields := by simp [fields]
  have hinputs : (⟨"input_count", .integer, true⟩ : Field) ∈ fields := by simp [fields]
  have hactions : (⟨"action_count", .integer, true⟩ : Field) ∈ fields := by simp [fields]
  have hconstant : (⟨"constant_probability", .real, false⟩ : Field) ∈ fields := by simp [fields]
  have hinputShare : (⟨"external_probability", .real, false⟩ : Field) ∈ fields := by simp [fields]
  have hrange : (⟨"constant_range", .real, false⟩ : Field) ∈ fields := by simp [fields]
  have hpolicy : (⟨"branch_policy", .text, false⟩ : Field) ∈ fields := by simp [fields]
  have hopcodes : (⟨"opcodes", .texts, true⟩ : Field) ∈ fields := by simp [fields]
  exact {
    limit := Check.atLeast_raises (Upset.of_tooLong hlimit rfl)
    registers := Check.count_raises (Upset.of_tooLong hregisters rfl)
    inputs := Check.count_raises (Upset.of_tooLong hinputs rfl)
    actions := Check.count_raises (Upset.of_tooLong hactions rfl)
    room := Check.room_raises (Upset.of_tooLong hregisters rfl) (Upset.of_tooLong hactions rfl)
    constant := Check.fraction_raises.imp fun _ => Upset.of_field hconstant rfl
    inputShare := Check.fraction_raises.imp fun _ => Upset.of_field hinputShare rfl
    range := Check.positive_raises.imp fun _ => Upset.of_field hrange rfl
    policy := Check.oneOf_raises.imp fun _ => Upset.of_field hpolicy rfl
    opcodes := Check.opcodes_raises.imp fun _ => Upset.of_field hopcodes rfl }

/-- **Program settings are only refused by a configuration error**, or by a fault that one of them accounts for. -/
theorem validate_raises : Raises (Error.Accounted p.Upset) p.validate := p.checksRaise.validate

/-! ### Binding -/

/-- A count that is one of the settings, or else one that a task determines. -/
theorem orElse_cases (v other : Value) : orElse v other = v ∨ orElse v other = other := by
  cases v with
  | null => exact .inr rfl
  | _ => exact .inl rfl

/-- A number of registers that follows from a number of actions is only refused when that number is as long. -/
theorem count_successor_raises {name : String} {v : Value} (hlong : v.isWritable = false → cause .badValue) :
    Raises (Error.Accounted cause) (Check.count name (successor v)) := by
  cases v with
  | int n =>
      simp only [successor, Check.count, Check.atLeast]
      split
      · rename_i hnegative
        refine .throw (Error.accounted_of_quoted rfl fun h => hlong ?_)
        -- below zero the number of actions is the longer one
        rw [Value.isWritable, decide_eq_false_iff_not] at h ⊢
        omega
      · exact .ok
  | bool b => cases b <;> exact .ok
  | null => exact .ok
  | float x => exact Check.count_raises fun h => Bool.noConfusion h
  | text s => exact Check.count_raises hlong
  | list items => exact Check.count_raises hlong
  | map entries => exact Check.count_raises hlong

/-- A number of registers that follows from a number of actions is large enough. -/
theorem room_successor_raises {P : Error → Prop} (v : Value) : Raises P (Check.room (successor v) v) := by
  cases v with
  | int n =>
      simp only [successor, Check.room]
      rw [if_neg (by omega)]
      exact .ok
  | _ => exact .ok

theorem count_orElse_raises {name : String} {registers actions : Value}
    (hregisters : registers.isWritable = false → cause .badValue)
    (hactions : actions.isWritable = false → cause .badValue) :
    Raises (Error.Accounted cause) (Check.count name (orElse registers (successor actions))) := by
  cases registers with
  | null => exact count_successor_raises hactions
  | _ => exact Check.count_raises hregisters

theorem room_orElse_raises {registers actions : Value} (hregisters : registers.isWritable = false → cause .badValue)
    (hactions : actions.isWritable = false → cause .badValue) :
    Raises (Error.Accounted cause) (Check.room (orElse registers (successor actions)) actions) := by
  cases registers with
  | null => exact room_successor_raises actions
  | _ => exact Check.room_raises hregisters hactions

/-- What may upset the settings when they are bound to a task: one of them, or a count of the task. -/
def BindUpset (p : ProgramSettings) (inputs actions : Int) (kind : FaultKind) : Prop :=
  p.Upset kind ∨ kind = .badValue ∧ ((Value.int inputs).isWritable = false ∨ (Value.int actions).isWritable = false)

theorem BindUpset.of_orElse {inputs actions n : Int} {field : Field} {v : Value} (hfield : field ∈ fields)
    (hget : p.get? field.name = some v)
    (htask : (Value.int n).isWritable = false → p.BindUpset inputs actions .badValue)
    (h : (orElse v (.int n)).isWritable = false) : p.BindUpset inputs actions .badValue := by
  rcases orElse_cases v (.int n) with heq | heq
  · rw [heq] at h
    exact .inl (Upset.of_tooLong hfield hget h)
  · rw [heq] at h
    exact htask h

/-- **Binding only fails with a configuration error**, or with a fault that one of the settings or an overlong count of
the task accounts for. -/
theorem bind_raises {inputs actions : Int} :
    Raises (Error.Accounted (p.BindUpset inputs actions)) (p.bind inputs actions) := by
  have hregistersField : (⟨"register_count", .integer, true⟩ : Field) ∈ fields := by simp [fields]
  have hinputsField : (⟨"input_count", .integer, true⟩ : Field) ∈ fields := by simp [fields]
  have hactionsField : (⟨"action_count", .integer, true⟩ : Field) ∈ fields := by simp [fields]
  have hregisters : p.registerCount.isWritable = false → p.BindUpset inputs actions .badValue := fun h =>
    .inl (Upset.of_tooLong hregistersField rfl h)
  have hinputs : (orElse p.inputCount (.int inputs)).isWritable = false → p.BindUpset inputs actions .badValue :=
    BindUpset.of_orElse hinputsField rfl fun h => .inr ⟨rfl, .inl h⟩
  have hactions : (orElse p.actionCount (.int actions)).isWritable = false → p.BindUpset inputs actions .badValue :=
    BindUpset.of_orElse hactionsField rfl fun h => .inr ⟨rfl, .inr h⟩
  unfold bind
  simp only
  split
  · exact .throw (Error.accounted_of_quoted_pair rfl hinputs fun h => .inr ⟨rfl, .inl h⟩)
  · split
    · exact .throw (Error.accounted_of_quoted_pair rfl hactions fun h => .inr ⟨rfl, .inr h⟩)
    · have hothers := p.checksRaise
      have hbound : ChecksRaise (Error.Accounted (p.BindUpset inputs actions)) { p with
          registerCount := orElse p.registerCount (successor (orElse p.actionCount (.int actions)))
          inputCount := orElse p.inputCount (.int inputs)
          actionCount := orElse p.actionCount (.int actions) } := by
        have hweaken {e : Error} (he : e.Accounted p.Upset) : e.Accounted (p.BindUpset inputs actions) :=
          he.imp fun _ => .inl
        exact {
          limit := hothers.limit.imp fun _ => hweaken
          registers := count_orElse_raises hregisters hactions
          inputs := Check.count_raises hinputs
          actions := Check.count_raises hactions
          room := room_orElse_raises hregisters hactions
          constant := hothers.constant.imp fun _ => hweaken
          inputShare := hothers.inputShare.imp fun _ => hweaken
          range := hothers.range.imp fun _ => hweaken
          policy := hothers.policy.imp fun _ => hweaken
          opcodes := hothers.opcodes.imp fun _ => hweaken }
      exact hbound.validate.bind fun _ _ => .ok

end ProgramSettings

/-! ## Run settings -/

namespace RunSettings

variable {s : RunSettings}

/-- One of the settings upsets its check. -/
def Upset (s : RunSettings) (kind : FaultKind) : Prop :=
  (∃ field ∈ fields, ∃ v, s.get? field.name = some v ∧ Check.Upset field v kind) ∨
    ∃ p, s.program = .settings p ∧ p.Upset kind

theorem Upset.of_field {field : Field} {v : Value} {e : Error} (hfield : field ∈ fields)
    (hget : s.get? field.name = some v) (h : e.Accounted (Check.Upset field v)) : e.Accounted s.Upset :=
  h.imp fun _ hkind => .inl ⟨field, hfield, v, hget, hkind⟩

theorem Upset.of_tooLong {field : Field} {v : Value} (hfield : field ∈ fields) (hget : s.get? field.name = some v)
    (h : v.isWritable = false) : s.Upset .badValue := .inl ⟨field, hfield, v, hget, .tooLong h⟩

/-- **Run settings are only refused by a configuration error**, or by a fault that one of them accounts for. -/
theorem validate_raises : Raises (Error.Accounted s.Upset) s.validate := by
  have hsize : (⟨"population_size", .integer, false⟩ : Field) ∈ fields := by simp [fields]
  have hgenerations : (⟨"max_generations", .integer, false⟩ : Field) ∈ fields := by simp [fields]
  have hgap : (⟨"gap", .real, false⟩ : Field) ∈ fields := by simp [fields]
  have hmutations : (⟨"n_mutations", .real, false⟩ : Field) ∈ fields := by simp [fields]
  have hcrossovers : (⟨"n_crossovers", .real, false⟩ : Field) ∈ fields := by simp [fields]
  have hkind : (⟨"crossover_kind", .text, false⟩ : Field) ∈ fields := by simp [fields]
  have hedits : (⟨"max_mutation_edits", .integer, false⟩ : Field) ∈ fields := by simp [fields]
  have hworkers : (⟨"workers", .integer, false⟩ : Field) ∈ fields := by simp [fields]
  unfold validate
  refine (Check.atLeast_raises (Upset.of_tooLong hsize rfl)).bind fun _ _ => ?_
  refine (Check.atLeast_raises (Upset.of_tooLong hgenerations rfl)).bind fun _ _ => ?_
  refine (Check.fraction_raises.imp fun _ => Upset.of_field hgap rfl).bind fun _ hfraction => ?_
  -- a gap that is a fraction is a number
  obtain ⟨x, hx, -⟩ := Check.fraction_ok hfraction
  rw [hx]
  simp only
  split
  · exact .throw (.configuration _)
  · refine (Check.fraction_raises.imp fun _ => Upset.of_field hmutations rfl).bind fun _ _ => ?_
    refine (Check.fraction_raises.imp fun _ => Upset.of_field hcrossovers rfl).bind fun _ _ => ?_
    refine (Check.oneOf_raises.imp fun _ => Upset.of_field hkind rfl).bind fun _ _ => ?_
    refine (Check.atLeast_raises (Upset.of_tooLong hedits rfl)).bind fun _ _ => ?_
    refine (Check.atLeast_raises (Upset.of_tooLong hworkers rfl)).bind fun _ _ => ?_
    cases hprogram : s.program with
    | settings p => exact ProgramSettings.validate_raises.imp fun _ he => he.imp fun _ hp => .inr ⟨p, hprogram, hp⟩
    | other v => exact .throw (.configuration _)

end RunSettings

end RegisterEvolution
