import RegisterEvolution.Program.Shape
import RegisterEvolution.Settings.Basic
import RegisterEvolution.Variation.Recombination

/-!
# `Settings.Check` — valid settings, and settings bound to a task

* `ProgramSettings.validate`, `RunSettings.validate` — accept settings or name the first field that is wrong;
* `ProgramSettings.bind` — fills in the counts that a task determines;
* `ProgramSettings.shape`, `RunSettings.plan` — settings in typed form.
-/

namespace RegisterEvolution

/-! ## Checks of single fields -/

namespace Check

/-- An integer that is not below a bound; switches are no integers here. -/
def atLeast (field : String) (least : Int) (v : Value) : Except Error Unit :=
  match v with
  | .int n => if n < least then throw (.ofConfiguration (.belowMinimum field least v)) else pure ()
  | _ => throw (.ofConfiguration (.belowMinimum field least v))

/-- A number between zero and one; a switch counts as the number it stands for. -/
def fraction (field : String) (v : Value) : Except Error Unit :=
  let refuse : Except Error Unit := throw (.ofConfiguration (.notAFraction field v))
  match v with
  | .bool _ => pure ()
  | .int n =>
    if (Decimal.ofInt? n).isNone then throw (.fault Fault.integerTooLarge)
    else if 0 ≤ n ∧ n ≤ 1 then pure () else refuse
  | .float x => if 0.0 ≤ x ∧ x ≤ 1.0 then pure () else refuse
  | _ => refuse

/-- One of several texts. -/
def oneOf (field : String) (choices : List String) (v : Value) : Except Error Unit :=
  match v with
  | .text s => if choices.contains s then pure () else throw (.ofConfiguration (.unknownChoice field choices v))
  | _ => throw (.ofConfiguration (.unknownChoice field choices v))

/-- A positive finite number. -/
def positive (v : Value) : Except Error Unit :=
  let refuse : Except Error Unit := throw (.ofConfiguration (.rangeNotPositive v))
  match v with
  | .bool b => if b then pure () else refuse
  | .int n =>
    if (Decimal.ofInt? n).isNone then throw (.fault Fault.integerTooLarge)
    else if 0 < n then pure () else refuse
  | .float x => if x.isFinite ∧ 0.0 < x then pure () else refuse
  | _ => throw (.fault ⟨.wrongType, "must be real number, not " ++ v.typeName⟩)

/-- The items that a value yields one after the other, if it is a collection. -/
def items? : Value → Option (List Value)
  | .list items => some items
  | .text s => some (s.toList.map fun c => .text (String.ofList [c]))
  | .map entries => some (entries.map (·.1))
  | _ => none

/-- Whether a value can be looked up in a table. -/
def isKey : Value → Bool
  | .list _ | .map _ => false
  | _ => true

/-- Whether a value names an operation. -/
def namesOpcode : Value → Bool
  | .text s => (Opcode.ofName? s).isSome
  | _ => false

/-- Names of operations, at least one, all known. -/
def opcodes (v : Value) : Except Error Unit :=
  match v with
  | .null => pure ()
  | _ =>
    if !v.isTruthy then throw (.configuration .noOpcodes)
    else
      match items? v with
      | none => throw (.fault ⟨.wrongType, Text.quoted v.typeName ++ " object is not iterable"⟩)
      | some items =>
        match items.find? fun item => !isKey item with
        | some item => throw (.fault ⟨.wrongType, "unhashable type: " ++ Text.quoted item.typeName⟩)
        | none =>
          let unknown := items.filter fun item => !namesOpcode item
          if unknown.isEmpty then pure () else throw (.ofConfiguration (.unknownOpcodes unknown))

/-- A count that may be open. -/
def count (field : String) (v : Value) : Except Error Unit :=
  match v with
  | .null => pure ()
  | _ => atLeast field 1 v

/-- Enough registers for the actions, when both counts are known. -/
def room (registers actions : Value) : Except Error Unit :=
  match registers, actions with
  | .int r, .int a => if r < a then throw (.ofConfiguration (.tooFewRegisters r a)) else pure ()
  | _, _ => pure ()

end Check

/-! ## Program settings -/

namespace ProgramSettings

/-- Accepts settings for which programs can be built. -/
def validate (p : ProgramSettings) : Except Error Unit := do
  Check.atLeast "max_instructions" 1 p.maxInstructions
  Check.count "register_count" p.registerCount
  Check.count "input_count" p.inputCount
  Check.count "action_count" p.actionCount
  Check.room p.registerCount p.actionCount
  Check.fraction "constant_probability" p.constantProbability
  Check.fraction "external_probability" p.externalProbability
  Check.positive p.constantRange
  Check.oneOf "branch_policy" (BranchPolicy.all.map BranchPolicy.name) p.branchPolicy
  Check.opcodes p.opcodes

/-- Whether all three counts are known. -/
def isBound (p : ProgramSettings) : Bool :=
  [p.registerCount, p.inputCount, p.actionCount].all fun v => match v with | .null => false | _ => true

/-- Whether a count says the same as an integer. -/
def agrees (v : Value) (n : Int) : Bool :=
  match v with
  | .int m => m == n
  | .bool b => (if b then 1 else 0) == n
  | .float x =>
    match Decimal.Shape.ofFloat x with
    | .finite d => d.floor == n && d.ceil == n
    | _ => false
  | _ => false

/-- One more than a count. -/
def successor : Value → Value
  | .int n => .int (n + 1)
  | .bool b => .int (if b then 2 else 1)
  | .float x => .float (x + 1.0)
  | v => v

/-- The value, or another one in the place of null. -/
def orElse (v : Value) (other : Value) : Value :=
  match v with
  | .null => other
  | _ => v

/--
The settings with open counts taken from a task: its inputs, its actions, and one register more than actions. Counts
that are given have to agree with the task.
-/
def bind (p : ProgramSettings) (inputs actions : Int) : Except Error ProgramSettings := do
  let inputCount := orElse p.inputCount (.int inputs)
  let actionCount := orElse p.actionCount (.int actions)
  if !agrees inputCount inputs then throw (.ofConfiguration (.countMismatch "input_count" inputCount inputs))
  if !agrees actionCount actions then throw (.ofConfiguration (.countMismatch "action_count" actionCount actions))
  let bound : ProgramSettings :=
    { p with
      registerCount := orElse p.registerCount (successor actionCount)
      inputCount := inputCount
      actionCount := actionCount }
  bound.validate
  return bound

end ProgramSettings

/-! ## Typed forms -/

namespace Value

/-- An integer; a switch counts as the number it stands for. -/
def toInteger : Value → Except Fault Int
  | int n => .ok n
  | bool b => .ok (if b then 1 else 0)
  | v => .error ⟨.wrongType, Text.quoted v.typeName ++ " object cannot be interpreted as an integer"⟩

/-- A number that is not written as text. -/
def toReal : Value → Except Fault Float
  | text _ => .error ⟨.wrongType, "must be real number, not str"⟩
  | v => v.toNumber

/-- A count that may be open. -/
def toCount : Value → Except Fault (Option Int)
  | null => .ok none
  | v => v.toInteger.map some

/-- A text. -/
def toName : Value → Except Fault String
  | text s => .ok s
  | v =>
    if Check.isKey v then .error ⟨.missingKey, v.display⟩
    else .error ⟨.wrongType, "unhashable type: " ++ Text.quoted v.typeName⟩

/-- Names that may be absent. -/
def toNames : Value → Except Fault (Option (List String))
  | null => .ok none
  | v =>
    match Check.items? v with
    | some items => (items.mapM toName).map some
    | none => .error ⟨.wrongType, Text.quoted v.typeName ++ " object is not iterable"⟩

end Value

/-- The shape that program settings describe. -/
def ProgramSettings.shape (p : ProgramSettings) : Except Fault Shape := do
  return {
    maxInstructions := ← p.maxInstructions.toInteger
    registerCount := ← p.registerCount.toCount
    inputCount := ← p.inputCount.toCount
    actionCount := ← p.actionCount.toCount
    opcodes := ← p.opcodes.toNames
    constantProbability := ← p.constantProbability.toReal
    externalProbability := ← p.externalProbability.toReal
    constantRange := ← p.constantRange.toReal
    branchPolicy := match p.branchPolicy with | .text s => .ofName s | _ => .single }

/-! ## Run settings -/

/-- How a generation is bred. -/
structure Breeding where
  populationSize : Int
  mutations : Float
  crossovers : Float
  crossover : Crossover
  maxMutationEdits : Int

/-- The course of a run. -/
structure Plan where
  breeding : Breeding
  maxGenerations : Int
  gap : Float
  reevaluate : Bool
  /-- The seed, as reports show it. -/
  seed : Value
  workers : Int
  quiet : Bool
  program : ProgramSettings

namespace RunSettings

/-- Accepts settings with which a run can be started. -/
def validate (s : RunSettings) : Except Error Unit := do
  Check.atLeast "population_size" 2 s.populationSize
  Check.atLeast "max_generations" 0 s.maxGenerations
  Check.fraction "gap" s.gap
  match s.gap.toReal with
  | .ok x => if x ≤ 0.0 then throw (.configuration .nothingSurvives)
  | .error f => throw (.fault f)
  Check.fraction "n_mutations" s.mutations
  Check.fraction "n_crossovers" s.crossovers
  Check.oneOf "crossover_kind" Crossover.names s.crossoverKind
  Check.atLeast "max_mutation_edits" 1 s.maxMutationEdits
  Check.atLeast "workers" 1 s.workers
  match s.program with
  | .settings p => p.validate
  | .other _ => throw (.configuration .noProgramSettings)

/-- The breeding that run settings describe. -/
def breeding (s : RunSettings) : Except Fault Breeding := do
  return {
    populationSize := ← s.populationSize.toInteger
    mutations := ← s.mutations.toReal
    crossovers := ← s.crossovers.toReal
    crossover := Crossover.ofValue s.crossoverKind
    maxMutationEdits := ← s.maxMutationEdits.toInteger }

/-- The settings of the programs of a run. -/
def programSettings (s : RunSettings) : Except Error ProgramSettings :=
  match s.program with
  | .settings p => .ok p
  | .other _ => .error (.configuration .noProgramSettings)

/-- The course of a run that settings describe. -/
def plan (s : RunSettings) : Except Error Plan := do
  let program ← s.programSettings
  let typed : Except Fault Plan := do
    return {
      breeding := ← s.breeding
      maxGenerations := ← s.maxGenerations.toInteger
      gap := ← s.gap.toReal
      reevaluate := s.reevaluate.isTruthy
      seed := s.seed
      workers := ← s.workers.toInteger
      quiet := s.quiet.isTruthy
      program := program }
  match typed with
  | .ok p => return p
  | .error f => throw (.fault f)

end RunSettings

end RegisterEvolution
