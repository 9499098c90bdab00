import RegisterEvolution.Value

/-!
# `Settings.Basic` — settings as they are supplied

Settings come from files, the environment and explicit overrides, so each field holds a dynamically typed value until
it has been checked. `ProgramSettings` concern the shape of programs, `RunSettings` the course of a run.

Field lists pair every field with its name and type, in a fixed order; reading and writing by name goes through them.
-/

namespace RegisterEvolution

/-- The types that fields of settings have. -/
inductive FieldType where
  | integer
  | real
  | switch
  | text
  /-- A list of texts; the elements are taken as they are. -/
  | texts
  /-- A group of settings of its own. -/
  | group
  deriving Repr, DecidableEq

/-- The name, type and optionality of a field. -/
structure Field where
  name : String
  type : FieldType
  /-- Whether the field may be absent. -/
  isOptional : Bool
  deriving Repr, DecidableEq

/-- Settings for the shape of programs. -/
structure ProgramSettings where
  maxInstructions : Value := .int 32
  registerCount : Value := .null
  inputCount : Value := .null
  actionCount : Value := .null
  opcodes : Value := .null
  constantProbability : Value := .float 0.1
  externalProbability : Value := .float 0.5
  constantRange : Value := .float 10.0
  branchPolicy : Value := .text "single"

namespace ProgramSettings

/-- The fields of program settings. -/
def fields : List Field :=
  [⟨"max_instructions", .integer, false⟩, ⟨"register_count", .integer, true⟩, ⟨"input_count", .integer, true⟩,
   ⟨"action_count", .integer, true⟩, ⟨"opcodes", .texts, true⟩, ⟨"constant_probability", .real, false⟩,
   ⟨"external_probability", .real, false⟩, ⟨"constant_range", .real, false⟩, ⟨"branch_policy", .text, false⟩]

/-- The value of a field by name. -/
def get? (p : ProgramSettings) : String → Option Value
  | "max_instructions" => some p.maxInstructions
  | "register_count" => some p.registerCount
  | "input_count" => some p.inputCount
  | "action_count" => some p.actionCount
  | "opcodes" => some p.opcodes
  | "constant_probability" => some p.constantProbability
  | "external_probability" => some p.externalProbability
  | "constant_range" => some p.constantRange
  | "branch_policy" => some p.branchPolicy
  | _ => none

/-- The settings with a field overwritten; unknown names change nothing. -/
def set (p : ProgramSettings) (name : String) (v : Value) : ProgramSettings :=
  match name with
  | "max_instructions" => { p with maxInstructions := v }
  | "register_count" => { p with registerCount := v }
  | "input_count" => { p with inputCount := v }
  | "action_count" => { p with actionCount := v }
  | "opcodes" => { p with opcodes := v }
  | "constant_probability" => { p with constantProbability := v }
  | "external_probability" => { p with externalProbability := v }
  | "constant_range" => { p with constantRange := v }
  | "branch_policy" => { p with branchPolicy := v }
  | _ => p

/-- The default settings with the given fields overwritten, in order. -/
def ofEntries (entries : List (String × Value)) : ProgramSettings :=
  entries.foldl (fun p (name, v) => p.set name v) {}

/-- Every field with its value. -/
def entries (p : ProgramSettings) : List (String × Value) :=
  fields.filterMap fun f => (p.get? f.name).map fun v => (f.name, v)

end ProgramSettings

/-- What stands in the place of the program settings. -/
inductive ProgramGroup where
  | settings (p : ProgramSettings)
  /-- Something else. -/
  | other (v : Value)

/-- Settings for the course of a run. -/
structure RunSettings where
  populationSize : Value := .int 100
  maxGenerations : Value := .int 100
  /-- The fraction of a ranked population that breeds. -/
  gap : Value := .float 0.5
  /-- The fraction of new programs that are mutated. -/
  mutations : Value := .float 0.5
  /-- The fraction of new programs that are recombined. -/
  crossovers : Value := .float 0.5
  crossoverKind : Value := .text "two_point"
  maxMutationEdits : Value := .int 1
  /-- Whether programs are scored again in every generation. -/
  reevaluate : Value := .bool false
  seed : Value := .int 42
  workers : Value := .int 1
  quiet : Value := .bool false
  program : ProgramGroup := .settings {}

namespace RunSettings

/-- The fields of run settings. -/
def fields : List Field :=
  [⟨"population_size", .integer, false⟩, ⟨"max_generations", .integer, false⟩, ⟨"gap", .real, false⟩,
   ⟨"n_mutations", .real, false⟩, ⟨"n_crossovers", .real, false⟩, ⟨"crossover_kind", .text, false⟩,
   ⟨"max_mutation_edits", .integer, false⟩, ⟨"reevaluate", .switch, false⟩, ⟨"seed", .integer, false⟩,
   ⟨"workers", .integer, false⟩, ⟨"quiet", .switch, false⟩, ⟨"program", .group, false⟩]

/-- The value of a field by name, the program settings apart. -/
def get? (s : RunSettings) : String → Option Value
  | "population_size" => some s.populationSize
  | "max_generations" => some s.maxGenerations
  | "gap" => some s.gap
  | "n_mutations" => some s.mutations
  | "n_crossovers" => some s.crossovers
  | "crossover_kind" => some s.crossoverKind
  | "max_mutation_edits" => some s.maxMutationEdits
  | "reevaluate" => some s.reevaluate
  | "seed" => some s.seed
  | "workers" => some s.workers
  | "quiet" => some s.quiet
  | _ => none

/-- The settings with a field overwritten; unknown names and the program settings are left as they are. -/
def set (s : RunSettings) (name : String) (v : Value) : RunSettings :=
  match name with
  | "population_size" => { s with populationSize := v }
  | "max_generations" => { s with maxGenerations := v }
  | "gap" => { s with gap := v }
  | "n_mutations" => { s with mutations := v }
  | "n_crossovers" => { s with crossovers := v }
  | "crossover_kind" => { s with crossoverKind := v }
  | "max_mutation_edits" => { s with maxMutationEdits := v }
  | "reevaluate" => { s with reevaluate := v }
  | "seed" => { s with seed := v }
  | "workers" => { s with workers := v }
  | "quiet" => { s with quiet := v }
  | _ => s

/-- The default settings with the given fields overwritten, in order. -/
def ofEntries (entries : List (String × Value)) : RunSettings :=
  entries.foldl (fun s (name, v) => s.set name v) {}

/-- Every field with its value, the program settings apart. -/
def entries (s : RunSettings) : List (String × Value) :=
  fields.filterMap fun f => (s.get? f.name).map fun v => (f.name, v)

end RunSettings

end RegisterEvolution
