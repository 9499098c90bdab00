import RegisterEvolution.Machine.Instruction
import RegisterEvolution.Value

/-!
# `Error` — the errors of the library and their messages

The library's own errors come in five families: wrong configuration, a task that cannot score a program, a program
that breaks a construction rule, an observer that reports failure, and data that cannot be loaded. Everything else is
a `Fault`. `Error.message` is the wording.

A message quotes what it is about, and that may not be possible: an integer may be too long, and an error of other code
may fail to give its text. An error with such a message is never made. What arises in its place is the fault of writing
the integer out, as `Error.ofConfiguration` and `Error.ofProgram` say, or what the attempt to quote raises, as
`Error.quote` says.
-/

namespace RegisterEvolution

/-- What is wrong with a configuration. -/
inductive ConfigurationError where
  | notAFraction (field : String) (value : Value)
  | belowMinimum (field : String) (least : Int) (value : Value)
  | nothingSurvives
  | unknownChoice (field : String) (choices : List String) (value : Value)
  | noProgramSettings
  | rangeNotPositive (value : Value)
  | noOpcodes
  | unknownOpcodes (names : List Value)
  | tooFewRegisters (registers actions : Int)
  | countMismatch (field : String) (configured : Value) (required : Int)
  | notConvertible (value : Value) (type : String)
  | unsupportedExtension (extension : String)
  | noSamples
  | countNotPositive (field : String) (value : Int)
  | unevenSamples (widths : List Nat)
  | labelsOutside (labels : List Int) (limit : Int)

/-- Why a task cannot score a program. -/
inductive TaskError where
  | wrongInputCount (expected actual : Nat)
  | raised (task : String) (program : Nat) (cause : String)
  | notANumber (program : Nat) (fitness : Value)
  | notFinite (program : Nat) (fitness : Float)
  | refused (reason : String)

/-- The construction rule that an instruction breaks. -/
inductive InstructionFlaw where
  | opcodeNotAllowed
  | destinationOutside (limit : Int)
  | sourceOutside (limit : Int)
  | constantMissing
  | unknownMode
  /-- An index that no bank in memory can hold is too long to be quoted with the instruction. -/
  | indexTooLong

/-- The construction rule that a program breaks. -/
inductive ProgramFlaw where
  | unbound
  | badLength (length : Nat) (limit : Int)
  | badInstruction (index : Nat) (instruction : Instruction) (flaw : InstructionFlaw)

/-- Why samples cannot be loaded from a file. -/
inductive LoadError where
  | missingFile (file : String)
  | noSamples (file : String)
  | tooFewColumns (file : String)
  | notNumeric (file : String)
  | unknownLabels (labels names : List String)
  | negativeLabel

mutual

/-- How an observer failed: what it raised is the cause of the failure, and is quoted in the wording of it. -/
inductive ObserverError where
  | raised (observer event quote : String) (cause : Error)
  | reported (observer event : String)

/-- Everything that can go wrong. -/
inductive Error where
  | configuration (e : ConfigurationError)
  | task (e : TaskError)
  | program (id : Nat) (flaw : ProgramFlaw)
  | observer (e : ObserverError)
  | load (e : LoadError)
  | unknownCrossover (kind : Value)
  | fault (f : Fault)
  /-- An error of other code that cannot be quoted: the attempt raises `failure`. -/
  | unquotable (error failure : Error)

end

namespace ConfigurationError

/-- The wording of a configuration error. -/
def message : ConfigurationError → String
  | notAFraction field value => field ++ " must be within [0, 1], got " ++ value.display
  | belowMinimum field least value =>
    field ++ " must be an integer >= " ++ toString least ++ ", got " ++ value.display
  | nothingSurvives => "gap must be > 0 so at least one program survives"
  | unknownChoice field choices value =>
    field ++ " must be one of " ++ displayChoices choices ++ ", got " ++ value.display
  | noProgramSettings => "program must be a ProgramParams instance"
  | rangeNotPositive value => "constant_range must be > 0, got " ++ value.display
  | noOpcodes => "opcodes must name at least one opcode"
  | unknownOpcodes names => "unknown opcodes: " ++ (Value.list names).display
  | tooFewRegisters registers actions =>
    "register_count=" ++ toString registers ++ " cannot hold " ++ toString actions ++ " action registers"
  | countMismatch field configured required =>
    field ++ "=" ++ configured.plain ++ " does not match task " ++ field ++ "=" ++ toString required
  | notConvertible value type => "cannot convert " ++ value.display ++ " to " ++ type
  | unsupportedExtension extension => "Unsupported config extension: " ++ extension
  | noSamples => "ClassificationTask needs at least one sample"
  | countNotPositive field value => field ++ " must be >= 1, got " ++ toString value
  | unevenSamples widths =>
    "samples have differing feature counts: " ++ (Value.list (widths.map fun w : Nat => .int w)).display
  | labelsOutside labels limit =>
    "labels " ++ (Value.list (labels.map .int)).display ++ " outside [0, " ++ toString limit ++ ")"

/-- The values that the message quotes. -/
def quoted : ConfigurationError → List Value
  | notAFraction _ value | belowMinimum _ _ value | unknownChoice _ _ value | rangeNotPositive value
  | notConvertible value _ => [value]
  | unknownOpcodes names => names
  | tooFewRegisters registers actions => [.int registers, .int actions]
  | countMismatch _ configured required => [configured, .int required]
  | countNotPositive _ value => [.int value]
  | unevenSamples widths => widths.map fun w : Nat => .int w
  | labelsOutside labels limit => .int limit :: labels.map .int
  | nothingSurvives | noProgramSettings | noOpcodes | unsupportedExtension _ | noSamples => []

end ConfigurationError

namespace TaskError

/-- The wording of a task error. -/
def message : TaskError → String
  | wrongInputCount expected actual => "expected " ++ toString expected ++ " inputs, got " ++ toString actual
  | raised task program cause => "task " ++ task ++ " failed on program " ++ toString program ++ ": " ++ cause
  | notANumber program fitness =>
    "program " ++ toString program ++ ": fitness " ++ fitness.display ++ " is not a number"
  | notFinite program fitness =>
    "program " ++ toString program ++ ": non-finite fitness " ++ floatText fitness
  | refused reason => reason

end TaskError

namespace InstructionFlaw

/-- The wording of the rule that an instruction breaks. -/
def message : InstructionFlaw → String
  | opcodeNotAllowed => "opcode not allowed"
  | destinationOutside limit => "destination outside [0, " ++ toString limit ++ ")"
  | sourceOutside limit => "source outside [0, " ++ toString limit ++ ")"
  | constantMissing => "constant operand missing"
  | unknownMode => "unknown operand mode"
  | indexTooLong => "index too long"

/-- The values that the message quotes. -/
def quoted : InstructionFlaw → List Value
  | destinationOutside limit | sourceOutside limit => [.int limit]
  | opcodeNotAllowed | constantMissing | unknownMode | indexTooLong => []

end InstructionFlaw

namespace ProgramFlaw

/-- The wording of what is wrong with the program numbered `id`. -/
def message (id : Nat) : ProgramFlaw → String
  | unbound => "program " ++ toString id ++ ": parameters are not bound to a task"
  | badLength length limit =>
    "program " ++ toString id ++ ": " ++ toString length ++ " instructions outside [1, " ++ toString limit ++ "]"
  | badInstruction index instruction flaw =>
    "program " ++ toString id ++ ", instruction " ++ toString index ++ " (" ++ instruction.display ++ "): " ++
      flaw.message

/-- The values that the message quotes. -/
def quoted : ProgramFlaw → List Value
  | unbound => []
  | badLength _ limit => [.int limit]
  | badInstruction _ instruction flaw => .int instruction.destination :: .int instruction.source :: flaw.quoted

end ProgramFlaw

namespace LoadError

/-- The wording of a loading error. -/
def message : LoadError → String
  | missingFile file => "sample file not found: " ++ file
  | noSamples file => "no samples in " ++ file
  | tooFewColumns file => file ++ ": need at least one feature column and a label column"
  | notNumeric file => file ++ ": non-numeric feature value"
  | unknownLabels labels names =>
    "labels " ++ displayTexts labels ++ " not in class_names " ++ displayTexts names
  | negativeLabel => "integer labels must be non-negative"

end LoadError

/-- The wording of an observer's failure. -/
def ObserverError.message : ObserverError → String
  | raised observer event quote _ => "observer " ++ observer ++ " raised in " ++ event ++ ": " ++ quote
  | reported observer event => "observer " ++ observer ++ " reported failure in " ++ event

namespace Error

/-- The name under which an error is reported. -/
def name : Error → String
  | configuration _ => "ConfigurationError"
  | task _ => "TaskError"
  | program _ _ => "InvariantViolation"
  | observer _ => "HookError"
  | load _ => "DataLoadError"
  | unknownCrossover _ => FaultKind.badValue.name
  | fault f => f.kind.name
  | unquotable error _ => error.name

/-- The wording of an error. -/
def message : Error → String
  | configuration e => e.message
  | task e => e.message
  | program id flaw => flaw.message id
  | observer e => e.message
  | load e => e.message
  | unknownCrossover kind => "unknown crossover kind: " ++ kind.display
  | fault f => f.detail
  | unquotable error _ => error.message

/-- Whether an error belongs to one of the library's own families. -/
def isOwn : Error → Bool
  | unknownCrossover _ | fault _ => false
  | unquotable error _ => error.isOwn
  | _ => true

/-- The error of a wrong configuration, or the fault of quoting an integer that is too long for its message. -/
def ofConfiguration (e : ConfigurationError) : Error :=
  if Value.areWritable e.quoted then configuration e else fault Fault.integerTooLong

/-- The error of a program that breaks a construction rule, or the fault of quoting an integer that is too long. -/
def ofProgram (id : Nat) (flaw : ProgramFlaw) : Error :=
  if Value.areWritable flaw.quoted then program id flaw else fault Fault.integerTooLong

/-- An error as messages quote it: its name, with its wording in quotation marks. -/
def describe (e : Error) : String := e.name ++ "(" ++ Text.quoted e.message ++ ")"

/-- An error as messages quote it, or what the attempt to quote it raises. -/
def quote : Error → Except Error String
  | unquotable _ failure => .error failure
  | e => .ok e.describe

end Error

end RegisterEvolution
