import RegisterEvolution.Text.Quoted

/-!
# `Fault` — failures that are not the library's own

Besides its own errors, the library meets failures of a general nature: a value of the wrong type, a missing key, a
file that cannot be parsed, an exception raised by a task or an observer. Each has a kind and a text.
-/

namespace RegisterEvolution

/-- The kinds of general failure. -/
inductive FaultKind where
  | wrongType
  | badValue
  | overflow
  | missingKey
  | badIndex
  | noAttribute
  | failure
  | missingFile
  | tomlText
  | yamlToken
  | yamlStructure
  | yamlReference
  | yamlKey
  | tableRow
  | tableEmpty
  deriving Repr, DecidableEq

/-- The name under which a kind of failure is reported. -/
def FaultKind.name : FaultKind → String
  | wrongType => "TypeError"
  | badValue => "ValueError"
  | overflow => "OverflowError"
  | missingKey => "KeyError"
  | badIndex => "IndexError"
  | noAttribute => "AttributeError"
  | failure => "RuntimeError"
  | missingFile => "FileNotFoundError"
  | tomlText => "TOMLDecodeError"
  | yamlToken => "ScannerError"
  | yamlStructure => "ParserError"
  | yamlReference => "ComposerError"
  | yamlKey => "ConstructorError"
  | tableRow => "ParserError"
  | tableEmpty => "EmptyDataError"

/-- A general failure. -/
structure Fault where
  kind : FaultKind
  detail : String := ""
  deriving Repr, DecidableEq

namespace Fault

/-- A value that was expected to be a number is of the type `type`. -/
def notANumber (type : String) : Fault :=
  ⟨.wrongType, "float() argument must be a string or a real number, not " ++ Text.quoted type⟩

/-- An integer has no floating-point neighbour. -/
def integerTooLarge : Fault := ⟨.overflow, "int too large to convert to float"⟩

/-- An integer has too many digits to be written out. -/
def integerTooLong : Fault :=
  ⟨.badValue, "Exceeds the limit (4300 digits) for integer string conversion"⟩

/-- A position lies outside a list. -/
def indexOutOfRange : Fault := ⟨.badIndex, "list index out of range"⟩

end Fault

end RegisterEvolution
