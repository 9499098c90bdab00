import RegisterEvolution.Machine.Vector
import RegisterEvolution.Settings.Basic

/-!
# `Settings.Coercion` — supplied values turned into the types of fields

A source may supply a value in another type than the field's: the environment knows only text, and files write whole
numbers where fractions are meant. `coerce` converts where that is possible. Null stays null, and for an optional
field so do the texts that stand for it.
-/

namespace RegisterEvolution

namespace FieldType

/-- The name of a type in messages. -/
def name : FieldType → String
  | integer => "int"
  | real => "float"
  | switch => "bool"
  | text => "str"
  | texts => "tuple"
  | group => "ProgramParams"

end FieldType

/-- The words for a switch that is on. -/
def onWords : List String := ["1", "true", "yes", "on", "y"]

/-- The words for a switch that is off. -/
def offWords : List String := ["0", "false", "no", "off", "n"]

/-- The words for an absent value. -/
def absentWords : List String := ["", "none", "null"]

/-- The position of a switch that a text asks for; unknown words switch it on, unless there are none. -/
def readSwitch (s : String) : Bool :=
  let word := Text.lower (Text.strip s)
  if onWords.contains word then true
  else if offWords.contains word then false
  else word != ""

/-- The parts of a text between commas, without white space around them; empty parts are left out. -/
def commaSeparated (s : String) : List String :=
  ((splitOn ',' s.toList).map fun part => String.ofList (Text.trimBy Text.isBlank part)).filter (· != "")
where
  /-- The parts of `cs` between separators. -/
  splitOn (separator : Char) : List Char → List (List Char)
    | [] => [[]]
    | c :: rest =>
      match splitOn separator rest with
      | [] => [[c]]
      | part :: parts => if c = separator then [] :: part :: parts else (c :: part) :: parts

namespace Coercion

/-- The error of a value that has no counterpart in a type. -/
def refuse (type : FieldType) (v : Value) : Except Error Value :=
  throw (.ofConfiguration (.notConvertible v type.name))

/-- An integer: text is read, fractions are cut off. -/
def toInteger (v : Value) : Except Error Value :=
  match v with
  | .int _ => .ok v
  | .bool b => .ok (.int (if b then 1 else 0))
  | .text s =>
    match Decimal.readInt? s with
    | some n => .ok (.int n)
    | none => refuse .integer v
  | .float x =>
    match Decimal.Shape.ofFloat x with
    | .finite d => .ok (.int d.truncate)
    | .infinite _ => throw (.fault ⟨.overflow, "cannot convert float infinity to integer"⟩)
    | .notANumber => refuse .integer v
  | _ => refuse .integer v

/-- A number: text is read. -/
def toReal (v : Value) : Except Error Value :=
  match v.toNumber with
  | .ok x => .ok (.float x)
  | .error f => if f.kind = .overflow then throw (.fault f) else refuse .real v

/-- A switch: text is read as a word, everything else counts as on unless it is empty or zero. -/
def toSwitch (v : Value) : Value :=
  match v with
  | .text s => .bool (readSwitch s)
  | _ => .bool v.isTruthy

/-- A list of texts: text is split at commas, everything else is taken as it is. -/
def toTexts (v : Value) : Value :=
  match v with
  | .text s => .list ((commaSeparated s).map .text)
  | _ => v

/-- Whether a value stands for an absent one. -/
def isAbsent (isOptional : Bool) : Value → Bool
  | .null => true
  | .text s => isOptional && absentWords.contains (Text.lower (Text.strip s))
  | _ => false

end Coercion

/-- The value of a field that `v` stands for. -/
def Field.coerce (field : Field) (v : Value) : Except Error Value :=
  if Coercion.isAbsent field.isOptional v then .ok .null
  else
    match field.type with
    | .integer => Coercion.toInteger v
    | .real => Coercion.toReal v
    | .switch => .ok (Coercion.toSwitch v)
    | .text => if v.isWritable then .ok (.text v.plain) else Coercion.refuse .text v
    | .texts => .ok (Coercion.toTexts v)
    | .group => .ok v

end RegisterEvolution
