import RegisterEvolution.Entries
import RegisterEvolution.Settings.Check
import RegisterEvolution.Settings.Coercion

/-!
# `Settings.Layer` — settings layered from a file, the environment and overrides

Three sources may supply a field: a file, the environment, and explicit overrides. A later source wins over an earlier
one, but every value that is supplied has to fit its field.

* `layered` — the fields that the sources supply;
* `RunSettings.load` — checked settings out of the three sources.
-/

namespace RegisterEvolution

/-- The variables of the environment with their texts. -/
abbrev Variables := Entries String String

/-- The field of a given name. -/
def fieldNamed? (fields : List Field) (name : String) : Option Field := fields.find? fun f => f.name == name

/-- What follows `lead` in `cs`, if `cs` begins with it. -/
def after? (lead cs : List Char) : Option (List Char) :=
  if lead.isPrefixOf cs then some (cs.drop lead.length) else none

/--
The field that a variable sets: its name begins with `lead`, and what follows is the name of the field in any case.
-/
def fieldOfVariable? (lead : String) (fields : List Field) (key : String) : Option Field := do
  let rest ← after? lead.toList key.toList
  fieldNamed? fields (Text.lower (String.ofList rest))

/-- The fields that the environment supplies; of several variables for a field the last one counts. -/
def ofEnvironment (lead : String) (fields : List Field) (environment : Variables) : Entries String Value :=
  Entries.ofPairs <| environment.filterMap fun (key, text) =>
    (fieldOfVariable? lead fields key).map fun f => (f.name, Value.text text)

/-- The entries of a mapping under texts. -/
def namedEntries (entries : List (Value × Value)) : Entries String Value :=
  entries.filterMap fun (key, v) =>
    match key with
    | .text name => some (name, v)
    | _ => none

/-- Lays one supplied value over those of `below`. Unknown names and mappings are passed over. -/
def layOver (fields : List Field) (below : Entries String Value) (supplied : String × Value) :
    Except Error (Entries String Value) :=
  match fieldNamed? fields supplied.1 with
  | none => .ok below
  | some field =>
    if supplied.2.isMap then .ok below
    else do
      let v ← field.coerce supplied.2
      return below.put field.name v

/-- The values that three sources supply for `fields`. -/
def layered (fields : List Field) (lead : String) (file : Entries String Value) (environment : Variables)
    (overrides : Entries String Value) : Except Error (Entries String Value) :=
  (file ++ ofEnvironment lead fields environment ++ overrides).foldlM (layOver fields) []

namespace Value

/-- A pair out of a collection of two items. -/
def toPair (v : Value) : Except Fault (Value × Value) :=
  match Check.items? v with
  | some [key, value] =>
    if Check.isKey key then .ok (key, value)
    else .error ⟨.wrongType, "unhashable type: " ++ Text.quoted key.typeName⟩
  | some _ => .error ⟨.badValue, "an entry is a pair of a key and a value"⟩
  | none => .error ⟨.wrongType, "an entry is a pair of a key and a value"⟩

/-- The entries of a mapping or of a list of pairs; a value that is switched off has none. -/
def toEntries (v : Value) : Except Fault (List (Value × Value)) :=
  if !v.isTruthy then .ok []
  else
    match v with
    | map entries => .ok entries
    | _ =>
      match Check.items? v with
      | some items => (items.mapM toPair).map Entries.ofPairs
      | none => .error ⟨.wrongType, Text.quoted v.typeName ++ " object is not iterable"⟩

/-- The entries under texts of a value, as overrides. -/
def toOverrides (v : Value) : Except Error (Entries String Value) :=
  match v.toEntries with
  | .ok entries => .ok (namedEntries entries)
  | .error f => .error (.fault f)

end Value

/-- What the beginning of variables is unless stated otherwise. -/
def defaultLead : String := "LGP_"

/-- The beginning of the variables for program settings. -/
def programLead (lead : String) : String := lead ++ "PROGRAM_"

/-- The part of a file for run settings: the section of that name, or else the whole file. -/
def runSection (file : List (Value × Value)) : List (Value × Value) :=
  match Value.lookup? file "evolution" with
  | some (.map entries) => entries
  | _ => file

/-- The part of a file for program settings. -/
def programSection (file : List (Value × Value)) : List (Value × Value) :=
  match Value.lookup? file "program" with
  | some (.map entries) => entries
  | _ => []

/-- The content of a file, which has to be a mapping. -/
def fileEntries (file : Value) : Except Error (List (Value × Value)) :=
  match file with
  | .map entries => .ok entries
  | v => .error (.fault ⟨.noAttribute, Text.quoted v.typeName ++ " object has no attribute 'get'"⟩)

/-- Checked settings out of the content of a file, the environment and overrides. -/
def RunSettings.load (file : Value) (lead : String) (environment : Variables) (overrides : Value) :
    Except Error RunSettings := do
  let content ← fileEntries file
  let explicit ← overrides.toOverrides
  let run ← layered RunSettings.fields lead (namedEntries (runSection content)) environment
    (explicit.filter fun (name, _) => name != "program")
  let programExplicit ← ((explicit.get? "program").getD .null).toOverrides
  let program ← layered ProgramSettings.fields (programLead lead) (namedEntries (programSection content)) environment
    programExplicit
  let settings : RunSettings :=
    { RunSettings.ofEntries run with program := .settings (ProgramSettings.ofEntries program) }
  settings.validate
  return settings

end RegisterEvolution
