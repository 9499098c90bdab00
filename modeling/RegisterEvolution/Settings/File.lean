import RegisterEvolution.Format.Toml.Text
import RegisterEvolution.Format.Yaml.Node
import RegisterEvolution.Settings.Layer

/-!
# `Settings.File` — settings files

The extension of its name says in which format a settings file is written.

* `extension` — the extension of a file name;
* `readSettingsFile` — the content of a file.
-/

namespace RegisterEvolution

/-- The formats of settings files. -/
inductive FileFormat where
  | toml
  | yaml
  deriving Repr, DecidableEq

/-- The format that an extension in lower case stands for. -/
def FileFormat.ofExtension? (extension : String) : Option FileFormat :=
  if [".toml", ".tml"].contains extension then some .toml
  else if [".yaml", ".yml"].contains extension then some .yaml
  else none

/-- The part of a path after its last separator. -/
def baseName (path : List Char) : List Char := (path.reverse.takeWhile (· ≠ '/')).reverse

/--
The extension of the file at a path, from its last dot on. Dots at the beginning of a name do not begin an extension.
-/
def extension (path : String) : String :=
  let name := (baseName path.toList).dropWhile (· = '.')
  let tail := name.reverse.takeWhile (· ≠ '.')
  String.ofList (if tail.length < name.length then '.' :: tail.reverse else [])

/-- The content of a settings file of the given name, whose text is absent when there is no such file. -/
def readSettingsFile (name : String) (text : Option String) : Except Error Value :=
  let found := Text.lower (extension name)
  match FileFormat.ofExtension? found, text with
  | none, _ => throw (.configuration (.unsupportedExtension found))
  | some _, none => throw (.fault ⟨.missingFile, name⟩)
  | some .toml, some s =>
    match readToml? s with
    | some v => .ok v
    | none => throw (.fault ⟨.tomlText, name⟩)
  | some .yaml, some s =>
    match readYaml s with
    | .ok v => .ok v
    | .error kind => throw (.fault ⟨kind, name⟩)

end RegisterEvolution
