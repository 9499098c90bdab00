import RegisterEvolution.Digest
import RegisterEvolution.Machine.Instruction
import RegisterEvolution.Text.Shorten

/-!
# `Program.Fingerprint` — the texts of instruction sequences

* `serialize` — the compact JSON text, which determines the instructions, unless an index is too long to be written;
* `fingerprint` — the digest of that text;
* `listing` — the readable text, cut to a width.
-/

namespace RegisterEvolution

/-- A name as a JSON text. -/
def jsonName (s : String) : String := "\"" ++ s ++ "\""

/-- A constant as JSON. -/
def jsonConstant : Option Float → String
  | none => "null"
  | some c => Decimal.Layout.json.write c

/-- Items between JSON brackets, without blanks. -/
def jsonList (items : List String) : String := "[" ++ ",".intercalate items ++ "]"

namespace Instruction

/-- An instruction as a JSON array of its five fields. -/
def serialize (i : Instruction) : Except Fault String := do
  let destination ← indexText i.destination
  let source ← indexText i.source
  return jsonList [jsonName i.opcode, destination, source, jsonName i.mode.name, jsonConstant i.constant]

end Instruction

/-- An instruction sequence as a JSON array. -/
def serialize (code : List Instruction) : Except Fault String := do
  return jsonList (← code.mapM Instruction.serialize)

/-- The digest of an instruction sequence. -/
def fingerprint (code : List Instruction) : Except Fault String := do
  return Digest.hex (← serialize code).toUTF8.toList

/-- The instructions one after the other, cut to at most `width` characters. -/
def listing (code : List Instruction) (width : Int) : Except Fault String := do
  let texts ← code.mapM Instruction.text
  match Text.shorten? width ("; ".intercalate texts) with
  | some s => return s
  | none => throw ⟨.badValue, "placeholder too large for max width"⟩

end RegisterEvolution
