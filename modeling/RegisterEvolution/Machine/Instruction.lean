import RegisterEvolution.Machine.Opcode
import RegisterEvolution.Value

/-!
# `Machine.Instruction` — instructions and their text

An instruction names an operation, the register that is both its first operand and its destination, and where the
second operand comes from. The operation is kept by name: whether a name is known is checked when a program is built.

* `Instruction.text` — the form in program listings;
* `Instruction.display` — the form in messages, with every field.

An index of too many digits has no text. In messages that is seen to before they are written.
-/

namespace RegisterEvolution

/-- Where the second operand of an instruction comes from. -/
inductive OperandMode where
  | internal
  | external
  | constant
  | other (name : String)
  deriving Repr, DecidableEq

namespace OperandMode

/-- The mode of a given name. -/
def ofName (s : String) : OperandMode :=
  if s = "internal" then internal
  else if s = "external" then external
  else if s = "constant" then constant
  else other s

/-- The name of a mode. -/
def name : OperandMode → String
  | internal => "internal"
  | external => "external"
  | constant => "constant"
  | other s => s

/-- The known modes in their customary order. -/
def all : List OperandMode := [internal, external, constant]

end OperandMode

/-- One operation on registers. -/
structure Instruction where
  opcode : String
  destination : Int
  source : Int
  mode : OperandMode
  constant : Option Float
  deriving Repr, BEq

namespace Instruction

/-- The operation that the instruction names. -/
def operation? (i : Instruction) : Option Opcode := Opcode.ofName? i.opcode

/-- The fault of using an instruction whose operation is unknown. -/
def unknownOpcode (i : Instruction) : Fault := ⟨.missingKey, i.opcode⟩

/-- The operation that the instruction names, or a fault. -/
def operation (i : Instruction) : Except Fault Opcode :=
  match i.operation? with
  | some op => .ok op
  | none => .error i.unknownOpcode

/-- Whether the instruction is a branch; an unknown operation is none. -/
def isBranch (i : Instruction) : Bool := i.operation?.any Opcode.isBranch

/-- An index as text, unless it is too long. -/
def indexText (n : Int) : Except Fault String :=
  if (Value.int n).isWritable then .ok (toString n) else .error Fault.integerTooLong

/-- A place of a bank by the name of the bank and its number. -/
def placeText (bank : String) (n : Int) : Except Fault String := do return bank ++ "[" ++ (← indexText n) ++ "]"

/-- The second operand in program listings. A missing constant has no text. -/
def operandText (i : Instruction) : Except Fault String :=
  match i.mode with
  | .internal => placeText "r" i.source
  | .external => placeText "x" i.source
  | _ =>
    match i.constant with
    | some c => .ok (Decimal.general 6 c)
    | none => .error ⟨.wrongType, "unsupported format string passed to NoneType.__format__"⟩

/-- The instruction in program listings. -/
def text (i : Instruction) : Except Fault String := do
  let op ← i.operation
  let destination ← placeText "r" i.destination
  let operand ← i.operandText
  let call := i.opcode ++ "(" ++ destination ++ ", " ++ operand ++ ")"
  return if op.isBranch then call else destination ++ " = " ++ call

/-- A constant in messages. -/
def displayConstant : Option Float → String
  | none => "None"
  | some c => floatText c

/-- The instruction in messages. -/
def display (i : Instruction) : String :=
  "Instruction(opcode=" ++ Text.quoted i.opcode ++ ", dst=" ++ toString i.destination ++ ", src=" ++
    toString i.source ++ ", mode=" ++ Text.quoted i.mode.name ++ ", constant=" ++ displayConstant i.constant ++ ")"

end Instruction

end RegisterEvolution
