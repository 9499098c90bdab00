import RegisterEvolution.Machine.Registers

/-!
# `Program.Shape` — the shape that programs have to fit

A shape limits the length of programs, sizes the banks, lists the operations that may be used, and says how constants
and inputs are sampled and what a false branch skips. Bank sizes stay open until the shape is bound to a task.

* `Instruction.flaw?` — the first construction rule that an instruction breaks;
* `Shape.flaw?` — the first construction rule that an instruction sequence breaks.

An instruction is quoted before its rules are looked at, so that none of its indices may be too long for that. No
register and no input is, since these banks are held in memory, and most other indices break a rule anyway. There are
two that do not: the source of a constant, and an action that is not a register.
-/

namespace RegisterEvolution

/-- What a false branch skips. -/
inductive BranchPolicy where
  /-- One instruction. -/
  | single
  /-- One instruction, and when that is a branch also the instruction it guards. -/
  | nested
  deriving Repr, DecidableEq

namespace BranchPolicy

/-- The name of a policy. -/
def name : BranchPolicy → String
  | single => "single"
  | nested => "nested"

/-- The policies in their customary order. -/
def all : List BranchPolicy := [single, nested]

/-- The policy of a given name; any name but that of `nested` stands for `single`. -/
def ofName (s : String) : BranchPolicy := if s = "nested" then nested else single

end BranchPolicy

/-- The shape of programs. -/
structure Shape where
  maxInstructions : Int
  registerCount : Option Int
  inputCount : Option Int
  actionCount : Option Int
  /-- The operations that may be used; every one when absent. -/
  opcodes : Option (List String)
  constantProbability : Float
  externalProbability : Float
  constantRange : Float
  branchPolicy : BranchPolicy
  deriving Repr

/-- The sizes of the banks of a bound shape. -/
structure BankSizes where
  registers : Int
  inputs : Int
  actions : Int
  deriving Repr, DecidableEq

namespace Shape

/-- The sizes of the banks, once all are known. -/
def sizes? (s : Shape) : Option BankSizes :=
  match s.registerCount, s.inputCount, s.actionCount with
  | some registers, some inputs, some actions => some ⟨registers, inputs, actions⟩
  | _, _, _ => none

/-- Whether the shape allows operations of the given name. -/
def allows (s : Shape) (opcode : String) : Bool := s.opcodes.all fun names => names.contains opcode

end Shape

/-- How many registers an operation of the given kind may write. -/
def BankSizes.destinations (sizes : BankSizes) (kind : OpKind) : Int :=
  if kind = .action then sizes.actions else sizes.registers

/-- Whether an index lies in a bank of the given size. -/
def inBank (index size : Int) : Bool := decide (0 ≤ index ∧ index < size)

namespace Instruction

/-- The flaw of the operand of an instruction. -/
def operandFlaw? (sizes : BankSizes) (i : Instruction) : Option InstructionFlaw :=
  match i.mode with
  | .internal => if inBank i.source sizes.registers then none else some (.sourceOutside sizes.registers)
  | .external => if inBank i.source sizes.inputs then none else some (.sourceOutside sizes.inputs)
  | .constant =>
    if i.constant.isNone then some .constantMissing
    else if (Value.int i.source).isWritable then none else some .indexTooLong
  | .other _ => some .unknownMode

/-- The first flaw of an instruction: operation, destination, operand. -/
def flaw? (shape : Shape) (sizes : BankSizes) (i : Instruction) : Option InstructionFlaw :=
  match i.operation? with
  | none => some .opcodeNotAllowed
  | some op =>
    if !shape.allows i.opcode then some .opcodeNotAllowed
    else if !inBank i.destination (sizes.destinations op.kind) then
      some (.destinationOutside (sizes.destinations op.kind))
    else if !inBank i.destination sizes.registers && !(Value.int i.destination).isWritable then some .indexTooLong
    else i.operandFlaw? sizes

end Instruction

namespace Shape

/-- The first flaw in `code`, whose first instruction has the given index. -/
def firstFlaw? (shape : Shape) (sizes : BankSizes) (index : Nat) : List Instruction → Option ProgramFlaw
  | [] => none
  | i :: rest =>
    match i.flaw? shape sizes with
    | some flaw => some (.badInstruction index i flaw)
    | none => firstFlaw? shape sizes (index + 1) rest

/-- The first construction rule that `code` breaks: bound sizes, length, then each instruction. -/
def flaw? (shape : Shape) (code : List Instruction) : Option ProgramFlaw :=
  match shape.sizes? with
  | none => some .unbound
  | some sizes =>
    if 1 ≤ code.length ∧ (code.length : Int) ≤ shape.maxInstructions then shape.firstFlaw? sizes 0 code
    else some (.badLength code.length shape.maxInstructions)

end Shape

end RegisterEvolution
