import RegisterEvolution.Draw.Generator
import RegisterEvolution.Program.Shape

/-!
# `Variation.Random` — random instructions and instruction sequences

* `randomInstruction` — an operation that the shape allows, a destination for its kind, and an operand;
* `randomCode` — between one instruction and as many as the shape allows;
* `GeneratorShaped` — what the instructions drawn here look like.
-/

namespace RegisterEvolution

namespace Shape

/-- The names of the operations that may be used. -/
def opcodeNames (s : Shape) : List String := s.opcodes.getD (Opcode.all.map Opcode.name)

/-- The operation of a given name, which has to be known. -/
def lookUp (name : String) : Except Fault Opcode :=
  match Opcode.ofName? name with
  | some op => .ok op
  | none => .error ⟨.missingKey, name⟩

/-- The names that may be used, of one kind only when it is given; all of them have to be known then. -/
def opcodesOf (s : Shape) (kind : Option OpKind) : Except Fault (List String) :=
  match kind with
  | none => .ok s.opcodeNames
  | some k => s.opcodeNames.filterM fun name => do return (← lookUp name).kind == k

/-- The number of registers that operations of a kind may write, once it is known. -/
def destinationCount (s : Shape) (kind : OpKind) : Option Int :=
  if kind = .action then s.actionCount else s.registerCount

end Shape

/-- The second operand of an instruction. -/
structure Operand where
  source : Int
  mode : OperandMode
  constant : Option Float
  deriving Repr

/-- The instruction with another operand. -/
def Instruction.withOperand (i : Instruction) (o : Operand) : Instruction :=
  { i with source := o.source, mode := o.mode, constant := o.constant }

section Draws

variable {γ : Type} [Generator γ]

/-- A random operand: a constant, or else an input, or else a register. -/
def randomOperand (s : Shape) : Draw γ Operand := do
  if (← Draw.fraction) < s.constantProbability then
    return ⟨0, .constant, some (← Draw.uniform (-s.constantRange) s.constantRange)⟩
  else if (← Draw.fraction) < s.externalProbability then
    return ⟨← Draw.belowKnown s.inputCount, .external, none⟩
  else
    return ⟨← Draw.belowKnown s.registerCount, .internal, none⟩

/-- A random destination for operations of a kind. -/
def randomDestination (s : Shape) (kind : OpKind) : Draw γ Int := Draw.belowKnown (s.destinationCount kind)

/-- The kind of an operation that has to be known. -/
def kindOf (name : String) : Draw γ OpKind :=
  match Shape.lookUp name with
  | .ok op => return op.kind
  | .error f => throw (.fault f)

/-- A random instruction with the operation of the given name. -/
def randomInstructionOf (s : Shape) (name : String) : Draw γ Instruction := do
  let kind ← kindOf name
  let destination ← randomDestination s kind
  let operand ← randomOperand s
  return ⟨name, destination, operand.source, operand.mode, operand.constant⟩

/-- A random instruction. -/
def randomInstruction (s : Shape) : Draw γ Instruction := do
  let name ← Draw.element s.opcodeNames
  randomInstructionOf s name

/-- As many random instructions as asked for. -/
def randomInstructions (s : Shape) : Nat → Draw γ (List Instruction)
  | 0 => return []
  | count + 1 => do
    let i ← randomInstruction s
    let rest ← randomInstructions s count
    return i :: rest

/-- A random instruction sequence. -/
def randomCode (s : Shape) : Draw γ (List Instruction) := do
  let count ← Draw.integers 1 (s.maxInstructions + 1)
  randomInstructions s count.toNat

end Draws

/-- What the operand of a randomly drawn instruction looks like. -/
def GeneratorShapedOperand (s : Shape) (sizes : BankSizes) (i : Instruction) : Prop :=
  match i.mode with
  | .constant => i.source = 0 ∧ ∃ c, i.constant = some c ∧ -s.constantRange ≤ c ∧ c ≤ s.constantRange
  | .external => 0 ≤ i.source ∧ i.source < sizes.inputs ∧ i.constant = none
  | .internal => 0 ≤ i.source ∧ i.source < sizes.registers ∧ i.constant = none
  | .other _ => False

/-- What a randomly drawn instruction looks like. -/
def GeneratorShaped (s : Shape) (sizes : BankSizes) (i : Instruction) : Prop :=
  ∃ op, i.operation? = some op ∧ s.allows i.opcode = true ∧
    0 ≤ i.destination ∧ i.destination < sizes.destinations op.kind ∧ GeneratorShapedOperand s sizes i

end RegisterEvolution
