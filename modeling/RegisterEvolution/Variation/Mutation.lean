import RegisterEvolution.Variation.Random

/-!
# `Variation.Mutation` — random edits of instruction sequences

A mutation makes a random number of edits, each one of five kinds. An edit that would leave the length limits is not
on offer.

* `Edit` and `Edit.run` — the five kinds of edit;
* `Edit.offers` — the kinds that a sequence can undergo;
* `mutateCode` — a mutation.
-/

namespace RegisterEvolution

/-- The kinds of edit. -/
inductive Edit where
  | replace
  | changeOpcode
  | changeOperand
  | insert
  | delete
  deriving Repr, DecidableEq

namespace Edit

/-- The name of a kind of edit. -/
def name : Edit → String
  | replace => "replace"
  | changeOpcode => "change_opcode"
  | changeOperand => "change_operand"
  | insert => "insert"
  | delete => "delete"

/-- Every kind of edit. -/
def all : List Edit := [replace, changeOpcode, changeOperand, insert, delete]

/-- The kind of edit of a given name. -/
def ofName? (s : String) : Option Edit := all.find? fun e => e.name == s

/-- The kinds of edit that keep a sequence of the given length within its limits. -/
def offers (s : Shape) (length : Nat) : List Edit :=
  [replace, changeOpcode, changeOperand] ++ (if (length : Int) < s.maxInstructions then [insert] else []) ++
    (if 1 < length then [delete] else [])

variable {γ : Type} [Generator γ]

/-- A position in a sequence together with the instruction there. -/
def pick (code : List Instruction) : Draw γ (Nat × Instruction) := do
  let i ← Draw.index code.length
  match code[i]? with
  | some instruction => return (i, instruction)
  | none => throw (.fault Fault.indexOutOfRange)

/-- Puts a random instruction before a random position or at the end. -/
def runInsert (s : Shape) (code : List Instruction) : Draw γ (List Instruction) := do
  let i ← Draw.index (code.length + 1)
  let instruction ← randomInstruction s
  return code.insertIdx i instruction

/-- Takes a random instruction out, unless it is the only one. -/
def runDelete (code : List Instruction) : Draw γ (List Instruction) := do
  if code.length ≤ 1 then return code
  else
    let i ← Draw.index code.length
    return code.eraseIdx i

/-- Puts a random instruction in the place of a random one. -/
def runReplace (s : Shape) (code : List Instruction) : Draw γ (List Instruction) := do
  let i ← Draw.index code.length
  let instruction ← randomInstruction s
  return code.set i instruction

/-- The other operations of the same kind that the shape allows. -/
def alternatives (s : Shape) (old : Instruction) : Except Fault (List String) := do
  let op ← old.operation
  let names ← s.opcodesOf (some op.kind)
  return names.filter (· != old.opcode)

/-- Exchanges the operation of a random instruction for another one of its kind, if there is one. -/
def runChangeOpcode (s : Shape) (code : List Instruction) : Draw γ (List Instruction) := do
  let (i, old) ← pick code
  match alternatives s old with
  | .error f => throw (.fault f)
  | .ok [] => return code
  | .ok names => do
    let name ← Draw.element names
    return code.set i { old with opcode := name }

/-- Draws the destination or the operand of a random instruction anew. -/
def runChangeOperand (s : Shape) (code : List Instruction) : Draw γ (List Instruction) := do
  let (i, old) ← pick code
  if (← Draw.fraction) < 0.5 then
    let kind ← kindOf old.opcode
    let destination ← randomDestination s kind
    return code.set i { old with destination := destination }
  else
    let operand ← randomOperand s
    return code.set i (old.withOperand operand)

/-- Makes one edit. -/
def run (s : Shape) (code : List Instruction) : Edit → Draw γ (List Instruction)
  | replace => runReplace s code
  | changeOpcode => runChangeOpcode s code
  | changeOperand => runChangeOperand s code
  | insert => runInsert s code
  | delete => runDelete code

/-- Makes a random edit of those on offer. -/
def random (s : Shape) (code : List Instruction) : Draw γ (List Instruction) := do
  let edit ← Draw.element (offers s code.length)
  edit.run s code

/-- Makes several random edits, one after the other. -/
def randomly (s : Shape) : Nat → List Instruction → Draw γ (List Instruction)
  | 0, code => return code
  | count + 1, code => do
    let edited ← random s code
    randomly s count edited

end Edit

/-- Makes between one and `maxEdits` random edits; at least one, whatever the limit. -/
def mutateCode {γ : Type} [Generator γ] (s : Shape) (maxEdits : Int) (code : List Instruction) :
    Draw γ (List Instruction) := do
  let count ← Draw.integers 1 (max 1 maxEdits + 1)
  Edit.randomly s count.toNat code

end RegisterEvolution
