import RegisterEvolution.Program.Shape

/-!
# `Program.Execution` — running instruction sequences

Instructions run in order. A branch whose condition fails skips what follows it, as far as the branch policy says.

* `runFrom` — the machine's loop, which counts the instructions still to be skipped;
* `Structured.run` — the same meaning by recursion on the rest of the program.
-/

namespace RegisterEvolution

namespace Instruction

/-- The second operand; a constant may be missing. -/
def operand (i : Instruction) (r : Registers) : Except Fault Float :=
  match i.mode with
  | .internal => Registers.read r.values i.source
  | .external => Registers.read r.inputs i.source
  | _ =>
    match i.constant with
    | some c => .ok c
    | none => .error (Fault.notANumber Value.null.typeName)

/-- What the instruction yields on the given banks. -/
def resultWith (A : Arithmetic) (i : Instruction) (r : Registers) : Except Fault OpResult := do
  let op ← i.operation
  let a ← Registers.read r.values i.destination
  let b ← i.operand r
  return op.evaluateWith A a b

/-- The banks after the instruction, and whether what follows it is to run. -/
def stepWith (A : Arithmetic) (i : Instruction) (r : Registers) : Except Fault (Bool × Registers) := do
  match ← i.resultWith A r with
  | .condition holds => return (holds, r)
  | .number x => return (true, ← r.write i.destination (saturate x))

/-- Executes the instruction and says whether what follows it is to run. -/
def applyWith (A : Arithmetic) (i : Instruction) : Machine Bool := do
  match i.stepWith A (← get) with
  | .ok (goesOn, r) => do
    set r
    return goesOn
  | .error f => throw (.fault f)

/-- Executes the instruction in binary64 arithmetic. -/
def apply (i : Instruction) : Machine Bool := i.applyWith .binary64

end Instruction

/-- How many instructions are still to be skipped after `i` has been, when it was one of `pending + 1`. -/
def skipPast (policy : BranchPolicy) (pending : Nat) (i : Instruction) : Nat :=
  if policy = .nested ∧ i.isBranch = true then pending + 1 else pending

/-- Runs instructions, the first `skip` of which are skipped. -/
def runFrom (A : Arithmetic) (policy : BranchPolicy) (skip : Nat) : List Instruction → Machine Unit
  | [] => pure ()
  | i :: rest =>
    match skip with
    | pending + 1 => runFrom A policy (skipPast policy pending i) rest
    | 0 => do
      let goesOn ← i.applyWith A
      runFrom A policy (if goesOn then 0 else 1) rest

namespace Structured

/-- What a failed branch leaves to run of the instructions after it. -/
def afterFailure (policy : BranchPolicy) (rest : List Instruction) : List Instruction :=
  match policy with
  | .single => rest.drop 1
  | .nested => (rest.dropWhile Instruction.isBranch).drop 1

theorem length_afterFailure_le (policy : BranchPolicy) (rest : List Instruction) :
    (afterFailure policy rest).length ≤ rest.length := by
  cases policy with
  | single => simp [afterFailure]
  | nested =>
    have h := (List.dropWhile_sublist Instruction.isBranch (l := rest)).length_le
    simp only [afterFailure, List.length_drop]
    omega

/-- Runs instructions by recursion on what is left to run. -/
def run (A : Arithmetic) (policy : BranchPolicy) (code : List Instruction) : Machine Unit :=
  match code with
  | [] => pure ()
  | i :: rest => do
    let goesOn ← i.applyWith A
    if goesOn then run A policy rest else run A policy (afterFailure policy rest)
termination_by code.length
decreasing_by
  · simp
  · have := length_afterFailure_le policy rest
    simp only [List.length_cons]
    omega

end Structured

/-- Loads `inputs` and runs `code`. -/
def executeWith (A : Arithmetic) (policy : BranchPolicy) (code : List Instruction) (inputs : Option (List Float)) :
    Machine Unit := do
  Registers.reset inputs
  runFrom A policy 0 code

end RegisterEvolution
