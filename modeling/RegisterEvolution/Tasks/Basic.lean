import RegisterEvolution.Program.Store

/-!
# `Tasks.Basic` — what programs are evolved against

A task says how many inputs a program reads and how many action registers it decides with, and scores a program;
higher is better. Scoring runs the program on its own banks and may change the world outside, but nothing else.
-/

namespace RegisterEvolution

/-- What scoring a program reads and changes: the banks of the program and the world outside. -/
structure Bench (σ : Type) where
  registers : Registers
  world : σ

/-- A computation that scores. -/
abbrev Scoring (σ α : Type) := EStateM Error (Bench σ) α

namespace Scoring

variable {σ α : Type}

/-- A computation on the banks. -/
def onRegisters (m : Machine α) : Scoring σ α := fun b =>
  match m b.registers with
  | .ok a r => .ok a { b with registers := r }
  | .error e r => .error e { b with registers := r }

/-- A computation on the world outside. -/
def onWorld (m : EStateM Error σ α) : Scoring σ α := fun b =>
  match m b.world with
  | .ok a w => .ok a { b with world := w }
  | .error e w => .error e { b with world := w }

/-- Fails with a general failure where a value is missing. -/
def ofFault (r : Except Fault α) : Scoring σ α :=
  match r with
  | .ok a => pure a
  | .error f => throw (.fault f)

/-- The banks after running `program` on `inputs`. -/
def execute (program : Program) (inputs : Value) : Scoring σ Registers :=
  onRegisters do
    program.executeFrom inputs
    get

/-- `body`, and then `last` in any case. A failure of `last` prevails. -/
def andFinally (body : Scoring σ α) (last : Scoring σ Unit) : Scoring σ α := fun b =>
  match body b with
  | .ok a b' =>
    match last b' with
    | .ok _ b'' => .ok a b''
    | .error e b'' => .error e b''
  | .error e b' =>
    match last b' with
    | .ok _ b'' => .error e b''
    | .error e' b'' => .error e' b''

end Scoring

/-- A problem that programs are evolved against. -/
structure Task (σ : Type) where
  /-- What reports call the task. -/
  name : String
  inputCount : Int
  actionCount : Int
  /-- The score of a program, still to be read as a number. -/
  score : Program → Scoring σ Value

end RegisterEvolution
