import RegisterEvolution.Program.Execution
import RegisterEvolution.Program.Fingerprint

/-!
# `Program.Store` — programs and what is known about them

A program is a numbered instruction sequence that fits its shape. What changes during its life, its fitness and the
state of its registers, is kept by number in a store, so that every population that holds the program sees it.

* `Store.construct` — the only way to a program: it uses up a number, also when the instructions break a rule;
* `Store.fitness`, `Store.registers` — what is known about a program;
* `Store.execute` — runs a program on its registers.
-/

namespace RegisterEvolution

/-- A numbered instruction sequence. -/
structure Program where
  id : Nat
  code : List Instruction
  shape : Shape
  deriving Repr

/-- What changes during the life of a program. -/
structure Cell where
  fitness : Option Float
  registers : Registers
  deriving Repr

/-- What is known about the programs built so far, by number; numbers of failed constructions have no entry. -/
structure Store where
  cells : Array (Option Cell)
  deriving Repr

namespace Program

/-- The number of instructions. -/
def size (p : Program) : Nat := p.code.length

/-- The digest of the instructions. -/
def fingerprint (p : Program) : Except Fault String := RegisterEvolution.fingerprint p.code

/-- The instructions as text, cut to at most `width` characters. -/
def listing (p : Program) (width : Int) : Except Fault String := RegisterEvolution.listing p.code width

/-- The width of a listing unless stated otherwise. -/
def defaultWidth : Int := 1000

/-- Runs the program under the given arithmetic on banks that it is given. -/
def executeWith (A : Arithmetic) (p : Program) (inputs : Option (List Float)) : Machine Unit :=
  RegisterEvolution.executeWith A p.shape.branchPolicy p.code inputs

/-- Runs the program on banks that it is given. -/
def execute (p : Program) (inputs : Option (List Float)) : Machine Unit := p.executeWith .binary64 inputs

/-- `execute` with inputs that still have to be read; null stands for no inputs. -/
def executeFrom (p : Program) (inputs : Value) : Machine Unit := do
  Registers.resetFrom inputs
  runFrom .binary64 p.shape.branchPolicy 0 p.code

end Program

namespace Store

/-- A store without programs. -/
def empty : Store := ⟨#[]⟩

/-- The number that the next construction uses up. -/
def nextId (s : Store) : Nat := s.cells.size

/-- What is known about the program numbered `id`. -/
def cell? (s : Store) (id : Nat) : Option Cell := (s.cells[id]?).join

/-- The fitness of a program, once it has been scored. -/
def fitness (s : Store) (p : Program) : Option Float := (s.cell? p.id).bind (·.fitness)

/-- The banks of a program. -/
def registers (s : Store) (p : Program) : Registers := ((s.cell? p.id).map (·.registers)).getD (Registers.zeros 0 0)

/-- The store with the entry of `id` changed, if there is one. -/
def modifyCell (s : Store) (id : Nat) (f : Cell → Cell) : Store := ⟨s.cells.modify id (Option.map f)⟩

/-- The store with a program's fitness overwritten. -/
def setFitness (s : Store) (p : Program) (fitness : Option Float) : Store :=
  s.modifyCell p.id fun c => { c with fitness := fitness }

/-- The store with a program's banks overwritten. -/
def setRegisters (s : Store) (p : Program) (registers : Registers) : Store :=
  s.modifyCell p.id fun c => { c with registers := registers }

/-- The banks that a program of the given shape starts with. -/
def freshRegisters (shape : Shape) : Except Fault Registers :=
  match shape.sizes? with
  | some sizes => Registers.zeros? sizes.registers sizes.inputs
  | none => .ok (Registers.zeros 0 0)

/-- Builds a program of the given fitness; its number is used up in any case. -/
def construct (shape : Shape) (code : List Instruction) (fitness : Option Float) : EStateM Error Store Program :=
  fun s =>
    let id := s.nextId
    match shape.flaw? code with
    | some flaw => .error (.ofProgram id flaw) ⟨s.cells.push none⟩
    | none =>
      match freshRegisters shape with
      | .ok registers => .ok ⟨id, code, shape⟩ ⟨s.cells.push (some ⟨fitness, registers⟩)⟩
      | .error f => .error (.fault f) ⟨s.cells.push none⟩

/-- Builds a program with the instructions and the fitness of another one. -/
def copy (p : Program) : EStateM Error Store Program := fun s => construct p.shape p.code (s.fitness p) s

/-- Runs a computation on the banks of a program. -/
def withRegisters {α : Type} (p : Program) (run : Machine α) : EStateM Error Store α := fun s =>
  match run (s.registers p) with
  | .ok a r => .ok a (s.setRegisters p r)
  | .error e r => .error e (s.setRegisters p r)

/-- Runs a program on its own banks. -/
def execute (p : Program) (inputs : Value) : EStateM Error Store Unit := withRegisters p (p.executeFrom inputs)

end Store

end RegisterEvolution
