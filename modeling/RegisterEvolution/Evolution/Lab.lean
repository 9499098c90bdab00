import RegisterEvolution.Draw.Generator
import RegisterEvolution.Journal.Record
import RegisterEvolution.Program.Store

/-!
# `Evolution.Lab` — the state that evolution reads and changes

A lab holds the source of random choices, the store of programs, the journal, and the world outside: whatever tasks
and observers remember. `Run γ σ α` is a computation on it. An error does not undo what was done before it.
-/

namespace RegisterEvolution

/-- The state of a run over generator states `γ` and an outside world `σ`. -/
structure Lab (γ σ : Type) where
  source : γ
  store : Store
  journal : Array Record
  /-- Whether the warning about small breeding pools has been given. -/
  warned : Bool
  world : σ

/-- A computation on the state of a run. -/
abbrev Run (γ σ α : Type) := EStateM Error (Lab γ σ) α

namespace Lab

/-- A lab in which nothing has happened. -/
def start {γ σ : Type} (source : γ) (world : σ) : Lab γ σ := ⟨source, Store.empty, #[], false, world⟩

end Lab

namespace Run

variable {γ σ α : Type}

/-- A computation that only draws. -/
def draw (d : Draw γ α) : Run γ σ α := fun lab =>
  match d lab.source with
  | .ok a source => .ok a { lab with source := source }
  | .error e source => .error e { lab with source := source }

/-- A computation that only concerns the store. -/
def onStore (c : EStateM Error Store α) : Run γ σ α := fun lab =>
  match c lab.store with
  | .ok a store => .ok a { lab with store := store }
  | .error e store => .error e { lab with store := store }

/-- Appends a record to the journal. -/
def report (record : Record) : Run γ σ Unit := modify fun lab => { lab with journal := lab.journal.push record }

/-- Fails with a general failure where a value is missing. -/
def ofFault (r : Except Fault α) : Run γ σ α :=
  match r with
  | .ok a => pure a
  | .error f => throw (.fault f)

/-- Fails where a result is missing. -/
def ofExcept (r : Except Error α) : Run γ σ α :=
  match r with
  | .ok a => pure a
  | .error e => throw e

/-- Builds an unscored program. -/
def construct (shape : Shape) (code : List Instruction) : Run γ σ Program :=
  onStore (Store.construct shape code none)

end Run

end RegisterEvolution
