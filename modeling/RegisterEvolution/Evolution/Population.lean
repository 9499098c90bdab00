import RegisterEvolution.Evolution.Lab
import RegisterEvolution.Settings.Check
import RegisterEvolution.Tasks.Basic
import RegisterEvolution.Variation.Random

/-!
# `Evolution.Population` — the programs of one generation

A population is an ordered list of programs. A breeding pool, which selection takes from it, holds fewer of them but
keeps the capacity.

* `Population.rank` — the best program first, equally good ones in their order, unscored ones last;
* `Population.select` — the first programs, as many as a fraction of the capacity;
* `Population.best?` — the first of the best programs;
* `Population.generate` — random programs for a task.
-/

namespace RegisterEvolution

/-- The programs of one generation. -/
structure Population where
  programs : List Program
  /-- The size that breeding fills a pool up to. -/
  capacity : Int
  generation : Int

namespace Population

/-- The number of programs. -/
def size (p : Population) : Nat := p.programs.length

/-- A population of the given programs; the capacity is their number unless it is given. -/
def ofPrograms (programs : List Program) (capacity : Option Int) (generation : Int) : Population :=
  ⟨programs, capacity.getD programs.length, generation⟩

/-- The population in messages. -/
def display (p : Population) : String :=
  "Population(generation=" ++ toString p.generation ++ ", size=" ++ toString p.size ++ ", capacity=" ++
    toString p.capacity ++ ")"

/-- What programs are ranked by, the least first: the negated fitness, infinity for unscored programs. -/
def rankKey (store : Store) (program : Program) : Float :=
  match store.fitness program with
  | some x => -x
  | none => 1.0 / 0.0

/-- Whether `a` may stand in front of `b`. -/
def rankLe (store : Store) (a b : Program) : Bool := !(rankKey store b < rankKey store a : Bool)

/-- The population with the best program first; equally good programs keep their order. -/
def rank (store : Store) (p : Population) : Population := { p with programs := p.programs.mergeSort (rankLe store) }

/-- What is taken off a fraction of the capacity before it is rounded up. -/
def roundingSlack : Float := 1e-9

/-- How many programs of a population a fraction keeps: at least one. -/
def keptCount (capacity : Int) (gap : Float) : Except Fault Nat :=
  match Decimal.ofInt? capacity with
  | none => .error .integerTooLarge
  | some whole =>
    match Decimal.Shape.ofFloat (gap * whole - roundingSlack) with
    | .finite d => .ok (max 1 d.ceil).toNat
    | .infinite _ => .error ⟨.overflow, "cannot convert float infinity to integer"⟩
    | .notANumber => .error ⟨.badValue, "cannot convert float NaN to integer"⟩

/-- The first programs, as many as the fraction `gap` of the capacity; the population should be ranked. -/
def select (gap : Float) (p : Population) : Except Fault Population := do
  let kept ← keptCount p.capacity gap
  return { p with programs := p.programs.take kept }

/-- The fitness of every program; what is missing is not a number. -/
def fitnessValues (store : Store) (p : Population) : List Float :=
  p.programs.map fun program => (store.fitness program).getD (0.0 / 0.0)

/-- The better of two programs, the first one if they are equally good. -/
def better (store : Store) (a b : Program) : Program := if rankKey store b < rankKey store a then b else a

/-- The first of the best scored programs. -/
def best? (store : Store) (p : Population) : Option Program :=
  match p.programs.filter fun program => (store.fitness program).isSome with
  | [] => none
  | first :: rest => some (rest.foldl (better store) first)

/-! ## Random populations -/

section Generate

variable {γ σ : Type} [Generator γ]

/-- A random program. -/
def randomProgram (shape : Shape) : Run γ σ Program := do
  let code ← Run.draw (randomCode shape)
  Run.construct shape code

/-- Several random programs. -/
def randomPrograms (shape : Shape) : Nat → Run γ σ (List Program)
  | 0 => return []
  | count + 1 => do
    let first ← randomProgram shape
    let rest ← randomPrograms shape count
    return first :: rest

/-- The report on a random population. -/
def generatedMessage (count : Nat) (sizes : BankSizes) : String :=
  "Generated " ++ toString count ++ " programs (registers=" ++ toString sizes.registers ++ ", inputs=" ++
    toString sizes.inputs ++ ", actions=" ++ toString sizes.actions ++ ")"

/-- A population of random programs whose shape is bound to a task. -/
def generate (settings : ProgramSettings) (task : Task σ) (size : Int) : Run γ σ Population := do
  let bound ← Run.ofExcept (settings.bind task.inputCount task.actionCount)
  let shape ← Run.ofFault bound.shape
  let programs ← randomPrograms shape size.toNat
  match shape.sizes? with
  | some sizes =>
    Run.report ⟨Record.debugLevel, Record.evolutionPart "population", generatedMessage programs.length sizes⟩
  | none => pure ()
  return ⟨programs, size, 0⟩

end Generate

end Population

end RegisterEvolution
