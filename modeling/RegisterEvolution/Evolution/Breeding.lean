import RegisterEvolution.Evolution.Population
import RegisterEvolution.Variation.Mutation

/-!
# `Evolution.Breeding` — filling a breeding pool up

The programs of a pool survive as they are. Of the free slots a fraction holds children of two survivors, the others
hold clones, and then a fraction of all slots is mutated.

* `Run.mutant`, `Run.children`, `Run.clone` — new programs out of old ones;
* `reproduce` — the next generation out of a pool.
-/

namespace RegisterEvolution

variable {γ σ : Type} [Generator γ]

/-! ## New programs -/

namespace Run

/-- A mutant of a program. -/
def mutant (maxEdits : Int) (p : Program) : Run γ σ Program := do
  let code ← draw (mutateCode p.shape maxEdits p.code)
  construct p.shape code

/-- The two children of a pair of programs. -/
def children (kind : Crossover) (a b : Program) : Run γ σ (Program × Program) := do
  let (codeA, codeB) ← draw (recombine kind a.shape.maxInstructions a.code b.code)
  let childA ← construct a.shape codeA
  let childB ← construct a.shape codeB
  return (childA, childB)

/-- A copy of a program. -/
def clone (p : Program) : Run γ σ Program := onStore (Store.copy p)

/-- A random survivor. -/
def survivor (pool : List Program) : Run γ σ Program := draw (Draw.element pool)

/-- Two different survivors. -/
def survivorPair (pool : List Program) : Run γ σ (Program × Program) := do
  match ← draw (Draw.sample pool.length 2) with
  | [i, j] =>
    match pool[i]?, pool[j]? with
    | some a, some b => return (a, b)
    | _, _ => throw (.fault Fault.indexOutOfRange)
  | _ => throw (.fault Fault.indexOutOfRange)

end Run

/-! ## Slots -/

/-- As many mutants of random survivors as asked for. -/
def mutants (pool : List Program) (maxEdits : Int) : Nat → Run γ σ (List Program)
  | 0 => return []
  | count + 1 => do
    let p ← Run.survivor pool
    let first ← Run.mutant maxEdits p
    let rest ← mutants pool maxEdits count
    return first :: rest

/-- As many children of survivor pairs as asked for; the second child of the last pair may be left out. -/
def crossed (pool : List Program) (kind : Crossover) : Nat → Run γ σ (List Program)
  | 0 => return []
  | 1 => do
    let (a, b) ← Run.survivorPair pool
    let (first, _) ← Run.children kind a b
    return [first]
  | count + 2 => do
    let (a, b) ← Run.survivorPair pool
    let (first, second) ← Run.children kind a b
    let rest ← crossed pool kind count
    return first :: second :: rest

/-- As many clones of random survivors as asked for. -/
def clones (pool : List Program) : Nat → Run γ σ (List Program)
  | 0 => return []
  | count + 1 => do
    let p ← Run.survivor pool
    let first ← Run.clone p
    let rest ← clones pool count
    return first :: rest

/-- The offspring with those in the given slots replaced by mutants of themselves. -/
def mutateSlots (maxEdits : Int) : List Nat → List Program → Run γ σ (List Program)
  | [], offspring => return offspring
  | slot :: rest, offspring => do
    match offspring[slot]? with
    | some p => do
      let mutated ← Run.mutant maxEdits p
      mutateSlots maxEdits rest (offspring.set slot mutated)
    | none => throw (.fault Fault.indexOutOfRange)

/-! ## Reproduction -/

/-- A fraction of a number of slots, rounded down. -/
def shareOf (fraction : Float) (slots : Nat) : Except Fault Int :=
  match Decimal.ofInt? slots with
  | none => .error .integerTooLarge
  | some whole =>
    match Decimal.Shape.ofFloat (fraction * whole) with
    | .finite d => .ok d.floor
    | .infinite _ => .error ⟨.overflow, "cannot convert float infinity to integer"⟩
    | .notANumber => .error ⟨.badValue, "cannot convert float NaN to integer"⟩

/-- The warning about a pool that is too small for pairs. -/
def smallPoolMessage (size : Nat) : String :=
  "Breeding pool holds " ++ toString size ++ " program(s); crossover falls back to mutation"

/-- Warns about a small pool, unless that has been done. -/
def warnOfSmallPool (size : Nat) : Run γ σ Unit := do
  if !(← get).warned then
    Run.report ⟨Record.warningLevel, Record.evolutionPart "breeding", smallPoolMessage size⟩
    modify fun lab => { lab with warned := true }

/-- The offspring of the crossover slots; a pool without pairs gives mutants. -/
def crossoverSlots (b : Breeding) (pool : List Program) (count : Int) : Run γ σ (List Program) := do
  if count ≠ 0 ∧ pool.length < 2 then
    warnOfSmallPool pool.length
    mutants pool b.maxMutationEdits count.toNat
  else crossed pool b.crossover count.toNat

/-- The report on a reproduction. -/
def reproducedMessage (slots : Nat) (crossoverCount mutationCount : Int) (survivors : Nat) : String :=
  "Reproduced " ++ toString slots ++ " offspring (" ++ toString crossoverCount ++ " crossover, " ++
    toString ((slots : Int) - crossoverCount) ++ " clones, " ++ toString mutationCount ++ " mutated) from " ++
    toString survivors ++ " survivors"

/-- The offspring of a pool for `slots` free slots. -/
def offspringOf (b : Breeding) (pool : List Program) (slots : Nat) : Run γ σ (List Program) := do
  let crossoverCount ← Run.ofFault (shareOf b.crossovers slots)
  let mutationCount ← Run.ofFault (shareOf b.mutations slots)
  let crossings ← crossoverSlots b pool crossoverCount
  let copies ← clones pool (slots - crossings.length)
  let mutated ← if mutationCount = 0 then pure (crossings ++ copies) else do
    let picked ← Run.draw (Draw.sample slots mutationCount)
    mutateSlots b.maxMutationEdits picked (crossings ++ copies)
  Run.report ⟨Record.debugLevel, Record.evolutionPart "breeding",
    reproducedMessage slots crossoverCount mutationCount pool.length⟩
  return mutated

/-- A pool filled up to the population size; one that is large enough is cut. -/
def reproduce (b : Breeding) (pool : Population) : Run γ σ Population := do
  let slots := b.populationSize - pool.size
  if slots ≤ 0 then return ⟨upTo pool.programs b.populationSize, b.populationSize, pool.generation⟩
  else
    let offspring ← offspringOf b pool.programs slots.toNat
    return ⟨pool.programs ++ offspring, b.populationSize, pool.generation⟩

end RegisterEvolution
