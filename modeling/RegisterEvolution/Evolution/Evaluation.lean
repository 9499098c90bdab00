import RegisterEvolution.Evolution.Population

/-!
# `Evolution.Evaluation` — scoring the programs of a population

A score is accepted only if it is a finite number; everything else is an error of the task. The scores of a population
are written down once all of them are in, in the order of the programs.

* `score` — the fitness of one program;
* `evaluate` — scores what is not scored yet, one program after the other;
* `Delivery` — what a pool of workers delivers;
* `evaluateDelivered` — scores what is not scored yet by what is delivered.
-/

namespace RegisterEvolution

/-- The error of a score that is no number. It quotes the score, which may hold an integer too long for that. -/
def scoreError (program : Program) (v : Value) (f : Fault) : Error :=
  if f.kind = .overflow then .fault f
  else if v.isWritable then .task (.notANumber program.id v)
  else .fault Fault.integerTooLong

/-- The fitness that a score stands for. -/
def toFitness (program : Program) (v : Value) : Except Error Float :=
  match v.toNumber with
  | .ok x => if x.isFinite then .ok x else .error (.task (.notFinite program.id x))
  | .error f => .error (scoreError program v f)

/-- The error of a task in whose scoring `e` was raised; errors of the library's own are passed on, and others
    quoted. -/
def taskFailure {σ : Type} (task : Task σ) (program : Program) (e : Error) : Error :=
  if e.isOwn then e
  else
    match e.quote with
    | .ok cause => .task (.raised task.name program.id cause)
    | .error failure => failure

section Evaluate

variable {γ σ : Type}

/-- Runs a computation that scores on the banks of a program. -/
def onBench {α : Type} (program : Program) (m : Scoring σ α) : Run γ σ α := fun lab =>
  let keep (b : Bench σ) : Lab γ σ :=
    { lab with store := lab.store.setRegisters program b.registers, world := b.world }
  match m ⟨lab.store.registers program, lab.world⟩ with
  | .ok a b => .ok a (keep b)
  | .error e b => .error e (keep b)

/-- The fitness of a program in a task. -/
def score (task : Task σ) (program : Program) : Run γ σ Float := fun lab =>
  match onBench program (task.score program) lab with
  | .ok v lab' => Run.ofExcept (toFitness program v) lab'
  | .error e lab' => .error (taskFailure task program e) lab'

/-- Whether a program is to be scored. -/
def isPending (store : Store) (reevaluate : Bool) (program : Program) : Bool :=
  reevaluate || (store.fitness program).isNone

/-- The programs to be scored, with their positions. -/
def pending (store : Store) (reevaluate : Bool) (p : Population) : List (Nat × Program) :=
  (p.programs.zipIdx.filter fun (program, _) => isPending store reevaluate program).map fun (program, i) => (i, program)

/-- The fitness of several programs, up to the first that fails. -/
def scoreAll (task : Task σ) : List (Nat × Program) → Run γ σ (List (Nat × Float))
  | [] => return []
  | (i, program) :: rest => do
    let x ← score task program
    let scores ← scoreAll task rest
    return (i, x) :: scores

/-- The report on a score. -/
def scoreMessage (program : Program) (x : Float) : String :=
  "program " ++ toString program.id ++ " fitness " ++ Decimal.general 6 x

/-- Writes a score down. -/
def writeScore (program : Program) (x : Float) : Run γ σ Unit := do
  modify fun lab => { lab with store := lab.store.setFitness program (some x) }
  Run.report ⟨Record.debugLevel, Record.evolutionPart "evaluation", scoreMessage program x⟩

/-- Writes the scores of the programs at the given positions down. -/
def writeScores (p : Population) : List (Nat × Float) → Run γ σ Unit
  | [] => return ()
  | (i, x) :: rest => do
    match p.programs[i]? with
    | some program => writeScore program x
    | none => pure ()
    writeScores p rest

/-- Scores in the order of their positions. -/
def inOrder (scores : List (Nat × Float)) : List (Nat × Float) := scores.mergeSort fun a b => a.1 ≤ b.1

/-- Scores the programs that have no fitness yet, or all of them; answers how many. -/
def evaluate (task : Task σ) (reevaluate : Bool) (p : Population) : Run γ σ Nat := do
  let scores ← scoreAll task (pending (← get).store reevaluate p)
  writeScores p (inOrder scores)
  return scores.length

/-! ## Pools of workers -/

/-- What a worker comes to that scores a copy of a program in a world of its own. -/
def workerAnswer (task : Task σ) (lab : Lab γ σ) (world : σ) (p : Program) : Except Error Float :=
  match score task p { lab with world := world } with
  | .ok x _ => .ok x
  | .error e _ => .error e

/-- What a pool of workers delivers for the given programs: one answer to each, in any order. -/
def Delivery (task : Task σ) (lab : Lab γ σ) (items : List (Nat × Program))
    (delivered : List (Nat × Except Error Float)) : Prop :=
  ∃ worlds : Nat → σ, delivered.Perm (items.map fun item => (item.1, workerAnswer task lab (worlds item.1) item.2))

/-- The scores that have arrived, up to the first failure. -/
def gather : List (Nat × Except Error Float) → Except Error (List (Nat × Float))
  | [] => .ok []
  | (i, outcome) :: rest => do
    let x ← outcome
    let scores ← gather rest
    return (i, x) :: scores

/-- Writes scores down that have arrived in the given order; answers how many. -/
def evaluateDelivered (p : Population) (delivered : List (Nat × Except Error Float)) : Run γ σ Nat := do
  let scores ← Run.ofExcept (gather delivered)
  writeScores p (inOrder scores)
  return scores.length

end Evaluate

end RegisterEvolution
