import RegisterEvolution.Draw.Stream
import RegisterEvolution.Evolution.Breeding
import RegisterEvolution.Evolution.Evaluation
import RegisterEvolution.Evolution.Observer

/-!
# `Evolution.Engine` — the generation loop

A generation is evaluated, ranked and selected from, and the pool that is left is filled up to the next generation.
Observers are told after every phase. A run ends after a number of generations, or after the generation in which an
observer asked to stop. An error leaves everything as it was when the error arose, so that a run can be taken up again.

* `Engine` — what stays the same during a run; `EngineState` — what changes;
* `Engine.populate`, `Engine.step`, `Engine.run` — the first population, one generation, all of them;
* `Engine.generations` — the ranked generations of a run, one after the other;
* `Engine.stepBy`, `Engine.generationsBy`, `Engine.runBy` — the same with programs scored in a way of one's choice, as
  by a pool of workers.
-/

namespace RegisterEvolution

/-- Where in its loop an engine is. -/
inductive Phase where
  | initialized
  | evaluating
  | ranked
  | selecting
  | reproducing
  | replaced
  | terminated
  deriving Repr, DecidableEq

/-- The name of a phase. -/
def Phase.name : Phase → String
  | initialized => "initialized"
  | evaluating => "evaluating"
  | ranked => "ranked"
  | selecting => "selecting"
  | reproducing => "reproducing"
  | replaced => "replaced"
  | terminated => "terminated"

/-- What stays the same during a run. -/
structure Engine (σ : Type) where
  plan : Plan
  task : Task σ
  observers : List (Observer σ)
  /-- How many workers the machine has room for. -/
  processors : Nat
  /-- What reports write for the seconds that a run took, which are not measured here. -/
  seconds : String

/-- What changes during a run. -/
structure EngineState (γ σ : Type) where
  lab : Lab γ σ
  population : Option Population
  /-- The generation that was ranked and returned last. -/
  lastRanked : Option Population
  phase : Option Phase
  stopRequested : Bool

/-- A computation on an engine. -/
abbrev Evolving (γ σ α : Type) := EStateM Error (EngineState γ σ) α

namespace EngineState

variable {γ σ : Type}

/-- An engine before its first population. -/
def start (source : γ) (world : σ) : EngineState γ σ := ⟨Lab.start source world, none, none, none, false⟩

/-- The number of the generation that the engine holds. -/
def generation (s : EngineState γ σ) : Int := (s.population.map (·.generation)).getD 0

/-- Whether no generation is left to be run. -/
def isFinished (s : EngineState γ σ) (maxGenerations : Int) : Bool :=
  s.stopRequested || decide (maxGenerations ≤ s.generation)

end EngineState

namespace Engine

variable {γ σ : Type}

/-! ## Construction -/

/-- The generator that the value of a seed stands for. -/
def seedSource (seed : Value) : Except Fault Stream :=
  let refuse : Except Fault Stream := .error ⟨.badValue, "expected non-negative integer"⟩
  let wrong : Except Fault Stream := .error ⟨.wrongType, "a seed is made of integers"⟩
  match seed with
  | .int n => if n < 0 then refuse else .ok (Stream.ofSeed n.toNat)
  | .bool b => .ok (Stream.ofSeed (if b then 1 else 0))
  | .list items =>
    match items.mapM Value.toInteger with
    | .ok ns => if ns.any (· < 0) then refuse else .ok (Stream.ofWords (ns.flatMap fun n => Seed.words n.toNat))
    | .error _ => wrong
  | _ => wrong

/-- The engine for checked settings and a task that agrees with them. -/
def ofSettings (settings : RunSettings) (task : Task σ) (observers : List (Observer σ)) (processors : Nat)
    (seconds : String) : Except Error (Engine σ) := do
  settings.validate
  let program ← settings.programSettings
  let _ ← program.bind task.inputCount task.actionCount
  return ⟨← settings.plan, task, observers, processors, seconds⟩

/-- The generator of an engine that is given none. -/
def ownSource (e : Engine σ) : Except Error Stream :=
  match seedSource e.plan.seed with
  | .ok source => .ok source
  | .error f => .error (.fault f)

/-- The engine for settings and a task together with its own generator. -/
def seeded (settings : RunSettings) (task : Task σ) (observers : List (Observer σ)) (processors : Nat)
    (seconds : String) : Except Error (Engine σ × Stream) := do
  let e ← ofSettings settings task observers processors seconds
  return (e, ← e.ownSource)

/-! ## Parts of a generation -/

/-- A computation on the lab of an engine. -/
def onLab {α : Type} (m : Run γ σ α) : Evolving γ σ α := fun s =>
  match m s.lab with
  | .ok a lab => .ok a { s with lab := lab }
  | .error e lab => .error e { s with lab := lab }

/-- Appends a report of the engine. -/
def report (level : Int) (message : String) : Evolving γ σ Unit :=
  onLab (Run.report ⟨level, Record.evolutionPart "engine", message⟩)

/-- Appends a report of the engine that quotes certain values. It is lost if one of them cannot be written out. -/
def reportQuoting (quoted : List Value) (level : Int) (message : String) : Evolving γ σ Unit := do
  if Value.areWritable quoted then report level message

/-- Tells the observers of an event, and remembers when one asks to stop. -/
def notify (e : Engine σ) (event : Event) (p : Population) : Evolving γ σ Unit := do
  if ← onLab (dispatch e.observers event p) then modify fun s => { s with stopRequested := true }

/-- Enters a phase. -/
def enter (phase : Phase) : Evolving γ σ Unit := modify fun s => { s with phase := some phase }

/-- Whether no generation is left to be run. -/
def isFinished (e : Engine σ) : Evolving γ σ Bool := do return (← get).isFinished e.plan.maxGenerations

/-- The number of a generation out of all, as reports write it. -/
def progress (e : Engine σ) (generation : Int) : String :=
  "Gen " ++ toString (generation + 1) ++ "/" ++ toString e.plan.maxGenerations

/-- Whether the number of a generation and that of all generations can be written. -/
def canLabel (e : Engine σ) (generation : Int) : Bool :=
  Value.areWritable [.int (generation + 1), .int e.plan.maxGenerations]

/-- The report on a generation that is to be evaluated. -/
def evaluatingMessage (e : Engine σ) (p : Population) : String :=
  e.progress p.generation ++ " | evaluating " ++ toString p.size ++ " programs"

/-- Announces a generation that is to be evaluated. The progress of its evaluation is labelled with its number, and what
    cannot be labelled is not evaluated. -/
def announce (e : Engine σ) (p : Population) : Evolving γ σ Unit := do
  if e.canLabel p.generation then report Record.debugLevel (e.evaluatingMessage p)
  else throw (.fault Fault.integerTooLong)

/-- The best fitness of a population; not a number when no program is scored. -/
def bestFitness (store : Store) (p : Population) : Float := ((p.best? store).bind store.fitness).getD (0.0 / 0.0)

/-- The median fitness of a population; not a number when no program is scored. -/
def medianFitness (store : Store) (p : Population) : Float :=
  let scores := p.scores store
  if scores.isEmpty then 0.0 / 0.0 else Statistics.median scores

/-- The report on a ranked generation. -/
def rankedMessage (e : Engine σ) (store : Store) (p : Population) : String :=
  e.progress p.generation ++ " | best " ++ Decimal.general 6 (bestFitness store p) ++ " | median " ++
    Decimal.general 6 (medianFitness store p)

section Steps

variable [Generator γ]

/-! ## Generations -/

/-- Makes the first population. -/
def populate (e : Engine σ) : Evolving γ σ Population := do
  let p ← onLab (Population.generate e.plan.program e.task e.plan.breeding.populationSize)
  set { (← get) with population := some p, lastRanked := none, stopRequested := false, phase := some .initialized }
  e.notify .initialized p
  return p

/-- The population of the engine, made first if there is none. -/
def current (e : Engine σ) : Evolving γ σ Population := do
  match (← get).population with
  | some p => return p
  | none => e.populate

/-- Scores the programs of a generation in a given way. -/
def evaluatePhaseBy (e : Engine σ) (evaluation : Population → Run γ σ Nat) (p : Population) : Evolving γ σ Unit := do
  enter .evaluating
  e.announce p
  let _ ← onLab (evaluation p)
  e.notify .evaluated p

/-- Scores the programs of a generation one after the other. -/
def evaluatePhase (e : Engine σ) (p : Population) : Evolving γ σ Unit :=
  e.evaluatePhaseBy (evaluate e.task e.plan.reevaluate) p

/-- Ranks a generation; the engine holds it ranked from then on. -/
def rankPhase (e : Engine σ) (p : Population) : Evolving γ σ Population := do
  enter .ranked
  let store := (← get).lab.store
  let ranked := p.rank store
  modify fun s => { s with population := some ranked }
  report Record.infoLevel (e.rankedMessage store ranked)
  e.notify .ranked ranked
  return ranked

/-- Selects the breeding pool of a ranked generation. -/
def selectPhase (e : Engine σ) (ranked : Population) : Evolving γ σ Population := do
  enter .selecting
  let pool ← onLab (Run.ofFault (ranked.select e.plan.gap))
  e.notify .selected pool
  return pool

/-- Replaces a generation by the offspring of its breeding pool. -/
def replacePhase (e : Engine σ) (ranked pool : Population) : Evolving γ σ Unit := do
  enter .reproducing
  let offspring ← onLab (reproduce e.plan.breeding pool)
  let next := { offspring with generation := ranked.generation + 1 }
  modify fun s => { s with phase := some .replaced, population := some next }
  e.notify .generationEnd next

/-- Ends a generation; the engine remembers it ranked. -/
def remember (e : Engine σ) (ranked : Population) : Evolving γ σ Population := do
  if ← e.isFinished then enter .terminated
  modify fun s => { s with lastRanked := some ranked }
  return ranked

/-- A generation from its ranking on. -/
def afterEvaluation (e : Engine σ) (p : Population) : Evolving γ σ Population := do
  let ranked ← e.rankPhase p
  let pool ← e.selectPhase ranked
  e.replacePhase ranked pool
  e.remember ranked

/-- Runs one generation, scored in a given way, and answers it ranked; the engine holds the next one then. -/
def stepBy (e : Engine σ) (evaluation : Population → Run γ σ Nat) : Evolving γ σ Population := do
  let p ← e.current
  e.evaluatePhaseBy evaluation p
  e.afterEvaluation p

/-- Runs one generation, scored one program after the other. -/
def step (e : Engine σ) : Evolving γ σ Population := e.stepBy (evaluate e.task e.plan.reevaluate)

/-! ## Runs -/

/-- What `visit` makes of each of the next generations, at most `limit` of them, until none is left to be run. -/
def generationsUpToBy {α : Type} (e : Engine σ) (evaluation : Population → Run γ σ Nat)
    (visit : Population → Evolving γ σ α) : Nat → Evolving γ σ (List α)
  | 0 => return []
  | limit + 1 => do
    if ← e.isFinished then return []
    else
      let ranked ← e.stepBy evaluation
      let first ← visit ranked
      let rest ← e.generationsUpToBy evaluation visit limit
      return first :: rest

/-- The same, scored one program after the other. -/
def generationsUpTo {α : Type} (e : Engine σ) (visit : Population → Evolving γ σ α) : Nat → Evolving γ σ (List α) :=
  e.generationsUpToBy (evaluate e.task e.plan.reevaluate) visit

/-- The number of workers that evaluation is spread over. -/
def workerCount (e : Engine σ) : Int := min e.plan.workers e.processors

/-- The report on a pool of workers. -/
def workersMessage (count : Int) : String :=
  "Starting evaluation pool with " ++ toString count ++ " worker processes"

/-- Reports on the pool of workers, if there is one. -/
def reportWorkers (e : Engine σ) : Evolving γ σ Unit := do
  if 1 < e.workerCount then
    onLab (Run.report ⟨Record.infoLevel, Record.evolutionPart "evaluation", workersMessage e.workerCount⟩)

/-- What an iteration does before its first generation. -/
def commence (e : Engine σ) : Evolving γ σ Unit := do
  let _ ← e.current
  e.reportWorkers

/-- What `visit` makes of each ranked generation, scored in a given way, until none is left to be run. -/
def generationsBy {α : Type} (e : Engine σ) (evaluation : Population → Run γ σ Nat)
    (visit : Population → Evolving γ σ α) : Evolving γ σ (List α) := do
  e.commence
  let visits ← e.generationsUpToBy evaluation visit (e.plan.maxGenerations - (← get).generation).toNat
  enter .terminated
  return visits

/-- What `visit` makes of each ranked generation, scored one program after the other. -/
def generations {α : Type} (e : Engine σ) (visit : Population → Evolving γ σ α) : Evolving γ σ (List α) :=
  e.generationsBy (evaluate e.task e.plan.reevaluate) visit

/-- The report on the start of a run. -/
def startMessage (e : Engine σ) : String :=
  "Starting evolution: task " ++ e.task.name ++ " | population " ++ toString e.plan.breeding.populationSize ++ " | " ++
    toString e.plan.maxGenerations ++ " generations | gap " ++ Decimal.general 3 e.plan.gap ++ " | seed " ++
    e.plan.seed.plain ++ " | workers " ++ toString e.plan.workers

/-- Reports on the start of a run. -/
def reportStart (e : Engine σ) : Evolving γ σ Unit :=
  reportQuoting [.int e.plan.breeding.populationSize, .int e.plan.maxGenerations, e.plan.seed, .int e.plan.workers]
    Record.infoLevel e.startMessage

/-- The best fitness in the report on the end of a run. -/
def fitnessText (store : Store) (p : Population) : String :=
  ((p.best? store).map fun program => Decimal.general 6 ((store.fitness program).getD (0.0 / 0.0))).getD "n/a"

/-- The report on the end of a run. -/
def finishedMessage (e : Engine σ) (generation : Int) (fitness : String) : String :=
  "Evolution finished after " ++ toString generation ++ " generation(s) in " ++ e.seconds ++ "s | best fitness " ++
    fitness

/-- Ends a run; it answers the generation that was ranked last, or a population that no generation has come after. -/
def answerLast (e : Engine σ) : Evolving γ σ Population := do
  let s ← get
  match s.lastRanked.or s.population with
  | some last => do
    report Record.infoLevel (e.finishedMessage s.generation (fitnessText s.lab.store last))
    return last
  | none => throw (.fault ⟨.noAttribute, "a run holds a population"⟩)

/-- Runs all generations that are left, scored in a given way, and answers the last ranked one. -/
def runBy (e : Engine σ) (evaluation : Population → Run γ σ Nat) : Evolving γ σ Population := do
  e.reportStart
  let _ ← e.generationsBy evaluation fun _ => return ()
  e.answerLast

/-- Runs all generations that are left, scored one program after the other, and answers the last ranked one. -/
def run (e : Engine σ) : Evolving γ σ Population := e.runBy (evaluate e.task e.plan.reevaluate)

end Steps

end Engine

end RegisterEvolution
