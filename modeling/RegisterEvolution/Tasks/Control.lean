import RegisterEvolution.Tasks.Basic

/-!
# `Tasks.Control` — acting in an environment over several episodes

A program is run on every state that an environment shows, and the lowest action register with the greatest value
is the action it takes. An episode ends at a terminal state or after a limit of steps. Programs are scored by the upper
median of the rewards of their episodes.

* `Environment` — what an environment can do;
* `Control.episode`, `Control.evaluate` — one episode, and the score.
-/

namespace RegisterEvolution

/-- What an environment answers to an action. -/
structure StepResult where
  state : Value
  reward : Value
  isTerminal : Bool

/-- An environment whose condition is part of the world `σ`. -/
structure Environment (σ : Type) where
  /-- Sets up the environment. -/
  make : EStateM Error σ Unit
  /-- Starts an episode from a seed and shows its first state. -/
  reset : Int → EStateM Error σ Value
  /-- Takes an action. -/
  step : Int → EStateM Error σ StepResult
  /-- Puts the environment away. -/
  close : EStateM Error σ Unit

/-- A control task in an environment. -/
structure Control (σ : Type) where
  environment : Environment σ
  inputCount : Int
  actionCount : Int
  /-- The number of episodes. -/
  runs : Nat
  maxEpisodeLength : Nat
  seed : Int

namespace Control

variable {σ : Type}

/-- The number of episodes unless stated otherwise. -/
def defaultRuns : Int := 5

/-- The limit of steps unless stated otherwise. -/
def defaultEpisodeLength : Int := 200

/-- A positive count. -/
def positive (field : String) (n : Int) : Except Error Nat :=
  if n < 1 then .error (.ofConfiguration (.countNotPositive field n)) else .ok n.toNat

/-- The control task with the given counts, all of which have to be positive. -/
def ofCounts (environment : Environment σ) (inputCount actionCount runs maxEpisodeLength seed : Int) :
    Except Error (Control σ) := do
  let _ ← positive "input_count" inputCount
  let _ ← positive "action_count" actionCount
  let runs ← positive "n_runs" runs
  let length ← positive "max_episode_length" maxEpisodeLength
  return ⟨environment, inputCount, actionCount, runs, length, seed⟩

/-- The numbers in a state; a state that is null is one missing number. -/
def stateVector (state : Value) : Value :=
  match state with
  | .null => .list [.null]
  | v => v

/-- The action that a program takes in a state. A state that cannot be read is refused before the program is run. -/
def chooseAction (c : Control σ) (program : Program) (state : Value) : Scoring σ Nat := do
  let inputs ← Scoring.ofFault (stateVector state).toVector
  let r ← Scoring.execute program (.list (inputs.map .float))
  match r.argmax c.actionCount with
  | best :: _ => return best
  | [] => throw (.fault Fault.indexOutOfRange)

/-- The reward of an episode with at most `limit` further steps. -/
def playOn (c : Control σ) (program : Program) : Nat → Value → Float → Scoring σ Float
  | 0, _, score => return score
  | limit + 1, state, score => do
    let action ← c.chooseAction program state
    let result ← Scoring.onWorld (c.environment.step action)
    let reward ← Scoring.ofFault result.reward.toNumber
    let total := score + reward
    if result.isTerminal then return total else playOn c program limit result.state total

/-- The reward of an episode. -/
def episode (c : Control σ) (program : Program) (seed : Int) : Scoring σ Float := do
  let state ← Scoring.onWorld (c.environment.reset seed)
  c.playOn program c.maxEpisodeLength state 0.0

/-- The rewards of `count` episodes, whose seeds follow each other. -/
def episodes (c : Control σ) (program : Program) : Nat → Int → Scoring σ (List Float)
  | 0, _ => return []
  | count + 1, seed => do
    let score ← c.episode program seed
    let rest ← episodes c program count (seed + 1)
    return score :: rest

/-- The order of rewards: what is not a number comes last. -/
def rewardLe (a b : Float) : Bool := b.isNaN || (!a.isNaN && a ≤ b)

/-- The upper median of rewards. -/
def upperMedian (scores : List Float) : Float := (scores.mergeSort rewardLe).getD (scores.length / 2) 0.0

/-- The score of a program. -/
def evaluate (c : Control σ) (program : Program) : Scoring σ Float := do
  Scoring.onWorld c.environment.make
  let scores ← Scoring.andFinally (c.episodes program c.runs c.seed) (Scoring.onWorld c.environment.close)
  return upperMedian scores

/-- Control as a task. -/
def task (c : Control σ) : Task σ :=
  ⟨"ReinforcementLearningTask", c.inputCount, c.actionCount, fun program => do return .float (← c.evaluate program)⟩

end Control

end RegisterEvolution
