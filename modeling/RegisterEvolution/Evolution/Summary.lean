import RegisterEvolution.Evolution.Population

/-!
# `Evolution.Summary` — the statistics of a generation

* `median`, `mean` — statistics of a list of numbers;
* `Population.summarize` — the statistics of the scored programs and the best of them.
-/

namespace RegisterEvolution

/-! ## Statistics -/

namespace Statistics

/-- The greater of two numbers, the first one if they are equal. -/
def greater (a b : Float) : Float := if a < b then b else a

/-- The smaller of two numbers, the first one if they are equal. -/
def smaller (a b : Float) : Float := if b < a then b else a

/-- The greatest number of a list that is not empty. -/
def maximum (first : Float) (rest : List Float) : Float := rest.foldl greater first

/-- The smallest number of a list that is not empty. -/
def minimum (first : Float) (rest : List Float) : Float := rest.foldl smaller first

/-- The middle number, or the middle between the two middle ones. -/
def median (xs : List Float) : Float :=
  let sorted := xs.mergeSort fun a b => a ≤ b
  let half := xs.length / 2
  if xs.length % 2 = 1 then sorted.getD half 0.0 else (sorted.getD (half - 1) 0.0 + sorted.getD half 0.0) / 2.0

/-- How many sums are kept side by side. -/
def laneCount : Nat := 8

/-- The longest list that is summed up in lanes. -/
def laneLimit : Nat := 128

/-- The sum from left to right. -/
def sumFrom (start : Float) (xs : List Float) : Float := xs.foldl (· + ·) start

/-- Adds whole blocks of numbers to the lanes; answers the lanes and the numbers that are left. -/
def addBlocks : Nat → List Float → List Float → List Float × List Float
  | 0, lanes, xs => (lanes, xs)
  | blocks + 1, lanes, xs => addBlocks blocks (lanes.zipWith (· + ·) (xs.take laneCount)) (xs.drop laneCount)

/-- The sum of neighbours. -/
def sumPairs : List Float → List Float
  | a :: b :: rest => (a + b) :: sumPairs rest
  | xs => xs

/-- The sum of a list of at least `laneCount` numbers in lanes, which are added up in pairs. -/
def sumInLanes (xs : List Float) : Float :=
  let (lanes, rest) := addBlocks (xs.length / laneCount - 1) (xs.take laneCount) (xs.drop laneCount)
  sumFrom ((sumPairs (sumPairs (sumPairs lanes))).headD 0.0) rest

/--
The sum of a list: short lists from left to right, longer ones in lanes, and still longer ones in two parts, the first
of which fills its lanes.
-/
def sum (xs : List Float) : Float :=
  if xs.length < laneCount then sumFrom 0.0 xs
  else if _h : laneLimit < xs.length then
    let size := xs.length / 2 - xs.length / 2 % laneCount
    sum (xs.take size) + sum (xs.drop size)
  else sumInLanes xs
termination_by xs.length
decreasing_by
  · simp only [laneLimit, laneCount, List.length_take] at *
    omega
  · simp only [laneLimit, laneCount, List.length_drop] at *
    omega

/-- The mean. -/
def mean (xs : List Float) : Float := sum xs / Decimal.ofNat xs.length

end Statistics

/-- The best program of a generation, as reports describe it. -/
structure BestProgram where
  id : Nat
  length : Nat
  fingerprint : String
  listing : String
  deriving Repr

/-- The statistics of a generation; they are not a number when no program is scored. -/
structure Summary where
  generation : Int
  size : Nat
  scored : Nat
  best : Float
  median : Float
  worst : Float
  mean : Float
  bestProgram : Option BestProgram
  deriving Repr

namespace Summary

/-- The width of listings in summaries. -/
def listingWidth : Int := 200

/-- The names of the columns of a table of summaries. -/
def columns : List String :=
  ["generation", "size", "n_scored", "best", "median", "worst", "mean", "best_program_id", "best_length",
   "best_fingerprint", "best_program"]

end Summary

namespace Population

/-- The description of a program. -/
def describe (program : Program) : Except Fault BestProgram := do
  return ⟨program.id, program.size, ← program.fingerprint, ← program.listing Summary.listingWidth⟩

/-- The fitness of the programs that have one. -/
def scores (store : Store) (p : Population) : List Float :=
  (p.fitnessValues store).filter fun x => !x.isNaN

/-- The statistics of a population. -/
def summarize (store : Store) (p : Population) : Except Fault Summary := do
  let scores := p.scores store
  let bestProgram ← match p.best? store with
    | some program => (describe program).map some
    | none => pure none
  let undefined : Float := 0.0 / 0.0
  return {
    generation := p.generation
    size := p.size
    scored := scores.length
    best := match scores with | [] => undefined | x :: rest => Statistics.maximum x rest
    median := if scores.isEmpty then undefined else Statistics.median scores
    worst := match scores with | [] => undefined | x :: rest => Statistics.minimum x rest
    mean := if scores.isEmpty then undefined else Statistics.mean scores
    bestProgram := bestProgram }

end Population

end RegisterEvolution
