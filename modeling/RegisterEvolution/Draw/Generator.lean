import RegisterEvolution.Error

/-!
# `Draw.Generator` — sources of random choices

Every random choice goes through a `Generator`: a state from which integers, fractions, numbers of an interval and
samples without repetition are drawn. What a generator promises is the class `Generator.Honest`; nothing else about it
is relied on.

`Draw γ α` is a computation that draws from a generator with states `γ`. A draw from an empty range fails and leaves
the state as it is.
-/

namespace RegisterEvolution

/-- A source of random choices with states `γ`. -/
class Generator (γ : Type) where
  /-- An integer in `[low, high)`; none when that is empty. -/
  integers (low high : Int) : γ → Option (Int × γ)
  /-- A number in `[0, 1)`. -/
  fraction : γ → Float × γ
  /-- A number between two bounds. -/
  uniform (low high : Float) : γ → Float × γ
  /-- `size` different indices below `population`, in random order; none when there are not as many. -/
  sample (population : Nat) (size : Int) : γ → Option (List Nat × γ)

/-- What a generator promises. -/
class Generator.Honest (γ : Type) [Generator γ] : Prop where
  integers_mem : ∀ (low high : Int) (g : γ), low < high →
    ∃ n g', Generator.integers low high g = some (n, g') ∧ low ≤ n ∧ n < high
  fraction_mem : ∀ g : γ, 0.0 ≤ (Generator.fraction g).1 ∧ (Generator.fraction g).1 < 1.0
  sample_mem : ∀ (population size : Nat) (g : γ), size ≤ population →
    ∃ picked g', Generator.sample population size g = some (picked, g') ∧
      picked.length = size ∧ picked.Nodup ∧ ∀ i ∈ picked, i < population

/-- A computation that draws from a generator. -/
abbrev Draw (γ : Type) (α : Type) := EStateM Error γ α

namespace Draw

variable {γ : Type} [Generator γ]

/-- The fault of drawing from an empty range. -/
def emptyRange : Fault := ⟨.badValue, "low >= high"⟩

/-- The fault of a sample that is larger than what it is taken from. -/
def sampleTooLarge : Fault := ⟨.badValue, "Cannot take a larger sample than population when replace is False"⟩

/-- An integer in `[low, high)`. -/
def integers (low high : Int) : Draw γ Int := fun g =>
  match Generator.integers low high g with
  | some (n, g') => .ok n g'
  | none => .error (.fault emptyRange) g

/-- An integer in `[0, limit)`. -/
def below (limit : Int) : Draw γ Int := integers 0 limit

/-- An index below `size`. -/
def index (size : Nat) : Draw γ Nat := do return (← below size).toNat

/-- An integer in `[0, limit)` for a limit that must be known. -/
def belowKnown (limit : Option Int) : Draw γ Int :=
  match limit with
  | some n => below n
  | none => throw (.fault ⟨.wrongType, "an open count has no range"⟩)

/-- A number in `[0, 1)`. -/
def fraction : Draw γ Float := fun g => let (x, g') := Generator.fraction g; .ok x g'

/-- A number between two bounds. -/
def uniform (low high : Float) : Draw γ Float := fun g => let (x, g') := Generator.uniform low high g; .ok x g'

/-- `size` different indices below `population`. -/
def sample (population : Nat) (size : Int) : Draw γ (List Nat) := fun g =>
  match Generator.sample population size g with
  | some (picked, g') => .ok picked g'
  | none => .error (.fault sampleTooLarge) g

/-- A random element of a list; an empty list has no range to draw from. -/
def element {α : Type} (items : List α) : Draw γ α := do
  let i ← index items.length
  match items[i]? with
  | some item => return item
  | none => throw (.fault Fault.indexOutOfRange)

end Draw

end RegisterEvolution
