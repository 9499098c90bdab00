import RegisterEvolution.Draw.Generator

/-!
# `Draw.Trace` — generators that remember their choices

`Traced γ` behaves like the generator `γ` and keeps the list of choices made so far. Refused draws leave no trace.
-/

namespace RegisterEvolution

/-- A choice: what was asked for and what was given. -/
inductive Choice where
  | integers (low high result : Int)
  | fraction (result : Float)
  | uniform (low high result : Float)
  | sample (population : Nat) (size : Int) (result : List Nat)

/-- A generator together with the choices it has made. -/
structure Traced (γ : Type) where
  source : γ
  choices : Array Choice

namespace Traced

variable {γ : Type} [Generator γ]

/-- A generator that has made no choice. -/
def ofSource (source : γ) : Traced γ := ⟨source, #[]⟩

/-- The generator with its next state and one more choice. -/
def record (t : Traced γ) (source : γ) (choice : Choice) : Traced γ := ⟨source, t.choices.push choice⟩

instance : Generator (Traced γ) where
  integers low high t :=
    (Generator.integers low high t.source).map fun (n, g) => (n, t.record g (.integers low high n))
  fraction t :=
    let (x, g) := Generator.fraction t.source
    (x, t.record g (.fraction x))
  uniform low high t :=
    let (x, g) := Generator.uniform low high t.source
    (x, t.record g (.uniform low high x))
  sample population size t :=
    (Generator.sample population size t.source).map fun (picked, g) =>
      (picked, t.record g (.sample population size picked))

end Traced

end RegisterEvolution
