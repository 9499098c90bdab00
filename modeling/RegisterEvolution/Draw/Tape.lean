import RegisterEvolution.Draw.Generator

/-!
# `Draw.Tape` — choices read off a given list

A tape holds integers that are used up one per choice and start again at the end. Each choice reduces the next
integer to its range, so every sequence of choices can be scripted.
-/

namespace RegisterEvolution

/-- The integers of a tape, and how many choices have been made. -/
structure Tape where
  marks : Array Int
  position : Nat
  deriving Repr

namespace Tape

/-- A tape at its beginning. -/
def ofList (marks : List Int) : Tape := ⟨marks.toArray, 0⟩

/-- The next integer; an empty tape holds zeros. -/
def next (t : Tape) : Int × Tape :=
  (t.marks.getD (t.position % t.marks.size) 0, { t with position := t.position + 1 })

/-- A number of thousandths below one. -/
def thousandths (mark : Int) : Float := Decimal.ofInt (mark % 1000) / 1000.0

/-- An integer in `[low, high)`. -/
def integers (low high : Int) (t : Tape) : Option (Int × Tape) :=
  if high ≤ low then none
  else
    let (mark, t') := t.next
    some (low + mark % (high - low), t')

/-- A number in `[0, 1)`. -/
def fraction (t : Tape) : Float × Tape :=
  let (mark, t') := t.next
  (thousandths mark, t')

/-- A number between two bounds. -/
def uniform (low high : Float) (t : Tape) : Float × Tape :=
  let (mark, t') := t.next
  (low + (high - low) * thousandths mark, t')

/-- `size` elements of `rest`, each taken out before the next is picked. -/
def takeFrom (rest : List Nat) : Nat → Tape → List Nat × Tape
  | 0, t => ([], t)
  | size + 1, t =>
    let (mark, t') := t.next
    let i := (mark % rest.length).toNat
    let (picked, t'') := takeFrom (rest.eraseIdx i) size t'
    (rest.getD i 0 :: picked, t'')

/-- `size` different indices below `population`. -/
def sample (population : Nat) (size : Int) (t : Tape) : Option (List Nat × Tape) :=
  if (population : Int) < size then none else some (takeFrom (List.range population) size.toNat t)

instance : Generator Tape := ⟨integers, fraction, uniform, sample⟩

end Tape

end RegisterEvolution
