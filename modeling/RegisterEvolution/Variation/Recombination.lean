import RegisterEvolution.Draw.Generator
import RegisterEvolution.Program.Shape

/-!
# `Variation.Recombination` — children of two instruction sequences

* `onePointChildren` — the tails behind two cut points change places;
* `twoPointChildren` — two segments change places, each cut short so that it fits;
* `recombine` — the same with random cut points or segments.

Bounds are integers: a negative bound counts from the end of a sequence, and bounds beyond it mean its end.
-/

namespace RegisterEvolution

/-- The way in which two parents are recombined. -/
inductive Crossover where
  | onePoint
  | twoPoint
  /-- A setting that names no way. -/
  | unknown (setting : Value)

namespace Crossover

/-- The names of the ways in their customary order. -/
def names : List String := ["one_point", "two_point"]

/-- The way that a setting names. -/
def ofValue : Value → Crossover
  | .text "one_point" => onePoint
  | .text "two_point" => twoPoint
  | v => unknown v

end Crossover

section Slices

variable {α : Type}

/-- The position that a bound means in a list of `length` elements. -/
def boundIn (length : Nat) (bound : Int) : Nat :=
  if bound < 0 then (bound + length).toNat else min bound.toNat length

/-- The elements before a bound. -/
def upTo (xs : List α) (bound : Int) : List α := xs.take (boundIn xs.length bound)

/-- The elements from a bound on. -/
def since (xs : List α) (bound : Int) : List α := xs.drop (boundIn xs.length bound)

/-- The elements between two bounds. -/
def between (xs : List α) (low high : Int) : List α :=
  (xs.take (boundIn xs.length high)).drop (boundIn xs.length low)

end Slices

section Children

variable {α : Type}

/-- The head of each sequence before its cut point, with the tail of the other one, at most `limit` elements. -/
def onePointChildren (a b : List α) (cutA cutB limit : Int) : List α × List α :=
  (upTo (upTo a cutA ++ since b cutB) limit, upTo (upTo b cutB ++ since a cutA) limit)

/-- A segment of a sequence, from its first bound up to before its second. -/
abbrev Segment := Int × Int

/-- A sequence with its segment replaced by the beginning of the other one's, as far as there is room. -/
def spliced (a b : List α) (own other : Segment) (limit : Int) : List α :=
  let room := limit - (a.length - (own.2 - own.1))
  upTo a own.1 ++ between b other.1 (min other.2 (other.1 + room)) ++ since a own.2

/-- The sequences with their segments exchanged. -/
def twoPointChildren (a b : List α) (segmentA segmentB : Segment) (limit : Int) : List α × List α :=
  (spliced a b segmentA segmentB limit, spliced b a segmentB segmentA limit)

end Children

variable {γ : Type} [Generator γ]

/-- A random non-empty segment of a sequence of the given length. -/
def randomSegment (length : Int) : Draw γ Segment := do
  let start ← Draw.integers 0 length
  let stop ← Draw.integers (start + 1) (length + 1)
  return (start, stop)

/-- The children of two sequences at random places, of at most `limit` elements. -/
def recombine {α : Type} (kind : Crossover) (limit : Int) (a b : List α) : Draw γ (List α × List α) :=
  match kind with
  | .onePoint => do
    let cutA ← Draw.integers 1 (a.length + 1)
    let cutB ← Draw.integers 1 (b.length + 1)
    return onePointChildren a b cutA cutB limit
  | .twoPoint => do
    let segmentA ← randomSegment a.length
    let segmentB ← randomSegment b.length
    return twoPointChildren a b segmentA segmentB limit
  | .unknown setting => throw (.unknownCrossover setting)

end RegisterEvolution
