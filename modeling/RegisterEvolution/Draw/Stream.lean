import RegisterEvolution.Draw.Generator

/-!
# `Draw.Stream` — a seeded pseudo-random generator

A permuted congruential generator: a 128-bit linear congruential sequence whose halves are combined and rotated into
64-bit outputs. The seed, an integer of any size, is spread over the initial state by hashing.

* `Stream.ofSeed` — the generator of a seed;
* `Stream.next64`, `Stream.next32` — its outputs; a 64-bit output serves two 32-bit requests;
* `Stream.bounded` — unbiased integers in a range, by multiplication and rejection.
-/

namespace RegisterEvolution

/-! ## Seeding -/

namespace Seed

/-- The little-endian 32-bit words of `n`, at most `count` of them. -/
def wordsUpTo : Nat → Nat → List UInt32
  | 0, _ => []
  | count + 1, n => if n = 0 then [] else UInt32.ofNat (n % Nat.pow 2 32) :: wordsUpTo count (n / Nat.pow 2 32)

/-- The little-endian 32-bit words of `n`, at least one. -/
def words (n : Nat) : List UInt32 := if n = 0 then [0] else wordsUpTo (n.log2 / 32 + 1) n

/-- A word mixed with the running hash constant, and the next constant. -/
def scramble (multiplier hash value : UInt32) : UInt32 × UInt32 :=
  let next := hash * multiplier
  let mixed := (value ^^^ hash) * next
  (mixed ^^^ (mixed >>> 16), next)

/-- Two words combined into one. -/
def combine (x y : UInt32) : UInt32 :=
  let r := 0xca01f9dd * x - 0x4973f715 * y
  r ^^^ (r >>> 16)

/-- The pool of four words and the running hash constant. -/
structure Pool where
  words : Array UInt32
  hash : UInt32

/-- The next hashed value of a word. -/
def Pool.absorb (p : Pool) (value : UInt32) : UInt32 × Pool :=
  let (mixed, hash) := scramble 0x931e8875 p.hash value
  (mixed, { p with hash := hash })

/-- A hashed word combined into place `i`. -/
def Pool.stir (p : Pool) (i : Nat) (value : UInt32) : Pool :=
  let (mixed, q) := p.absorb value
  { q with words := q.words.setIfInBounds i (combine (q.words.getD i 0) mixed) }

/-- The pool filled with the first four words. -/
def Pool.fill (entropy : List UInt32) : Pool :=
  (List.range 4).foldl
    (fun p i => let (mixed, q) := p.absorb (entropy.getD i 0); { q with words := q.words.push mixed })
    ⟨#[], 0x43b0d7e5⟩

/-- The pairs of different places. -/
def places : List (Nat × Nat) :=
  (List.range 4).flatMap fun s => ((List.range 4).filter (· != s)).map fun d => (s, d)

/-- The pool with every word spread over every place, then the words beyond the fourth. -/
def pool (entropy : List UInt32) : Pool :=
  let spread := places.foldl (fun p (s, d) => p.stir d (p.words.getD s 0)) (Pool.fill entropy)
  (entropy.drop 4).foldl (fun p w => (List.range 4).foldl (fun q d => q.stir d w) p) spread

/-- Eight words hashed out of the pool. -/
def output (p : Pool) : List UInt32 :=
  ((List.range 8).foldl
    (fun (out, hash) i =>
      let (mixed, next) := scramble 0x58f38ded hash (p.words.getD (i % 4) 0)
      (out ++ [mixed], next))
    (([] : List UInt32), (0x8b51f9dd : UInt32))).1

end Seed

/-! ## The generator -/

/-- The state of the generator; half of a 64-bit output may be left over. -/
structure Stream where
  state : BitVec 128
  increment : BitVec 128
  leftover : Option UInt32

namespace Stream

/-- One step of the congruential sequence. -/
def step (s : Stream) : Stream :=
  { s with state := s.state * 0x2360ED051FC65DA44385DF649FCCF645#128 + s.increment }

/-- Four 32-bit words as one 128-bit number, the higher halves first and the low word of each half first. -/
def assemble : List UInt32 → BitVec 128
  | [a, b, c, d] =>
    BitVec.ofNat 128 ((b.toNat * Nat.pow 2 32 + a.toNat) * Nat.pow 2 64 + (d.toNat * Nat.pow 2 32 + c.toNat))
  | _ => 0#128

/-- The generator of a list of seed words. -/
def ofWords (entropy : List UInt32) : Stream :=
  let out := Seed.output (Seed.pool entropy)
  let increment := (assemble (out.drop 4) <<< 1) ||| 1#128
  let started := step ⟨0#128, increment, none⟩
  step { started with state := started.state + assemble (out.take 4) }

/-- The generator of a seed. -/
def ofSeed (seed : Nat) : Stream := ofWords (Seed.words seed)

/-- The next 64-bit output. -/
def next64 (s : Stream) : UInt64 × Stream :=
  let t := s.step
  let high := t.state >>> 64
  let value := (high ^^^ t.state).setWidth 64
  let turn := (t.state >>> 122).toNat
  (UInt64.ofBitVec (value.rotateRight turn), t)

/-- The next 32-bit output: what is left over from before, or the low half of a 64-bit output. -/
def next32 (s : Stream) : UInt32 × Stream :=
  match s.leftover with
  | some w => (w, { s with leftover := none })
  | none =>
    let (v, t) := s.next64
    (v.toUInt32, { t with leftover := some (v >>> 32).toUInt32 })

/-- How often a product is drawn again before the bias of a further rejection is accepted. -/
def rejectionLimit : Nat := 64

/-- A product of the next output with `range`, drawn again while its low half is under `threshold`. -/
def product (range threshold : Nat) : Nat → Stream → Nat × Stream
  | 0, s =>
    let (w, t) := s.next32
    (w.toNat * range, t)
  | fuel + 1, s =>
    let (w, t) := s.next32
    let m := w.toNat * range
    if m % Nat.pow 2 32 < threshold then product range threshold fuel t else (m, t)

/-- An integer from zero to `last`, both included. -/
def bounded (last : Nat) (s : Stream) : Nat × Stream :=
  if last = 0 then (0, s)
  else
    let range := last + 1
    let (m, t) := product range ((Nat.pow 2 32 - 1 - last) % range) rejectionLimit s
    (m / Nat.pow 2 32, t)

/-- An integer in `[low, high)`. -/
def integers (low high : Int) (s : Stream) : Option (Int × Stream) :=
  if high ≤ low then none
  else
    let (n, t) := s.bounded (high - 1 - low).toNat
    some (low + n, t)

/-- A number in `[0, 1)`: the 53 leading bits of an output. -/
def fraction (s : Stream) : Float × Stream :=
  let (v, t) := s.next64
  (Decimal.ofNat (v >>> 11).toNat / 9007199254740992.0, t)

/-- A number between two bounds. -/
def uniform (low high : Float) (s : Stream) : Float × Stream :=
  let (x, t) := s.fraction
  (low + (high - low) * x, t)

/-- Indices up to each of `lasts`, where one that is already picked is replaced by the last itself. -/
def distinct : List Nat → List Nat → Stream → List Nat × Stream
  | [], picked, s => (picked, s)
  | last :: rest, picked, s =>
    let (v, t) := s.bounded last
    distinct rest (picked ++ [if picked.contains v then last else v]) t

/-- The elements at two places exchanged. -/
def exchange (xs : List Nat) (i j : Nat) : List Nat := (xs.set i (xs.getD j 0)).set j (xs.getD i 0)

/-- The list with the first `i + 1` elements in random order. -/
def shuffle : Nat → List Nat → Stream → List Nat × Stream
  | 0, xs, s => (xs, s)
  | i + 1, xs, s =>
    let (j, t) := s.bounded (i + 1)
    shuffle i (exchange xs (i + 1) j) t

/-- `size` different indices below `population`, in random order. -/
def sample (population : Nat) (size : Int) (s : Stream) : Option (List Nat × Stream) :=
  if size < 0 ∨ (population : Int) < size then none
  else
    let count := size.toNat
    let (picked, t) := distinct ((List.range count).map (population - count + ·)) [] s
    some (shuffle (count - 1) picked t)

instance : Generator Stream := ⟨integers, fraction, uniform, sample⟩

end Stream

end RegisterEvolution
