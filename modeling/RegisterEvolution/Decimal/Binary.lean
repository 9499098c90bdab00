/-!
# `Decimal.Binary` — binary64 numbers as exact dyadic rationals

A binary64 number is not a number, infinite, or `±mantissa · 2^exponent`. Everything that prints or rounds a
`Float` works on that exact form, in integers.

* `Shape`, `Shape.ofFloat` — the three cases of a binary64 bit pattern;
* `Dyadic.floor`, `Dyadic.ceil`, `Dyadic.truncate` — exact rounding of a finite number to an integer;
* `ofInt?` — the nearest binary64 number of an integer, absent when the integer is out of range;
* `quotient` — the nearest binary64 number of a quotient of natural numbers of any size.
-/

namespace RegisterEvolution.Decimal

/-- The finite number `(-1)^negative · mantissa · 2^exponent`. -/
structure Dyadic where
  negative : Bool
  mantissa : Nat
  exponent : Int
  deriving Repr, DecidableEq

/-- What a binary64 bit pattern stands for. -/
inductive Shape where
  | notANumber
  | infinite (negative : Bool)
  | finite (value : Dyadic)
  deriving Repr, DecidableEq

/-- The case of `x`, read off its sign bit, its eleven exponent bits and its fifty-two mantissa bits. -/
def Shape.ofFloat (x : Float) : Shape :=
  let bits := x.toBits.toNat
  let negative := decide (Nat.pow 2 63 ≤ bits)
  let exponent : Nat := bits / Nat.pow 2 52 % Nat.pow 2 11
  let mantissa : Nat := bits % Nat.pow 2 52
  if exponent = 2047 then
    if mantissa = 0 then .infinite negative else .notANumber
  else if exponent = 0 then
    .finite ⟨negative, mantissa, -1074⟩
  else
    .finite ⟨negative, mantissa + Nat.pow 2 52, (exponent : Int) - 1075⟩

/-- The signed mantissa. -/
def Dyadic.signed (d : Dyadic) : Int :=
  if d.negative then -(d.mantissa : Int) else d.mantissa

/-- The largest integer that is not above `d`. -/
def Dyadic.floor (d : Dyadic) : Int :=
  if 0 ≤ d.exponent then d.signed * Int.pow 2 d.exponent.toNat
  else Int.fdiv d.signed (Int.pow 2 (-d.exponent).toNat)

/-- The smallest integer that is not below `d`. -/
def Dyadic.ceil (d : Dyadic) : Int :=
  -({ d with negative := !d.negative } : Dyadic).floor

/-- The integer part of `d`, rounded toward zero. -/
def Dyadic.truncate (d : Dyadic) : Int :=
  if 0 ≤ d.exponent then d.signed * Int.pow 2 d.exponent.toNat
  else Int.tdiv d.signed (Int.pow 2 (-d.exponent).toNat)

/-- The binary64 number nearest to `n`, ties to the even mantissa. -/
def ofNat (n : Nat) : Float := Float.ofScientific n false 0

/-- The binary64 number nearest to `n`, or nothing when `n` rounds beyond the largest finite one. -/
def ofInt? (n : Int) : Option Float :=
  let magnitude := ofNat n.natAbs
  if magnitude.isFinite then some (if n < 0 then -magnitude else magnitude) else none

/-- The binary64 number nearest to `n`, infinite when `n` is out of range. -/
def ofInt (n : Int) : Float :=
  let magnitude := ofNat n.natAbs
  if n < 0 then -magnitude else magnitude

/--
The binary64 number nearest to `m / n`, ties to the even mantissa. The quotient is formed before anything is rounded, so
that it does not matter whether there are numbers for `m` and `n` themselves.
-/
def quotient (m n : Nat) : Float :=
  if hm : 0 < m then
    if hn : 0 < n then
      .ofModel (.pack (.div .binary64 (.finite .positive m 0 hm) (.finite .positive n 0 hn)))
    else 0.0
  else 0.0

end RegisterEvolution.Decimal
