import RegisterEvolution.Decimal.Binary

/-!
# `Decimal.Shortest` — the decimal digits of a binary64 number

A positive number `numerator / denominator` is written as `digits · 10^exponent`. Two selections are made here,
both in exact integer arithmetic:

* `shortest` — the fewest digits that still read back as the same binary64 number, and of those the digits
  nearest to it, a tie going to the even last digit;
* `rounded` — a fixed number of digits, the nearest ones, a tie going to the even last digit.

The layout of the digits on a line is `Decimal.Layout`'s business.
-/

namespace RegisterEvolution.Decimal

/-- The number `coefficient · 10^exponent`. -/
structure Scientific where
  coefficient : Nat
  exponent : Int
  deriving Repr, DecidableEq

/-- A positive rational number. -/
structure Ratio where
  numerator : Nat
  denominator : Nat
  deriving Repr, DecidableEq

/-- `r · 10^k`. -/
def Ratio.shift (r : Ratio) (k : Int) : Ratio :=
  if 0 ≤ k then ⟨r.numerator * Nat.pow 10 k.toNat, r.denominator⟩
  else ⟨r.numerator, r.denominator * Nat.pow 10 (-k).toNat⟩

/-- The integer nearest to `r`, a tie going to the even one. -/
def Ratio.nearest (r : Ratio) : Nat :=
  let whole := r.numerator / r.denominator
  let twice := 2 * (r.numerator % r.denominator)
  if twice < r.denominator then whole
  else if r.denominator < twice then whole + 1
  else if whole % 2 = 0 then whole else whole + 1

/-- How many decimal digits `n` has; zero has one. -/
def digitCount (n : Nat) : Nat := n.repr.length

/-- The exponent of the leading decimal digit of a positive `r`: the `e` with `10^e ≤ r < 10^(e+1)`. -/
def Ratio.leading (r : Ratio) : Int :=
  let guess : Int := (digitCount r.numerator : Int) - digitCount r.denominator
  let scaled := r.shift (-guess)
  if scaled.denominator ≤ scaled.numerator then guess else guess - 1

/-- `mantissa · 2^exponent` as a rational number. -/
def Ratio.ofPower (mantissa : Nat) (exponent : Int) : Ratio :=
  if 0 ≤ exponent then ⟨mantissa * Nat.pow 2 exponent.toNat, 1⟩ else ⟨mantissa, Nat.pow 2 (-exponent).toNat⟩

/--
The numbers that round to one binary64 number, as an interval around it on a common denominator. The ends belong
to it exactly when the number's mantissa is even.
-/
structure Rounding where
  low : Nat
  value : Nat
  high : Nat
  denominator : Nat
  closed : Bool
  deriving Repr

/-- The rounding interval of `mantissa · 2^exponent`; below a power of two the gap is half as wide. -/
def Rounding.ofPower (mantissa : Nat) (exponent : Int) : Rounding :=
  let below := if mantissa = Nat.pow 2 52 ∧ -1074 < exponent then 1 else 2
  let unit := Ratio.ofPower 1 (exponent - 2)
  { low := (4 * mantissa - below) * unit.numerator
    value := 4 * mantissa * unit.numerator
    high := (4 * mantissa + 2) * unit.numerator
    denominator := unit.denominator
    closed := mantissa % 2 = 0 }

/-- Whether `s` lies in the interval. -/
def Rounding.contains (i : Rounding) (s : Scientific) : Bool :=
  let point := (Ratio.mk s.coefficient 1).shift s.exponent
  let scaled := point.numerator * i.denominator
  let low := i.low * point.denominator
  let high := i.high * point.denominator
  if i.closed then decide (low ≤ scaled ∧ scaled ≤ high) else decide (low < scaled ∧ scaled < high)

/--
The neighbour of the interval's value with `count` digits that lies in it; of two the nearer one, and of two equally
near ones the even one.
-/
def Rounding.hit? (i : Rounding) (leading : Int) (count : Nat) : Option Scientific :=
  let exponent := leading - count + 1
  let scaled := (Ratio.mk i.value i.denominator).shift (-exponent)
  let under := scaled.numerator / scaled.denominator
  let lower : Scientific := ⟨under, exponent⟩
  let upper : Scientific := ⟨under + 1, exponent⟩
  match i.contains lower, i.contains upper with
  | true, true => some ⟨scaled.nearest, exponent⟩
  | true, false => some lower
  | false, true => some upper
  | false, false => none

/-- The fewest digits, at most seventeen, whose value rounds to `mantissa · 2^exponent`. -/
def shortest (mantissa : Nat) (exponent : Int) : Scientific :=
  let interval := Rounding.ofPower mantissa exponent
  let leading := (Ratio.mk interval.value interval.denominator).leading
  let counts := (List.range 17).map (· + 1)
  (counts.findSome? (interval.hit? leading)).getD ⟨interval.value / interval.denominator, 0⟩

/-- The `count` digits nearest to a positive `r`. -/
def rounded (r : Ratio) (count : Nat) : Scientific :=
  let exponent := r.leading - count + 1
  ⟨(r.shift (-exponent)).nearest, exponent⟩

end RegisterEvolution.Decimal
