import RegisterEvolution.Decimal.Shortest

/-!
# `Decimal.Layout` — binary64 numbers as text

A `Layout` collects the decisions of one output format; `Layout.write` applies them to the digits that
`Decimal.Shortest` selects.

* `Layout.plain` — reports and messages: the shortest digits, positional from `1e-4` up to below `1e16`;
* `Layout.json` — the same digits with the spellings that JSON readers know for the special values;
* `general` — a given number of significant digits without trailing zeros;
* `fixed`, `scientific` — a given number of places.
-/

namespace RegisterEvolution.Decimal

/-- The decisions of an output format for floating-point numbers in natural form. -/
structure Layout where
  notANumber : String
  infinity : String
  /-- The smallest leading exponent that is written positionally. -/
  lowest : Int
  /-- The smallest leading exponent above the positional range. -/
  limit : Int
  /-- Whether a whole number keeps a zero after the point. -/
  keepsPoint : Bool
  deriving Repr

/-- Reports write whole numbers with `.0` and change to an exponent at `1e16` and below `1e-4`. -/
def Layout.plain : Layout := ⟨"nan", "inf", -4, 16, true⟩

/-- JSON text uses the same digits and spells the special values out. -/
def Layout.json : Layout := { Layout.plain with notANumber := "NaN", infinity := "Infinity" }

/-- The decimal digits of `n`, most significant first. -/
def digitsOf (n : Nat) : List Char := n.repr.toList

/-- `n` with at least `width` digits. -/
def padded (width n : Nat) : List Char :=
  let digits := digitsOf n
  List.replicate (width - digits.length) '0' ++ digits

/-- `digits` without the zeros at its end. -/
def dropTrailingZeros (digits : List Char) : List Char :=
  (digits.reverse.dropWhile (· == '0')).reverse

/-- An exponent part: the mark, a sign, and at least two digits. -/
def exponentPart (mark : Char) (exponent : Int) : List Char :=
  mark :: (if exponent < 0 then '-' else '+') :: padded 2 exponent.natAbs

/-- `whole.fraction`, without the point when there is no fraction. -/
def pointed (whole fraction : List Char) : List Char :=
  if fraction.isEmpty then whole else whole ++ '.' :: fraction

/-- Digits in positional notation, where `leading` is the exponent of the first one. -/
def positional (keepsPoint : Bool) (digits : List Char) (leading : Int) : List Char :=
  if leading < 0 then
    '0' :: '.' :: (List.replicate (-leading - 1).toNat '0' ++ digits)
  else
    let size := leading.toNat + 1
    let whole := digits.take size ++ List.replicate (size - digits.length) '0'
    let fraction := digits.drop size
    pointed whole (if fraction.isEmpty && keepsPoint then ['0'] else fraction)

/-- Digits with one before the point and an exponent. -/
def withExponent (digits : List Char) (leading : Int) : List Char :=
  pointed (digits.take 1) (digits.drop 1) ++ exponentPart 'e' leading

/-- Digits whose first has exponent `leading`, as the layout wants them. -/
def Layout.place (layout : Layout) (digits : List Char) (leading : Int) : List Char :=
  if layout.lowest ≤ leading ∧ leading < layout.limit then
    positional layout.keepsPoint digits leading
  else withExponent digits leading

/-- A minus sign in front of `text` when asked for. -/
def signed (negative : Bool) (text : List Char) : List Char :=
  if negative then '-' :: text else text

/-- The significant digits of `s` and the exponent of the first of them. -/
def Scientific.significant (s : Scientific) : List Char × Int :=
  let digits := digitsOf s.coefficient
  (dropTrailingZeros digits, s.exponent + digits.length - 1)

/-- `x` in natural form: the shortest digits that read back as `x`. -/
def Layout.write (layout : Layout) (x : Float) : String :=
  String.ofList <| match Shape.ofFloat x with
    | .notANumber => layout.notANumber.toList
    | .infinite negative => signed negative layout.infinity.toList
    | .finite ⟨negative, 0, _⟩ => signed negative (layout.place ['0'] 0)
    | .finite ⟨negative, mantissa, exponent⟩ =>
      let (digits, leading) := (shortest mantissa exponent).significant
      signed negative (layout.place digits leading)

/-- The text of a special value, or what `finish` makes of the sign and magnitude of a finite one. -/
def writeFinite (x : Float) (finish : Bool → Nat → Int → List Char) : String :=
  String.ofList <| match Shape.ofFloat x with
    | .notANumber => "nan".toList
    | .infinite negative => signed negative "inf".toList
    | .finite ⟨negative, mantissa, exponent⟩ => finish negative mantissa exponent

/--
`x` with `precision` significant digits (at least one), trailing zeros dropped unless `keepsZeros`; an exponent is
written when the leading one is below `-4` or not below `precision`.
-/
def generalWith (keepsZeros : Bool) (precision : Nat) (x : Float) : String :=
  let count := max precision 1
  let layout : Layout := ⟨"nan", "inf", -4, count, false⟩
  let shown (digits : List Char) : List Char :=
    if keepsZeros then digits ++ List.replicate (count - digits.length) '0' else digits
  writeFinite x fun negative mantissa exponent =>
    if mantissa = 0 then signed negative (layout.place (shown ['0']) 0)
    else
      let (digits, leading) := (rounded (Ratio.ofPower mantissa exponent) count).significant
      signed negative (layout.place (shown digits) leading)

/-- `x` with `precision` significant digits and no trailing zeros. -/
def general (precision : Nat) (x : Float) : String := generalWith false precision x

/-- `x` with `places` digits after the point, the nearest such number, a tie going to the even digit. -/
def fixed (places : Nat) (x : Float) : String :=
  writeFinite x fun negative mantissa exponent =>
    let scaled := ((Ratio.ofPower mantissa exponent).shift places).nearest
    let digits := padded (places + 1) scaled
    signed negative (pointed (digits.take (digits.length - places)) (digits.drop (digits.length - places)))

/-- `x` with one digit before the point, `places` after it, and an exponent. -/
def scientific (places : Nat) (x : Float) : String :=
  writeFinite x fun negative mantissa exponent =>
    if mantissa = 0 then
      signed negative (withExponent (List.replicate (places + 1) '0') 0)
    else
      let s := rounded (Ratio.ofPower mantissa exponent) (places + 1)
      let digits := digitsOf s.coefficient
      signed negative (withExponent (digits.take (places + 1)) (s.exponent + digits.length - 1))

end RegisterEvolution.Decimal

namespace RegisterEvolution

/-- The text of `x` in reports and messages. -/
def floatText (x : Float) : String := Decimal.Layout.plain.write x

end RegisterEvolution
