import RegisterEvolution.Decimal.Binary
import RegisterEvolution.Text.Numeral

/-!
# `Decimal.Reader` — numbers read from text

The grammar of numbers in configuration values and data files: white space around the number, an optional sign,
digits with single underscores between them, and for floating-point numbers a fraction, an exponent, or one of the
words `inf`, `infinity` and `nan` in any case.
-/

namespace RegisterEvolution.Decimal

open Text

/-- An optional sign in front of `cs`: whether it is a minus, and the rest. -/
def takeSign : List Char → Bool × List Char
  | '-' :: rest => (true, rest)
  | '+' :: rest => (false, rest)
  | cs => (false, cs)

/-- Integers of more digits than this are neither read nor written. -/
@[irreducible] def integerDigitLimit : Nat := 4300

/-- The integer that `s` denotes. -/
def readInt? (s : String) : Option Int :=
  let (negative, body) := takeSign (trimBy isNumberSpace s.toList)
  match takeDigits body with
  | ([], _) => none
  | (digits, []) =>
    if integerDigitLimit < digits.length then none
    else some (if negative then -(ofDigits digits : Int) else ofDigits digits)
  | (_, _ :: _) => none

/--
`digits · 10^exponent` as the nearest binary64 number. A value whose leading digit lies beyond `10^310` or below
`10^(-400)` is decided without forming the power of ten.
-/
def nearestFloat (digits : List Nat) (exponent : Int) : Float :=
  let significant := digits.dropWhile (· == 0)
  let leading := exponent + significant.length
  if significant.isEmpty then 0.0
  else if 310 < leading then 1.0 / 0.0
  else if leading < -400 then 0.0
  else if exponent < 0 then Float.ofScientific (ofDigits significant) true (-exponent).toNat
  else Float.ofScientific (ofDigits significant) false exponent.toNat

/-- An exponent part at the start of `cs`, zero when there is none. -/
def takeExponent? (cs : List Char) : Option (Int × List Char) :=
  match cs with
  | c :: rest =>
    if c = 'e' ∨ c = 'E' then
      let (negative, body) := takeSign rest
      match takeDigits body with
      | ([], _) => none
      | (digits, tail) => some (if negative then -(ofDigits digits : Int) else ofDigits digits, tail)
    else some (0, cs)
  | [] => some (0, [])

/-- The unsigned floating-point number that `cs` denotes, without white space around it. -/
def readMagnitude? (cs : List Char) : Option Float :=
  let word := String.ofList (cs.map Char.toLower)
  if word = "inf" ∨ word = "infinity" then some (1.0 / 0.0)
  else if word = "nan" then some (0.0 / 0.0)
  else
    let (whole, afterWhole) := takeDigits cs
    let (fraction, afterFraction) :=
      match afterWhole with
      | '.' :: rest => takeDigits rest
      | _ => ([], afterWhole)
    if whole.isEmpty && fraction.isEmpty then none
    else
      match takeExponent? afterFraction with
      | some (exponent, []) => some (nearestFloat (whole ++ fraction) (exponent - fraction.length))
      | _ => none

/-- The floating-point number that `s` denotes. -/
def readFloat? (s : String) : Option Float :=
  let (negative, body) := takeSign (trimBy isNumberSpace s.toList)
  (readMagnitude? body).map fun x => if negative then -x else x

end RegisterEvolution.Decimal
