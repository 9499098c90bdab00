import RegisterEvolution.Decimal.Reader
import RegisterEvolution.Value

/-!
# `Format.Yaml.Scalar` — what plain scalars stand for

A scalar without quotation marks is null, a switch, a number or a text, as its spelling says. The spellings are those of
YAML 1.1: a leading zero makes a number octal, colons separate digits in base sixty, and an exponent needs both a point
in front of it and a sign.

Dates are not told apart from text.
-/

namespace RegisterEvolution.Yaml

/-- A word in the three accepted spellings: small, capitalised and in capitals. -/
def spellings (word : String) : List String := [word, word.capitalize, word.map Char.toUpper]

/-- The words for null, besides the tilde. -/
def nullWords : List String := "~" :: spellings "null"

/-- The words for a switch that is on. -/
def trueWords : List String := ["yes", "true", "on"].flatMap spellings

/-- The words for a switch that is off. -/
def falseWords : List String := ["no", "false", "off"].flatMap spellings

/-- The value of a digit in bases up to sixteen. -/
def digitOf (c : Char) : Nat :=
  if c.isDigit then c.toNat - '0'.toNat
  else if 'a' ≤ c then c.toNat - 'a'.toNat + 10
  else c.toNat - 'A'.toNat + 10

/-- The number that digits stand for; underscores between them are left out. -/
def ofDigits (base : Nat) (digits : List Char) : Nat :=
  (digits.filter (· ≠ '_')).foldl (fun n c => base * n + digitOf c) 0

/-- Whether `cs` is not empty and consists of digits and underscores. -/
def isRun (isDigit : Char → Bool) (cs : List Char) : Bool := !cs.isEmpty && cs.all fun c => isDigit c || c = '_'

/-- Whether `cs` is a run of decimal digits that begins with one. -/
def isWhole (cs : List Char) : Bool := cs.head?.any Char.isDigit && isRun Char.isDigit cs

/-- Whether `c` is a hexadecimal digit. -/
def isHex (c : Char) : Bool := c.isDigit || ('a' ≤ c && c ≤ 'f') || ('A' ≤ c && c ≤ 'F')

/-- Whether `cs` is a digit of base sixty: one decimal digit, or two below sixty. -/
def isSixtieth : List Char → Bool
  | [c] => c.isDigit
  | [c, d] => '0' ≤ c && c ≤ '5' && d.isDigit
  | _ => false

/-- The parts of `cs` between colons. -/
def partsOf : List Char → List (List Char)
  | [] => [[]]
  | c :: rest =>
    match partsOf rest with
    | [] => [[c]]
    | part :: parts => if c = ':' then [] :: part :: parts else (c :: part) :: parts

/-- An integer without its sign. -/
def magnitude? (cs : List Char) : Option Nat :=
  match cs with
  | ['0'] => some 0
  | '0' :: 'b' :: digits => if isRun (fun c => c = '0' || c = '1') digits then some (ofDigits 2 digits) else none
  | '0' :: 'x' :: digits => if isRun isHex digits then some (ofDigits 16 digits) else none
  | '0' :: digits => if isRun (fun c => '0' ≤ c && c ≤ '7') digits then some (ofDigits 8 digits) else none
  | _ =>
    match partsOf cs with
    | whole :: sixtieths =>
      if isWhole whole && sixtieths.all isSixtieth then
        some (sixtieths.foldl (fun n part => 60 * n + ofDigits 10 part) (ofDigits 10 whole))
      else none
    | [] => none

/-- An integer. -/
def readInteger? (cs : List Char) : Option Int :=
  let (negative, body) := Decimal.takeSign cs
  (magnitude? body).map fun n => if negative then -(n : Int) else n

/-- Whether `cs` is nothing or an exponent with its sign. -/
def isExponent : List Char → Bool
  | [] => true
  | mark :: sign :: digits =>
    (mark = 'e' || mark = 'E') && (sign = '+' || sign = '-') && !digits.isEmpty && digits.all Char.isDigit
  | _ => false

/-- Whether `cs` is a run of digits and underscores, possibly empty, and then perhaps an exponent. -/
def isFraction (cs : List Char) : Bool := isExponent (cs.dropWhile fun c => c.isDigit || c = '_')

/-- The number that `cs` is written as, with underscores left out. -/
def ofNumeral (cs : List Char) : Option Float := Decimal.readFloat? (String.ofList (cs.filter (· ≠ '_')))

/-- A number in base sixty with a fraction. -/
def ofSixtieths? (cs : List Char) : Option Float := do
  let values ← (partsOf cs).mapM ofNumeral
  let step (sum : Float × Float) (x : Float) : Float × Float := (sum.1 + x * sum.2, sum.2 * 60.0)
  return (values.reverse.foldl step (0.0, 1.0)).1

/-- A floating-point number without its sign. -/
def unsignedReal? (cs : List Char) : Option Float :=
  let (whole, rest) := cs.span (· ≠ '.')
  match rest with
  | '.' :: fraction =>
    match partsOf whole with
    | [_] => if isWhole whole && isFraction fraction then ofNumeral cs else none
    | first :: sixtieths =>
      if isWhole first && sixtieths.all isSixtieth && fraction.all (fun c => c.isDigit || c = '_') then ofSixtieths? cs
      else none
    | [] => none
  | _ => none

/-- A number without digits in front of its point, which has no sign. -/
def bareFraction? (cs : List Char) : Option Float :=
  match cs with
  | '.' :: fraction => if fraction.head?.any Char.isDigit && isFraction fraction then ofNumeral cs else none
  | _ => none

/-- A floating-point number. -/
def readReal? (cs : List Char) : Option Float :=
  let (negative, body) := Decimal.takeSign cs
  let signed (x : Float) : Float := if negative then -x else x
  if [".inf", ".Inf", ".INF"].contains (String.ofList body) then some (signed (1.0 / 0.0))
  else if [".nan", ".NaN", ".NAN"].contains (String.ofList cs) then some (0.0 / 0.0)
  else ((unsignedReal? body).map signed).orElse fun _ => bareFraction? cs

/-- The value of a plain scalar. -/
def resolve (s : String) : Value :=
  let cs := s.toList
  if s = "" || nullWords.contains s then .null
  else if trueWords.contains s then .bool true
  else if falseWords.contains s then .bool false
  else
    match readReal? cs with
    | some x => .float x
    | none =>
      match readInteger? cs with
      | some n => .int n
      | none => .text s

end RegisterEvolution.Yaml
