import RegisterEvolution.Decimal.Layout
import RegisterEvolution.Decimal.Reader

/-!
# `Table.Column` — columns of a table and the type of their cells

The cells of a column have one type, which is the first of these that all of them fit: integers, numbers, switches,
text. Some words mean that a cell is missing. Integers leave no room for missing cells, so a column of integers with a
hole is a column of numbers.

* `Column.ofCells` — the column that cells of text make;
* `Column.keep` — the column without some of its rows, of the same type;
* `Column.numbers?`, `Column.texts` — the cells as numbers and as text.
-/

namespace RegisterEvolution

/-- A column of cells of one type. -/
inductive Column where
  | integers (cells : List Int)
  /-- Numbers; missing cells are not a number. -/
  | reals (cells : List Float)
  | switches (cells : List (Option Bool))
  | texts (cells : List (Option String))
  deriving Repr

namespace Column

/-! ## Cells -/

/-- The words that mean that a cell is missing. -/
def missingWords : List String :=
  ["", "#N/A", "#N/A N/A", "#NA", "-1.#IND", "-1.#QNAN", "-NaN", "-nan", "1.#IND", "1.#QNAN", "<NA>", "N/A", "NA",
   "NULL", "NaN", "None", "n/a", "nan", "null"]

/-- Whether a cell is missing. -/
def isMissing (cell : String) : Bool := missingWords.contains cell

/-- White space around numbers in cells. -/
def isCellSpace (c : Char) : Bool := c = ' ' || ('\t' ≤ c && c ≤ '\r')

/-- The number that decimal digits stand for. -/
def ofDigits (digits : List Char) : Nat := digits.foldl (fun n c => 10 * n + (c.toNat - '0'.toNat)) 0

/-- Whether the number in a cell has a minus, which also zero may have. -/
def isNegated (cell : String) : Bool := (Decimal.takeSign (Text.trimBy isCellSpace cell.toList)).1

/-- The integer in a cell. -/
def readInteger? (cell : String) : Option Int :=
  let (negative, digits) := Decimal.takeSign (Text.trimBy isCellSpace cell.toList)
  if digits.isEmpty || !digits.all Char.isDigit then none
  else some (if negative then -(ofDigits digits : Int) else ofDigits digits)

/-- As many digits of a number count. -/
def digitLimit : Nat := 17

/-- The greatest power of ten that a number is scaled by in one step. -/
def scaleLimit : Int := 308

/-- A power of ten. -/
def powerOfTen (n : Nat) : Float := Float.ofScientific 1 false n

/-- `x · 10^exponent`, scaled in one step, or in two where one would not do; none when it is out of range. -/
def scaled? (x : Float) (exponent : Int) : Option Float :=
  let y :=
    if 0 < exponent then x * powerOfTen exponent.toNat
    else if exponent < -2 * scaleLimit then 0.0
    else if exponent < -scaleLimit then
      x / powerOfTen (-scaleLimit - exponent).toNat / powerOfTen scaleLimit.toNat
    else x / powerOfTen (-exponent).toNat
  if scaleLimit < exponent || y.isInf then none else some y

/-- The exponent at the end of a number. -/
def exponent? (cs : List Char) : Option Int :=
  match cs with
  | [] => some 0
  | mark :: rest =>
    let (negative, digits) := Decimal.takeSign rest
    if (mark = 'e' || mark = 'E') && !digits.isEmpty && digits.all Char.isDigit && digits.length ≤ digitLimit then
      some (if negative then -(ofDigits digits : Int) else ofDigits digits)
    else none

/--
The number in a cell. Only the first digits count, leading zeros included; they are added up one by one, and the sum
is scaled by a power of ten.
-/
def readDecimal? (cell : String) : Option Float :=
  let (negative, body) := Decimal.takeSign (Text.trimBy isCellSpace cell.toList)
  let (whole, afterWhole) := body.span Char.isDigit
  let (fraction, tail) :=
    match afterWhole with
    | '.' :: rest => rest.span Char.isDigit
    | _ => ([], afterWhole)
  if whole.isEmpty && fraction.isEmpty then none
  else
    let places := fraction.take (digitLimit - whole.length)
    let significant := whole.take digitLimit ++ places
    let sum := significant.foldl (fun x c => x * 10.0 + Decimal.ofNat (c.toNat - '0'.toNat)) 0.0
    match exponent? tail with
    | none => none
    | some e => scaled? (if negative then -sum else sum) (e + (whole.length - digitLimit : Nat) - places.length)

/-- The words for infinity. -/
def infinityWords : List String := ["inf", "infinity"]

/-- A word for infinity, with or without a sign. -/
def readInfinity? (cell : String) : Option Float :=
  let (negative, word) := Decimal.takeSign (cell.toList.map Char.toLower)
  if infinityWords.contains (String.ofList word) then some (if negative then -(1.0 / 0.0) else 1.0 / 0.0) else none

/-- The number in a cell, or an infinity. -/
def readReal? (cell : String) : Option Float := (readDecimal? cell).orElse fun _ => readInfinity? cell

/-- The switch in a cell. -/
def readSwitch? (cell : String) : Option Bool :=
  match cell.toLower with
  | "true" => some true
  | "false" => some false
  | _ => none

/-! ## Types -/

/-- Integers from here on have no room in a column, not even without sign. -/
def integerLimit : Int := Nat.pow 2 64

/-- Integers from here on have room in a column only where none is missing or written with a minus. -/
def signedLimit : Int := Nat.pow 2 63

/-- Whether integers have room in a column together, some of its cells being missing or written with a minus, or not. -/
def fitTogether (hasMissing hasNegated : Bool) (ns : List Int) : Bool :=
  ns.all (fun n => -signedLimit ≤ n && n < signedLimit) ||
    (!hasMissing && !hasNegated && ns.all fun n => n < integerLimit)

/-- Whether integers that have no room together stay as they are written, which some of them have room for by itself. -/
def stayWritten (ns : List Int) : Bool := ns.any (fun n => signedLimit ≤ n) && ns.all fun n => n < integerLimit

/-- A cell read in one way, a missing one as missing. -/
def readOr? {α : Type} (read : String → Option α) (cell : String) : Option (Option α) :=
  if isMissing cell then some none else (read cell).map some

/-- The column of integers that cells make; integers that have no room together are text, perhaps missing ones as
    well. -/
def integers? (cells : List String) : Option Column := do
  let ns ← cells.mapM (readOr? readInteger?)
  let present := ns.filterMap id
  let hasMissing := present.length < cells.length
  if !fitTogether hasMissing (cells.any isNegated) present then
    return texts (cells.map fun cell => if isMissing cell && !stayWritten present then none else some cell)
  else if hasMissing then
    return reals (ns.map fun n => (n.map Decimal.ofInt).getD (0.0 / 0.0))
  else return integers present

/-- The column of numbers that cells make. -/
def reals? (cells : List String) : Option Column := do
  let xs ← cells.mapM (readOr? readReal?)
  return reals (xs.map fun x => x.getD (0.0 / 0.0))

/-- The column of switches that cells make. -/
def switches? (cells : List String) : Option Column := do return switches (← cells.mapM (readOr? readSwitch?))

/-- The column that cells of text make. -/
def ofCells (cells : List String) : Column :=
  ((integers? cells).orElse fun _ => (reals? cells).orElse fun _ => switches? cells).getD
    (texts (cells.map fun cell => if isMissing cell then none else some cell))

/-! ## Views -/

/-- Which cells are missing. -/
def missing : Column → List Bool
  | integers cells => cells.map fun _ => false
  | reals cells => cells.map Float.isNaN
  | switches cells => cells.map Option.isNone
  | texts cells => cells.map Option.isNone

/-- The elements whose mark is set. -/
def pick {α : Type} (marks : List Bool) (xs : List α) : List α :=
  (marks.zip xs).filterMap fun (mark, x) => if mark then some x else none

/-- The column with only the rows whose mark is set. -/
def keep (marks : List Bool) : Column → Column
  | integers cells => integers (pick marks cells)
  | reals cells => reals (pick marks cells)
  | switches cells => switches (pick marks cells)
  | texts cells => texts (pick marks cells)

/-- The cells as numbers; none when a text is no number. -/
def numbers? : Column → Option (List Float)
  | integers cells => some (cells.map Decimal.ofInt)
  | reals cells => some cells
  | switches cells => some (cells.map fun cell => (cell.map fun b => if b then 1.0 else 0.0).getD (0.0 / 0.0))
  | texts cells => cells.mapM fun cell =>
    match cell with
    | none => some (0.0 / 0.0)
    | some s => Decimal.readFloat? s

/-- What missing cells are in text. -/
def missingText : String := "nan"

/-- The cells as text without white space around it. -/
def cellTexts : Column → List String
  | integers cells => cells.map fun n => toString n
  | reals cells => cells.map floatText
  | switches cells => cells.map fun cell => (cell.map fun b => if b then "True" else "False").getD missingText
  | texts cells => cells.map fun cell => (cell.map Text.strip).getD missingText

end Column

end RegisterEvolution
