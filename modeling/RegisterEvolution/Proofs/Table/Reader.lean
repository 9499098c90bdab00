import RegisterEvolution.Proofs.Table.Numeric
import RegisterEvolution.Table.Reader

/-!
# `Proofs.Table.Reader` — what is relied upon of a reader of tables

Which column some cells make is up to the reader. A few things about readers are documented, and more than these is not
used of any: an empty cell is a missing one, integers stay integers unless one of them is missing, words make text. Long
tables may be read in pieces of which each has types of its own, so a limit stands for the rows of one piece.

* `TableReader.AddsBlankRow`, `Table.AddsBlank` — a line of separators in a text, and a row of empty cells in a table;
* `TableReader.ReadsBlanks` — a reader that reads the one as the other, and leaves gaps in columns;
* `TableReader.InfersTypes` — a reader that tells integers, numbers and words.
-/

namespace RegisterEvolution

namespace Table

/-- The width of a table is that of its first row. -/
def width (rows : List (List String)) : Nat := (rows.headD []).length

/-- A row of empty cells is added to a table, below its first row. -/
def AddsBlank (rows rows' : List (List String)) : Prop :=
  ∃ above below, above ≠ [] ∧ rows = above ++ below ∧ rows' = above ++ List.replicate (width rows) "" :: below

end Table

namespace TableReader

open Column

/-- What ends a line. -/
def lineEnds : List String := ["\n", "\r", "\r\n"]

/-- A line of separators between as many empty cells. -/
def blankLine (width : Nat) : String := String.ofList (List.replicate (width - 1) ',')

variable (reader : TableReader)

/-- A line of separators is added somewhere after the first row of a text, as wide as this is. -/
inductive AddsBlankRow : String → String → Prop
  /-- Between two lines, or between the last line end and the end of the text. -/
  | between {above lineEnd lineEnd' below : String} {first : List String} {others : List (List String)}
      (rows : reader.cut above = .ok (first :: others)) (ends : lineEnd ∈ lineEnds) (ends' : lineEnd' ∈ lineEnds) :
    AddsBlankRow (above ++ lineEnd ++ below) (above ++ lineEnd ++ blankLine first.length ++ lineEnd' ++ below)
  /-- At the end of a text without a line end there. -/
  | afterLast {above lineEnd : String} {first : List String} {others : List (List String)}
      (rows : reader.cut above = .ok (first :: others)) (ends : lineEnd ∈ lineEnds) :
    AddsBlankRow above (above ++ lineEnd ++ blankLine first.length)
  /-- At the end of a text with a line end there, but without one more. -/
  | last {above lineEnd : String} {first : List String} {others : List (List String)}
      (rows : reader.cut above = .ok (first :: others)) (ends : lineEnd ∈ lineEnds) :
    AddsBlankRow (above ++ lineEnd) (above ++ lineEnd ++ blankLine first.length)

/-- What is relied upon of a reader where rows of empty cells are concerned, in tables of `limit` rows at most. -/
structure ReadsBlanks (limit : Nat) : Prop where
  /-- A column has as many cells as it is made of. -/
  aligned (cells : List String) : (reader.infer cells).missing.length = cells.length
  /-- A line of separators is a row of empty cells. -/
  blankRow {s t : String} {rows : List (List String)} (added : reader.AddsBlankRow s t) (read : reader.cut s = .ok rows)
    (wide : 2 ≤ Table.width rows) : ∃ rows', reader.cut t = .ok rows' ∧ Table.AddsBlank rows rows'
  /-- An empty cell is a missing one. Integers with room beside it become numbers, and all else stays as it is. -/
  emptyCell {above below : List String} (top : above ≠ []) (short : (above ++ "" :: below).length ≤ limit)
      (room : ∀ cell ∈ above ++ below, HasRoom cell) :
    reader.infer (above ++ "" :: below) = (reader.infer (above ++ below)).withGap above.length

/-- What is relied upon of a reader about the types of columns, of `limit` cells at most. -/
structure InfersTypes (limit : Nat) : Prop where
  /-- A column has as many cells as it is made of. -/
  aligned (cells : List String) : (reader.infer cells).missing.length = cells.length
  /-- Cells that are all numbers can be used as numbers, and none of them is missing. -/
  numeric {cells : List String} (short : cells.length ≤ limit) (numbers : ∀ cell ∈ cells, IsNumeric cell) :
    (∃ xs, (reader.infer cells).numbers? = some xs) ∧ true ∉ (reader.infer cells).missing
  /-- Integers with room for all of them are integers. -/
  integers {cells : List String} {ns : List Int} (nonempty : cells ≠ []) (short : cells.length ≤ limit)
      (room : ∀ cell ∈ cells, HasRoom cell) (read : cells.mapM readInteger? = some ns) :
    reader.infer cells = .integers ns
  /-- One word makes all other cells text, but for those that are missing. -/
  words {cells : List String} {word : String} (short : cells.length ≤ limit) (room : ∀ cell ∈ cells, HasRoom cell)
      (among : word ∈ cells) (isWord : IsWord word) :
    reader.infer cells = .texts (cells.map fun cell => if isMissing cell then none else some cell)

end TableReader

end RegisterEvolution
