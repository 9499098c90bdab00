/-!
# `Table.Csv` — rows of cells out of comma-separated text

A line is a row of cells between commas; a line of white space is no row. A cell that begins with a double quote goes
on to the closing one, whatever stands between, and a quote inside it is written twice. Blanks in front of a cell are
left out. Lines end in a line feed, a carriage return, or both.

* `Csv.rows?` — the rows of a text, as they are written;
* `Csv.table` — the same with rows of equal width: the first row sets it, and shorter rows are filled up.
-/

namespace RegisterEvolution.Csv

/-- Whether `c` ends a line. -/
def isLineEnd (c : Char) : Bool := c = '\n' || c = '\r'

/-- Whether `c` ends a cell that is not quoted. -/
def endsCell (c : Char) : Bool := c = ',' || isLineEnd c

/-- The inside of a quoted cell and what follows its closing quotation mark. -/
def quotedPart? : List Char → Option (List Char × List Char)
  | [] => none
  | '"' :: '"' :: rest => (quotedPart? rest).map fun (body, tail) => ('"' :: body, tail)
  | '"' :: rest => some ([], rest)
  | c :: rest => (quotedPart? rest).map fun (body, tail) => (c :: body, tail)

/-- A cell and what follows it; none when a quotation mark is not closed. -/
def cell? (cs : List Char) : Option (List Char × List Char) :=
  match cs.dropWhile (· = ' ') with
  | '"' :: rest =>
    (quotedPart? rest).map fun (body, tail) =>
      (body ++ tail.takeWhile (fun c => !endsCell c), tail.dropWhile fun c => !endsCell c)
  | rest => some (rest.takeWhile (fun c => !endsCell c), rest.dropWhile fun c => !endsCell c)

/-- The cells up to the end of a line, and what follows from there. -/
def cells? : Nat → List Char → Option (List String × List Char)
  | 0, _ => none
  | fuel + 1, cs => do
    let (cell, rest) ← cell? cs
    match rest with
    | ',' :: tail => do
      let (cells, last) ← cells? fuel tail
      return (String.ofList cell :: cells, last)
    | _ => return ([String.ofList cell], rest)

/-- The text after a line end. -/
def afterLineEnd : List Char → List Char
  | '\r' :: '\n' :: rest => rest
  | _ :: rest => rest
  | [] => []

/-- The rows of a text. -/
def rowsFrom? : Nat → List Char → Option (List (List String))
  | 0, _ => none
  | fuel + 1, cs =>
    if cs.isEmpty then some []
    else
      let rest := cs.dropWhile fun c => c = ' ' || c = '\t'
      if rest.head?.all isLineEnd then rowsFrom? fuel (afterLineEnd rest)
      else do
        let (row, rest) ← cells? (cs.length + 1) cs
        let rows ← rowsFrom? fuel (afterLineEnd rest)
        return row :: rows

/-- The text without a byte order mark in front. -/
def withoutMark : List Char → List Char
  | '\uFEFF' :: rest => rest
  | cs => cs

/-- The rows of a text; none when a quotation mark is not closed. -/
def rows? (s : String) : Option (List (List String)) := rowsFrom? (s.length + 1) (withoutMark s.toList)

/-- What is wrong with a text that holds no table. -/
inductive TableFlaw where
  | empty
  | brokenRow
  deriving Repr, DecidableEq

/-- A row filled up with empty cells. -/
def padTo (width : Nat) (row : List String) : List String := row ++ List.replicate (width - row.length) ""

/-- The rows of a text, all as wide as the first one. -/
def table (s : String) : Except TableFlaw (List (List String)) :=
  match rows? s with
  | none => .error .brokenRow
  | some [] => .error .empty
  | some (first :: rest) =>
    if rest.all fun row => row.length ≤ first.length then .ok ((first :: rest).map (padTo first.length))
    else .error .brokenRow

end RegisterEvolution.Csv
