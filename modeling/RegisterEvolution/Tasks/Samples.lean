import RegisterEvolution.Error
import RegisterEvolution.Table.Reader

/-!
# `Tasks.Samples` — labelled samples out of a table

A table has one column of labels; all other columns are features. Labels are numbered: by a given list of class
names, by their own value when they are integers, or else in the order of their texts.

* `numberLabels` — the number of every label, and the names of the numbers;
* `readSamples` — the labelled samples in a table, by whatever reader.
-/

namespace RegisterEvolution

/-- The features of something and the number of its class. -/
structure LabelledSample where
  features : List Float
  label : Int
  deriving Repr

/-- Samples with the names of their classes. -/
structure SampleSet where
  samples : List LabelledSample
  names : List String
  deriving Repr

/-! ## Labels -/

/-- An increasing list of texts with another text in its place, unless it is there. -/
def insertText (s : String) : List String → List String
  | [] => [s]
  | t :: rest => if s < t then s :: t :: rest else if t < s then t :: insertText s rest else t :: rest

/-- The different texts of a list in increasing order. -/
def distinctTexts (texts : List String) : List String := texts.foldr insertText []

/-- The last position of a name. -/
def lastPosition? (name : String) : List String → Option Nat
  | [] => none
  | n :: rest =>
    match lastPosition? name rest with
    | some i => some (i + 1)
    | none => if n = name then some 0 else none

/-- The number of every text in a list of class names; of several equal names the last one counts. -/
def numberBy (names texts : List String) : Except LoadError (List Nat) :=
  match texts.mapM fun text => lastPosition? text names with
  | some numbers => .ok numbers
  | none => .error (.unknownLabels (distinctTexts (texts.filter fun text => !names.contains text)) names)

/-- The numbers below a bound as texts. -/
def numberNames (count : Nat) : List String := (List.range count).map fun i => toString i

/-- The numbers of the labels in a column, and the names of the numbers. -/
def numberLabels (labels : Column) (classNames : Option (List String)) : Except LoadError (List Nat × List String) :=
  match classNames, labels with
  | some names, _ => do return (← numberBy names labels.cellTexts, names)
  | none, .integers cells =>
    if cells.any (· < 0) then .error .negativeLabel
    else .ok (cells.map Int.toNat, numberNames (cells.foldl max 0 + 1).toNat)
  | none, _ => do
    let names := distinctTexts labels.cellTexts
    return (← numberBy names labels.cellTexts, names)

/-! ## Tables -/

/-- The cells of every column, from rows of equal width. -/
def columnCells (rows : List (List String)) : List (List String) :=
  match rows with
  | [] => []
  | first :: _ => (List.range first.length).map fun i => rows.map fun row => row.getD i ""

/-- The marks of rows, and of those in which a column has a cell that is not missing. -/
def markCells (marks : List Bool) (column : Column) : List Bool :=
  marks.zipWith (fun mark isMissing => mark || !isMissing) column.missing

/-- Which of `count` rows have a cell that is not missing. -/
def rowsInUse (count : Nat) (columns : List Column) : List Bool :=
  columns.foldl markCells (List.replicate count false)

/-- The rows of numbers whose columns are given. -/
def transpose (count : Nat) (columns : List (List Float)) : List (List Float) :=
  (List.range count).map fun i => columns.map fun column => column.getD i 0.0

/-- The samples in the columns of a table, with the labels in the column at `labelColumn`. -/
def samplesOf (file : String) (columns : List Column) (labelColumn : Nat) (classNames : Option (List String)) :
    Except LoadError SampleSet :=
  match (columns.eraseIdx labelColumn).mapM Column.numbers? with
  | none => .error (.notNumeric file)
  | some features => do
    let (labels, names) ← numberLabels (columns.getD labelColumn (.integers [])) classNames
    let samples := (transpose labels.length features).zipWith (fun row (label : Nat) => ⟨row, label⟩) labels
    return ⟨samples, names⟩

/--
The samples in a file with a table, whose text is absent when there is no such file. Rows in which every cell is missing
are left out; a label column that is negative or too large counts around.
-/
def readSamples (reader : TableReader) (file : String) (text : Option String) (labelColumn : Int)
    (classNames : Option (List String)) : Except Error SampleSet :=
  match text with
  | none => .error (.load (.missingFile file))
  | some s =>
    match reader.cut s with
    | .error .empty => .error (.fault ⟨.tableEmpty, "No columns to parse from file"⟩)
    | .error .brokenRow => .error (.fault ⟨.tableRow, "Error tokenizing data"⟩)
    | .ok rows =>
      let columns := (columnCells rows).map reader.infer
      let marks := rowsInUse rows.length columns
      if !marks.contains true then .error (.load (.noSamples file))
      else if columns.length < 2 then .error (.load (.tooFewColumns file))
      else
        match samplesOf file (columns.map (Column.keep marks)) (labelColumn % columns.length).toNat classNames with
        | .ok samples => .ok samples
        | .error e => .error (.load e)

end RegisterEvolution
