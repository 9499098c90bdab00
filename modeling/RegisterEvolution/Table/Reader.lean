import RegisterEvolution.Table.Column
import RegisterEvolution.Table.Csv

/-!
# `Table.Reader` — readers of tables

A table is read in two steps: a text is cut into rows of cells, and from the cells at each position a column of one type
is made. How both are done is up to the reader.

* `TableReader` — what it takes to read tables;
* `Csv.reader` — the reader of comma-separated text.
-/

namespace RegisterEvolution

/-- A way to read tables. -/
structure TableReader where
  /-- The rows of cells in a text. -/
  cut : String → Except Csv.TableFlaw (List (List String))
  /-- The column that cells make. -/
  infer : List String → Column

/-- The reader of comma-separated text. -/
def Csv.reader : TableReader := ⟨Csv.table, Column.ofCells⟩

end RegisterEvolution
