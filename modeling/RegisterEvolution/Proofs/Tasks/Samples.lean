import RegisterEvolution.Proofs.Settings.Accepted
import RegisterEvolution.Proofs.Table.Reader
import RegisterEvolution.Tasks.Samples

/-!
# `Proofs.Tasks.Samples` — labelled samples out of the columns of a table

Columns mark the rows in which they have a cell that is not missing, and of every column the cells in marked rows are
kept. This is the same for whatever reader of tables makes the columns.

* `TableReader.marks`, `TableReader.column` — the rows that are used, and what is kept of a column;
* `readSamples_eq_ok_iff` — what it takes for samples to be read;
* `rowsInUse_withGap` — a row in which every cell is missing is not used, and the other rows are used as without it.
-/

namespace RegisterEvolution

namespace Table

/-- The cells of a table at a position of the rows. -/
def cellsAt (rows : List (List String)) (i : Nat) : List String := rows.map fun row => row.getD i ""

theorem length_cellsAt (rows : List (List String)) (i : Nat) : (cellsAt rows i).length = rows.length :=
  List.length_map ..

/-- The position of the labels, counted around. -/
def labelPosition (rows : List (List String)) (labelColumn : Int) : Nat := (labelColumn % width rows).toNat

variable {rows : List (List String)}

theorem labelPosition_lt (h : 0 < width rows) (labelColumn : Int) : labelPosition rows labelColumn < width rows := by
  have hpos : (0 : Int) < width rows := by exact_mod_cast h
  have hlow := Int.emod_nonneg labelColumn hpos.ne'
  have hhigh := Int.emod_lt_of_pos labelColumn hpos
  unfold labelPosition
  omega

end Table

open Table

namespace TableReader

variable (reader : TableReader)

/-- The columns of a table. -/
def columns (rows : List (List String)) : List Column :=
  (List.range (width rows)).map fun i => reader.infer (cellsAt rows i)

/-- Which rows of a table are used. -/
def marks (rows : List (List String)) : List Bool := rowsInUse rows.length (reader.columns rows)

/-- What is kept of the column at a position. -/
def column (rows : List (List String)) (i : Nat) : Column := (reader.infer (cellsAt rows i)).keep (reader.marks rows)

theorem map_columnCells (rows : List (List String)) : (columnCells rows).map reader.infer = reader.columns rows := by
  cases rows with
  | nil => rfl
  | cons first rest => exact List.map_map ..

theorem length_columns (rows : List (List String)) : (reader.columns rows).length = width rows := by
  rw [columns, List.length_map, List.length_range]

theorem map_keep_columns (rows : List (List String)) :
    (reader.columns rows).map (Column.keep (reader.marks rows)) =
      (List.range (width rows)).map (reader.column rows) :=
  List.map_map ..

theorem infer_mem_columns {rows : List (List String)} {i : Nat} (hi : i < width rows) :
    reader.infer (cellsAt rows i) ∈ reader.columns rows :=
  List.mem_map_of_mem (List.mem_range.mpr hi)

end TableReader

/-! ## Reading samples -/

section Reading

variable {reader : TableReader} {rows : List (List String)}

/-- What it takes for samples to be read from the rows of a table, and what they are then. -/
structure Sampled (reader : TableReader) (rows : List (List String)) (labelColumn : Int)
    (classNames : Option (List String)) (set : SampleSet) : Prop where
  used : true ∈ reader.marks rows
  wide : 2 ≤ width rows
  made : ∃ features numbers,
    (((List.range (width rows)).map (reader.column rows)).eraseIdx (labelPosition rows labelColumn)).mapM
      Column.numbers? = some features ∧
    numberLabels (reader.column rows (labelPosition rows labelColumn)) classNames = .ok (numbers, set.names) ∧
    set.samples = (transpose numbers.length features).zipWith (fun row (label : Nat) => ⟨row, label⟩) numbers

theorem samplesOf_eq_ok_iff {file : String} {columns : List Column} {position : Nat} {classNames : Option (List String)}
    {set : SampleSet} : samplesOf file columns position classNames = .ok set ↔ ∃ features numbers,
      (columns.eraseIdx position).mapM Column.numbers? = some features ∧
      numberLabels (columns.getD position (.integers [])) classNames = .ok (numbers, set.names) ∧
      set.samples = (transpose numbers.length features).zipWith (fun row (label : Nat) => ⟨row, label⟩) numbers := by
  unfold samplesOf
  split
  · rename_i hfeatures
    simp [hfeatures]
  · rename_i features hfeatures
    rw [except_bind_eq_ok]
    simp only [hfeatures, Option.some.injEq, exists_and_left, exists_eq_left', Prod.exists]
    constructor
    · rintro ⟨numbers, names, hlabels, hset⟩
      obtain rfl := Except.ok.inj hset
      exact ⟨numbers, hlabels, rfl⟩
    · rintro ⟨numbers, hlabels, hsamples⟩
      exact ⟨numbers, set.names, hlabels, congrArg Except.ok (by rw [← hsamples])⟩

theorem getD_columns (h : 2 ≤ width rows) (labelColumn : Int) :
    ((List.range (width rows)).map (reader.column rows)).getD (labelPosition rows labelColumn) (.integers []) =
      reader.column rows (labelPosition rows labelColumn) := by
  have hposition : labelPosition rows labelColumn < width rows := labelPosition_lt (by omega) labelColumn
  simp [List.getD_eq_getElem?_getD, hposition]

/-- Samples are read from a table of which some row is used, and which has room for numbers beside the labels. -/
theorem readSamples_of_table {s : String} (htable : reader.cut s = .ok rows) (file : String) (labelColumn : Int)
    (classNames : Option (List String)) : readSamples reader file (some s) labelColumn classNames =
      if true ∉ reader.marks rows then .error (.load (.noSamples file))
      else if width rows < 2 then .error (.load (.tooFewColumns file))
      else
        match samplesOf file ((List.range (width rows)).map (reader.column rows)) (labelPosition rows labelColumn)
          classNames with
        | .ok samples => .ok samples
        | .error e => .error (.load e) := by
  unfold readSamples
  simp only [htable, reader.map_columnCells, reader.length_columns, Bool.not_eq_true', List.contains_eq_mem,
    decide_eq_false_iff_not]
  change (if true ∉ reader.marks rows then _ else _) = _
  rw [← reader.map_keep_columns]
  rfl

/-- **Samples are read from a table** where some row is used, and has numbers beside a label that is numbered. -/
theorem readSamples_eq_ok_iff {file : String} {text : Option String} {labelColumn : Int}
    {classNames : Option (List String)} {set : SampleSet} :
    readSamples reader file text labelColumn classNames = .ok set ↔
      ∃ s ∈ text, ∃ rows, reader.cut s = .ok rows ∧ Sampled reader rows labelColumn classNames set := by
  cases text with
  | none => exact ⟨nofun, fun ⟨_, hs, _⟩ => nomatch hs⟩
  | some s =>
      simp only [Option.mem_some_iff, exists_eq_left']
      cases htable : reader.cut s with
      | error flaw => cases flaw <;> simp [readSamples, htable]
      | ok rows =>
          simp only [readSamples_of_table htable, Except.ok.injEq, exists_eq_left']
          by_cases hused : true ∉ reader.marks rows
          · rw [if_pos hused]
            exact ⟨nofun, fun h => absurd h.used hused⟩
          by_cases hnarrow : width rows < 2
          · rw [if_neg hused, if_pos hnarrow]
            exact ⟨nofun, fun h => absurd hnarrow (Nat.not_lt.mpr h.wide)⟩
          rw [if_neg hused, if_neg hnarrow]
          have hwide := Nat.not_lt.mp hnarrow
          constructor
          · intro h
            split at h
            · rename_i samples hsamples
              obtain rfl := Except.ok.inj h
              rw [samplesOf_eq_ok_iff, getD_columns hwide] at hsamples
              exact ⟨not_not.mp hused, hwide, hsamples⟩
            · exact nomatch h
          · intro h
            have hsamples : samplesOf file ((List.range (width rows)).map (reader.column rows))
                (labelPosition rows labelColumn) classNames = .ok set := by
              rw [samplesOf_eq_ok_iff, getD_columns hwide]
              exact h.made
            rw [hsamples]

end Reading

/-! ## Rows in use -/

section InUse

variable {columns : List Column} {column : Column}

theorem length_foldl_markCells (columns : List Column) (marks : List Bool) :
    (columns.foldl markCells marks).length ≤ marks.length := by
  induction columns generalizing marks with
  | nil => exact le_refl _
  | cons first rest ih =>
      refine (ih _).trans ?_
      rw [markCells, List.length_zipWith]
      exact min_le_left ..

/-- There are not more marks than cells in any of the columns. -/
theorem length_rowsInUse_le (count : Nat) (hmem : column ∈ columns) :
    (rowsInUse count columns).length ≤ column.missing.length := by
  unfold rowsInUse
  generalize List.replicate count false = marks
  induction columns generalizing marks with
  | nil => exact absurd hmem List.not_mem_nil
  | cons first rest ih =>
      rcases List.mem_cons.mp hmem with rfl | hrest
      · refine (length_foldl_markCells rest _).trans ?_
        rw [markCells, List.length_zipWith]
        exact min_le_right ..
      · exact ih hrest _

/-- There are as many marks as rows if there are as many cells in each of the columns. -/
theorem length_rowsInUse {count : Nat} (h : ∀ column ∈ columns, column.missing.length = count) :
    (rowsInUse count columns).length = count := by
  have hfold : ∀ marks : List Bool, marks.length = count → (columns.foldl markCells marks).length = count := by
    induction columns with
    | nil => exact fun marks hmarks => hmarks
    | cons first rest ih =>
        rw [List.forall_mem_cons] at h
        intro marks hmarks
        refine ih h.2 _ ?_
        rw [markCells, List.length_zipWith, hmarks, h.1, min_self]
  exact hfold _ (List.length_replicate ..)

theorem zipWith_insertIdx {α β γ : Type} (f : α → β → γ) {k : Nat} {xs : List α} {ys : List β} (hx : k ≤ xs.length)
    (hy : k ≤ ys.length) (x : α) (y : β) :
    List.zipWith f (xs.insertIdx k x) (ys.insertIdx k y) = (List.zipWith f xs ys).insertIdx k (f x y) := by
  induction k generalizing xs ys with
  | zero => rfl
  | succ k ih =>
      obtain ⟨a, xs, rfl⟩ := List.exists_cons_of_length_pos (Nat.zero_lt_of_lt hx)
      obtain ⟨b, ys, rfl⟩ := List.exists_cons_of_length_pos (Nat.zero_lt_of_lt hy)
      simp [ih (Nat.le_of_succ_le_succ hx) (Nat.le_of_succ_le_succ hy)]

theorem insertIdx_replicate {k count : Nat} (h : k ≤ count) :
    (List.replicate count false).insertIdx k false = List.replicate (count + 1) false := by
  refine List.eq_replicate_iff.mpr ⟨?_, fun b hb => ?_⟩
  · rw [List.length_insertIdx_of_le_length (by rwa [List.length_replicate]), List.length_replicate]
  · rcases List.eq_or_mem_of_mem_insertIdx hb with rfl | hold
    · rfl
    · exact List.eq_of_mem_replicate hold

/-- **A row in which every cell is missing is not used**, and the others are used as without it. -/
theorem rowsInUse_withGap {k count : Nat} (hk : k ≤ count) (h : ∀ column ∈ columns, k ≤ column.missing.length) :
    rowsInUse (count + 1) (columns.map (Column.withGap k)) = (rowsInUse count columns).insertIdx k false := by
  have hfold : ∀ marks : List Bool, k ≤ marks.length →
      (columns.map (Column.withGap k)).foldl markCells (marks.insertIdx k false) =
        (columns.foldl markCells marks).insertIdx k false := by
    induction columns with
    | nil => exact fun _ _ => rfl
    | cons first rest ih =>
        rw [List.forall_mem_cons] at h
        intro marks hmarks
        have hstep : markCells (marks.insertIdx k false) (first.withGap k) =
            (markCells marks first).insertIdx k false := by
          rw [markCells, Column.missing_withGap, zipWith_insertIdx _ hmarks h.1]
          rfl
        rw [List.map_cons, List.foldl_cons, List.foldl_cons, hstep]
        refine ih h.2 _ ?_
        rw [markCells, List.length_zipWith]
        exact le_min hmarks h.1
  rw [rowsInUse, rowsInUse, ← insertIdx_replicate hk]
  exact hfold _ (by rwa [List.length_replicate])

/-- A row that is not marked was not marked before, and its cell is missing. -/
theorem of_markCells_false {marks : List Bool} (h : false ∈ markCells marks column) :
    false ∈ marks ∧ true ∈ column.missing := by
  rw [markCells, ← List.map_uncurry_zip_eq_zipWith, List.mem_map] at h
  obtain ⟨⟨mark, isMissing⟩, hpair, hvalue⟩ := h
  obtain ⟨rfl, rfl⟩ : mark = false ∧ isMissing = true := by simpa using hvalue
  exact List.of_mem_zip hpair

/-- Rows that are marked stay so. -/
theorem foldl_markCells_all (columns : List Column) {marks : List Bool} (h : false ∉ marks) :
    false ∉ columns.foldl markCells marks := by
  induction columns generalizing marks with
  | nil => exact h
  | cons first rest ih => exact ih fun hfalse => h (of_markCells_false hfalse).1

/-- Every row is used if no cell of some column is missing. -/
theorem all_rowsInUse {count : Nat} (hmem : column ∈ columns) (hnone : true ∉ column.missing) :
    false ∉ rowsInUse count columns := by
  unfold rowsInUse
  generalize List.replicate count false = marks
  induction columns generalizing marks with
  | nil => exact absurd hmem List.not_mem_nil
  | cons first rest ih =>
      rcases List.mem_cons.mp hmem with rfl | hrest
      · exact foldl_markCells_all rest fun hfalse => hnone (of_markCells_false hfalse).2
      · exact ih hrest _

/-- There is a mark for each row of a table if columns are as long as it. -/
theorem TableReader.length_marks {reader : TableReader}
    (haligned : ∀ cells, (reader.infer cells).missing.length = cells.length) (rows : List (List String)) :
    (reader.marks rows).length = rows.length := by
  refine length_rowsInUse fun column hcolumn => ?_
  obtain ⟨i, -, rfl⟩ := List.mem_map.mp hcolumn
  rw [haligned, length_cellsAt]

end InUse

end RegisterEvolution
