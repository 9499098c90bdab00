import RegisterEvolution.Proofs.Table.Rows
import RegisterEvolution.Proofs.Tasks.Labels

/-!
# `Proofs.Tasks.GivenNames` — labels that are looked up in given names

Labels are looked up as the texts that are made of them after their column has been read, and these need not be the
texts that are written in the file: an integer loses its leading zeros, a number gets its shortest form, and a word for
missing cells becomes another one. Given names accept every label that they list as long as none of this happens.

* `TableReader.KeepsTexts` — columns whose cells are still the same texts when they have been read;
* `readSamples_given` — which given names accept the labels of a table, and what the labels are then;
* `TableReader.InfersTypes.keepsTexts_words`, `TableReader.InfersTypes.keepsTexts_integers` — the columns of words and
  of integers that keep their texts;
* `readSamples_listed_iff` — names that list the labels are accepted exactly for columns that keep their texts.
-/

namespace RegisterEvolution

open Table Column

/-! ## Texts of cells -/

namespace TableReader

/-- Every cell of a column is written as it is read, white space around it apart. -/
def KeepsTexts (reader : TableReader) (cells : List String) : Prop :=
  (reader.infer cells).cellTexts = cells.map Text.strip

variable {reader : TableReader} {limit : Nat} {cells : List String}

/-- **Words keep their texts**, and so do all cells beside one, except for those that are missing under another name. -/
theorem InfersTypes.keepsTexts_words (h : reader.InfersTypes limit) (hshort : cells.length ≤ limit)
    (hroom : ∀ cell ∈ cells, HasRoom cell) (hword : ∃ word ∈ cells, IsWord word) :
    reader.KeepsTexts cells ↔ ∀ cell ∈ cells, isMissing cell = true → Text.strip cell = missingText := by
  obtain ⟨word, hmem, hword⟩ := hword
  rw [KeepsTexts, h.words hshort hroom hmem hword, cellTexts, List.map_map, List.map_inj_left]
  refine forall₂_congr fun cell _ => ?_
  rw [Function.comp_apply]
  cases isMissing cell <;> simp [eq_comm]

/-- **Integers keep their texts** if they are written in the shortest way. -/
theorem InfersTypes.keepsTexts_integers (h : reader.InfersTypes limit) (hne : cells ≠ [])
    (hshort : cells.length ≤ limit) (hroom : ∀ cell ∈ cells, HasRoom cell) {ns : List Int}
    (hread : cells.mapM readInteger? = some ns) :
    reader.KeepsTexts cells ↔ List.Forall₂ (fun cell (n : Int) => Text.strip cell = toString n) cells ns := by
  rw [KeepsTexts, h.integers hne hshort hroom hread, cellTexts, eq_comm, ← List.forall₂_eq_eq_eq,
    List.forall₂_map_left_iff, List.forall₂_map_right_iff]

end TableReader

/-! ## Tables with numbers beside the labels -/

/-- The samples of a set have these texts for labels, by way of the names of the set. -/
def SampleSet.LabelledBy (set : SampleSet) (texts : List String) : Prop :=
  List.Forall₂
    (fun (sample : LabelledSample) text => ∃ number : Nat, sample.label = number ∧ set.names[number]? = some text)
    set.samples texts

/-- Labels tell their texts. -/
theorem SampleSet.LabelledBy.unique {set : SampleSet} {texts texts' : List String} (h : set.LabelledBy texts)
    (h' : set.LabelledBy texts') : texts = texts' := by
  refine List.right_unique_forall₂' ?_ h h'
  rintro sample text text' ⟨number, hlabel, htext⟩ ⟨number', hlabel', htext'⟩
  obtain rfl : number = number' := by exact_mod_cast hlabel.symm.trans hlabel'
  exact Option.some.inj (htext.symm.trans htext')

/-- A table with room for features, all of which are numbers. -/
structure HasFeatures (rows : List (List String)) (labelColumn : Int) : Prop where
  wide : 2 ≤ width rows
  numeric : ∀ row ∈ rows, ∀ i < width rows, i ≠ labelPosition rows labelColumn → IsNumeric (row.getD i "")

/-- The cells with the labels of a table. -/
def labelCells (rows : List (List String)) (labelColumn : Int) : List String :=
  cellsAt rows (labelPosition rows labelColumn)

variable {reader : TableReader} {limit : Nat} {rows : List (List String)} {labelColumn : Int} {names : List String}
  {set : SampleSet}

namespace HasFeatures

theorem numeric_cellsAt (h : HasFeatures rows labelColumn) {i : Nat} (hi : i < width rows)
    (hne : i ≠ labelPosition rows labelColumn) : ∀ cell ∈ cellsAt rows i, IsNumeric cell := by
  intro cell hcell
  obtain ⟨row, hrow, rfl⟩ := List.mem_map.mp hcell
  exact h.numeric row hrow i hi hne

/-- **All rows are used**, as none of their numbers is missing. -/
theorem all_marks (h : HasFeatures rows labelColumn) (hreader : reader.InfersTypes limit)
    (hshort : rows.length ≤ limit) : false ∉ reader.marks rows := by
  obtain ⟨j, hj, hne⟩ : ∃ j < width rows, j ≠ labelPosition rows labelColumn := by
    have hwide := h.wide
    by_cases hfirst : labelPosition rows labelColumn = 0
    · exact ⟨1, by omega, by omega⟩
    · exact ⟨0, by omega, by omega⟩
  have hnone := (hreader.numeric (length_cellsAt rows _ ▸ hshort) (h.numeric_cellsAt hj hne)).2
  exact all_rowsInUse (reader.infer_mem_columns hj) hnone

/-- So every column is kept as it is. -/
theorem column_eq (h : HasFeatures rows labelColumn) (hreader : reader.InfersTypes limit)
    (hshort : rows.length ≤ limit) (i : Nat) :
    reader.column rows i = reader.infer (cellsAt rows i) := by
  refine Column.keep_of_all (h.all_marks hreader hshort) ?_
  rw [TableReader.length_marks hreader.aligned, hreader.aligned, length_cellsAt]

theorem rows_ne_nil (h : HasFeatures rows labelColumn) : rows ≠ [] := by
  rintro rfl
  exact absurd h.wide (by decide)

theorem exists_mark (h : HasFeatures rows labelColumn) (hreader : reader.InfersTypes limit)
    (hshort : rows.length ≤ limit) : true ∈ reader.marks rows := by
  have hcount := TableReader.length_marks hreader.aligned rows
  obtain ⟨mark, hmark⟩ : ∃ mark, mark ∈ reader.marks rows :=
    List.exists_mem_of_length_pos (hcount ▸ List.length_pos_iff.mpr h.rows_ne_nil)
  cases mark with
  | true => exact hmark
  | false => exact absurd hmark (h.all_marks hreader hshort)

/-- There are numbers in all columns but that of the labels. -/
theorem exists_features (h : HasFeatures rows labelColumn) (hreader : reader.InfersTypes limit)
    (hshort : rows.length ≤ limit) : ∃ features,
    (((List.range (width rows)).map (reader.column rows)).eraseIdx (labelPosition rows labelColumn)).mapM
      Column.numbers? = some features := by
  have hcolumns : ∀ i ∈ (List.range (width rows)).eraseIdx (labelPosition rows labelColumn),
      ∃ xs, (reader.column rows i).numbers? = some xs := by
    intro i hi
    obtain ⟨j, hj, hget⟩ := List.mem_eraseIdx_iff_getElem?.mp hi
    obtain ⟨hlt, rfl⟩ := List.getElem?_eq_some_iff.mp hget
    rw [List.length_range] at hlt
    rw [List.getElem_range, h.column_eq hreader hshort]
    exact (hreader.numeric (length_cellsAt rows _ ▸ hshort) (h.numeric_cellsAt hlt hj)).1
  choose! numbers hnumbers using hcolumns
  rw [List.eraseIdx_map, List.mapM_map]
  exact ⟨_, mapM_eq_some_iff.mpr (List.forall₂_map_right_iff.mpr (List.forall₂_same.mpr hnumbers))⟩

end HasFeatures

/-- Samples whose labels are the numbers of texts. -/
theorem SampleSet.LabelledBy.of_numbers {numbers : List Nat} {texts : List String}
    (h : List.Forall₂ (fun number text => names[number]? = some text) numbers texts) (features : List (List Float)) :
    LabelledBy
      ⟨(transpose numbers.length features).zipWith (fun row (label : Nat) => ⟨row, label⟩) numbers, names⟩ texts := by
  have hcount : (transpose numbers.length features).length = numbers.length := by
    rw [transpose, List.length_map, List.length_range]
  refine List.forall₂_of_length_eq_of_get ?_ fun i hi hi' => ?_
  · rw [List.length_zipWith, hcount, Nat.min_self, h.length_eq]
  · have hnumber : i < numbers.length := h.length_eq ▸ hi'
    exact ⟨numbers.get ⟨i, hnumber⟩, by simp, h.get hnumber hi'⟩

/--
**Given names are looked up for the labels as they have been read.** Where the features are numbers, the samples are
loaded if every label is a given name then, with the given names and with labels that stand for these texts; otherwise
the error tells which labels are not.
-/
theorem readSamples_given {s : String} (hreader : reader.InfersTypes limit) (htable : reader.cut s = .ok rows)
    (hshort : rows.length ≤ limit) (h : HasFeatures rows labelColumn) (file : String) (names texts : List String)
    (htexts : (reader.infer (labelCells rows labelColumn)).cellTexts = texts) :
    ((∀ text ∈ texts, text ∈ names) → ∃ set, readSamples reader file (some s) labelColumn (some names) = .ok set ∧
      set.names = names ∧ set.LabelledBy texts) ∧
    ((∃ text ∈ texts, text ∉ names) → readSamples reader file (some s) labelColumn (some names) =
      .error (.load (.unknownLabels (distinctTexts (texts.filter fun text => !names.contains text)) names))) := by
  obtain ⟨features, hfeatures⟩ := h.exists_features hreader hshort
  have hused : ¬true ∉ reader.marks rows := not_not.mpr (h.exists_mark hreader hshort)
  have hnumbers : numberLabels (reader.column rows (labelPosition rows labelColumn)) (some names) =
      (numberBy names texts).map fun numbers => (numbers, names) := by
    rw [numberLabels_given, h.column_eq hreader hshort, ← htexts]
    rfl
  rw [readSamples_of_table htable, if_neg hused, if_neg (Nat.not_lt.mpr h.wide)]
  unfold samplesOf
  simp only [hfeatures, getD_columns h.wide, hnumbers]
  refine ⟨fun hlisted => ?_, fun hunknown => ?_⟩
  · obtain ⟨numbers, hok⟩ : ∃ numbers, numberBy names texts = .ok numbers := by
      simp only [numberBy_eq_ok_iff, exists_forall₂_iff, exists_lastPosition?_iff]
      exact hlisted
    rw [hok]
    exact ⟨_, rfl, rfl, .of_numbers (Resolves.of_numberBy hok).decodes features⟩
  · rw [numberBy_eq_error_iff.mpr ⟨hunknown, rfl⟩]
    rfl

/-- Labels that keep their texts are accepted by all names that list them, and no other labels are. -/
theorem keepsTexts_iff_accepts {s : String} (hreader : reader.InfersTypes limit) (htable : reader.cut s = .ok rows)
    (hshort : rows.length ≤ limit) (h : HasFeatures rows labelColumn) (file : String) :
    reader.KeepsTexts (labelCells rows labelColumn) ↔
      ∀ names, (∀ cell ∈ labelCells rows labelColumn, Text.strip cell ∈ names) →
        ∃ set, readSamples reader file (some s) labelColumn (some names) = .ok set ∧ set.names = names ∧
          set.LabelledBy ((labelCells rows labelColumn).map Text.strip) := by
  constructor
  · intro hkept names hlisted
    refine (readSamples_given hreader htable hshort h file names _ hkept).1 ?_
    rintro text htext
    obtain ⟨cell, hcell, rfl⟩ := List.mem_map.mp htext
    exact hlisted cell hcell
  · intro haccepts
    -- the labels as they are written, given as the names
    obtain ⟨set, hload, hnames, hwritten⟩ := haccepts ((labelCells rows labelColumn).map Text.strip)
      fun cell hcell => List.mem_map_of_mem hcell
    obtain ⟨hok, herror⟩ :=
      readSamples_given hreader htable hshort h file ((labelCells rows labelColumn).map Text.strip) _ rfl
    by_cases hlisted : ∃ text ∈ (reader.infer (labelCells rows labelColumn)).cellTexts,
        text ∉ (labelCells rows labelColumn).map Text.strip
    · rw [herror hlisted] at hload
      exact nomatch hload
    · push Not at hlisted
      obtain ⟨set', hload', -, hread⟩ := hok hlisted
      obtain rfl := Except.ok.inj (hload.symm.trans hload')
      exact hread.unique hwritten

/--
**Names that list the labels are accepted exactly where the labels keep their texts.** Take a table whose features are
all numbers, read by a reader that is relied upon for the types of columns in tables as long as this. If each label is
read as it is written, white space around it apart, then all given names that contain the labels are accepted, and the
name of every label is the label as it is written. If some label is not, then there are given names which contain all
labels as they are written, and which are refused or give a label another name. Where there is room for integers, labels
with a word among them are read as they are written but for words that mean a missing cell, and integers are if they are
written in the shortest way.
-/
theorem readSamples_listed_iff {s : String} (hreader : reader.InfersTypes limit) (htable : reader.cut s = .ok rows)
    (hshort : rows.length ≤ limit) (h : HasFeatures rows labelColumn) (file : String) :
    (reader.KeepsTexts (labelCells rows labelColumn) ↔
      ∀ names, (∀ cell ∈ labelCells rows labelColumn, Text.strip cell ∈ names) →
        ∃ set, readSamples reader file (some s) labelColumn (some names) = .ok set ∧ set.names = names ∧
          set.LabelledBy ((labelCells rows labelColumn).map Text.strip)) ∧
    ((∀ cell ∈ labelCells rows labelColumn, HasRoom cell) →
      ((∃ word ∈ labelCells rows labelColumn, IsWord word) →
        (reader.KeepsTexts (labelCells rows labelColumn) ↔
          ∀ cell ∈ labelCells rows labelColumn, isMissing cell = true → Text.strip cell = missingText)) ∧
      ∀ ns, (labelCells rows labelColumn).mapM readInteger? = some ns →
        (reader.KeepsTexts (labelCells rows labelColumn) ↔
          List.Forall₂ (fun cell (n : Int) => Text.strip cell = toString n) (labelCells rows labelColumn) ns)) := by
  have hcells : (labelCells rows labelColumn).length ≤ limit := (length_cellsAt rows _).trans_le hshort
  have hne : labelCells rows labelColumn ≠ [] := fun hnil => h.rows_ne_nil (List.map_eq_nil_iff.mp hnil)
  exact ⟨keepsTexts_iff_accepts hreader htable hshort h file, fun hroom =>
    ⟨hreader.keepsTexts_words hcells hroom, fun _ => hreader.keepsTexts_integers hne hcells hroom⟩⟩

/-- Words as labels keep their texts. -/
theorem readSamples_listed_words :
    Csv.reader.InfersTypes 2 ∧ ∃ rows, Csv.reader.cut "1.0,b\n2.0, a \n" = .ok rows ∧ rows.length ≤ 2 ∧
      HasFeatures rows (-1) ∧
      (∀ cell ∈ labelCells rows (-1), HasRoom cell) ∧ (∃ word ∈ labelCells rows (-1), IsWord word) ∧
      Csv.reader.KeepsTexts (labelCells rows (-1)) ∧
      ∃ set, readSamples Csv.reader "a.csv" (some "1.0,b\n2.0, a \n") (-1) (some ["b", "c", "a"]) = .ok set ∧
        set.names = ["b", "c", "a"] ∧ set.LabelledBy ["b", "a"] := by
  have htable : Csv.reader.cut "1.0,b\n2.0, a \n" = .ok [["1.0", "b"], ["2.0", "a "]] := rfl
  have hshort : [["1.0", "b"], ["2.0", "a "]].length ≤ 2 := by decide
  have hfeatures : HasFeatures [["1.0", "b"], ["2.0", "a "]] (-1) := ⟨by decide, by decide +kernel⟩
  have hroom : ∀ cell ∈ ["b", "a "], HasRoom cell := by decide +kernel
  have hword : ∃ word ∈ ["b", "a "], IsWord word := by decide +kernel
  obtain ⟨haccepts, hkeeps⟩ := readSamples_listed_iff (Csv.infersTypes 2) htable hshort hfeatures "a.csv"
  have hkept : Csv.reader.KeepsTexts ["b", "a "] := ((hkeeps hroom).1 hword).mpr (by decide +kernel)
  exact ⟨Csv.infersTypes 2, _, htable, hshort, hfeatures, hroom, hword, hkept,
    haccepts.mp hkept ["b", "c", "a"] (by decide +kernel)⟩

/-- **Listed labels are refused** that are integers with a zero in front, and words for missing cells. -/
theorem readSamples_listed_refused :
    (∃ rows, Csv.reader.cut "1,01\n2,02\n" = .ok rows ∧ HasFeatures rows (-1) ∧
      (∀ cell ∈ labelCells rows (-1), Text.strip cell ∈ ["01", "02"]) ∧
      readSamples Csv.reader "a.csv" (some "1,01\n2,02\n") (-1) (some ["01", "02"]) =
        .error (.load (.unknownLabels ["1", "2"] ["01", "02"]))) ∧
    ∃ rows, Csv.reader.cut "1,NA\n2,b\n" = .ok rows ∧ HasFeatures rows (-1) ∧
      (∀ cell ∈ labelCells rows (-1), Text.strip cell ∈ ["NA", "b"]) ∧
      readSamples Csv.reader "a.csv" (some "1,NA\n2,b\n") (-1) (some ["NA", "b"]) =
        .error (.load (.unknownLabels ["nan"] ["NA", "b"])) := by
  have hzerosTable : Csv.reader.cut "1,01\n2,02\n" = .ok [["1", "01"], ["2", "02"]] := rfl
  have hzeros : HasFeatures [["1", "01"], ["2", "02"]] (-1) := ⟨by decide, by decide +kernel⟩
  have hmissingTable : Csv.reader.cut "1,NA\n2,b\n" = .ok [["1", "NA"], ["2", "b"]] := rfl
  have hmissing : HasFeatures [["1", "NA"], ["2", "b"]] (-1) := ⟨by decide, by decide +kernel⟩
  refine ⟨⟨_, hzerosTable, hzeros, by decide +kernel, ?_⟩, _, hmissingTable, hmissing, by decide +kernel, ?_⟩
  · obtain ⟨-, hrefused⟩ := readSamples_given (Csv.infersTypes 2) hzerosTable (by decide) hzeros "a.csv" ["01", "02"]
      ["1", "2"] (by decide +kernel)
    exact hrefused (by decide)
  · obtain ⟨-, hrefused⟩ := readSamples_given (Csv.infersTypes 2) hmissingTable (by decide) hmissing "a.csv" ["NA", "b"]
      ["nan", "b"] (by decide +kernel)
    exact hrefused (by decide)

end RegisterEvolution
