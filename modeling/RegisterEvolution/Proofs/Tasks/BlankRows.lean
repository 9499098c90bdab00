import Mathlib.Logic.Relation
import RegisterEvolution.Proofs.Table.Rows
import RegisterEvolution.Proofs.Tasks.Samples

/-!
# `Proofs.Tasks.BlankRows` — samples from a table with blank rows

A row of empty cells is left out of the samples, and the other rows are read as they were, as long as the labels are not
read as integers: integers of which one is missing are numbers, and these have other texts.

* `Table.AddsBlank.exists_gap` — a blank row in a table is a gap in each of its columns;
* `Sampled.of_addsBlank` — the samples are the same;
* `readSamples_blankRows` — the same for any number of blank rows in a text;
* `readSamples_blankRow_renames` — integers as labels are renamed.
-/

namespace RegisterEvolution

open Column (HasRoom)

namespace Table

variable {rows rows' : List (List String)}

theorem AddsBlank.width_eq (h : AddsBlank rows rows') : width rows' = width rows := by
  obtain ⟨above, below, hne, rfl, rfl⟩ := h
  obtain ⟨first, others, rfl⟩ := List.ne_nil_iff_exists_cons.mp hne
  rfl

theorem AddsBlank.length_eq (h : AddsBlank rows rows') : rows'.length = rows.length + 1 := by
  obtain ⟨above, below, -, rfl, rfl⟩ := h
  simp only [List.length_append, List.length_cons]
  omega

theorem AddsBlank.labelPosition_eq (h : AddsBlank rows rows') (labelColumn : Int) :
    labelPosition rows' labelColumn = labelPosition rows labelColumn := by
  rw [labelPosition, h.width_eq]
  rfl

/-- There is room for the integers of a table. -/
def HasRoom (rows : List (List String)) : Prop := ∀ row ∈ rows, ∀ cell ∈ row, Column.HasRoom cell

instance (rows : List (List String)) : Decidable (HasRoom rows) :=
  inferInstanceAs (Decidable (∀ row ∈ rows, ∀ cell ∈ row, Column.HasRoom cell))

theorem hasRoom_blank : Column.HasRoom "" := by decide +kernel

theorem HasRoom.cellsAt (h : HasRoom rows) (i : Nat) : ∀ cell ∈ cellsAt rows i, Column.HasRoom cell := by
  intro cell hcell
  obtain ⟨row, hrow, rfl⟩ := List.mem_map.mp hcell
  rw [List.getD_eq_getElem?_getD]
  cases hget : row[i]? with
  | none => exact hasRoom_blank
  | some cell => exact h row hrow cell (List.mem_of_getElem? hget)

theorem AddsBlank.hasRoom (h : AddsBlank rows rows') (hroom : HasRoom rows) : HasRoom rows' := by
  obtain ⟨above, below, -, rfl, rfl⟩ := h
  intro row hrow
  rcases List.mem_append.mp hrow with habove | hbelow
  · exact hroom row (List.mem_append_left _ habove)
  rcases List.mem_cons.mp hbelow with rfl | hbelow
  · intro cell hcell
    rw [List.eq_of_mem_replicate hcell]
    exact hasRoom_blank
  · exact hroom row (List.mem_append_right _ hbelow)

theorem getD_replicate (width i : Nat) : (List.replicate width "").getD i "" = "" := by
  simp only [List.getD_eq_getElem?_getD, List.getElem?_replicate]
  split <;> rfl

/-- **A blank row leaves a gap in every column**, at the same place. -/
theorem AddsBlank.exists_gap {reader : TableReader} {limit : Nat} (hreader : reader.ReadsBlanks limit)
    (h : AddsBlank rows rows') (hshort : rows'.length ≤ limit) (hroom : HasRoom rows) :
    ∃ k ≤ rows.length, ∀ i, reader.infer (cellsAt rows' i) = (reader.infer (cellsAt rows i)).withGap k := by
  obtain ⟨above, below, hne, rfl, rfl⟩ := h
  refine ⟨above.length, by simp, fun i => ?_⟩
  have hcells := hroom.cellsAt i
  have hblank : cellsAt (above ++ List.replicate (width (above ++ below)) "" :: below) i =
      cellsAt above i ++ "" :: cellsAt below i := by
    rw [cellsAt, List.map_append, List.map_cons, getD_replicate]
    rfl
  have htop : cellsAt above i ≠ [] := by simpa [cellsAt] using hne
  have hlength : (cellsAt above i).length = above.length := length_cellsAt above i
  have hcellsAt : cellsAt (above ++ below) i = cellsAt above i ++ cellsAt below i := List.map_append ..
  have hshortAt : (cellsAt above i ++ "" :: cellsAt below i).length ≤ limit := by
    rw [← hblank, length_cellsAt]
    exact hshort
  rw [hcellsAt] at hcells ⊢
  rw [hblank, hreader.emptyCell htop hshortAt hcells, hlength]

end Table

open Table

variable {reader : TableReader} {limit : Nat} {rows rows' : List (List String)} {labelColumn : Int}
  {classNames : Option (List String)} {set : SampleSet}

/-- **A blank row makes no difference to the samples of a table** whose labels are not read as integers. -/
theorem Sampled.of_addsBlank (hreader : reader.ReadsBlanks limit)
    (h : Sampled reader rows labelColumn classNames set) (hblank : AddsBlank rows rows')
    (hshort : rows'.length ≤ limit) (hroom : HasRoom rows)
    (hlabels : ∀ cells, reader.infer (cellsAt rows (labelPosition rows labelColumn)) ≠ .integers cells) :
    Sampled reader rows' labelColumn classNames set := by
  obtain ⟨k, hk, hgap⟩ := hblank.exists_gap hreader hshort hroom
  have hcells (i : Nat) : k ≤ (reader.infer (cellsAt rows i)).missing.length := by
    rwa [hreader.aligned, length_cellsAt]
  have hmarks : k ≤ (reader.marks rows).length := hk.trans_eq (TableReader.length_marks hreader.aligned rows).symm
  have hcolumns : reader.columns rows' = (reader.columns rows).map (Column.withGap k) := by
    rw [TableReader.columns, TableReader.columns, hblank.width_eq, List.map_map]
    exact List.map_congr_left fun i _ => hgap i
  have hmarks' : reader.marks rows' = (reader.marks rows).insertIdx k false := by
    rw [TableReader.marks, hcolumns, hblank.length_eq]
    refine rowsInUse_withGap hk fun column hcolumn => ?_
    obtain ⟨i, -, rfl⟩ := List.mem_map.mp hcolumn
    exact hcells i
  have hnumbers : Column.numbers? ∘ reader.column rows' = Column.numbers? ∘ reader.column rows := funext fun i => by
    rw [Function.comp_apply, TableReader.column, hgap, hmarks']
    exact Column.numbers?_keep_withGap hmarks (hcells i)
  have hlabelColumn : reader.column rows' (labelPosition rows labelColumn) =
      reader.column rows (labelPosition rows labelColumn) := by
    rw [TableReader.column, hgap, hmarks']
    exact Column.keep_withGap hmarks (hcells _) hlabels
  obtain ⟨features, numbers, hfeatures, hnumbered, hsamples⟩ := h.made
  refine ⟨?_, ?_, features, numbers, ?_, ?_, hsamples⟩
  · rw [hmarks', List.mem_insertIdx hmarks]
    exact .inr h.used
  · rw [hblank.width_eq]
    exact h.wide
  · rw [hblank.labelPosition_eq, hblank.width_eq, List.eraseIdx_map, List.mapM_map, hnumbers, ← List.mapM_map,
      ← List.eraseIdx_map]
    exact hfeatures
  · rw [hblank.labelPosition_eq, hlabelColumn]
    exact hnumbered

/-- Beside a gap there is no column of integers. -/
theorem Table.AddsBlank.infer_ne_integers (hreader : reader.ReadsBlanks limit) (hblank : AddsBlank rows rows')
    (hshort : rows'.length ≤ limit) (hroom : HasRoom rows) (i : Nat) (cells : List Int) :
    reader.infer (cellsAt rows' i) ≠ .integers cells := by
  obtain ⟨k, -, hgap⟩ := hblank.exists_gap hreader hshort hroom
  rw [hgap]
  cases reader.infer (cellsAt rows i) <;> exact nofun

/-- Lines of separators in a text are blank rows in its table. -/
theorem TableReader.ReadsBlanks.blankRows (hreader : reader.ReadsBlanks limit) {s t : String}
    (hadded : Relation.ReflTransGen reader.AddsBlankRow s t) (hread : reader.cut s = .ok rows)
    (hwide : 2 ≤ width rows) : ∃ rows', reader.cut t = .ok rows' ∧ Relation.ReflTransGen AddsBlank rows rows' := by
  suffices hrun : ∃ rows', reader.cut t = .ok rows' ∧ Relation.ReflTransGen AddsBlank rows rows' ∧ 2 ≤ width rows' by
    obtain ⟨rows', hread', hblanks, -⟩ := hrun
    exact ⟨rows', hread', hblanks⟩
  induction hadded with
  | refl => exact ⟨rows, hread, .refl, hwide⟩
  | tail _ hstep ih =>
      obtain ⟨before, hbefore, hblanks, hwide⟩ := ih
      obtain ⟨after, hafter, hblank⟩ := hreader.blankRow hstep hbefore hwide
      exact ⟨after, hafter, hblanks.tail hblank, hblank.width_eq ▸ hwide⟩

/-- Any number of blank rows makes no difference to samples. -/
theorem Sampled.of_blankRows (hreader : reader.ReadsBlanks limit)
    (h : Sampled reader rows labelColumn classNames set) (hblanks : Relation.ReflTransGen AddsBlank rows rows')
    (hshort : rows'.length ≤ limit) (hroom : HasRoom rows)
    (hlabels : ∀ cells, reader.infer (cellsAt rows (labelPosition rows labelColumn)) ≠ .integers cells) :
    Sampled reader rows' labelColumn classNames set := by
  -- each blank row leaves a table with the same samples, with room, and with labels that are no integers
  suffices hrun : Sampled reader rows' labelColumn classNames set ∧ HasRoom rows' ∧
      ∀ cells, reader.infer (cellsAt rows' (labelPosition rows' labelColumn)) ≠ .integers cells from hrun.1
  induction hblanks with
  | refl => exact ⟨h, hroom, hlabels⟩
  | tail _ hblank ih =>
      obtain ⟨hsame, hroomy, hkept⟩ := ih (Nat.le_of_succ_le (hblank.length_eq.symm.trans_le hshort))
      exact ⟨hsame.of_addsBlank hreader hblank hshort hroomy hkept, hblank.hasRoom hroomy,
        hblank.infer_ne_integers hreader hshort hroomy _⟩

/--
**Blank rows make no difference to samples that are loaded.** Where a text is read, by a reader that is relied upon for
blank rows, any number of lines of separators may be added to it, anywhere after its first row. The same samples are
read with the same names, as long as the table does not get too long for the reader, there is room for the integers of
the text, and its labels are not read as a column of integers.
-/
theorem readSamples_blankRows {file s t : String} (hreader : reader.ReadsBlanks limit)
    (hload : readSamples reader file (some s) labelColumn classNames = .ok set) (htable : reader.cut s = .ok rows)
    (hroom : HasRoom rows)
    (hlabels : ∀ cells, reader.infer (cellsAt rows (labelPosition rows labelColumn)) ≠ .integers cells)
    (hadded : Relation.ReflTransGen reader.AddsBlankRow s t)
    (hshort : ∀ rows', reader.cut t = .ok rows' → rows'.length ≤ limit) :
    readSamples reader file (some t) labelColumn classNames = .ok set := by
  obtain ⟨_, hs, rows₀, htable₀, hsampled⟩ := readSamples_eq_ok_iff.mp hload
  obtain rfl := Option.some.inj hs
  obtain rfl := Except.ok.inj (htable.symm.trans htable₀)
  obtain ⟨rows', htable', hblanks⟩ := hreader.blankRows hadded htable hsampled.wide
  have hsampled' := hsampled.of_blankRows hreader hblanks (hshort rows' htable') hroom hlabels
  exact readSamples_eq_ok_iff.mpr ⟨t, rfl, rows', htable', hsampled'⟩

/-- Two samples with texts for labels, and the same ones with a blank row between them and one at the end. -/
theorem readSamples_blankRows_twice :
    let s := "5,b\n7,a\n"
    let t := "5,b\n,\n7,a\n,"
    Csv.reader.ReadsBlanks 4 ∧ ∃ set rows, readSamples Csv.reader "a.csv" (some s) (-1) none = .ok set ∧
      Csv.reader.cut s = .ok rows ∧ HasRoom rows ∧
      (∀ cells, Csv.reader.infer (cellsAt rows (labelPosition rows (-1))) ≠ .integers cells) ∧
      Relation.ReflTransGen Csv.reader.AddsBlankRow s t ∧
      (∀ rows', Csv.reader.cut t = .ok rows' → rows'.length ≤ 4) ∧
      readSamples Csv.reader "a.csv" (some t) (-1) none = .ok set ∧ set.names = ["a", "b"] := by
  have htable : Csv.reader.cut "5,b\n7,a\n" = .ok [["5", "b"], ["7", "a"]] := rfl
  have hroom : HasRoom [["5", "b"], ["7", "a"]] := by decide +kernel
  have hlabels : ∀ cells, Csv.reader.infer ["b", "a"] ≠ .integers cells := by
    intro cells
    rw [(Csv.infersTypes 2).words (by decide) (by decide +kernel) List.mem_cons_self (by decide +kernel)]
    exact nofun
  have hnames : (readSamples Csv.reader "a.csv" (some "5,b\n7,a\n") (-1) none).toOption.map (·.names) =
      some ["a", "b"] := by decide +kernel
  have hadded : Relation.ReflTransGen Csv.reader.AddsBlankRow "5,b\n7,a\n" "5,b\n,\n7,a\n," := by
    have hfirst : Csv.reader.cut "5,b" = .ok [["5", "b"]] := rfl
    have hrows : Csv.reader.cut "5,b\n,\n7,a" = .ok [["5", "b"], ["", ""], ["7", "a"]] := rfl
    have hbetween : Csv.reader.AddsBlankRow "5,b\n7,a\n" "5,b\n,\n7,a\n" :=
      @TableReader.AddsBlankRow.between _ "5,b" "\n" "\n" "7,a\n" _ _ hfirst (by decide) (by decide)
    have hlast : Csv.reader.AddsBlankRow "5,b\n,\n7,a\n" "5,b\n,\n7,a\n," :=
      @TableReader.AddsBlankRow.last _ "5,b\n,\n7,a" "\n" _ _ hrows (by decide)
    exact .tail (.single hbetween) hlast
  have hshort : ∀ rows', Csv.reader.cut "5,b\n,\n7,a\n," = .ok rows' → rows'.length ≤ 4 := by
    intro rows' hrows'
    have hcut : Csv.reader.cut "5,b\n,\n7,a\n," = .ok [["5", "b"], ["", ""], ["7", "a"], ["", ""]] := rfl
    rw [← Except.ok.inj (hcut.symm.trans hrows')]
    decide
  refine ⟨Csv.readsBlanks 4, ?_⟩
  cases hload : readSamples Csv.reader "a.csv" (some "5,b\n7,a\n") (-1) none with
  | error e =>
      rw [hload] at hnames
      exact nomatch hnames
  | ok set =>
      rw [hload] at hnames
      exact ⟨set, _, rfl, htable, hroom, hlabels, hadded, hshort,
        readSamples_blankRows (Csv.readsBlanks 4) hload htable hroom hlabels hadded hshort, Option.some.inj hnames⟩

/-- The labels of samples and their names, if there are any. -/
def labelsWithNames (r : Except Error SampleSet) : Option (List Int × List String) :=
  r.toOption.map fun set => (set.samples.map (·.label), set.names)

/-- Integers as labels are not the same ones beside a blank row, and are no given names either. -/
theorem readSamples_blankRow_renames :
    let load := fun text names => labelsWithNames (readSamples Csv.reader "a.csv" (some text) (-1) names)
    Csv.reader.AddsBlankRow "5,2\n7,0\n" "5,2\n,\n7,0\n" ∧
      load "5,2\n7,0\n" none = some ([2, 0], ["0", "1", "2"]) ∧
      load "5,2\n,\n7,0\n" none = some ([1, 0], ["0.0", "2.0"]) ∧
      load "5,2\n7,0\n" (some ["0", "1", "2"]) = some ([2, 0], ["0", "1", "2"]) ∧
      load "5,2\n,\n7,0\n" (some ["0", "1", "2"]) = none := by
  have hfirst : Csv.reader.cut "5,2" = .ok [["5", "2"]] := rfl
  have hadded : Csv.reader.AddsBlankRow "5,2\n7,0\n" "5,2\n,\n7,0\n" :=
    @TableReader.AddsBlankRow.between _ "5,2" "\n" "\n" "7,0\n" _ _ hfirst (by decide) (by decide)
  exact ⟨hadded, by decide +kernel, by decide +kernel, by decide +kernel, by decide +kernel⟩

/-- Without room for an integer beside it, a blank row is not even left out. -/
example :
    let load := fun text => labelsWithNames (readSamples Csv.reader "a.csv" (some text) (-1) none)
    load "9223372036854775808,a\n1,b\n" = some ([0, 1], ["a", "b"]) ∧
      load "9223372036854775808,a\n,\n1,b\n" = none := by decide +kernel

end RegisterEvolution
