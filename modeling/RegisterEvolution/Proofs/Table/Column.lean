import Mathlib.Data.List.InsertIdx
import RegisterEvolution.Proofs.Binary64.Definite
import RegisterEvolution.Table.Column

/-!
# `Proofs.Table.Column` — columns cell by cell

All cells of a column decide together how it is read. Once that is known, every cell is read on its own. One more blank
cell makes no difference to how a column is read, unless it is one of integers.

* `Column.Reading`, `Column.ofCells_eq` — the ways to read a column, and the column as cells that are read in one of
  them;
* `Column.withGap`, `Column.keep_withGap` — a column with one more cell that is missing, and the rows that are kept of
  it;
* `Column.HasRoom`, `Column.ofCells_gap` — what a blank cell does to a column with room for its integers.
-/

namespace RegisterEvolution

namespace Column

/-- Values are read one after the other exactly if each of them is read. -/
theorem mapM_eq_some_iff {α β : Type} {f : α → Option β} {xs : List α} {ys : List β} :
    xs.mapM f = some ys ↔ List.Forall₂ (fun x y => f x = some y) xs ys := by
  induction xs generalizing ys with
  | nil =>
      rw [List.forall₂_nil_left_iff]
      exact ⟨fun h => (Option.some.inj h).symm, fun h => h ▸ rfl⟩
  | cons x rest ih =>
      rw [List.mapM_cons, List.forall₂_cons_left_iff]
      simp only [Option.bind_eq_bind, Option.bind_eq_some_iff, Option.pure_def, Option.some.injEq, ih]
      constructor
      · rintro ⟨y, hy, tail, htail, rfl⟩
        exact ⟨y, tail, hy, htail, rfl⟩
      · rintro ⟨y, tail, hy, htail, rfl⟩
        exact ⟨y, hy, tail, htail, rfl⟩

/-! ## Readings -/

/-- What is read from a cell, nothing from a missing one. -/
def present? {α : Type} (read : String → Option α) (cell : String) : Option α :=
  if isMissing cell then none else read cell

/-- Whether a cell is missing or can be read. -/
def readable {α : Type} (read : String → Option α) (cell : String) : Bool := isMissing cell || (read cell).isSome

/-- The ways to read the cells of a column. -/
inductive Reading where
  | integers
  /-- Integers of which some are missing, as numbers. -/
  | gapped
  | reals
  | switches
  | texts
  /-- Text of which nothing is missing. -/
  | written
  deriving DecidableEq

/-- The column that cells make when they are read in one way. -/
def Reading.column (cells : List String) : Reading → Column
  | integers => .integers (cells.map fun cell => (present? readInteger? cell).getD 0)
  | gapped => .reals (cells.map fun cell => ((present? readInteger? cell).map Decimal.ofInt).getD (0.0 / 0.0))
  | reals => .reals (cells.map fun cell => (present? readReal? cell).getD (0.0 / 0.0))
  | switches => .switches (cells.map (present? readSwitch?))
  | texts => .texts (cells.map (present? some))
  | written => .texts (cells.map some)

/-- Whether a cell counts as missing when it is read in one way. -/
def Reading.misses (cell : String) : Reading → Bool
  | integers => false
  | gapped => (((present? readInteger? cell).map Decimal.ofInt).getD (0.0 / 0.0)).isNaN
  | reals => ((present? readReal? cell).getD (0.0 / 0.0)).isNaN
  | switches => (present? readSwitch? cell).isNone
  | texts => (present? some cell).isNone
  | written => false

/-- Whether integers and missing cells have room in a column together. -/
def roomy (cells : List String) : Bool :=
  fitTogether (cells.any isMissing) (cells.any isNegated) (cells.filterMap (present? readInteger?))

/-- The way in which integers and missing cells are read together. -/
def integerReading (cells : List String) : Reading :=
  if roomy cells then if cells.any isMissing then .gapped else .integers
  else if stayWritten (cells.filterMap (present? readInteger?)) then .written
  else .texts

/-- The way in which the cells of a column are read. -/
def reading (cells : List String) : Reading :=
  if cells.all (readable readInteger?) then integerReading cells
  else if cells.all (readable readReal?) then .reals
  else if cells.all (readable readSwitch?) then .switches
  else .texts

section Readings

variable {α : Type} {read : String → Option α} {cells : List String} {cell : String} {r : Reading}

/-- Cells are read one after the other where each of them is missing or can be read. -/
theorem mapM_readOr? (read : String → Option α) (cells : List String) :
    cells.mapM (readOr? read) = if cells.all (readable read) then some (cells.map (present? read)) else none := by
  have hcell : ∀ cell, readOr? read cell = if readable read cell then some (present? read cell) else none := by
    intro cell
    unfold readOr? readable present?
    cases isMissing cell <;> cases read cell <;> rfl
  induction cells with
  | nil => rfl
  | cons cell rest ih =>
      rw [List.mapM_cons, ih, hcell, List.all_cons]
      cases readable read cell <;> cases rest.all (readable read) <;> rfl

theorem present?_of_missing (h : isMissing cell = true) : present? read cell = none := if_pos h

theorem present?_of_present (h : isMissing cell = false) : present? read cell = read cell :=
  if_neg (by rw [h]; decide)

@[simp] theorem isMissing_blank : isMissing "" = true := rfl

@[simp] theorem isNegated_blank : isNegated "" = false := rfl

@[simp] theorem present?_blank (read : String → Option α) : present? read "" = none := rfl

@[simp] theorem readable_blank (read : String → Option α) : readable read "" = true := rfl

/-- Where nothing is missing, each cell can be read. -/
theorem exists_read (h : cells.all (readable read) = true) (hnone : cells.any isMissing = false) (hmem : cell ∈ cells) :
    isMissing cell = false ∧ ∃ a, read cell = some a := by
  have hpresent : isMissing cell = false := Bool.eq_false_iff.mpr (List.any_eq_false.mp hnone cell hmem)
  have hread := List.all_eq_true.mp h cell hmem
  rw [readable, hpresent, Bool.false_or] at hread
  exact ⟨hpresent, Option.isSome_iff_exists.mp hread⟩

/-- Something is missing exactly where less is read than there is. -/
theorem length_present?_lt (h : cells.all (readable read) = true) :
    (cells.filterMap (present? read)).length < cells.length ↔ cells.any isMissing = true := by
  rw [List.length_filterMap_lt_length_iff_exists, List.any_eq_true]
  refine exists_congr fun cell => ⟨?_, ?_⟩
  · rintro ⟨hmem, hnone⟩
    refine ⟨hmem, Bool.not_eq_false _ ▸ fun hpresent => ?_⟩
    rw [present?_of_present hpresent] at hnone
    have hread := List.all_eq_true.mp h cell hmem
    simp [readable, hpresent, hnone] at hread
  · rintro ⟨hmem, hmissing⟩
    exact ⟨hmem, present?_of_missing hmissing⟩

/-- Where nothing is missing, one thing is read from each cell. -/
theorem filterMap_present? (h : cells.all (readable read) = true) (hnone : cells.any isMissing = false) (d : α) :
    cells.filterMap (present? read) = cells.map fun cell => (present? read cell).getD d := by
  rw [← List.filterMap_eq_map]
  refine List.filterMap_congr fun cell hmem => ?_
  obtain ⟨hpresent, a, ha⟩ := exists_read h hnone hmem
  simp [present?_of_present hpresent, ha]

/-- Where all cells are integers or missing, they are a column of some kind. -/
theorem integers?_eq (cells : List String) : integers? cells =
    if cells.all (readable readInteger?) then some ((integerReading cells).column cells) else none := by
  unfold integers?
  rw [mapM_readOr?]
  by_cases hread : cells.all (readable readInteger?) = true
  · rw [if_pos hread, if_pos hread]
    have hpresent : (cells.map (present? readInteger?)).filterMap id = cells.filterMap (present? readInteger?) :=
      List.filterMap_map ..
    simp only [Option.bind_eq_bind, Option.bind_some, hpresent, length_present?_lt hread, Bool.decide_eq_true]
    change (if !roomy cells then _ else _) = _
    unfold integerReading
    cases hroom : roomy cells with
    | false =>
        cases hwritten : stayWritten (cells.filterMap (present? readInteger?)) <;> simp [Reading.column, present?]
    | true =>
        by_cases hmissing : cells.any isMissing = true
        · simp only [hmissing, Bool.not_true, Bool.false_eq_true, if_true, if_false, List.map_map]
          rfl
        · simp only [hmissing, Bool.not_true, Bool.false_eq_true, if_true, if_false,
            filterMap_present? hread (Bool.eq_false_iff.mpr hmissing) 0]
          rfl
  · rw [if_neg hread, if_neg hread]
    rfl

/-- **A column is made of cells that are all read in the same way.** -/
theorem ofCells_eq (cells : List String) : ofCells cells = (reading cells).column cells := by
  unfold ofCells reading
  rw [integers?_eq]
  by_cases hintegers : cells.all (readable readInteger?) = true
  · rw [if_pos hintegers, if_pos hintegers]
    rfl
  rw [if_neg hintegers, if_neg hintegers, reals?, mapM_readOr?]
  by_cases hreals : cells.all (readable readReal?) = true
  · rw [if_pos hreals, if_pos hreals]
    exact congrArg Column.reals (List.map_map ..)
  rw [if_neg hreals, if_neg hreals, switches?, mapM_readOr?]
  by_cases hswitches : cells.all (readable readSwitch?) = true
  · rw [if_pos hswitches, if_pos hswitches]
    rfl
  · rw [if_neg hswitches, if_neg hswitches]
    rfl

/-! ## Rows that are left out -/

theorem pick_map {β γ : Type} (marks : List Bool) (f : β → γ) (xs : List β) :
    pick marks (xs.map f) = (pick marks xs).map f := by
  induction xs generalizing marks with
  | nil => cases marks <;> rfl
  | cons x rest ih =>
      cases marks with
      | nil => rfl
      | cons mark marks =>
          have h := ih marks
          unfold pick at h ⊢
          cases mark <;> simp [h]

/-- **A row that is not marked makes no difference** to what is picked. -/
theorem pick_insertIdx {β : Type} {k : Nat} {marks : List Bool} {xs : List β} (hmarks : k ≤ marks.length)
    (hxs : k ≤ xs.length) (x : β) : pick (marks.insertIdx k false) (xs.insertIdx k x) = pick marks xs := by
  induction k generalizing marks xs with
  | zero => simp [pick]
  | succ k ih =>
      obtain ⟨mark, marks, rfl⟩ := List.exists_cons_of_length_pos (Nat.zero_lt_of_lt hmarks)
      obtain ⟨y, xs, rfl⟩ := List.exists_cons_of_length_pos (Nat.zero_lt_of_lt hxs)
      have h := ih (Nat.le_of_succ_le_succ hmarks) (Nat.le_of_succ_le_succ hxs)
      unfold pick at h ⊢
      cases mark <;> simp [h]

/-- Something is picked if there is something at a mark. -/
theorem pick_ne_nil {β : Type} {marks : List Bool} {xs : List β} (hmark : true ∈ marks)
    (hlength : marks.length ≤ xs.length) : pick marks xs ≠ [] := by
  induction marks generalizing xs with
  | nil => exact absurd hmark List.not_mem_nil
  | cons mark marks ih =>
      obtain ⟨x, xs, rfl⟩ := List.exists_cons_of_length_pos (Nat.zero_lt_of_lt hlength)
      cases mark with
      | true => simp [pick]
      | false =>
          have h := ih (by simpa using hmark) (Nat.le_of_succ_le_succ hlength)
          unfold pick at h ⊢
          simpa using h

/-- Everything is picked if all is marked. -/
theorem pick_of_all {β : Type} {marks : List Bool} {xs : List β} (hall : false ∉ marks)
    (hlength : marks.length = xs.length) : pick marks xs = xs := by
  induction marks generalizing xs with
  | nil => exact (List.length_eq_zero_iff.mp hlength.symm).symm
  | cons mark marks ih =>
      obtain ⟨x, xs, rfl⟩ := List.exists_cons_of_length_eq_add_one hlength.symm
      rw [List.mem_cons, not_or] at hall
      have h := ih hall.2 (Nat.succ.inj hlength)
      cases mark with
      | false => exact absurd rfl hall.1
      | true =>
          unfold pick at h ⊢
          simp [h]

theorem missing_column (r : Reading) (cells : List String) : (r.column cells).missing = cells.map r.misses := by
  cases r <;> simp only [Reading.column, missing, List.map_map] <;> rfl

theorem length_missing (column : Column) : column.missing.length = column.cellTexts.length := by
  cases column <;> simp only [missing, cellTexts, List.length_map]

theorem cellTexts_keep (marks : List Bool) (column : Column) :
    (column.keep marks).cellTexts = pick marks column.cellTexts := by
  cases column <;> simp only [keep, cellTexts, pick_map]

theorem keep_of_all {marks : List Bool} (hall : false ∉ marks) {column : Column}
    (hlength : marks.length = column.missing.length) : column.keep marks = column := by
  cases column <;> simp only [missing, List.length_map] at hlength <;> simp only [keep, pick_of_all hall hlength]

/-! ## Gaps -/

/-- The column with one more cell, which is missing. Integers have no room for it and become numbers. -/
def withGap (k : Nat) : Column → Column
  | integers cells => reals ((cells.map Decimal.ofInt).insertIdx k (0.0 / 0.0))
  | reals cells => reals (cells.insertIdx k (0.0 / 0.0))
  | switches cells => switches (cells.insertIdx k none)
  | texts cells => texts (cells.insertIdx k none)

section Gaps

variable {k : Nat} {column : Column} {marks : List Bool}

theorem missing_withGap : (column.withGap k).missing = column.missing.insertIdx k true := by
  have hnan : Float.isNaN (0.0 / 0.0) = true := by decide
  cases column with
  | integers cells =>
      have hnumbers : (cells.map Decimal.ofInt).map Float.isNaN = cells.map fun _ => false := by
        rw [List.map_map]
        exact List.map_congr_left fun n _ => Binary64.isNaN_ofInt n
      simp only [withGap, missing, List.map_insertIdx, hnumbers, hnan]
  | reals cells => simp only [withGap, missing, List.map_insertIdx, hnan]
  | switches cells | texts cells => exact List.map_insertIdx ..

/-- The numbers in the rows that are kept are the same. -/
theorem numbers?_keep_withGap (hmarks : k ≤ marks.length) (hcolumn : k ≤ column.missing.length) :
    ((column.withGap k).keep (marks.insertIdx k false)).numbers? = (column.keep marks).numbers? := by
  cases column <;> simp only [missing, List.length_map] at hcolumn
  case integers cells =>
    have hnumbers : k ≤ (cells.map Decimal.ofInt).length := by rwa [List.length_map]
    simp only [withGap, keep, pick_insertIdx hmarks hnumbers, pick_map]
    rfl
  all_goals simp only [withGap, keep, pick_insertIdx hmarks hcolumn]

/-- **The rows that are kept are the same** of a column that is not one of integers. -/
theorem keep_withGap (hmarks : k ≤ marks.length) (hcolumn : k ≤ column.missing.length)
    (hplain : ∀ cells, column ≠ .integers cells) :
    (column.withGap k).keep (marks.insertIdx k false) = column.keep marks := by
  cases column <;> simp only [missing, List.length_map] at hcolumn
  case integers cells => exact absurd rfl (hplain cells)
  all_goals simp only [withGap, keep, pick_insertIdx hmarks hcolumn]

end Gaps

end Readings

/-! ## Room for integers -/

/-- From this magnitude on integers are rounded to the one that stands for missing cells, or have no room beside
    these. -/
def roomLimit : Nat := 2 ^ 63 - 2 ^ 9

/-- A cell is no integer, or one with room in every column. -/
def HasRoom (cell : String) : Prop := ∀ n ∈ readInteger? cell, n.natAbs < roomLimit

instance (cell : String) : Decidable (HasRoom cell) :=
  inferInstanceAs (Decidable (∀ n ∈ readInteger? cell, n.natAbs < roomLimit))

variable {cells : List String} {cell : String}

theorem roomy_of_hasRoom (h : ∀ cell ∈ cells, HasRoom cell) : roomy cells = true := by
  have hsigned :
      (cells.filterMap (present? readInteger?)).all (fun n => -signedLimit ≤ n && n < signedLimit) = true := by
    refine List.all_eq_true.mpr fun n hn => ?_
    obtain ⟨cell, hmem, hread⟩ := List.mem_filterMap.mp hn
    have hinteger : n ∈ readInteger? cell := by
      unfold present? at hread
      split at hread
      · exact nomatch hread
      · exact hread
    have hroom := h cell hmem n hinteger
    have hlimit : signedLimit = 2 ^ 63 := rfl
    unfold roomLimit at hroom
    simp only [Bool.and_eq_true, decide_eq_true_iff]
    omega
  rw [roomy, fitTogether, hsigned, Bool.true_or]

/-- Where there is room, integers become numbers exactly if some cell is missing. -/
theorem integerReading_of_hasRoom (h : ∀ cell ∈ cells, HasRoom cell) :
    integerReading cells = if cells.any isMissing then .gapped else .integers := by
  rw [integerReading, if_pos (roomy_of_hasRoom h)]

theorem insertIdx_append_length {β : Type} (xs ys : List β) (x : β) :
    (xs ++ ys).insertIdx xs.length x = xs ++ x :: ys := by
  induction xs with
  | nil => rfl
  | cons y xs ih => simp [ih]

/-- A blank cell between others leaves a gap in a column that is read as before. -/
theorem Reading.column_gap {r : Reading} (hr : r ≠ .integers ∧ r ≠ .written) (above below : List String) :
    r.column (above ++ "" :: below) = (r.column (above ++ below)).withGap above.length := by
  have hmap {β : Type} (f : String → β) :
      (above ++ "" :: below).map f = ((above ++ below).map f).insertIdx above.length (f "") := by
    rw [← List.map_insertIdx, insertIdx_append_length]
  cases r with
  | integers => exact absurd rfl hr.1
  | written => exact absurd rfl hr.2
  | gapped | reals | switches | texts =>
      simp only [column, withGap, hmap, present?_blank, Option.map_none, Option.getD_none]

/-- Integers of which none is missing become numbers beside a blank cell. -/
theorem column_gapped {above below : List String} (hread : (above ++ below).all (readable readInteger?) = true)
    (hnone : (above ++ below).any isMissing = false) :
    Reading.gapped.column (above ++ "" :: below) =
      (Reading.integers.column (above ++ below)).withGap above.length := by
  rw [Reading.column_gap ⟨by decide, by decide⟩]
  refine congrArg (fun xs : List Float => Column.reals (xs.insertIdx above.length _)) ?_
  rw [List.map_map]
  refine List.map_congr_left fun cell hmem => ?_
  obtain ⟨hpresent, n, hn⟩ := exists_read hread hnone hmem
  simp [present?_of_present hpresent, hn]

/-- **A blank cell leaves a gap in a column**, where there is room for its integers. -/
theorem ofCells_gap {above below : List String} (h : ∀ cell ∈ above ++ below, HasRoom cell) :
    ofCells (above ++ "" :: below) = (ofCells (above ++ below)).withGap above.length := by
  have hblank {α : Type} (read : String → Option α) :
      (above ++ "" :: below).all (readable read) = (above ++ below).all (readable read) := by simp
  have hroom : ∀ cell ∈ above ++ "" :: below, HasRoom cell := by
    have hempty : HasRoom "" := by decide +kernel
    simp only [List.forall_mem_append, List.forall_mem_cons] at h ⊢
    exact ⟨h.1, hempty, h.2⟩
  rw [ofCells_eq, ofCells_eq]
  unfold reading
  rw [hblank, hblank, hblank, integerReading_of_hasRoom h, integerReading_of_hasRoom hroom]
  by_cases hread : (above ++ below).all (readable readInteger?) = true
  · rw [if_pos hread, if_pos hread, if_pos (by simp)]
    by_cases hmissing : (above ++ below).any isMissing = true
    · rw [if_pos hmissing]
      exact Reading.column_gap ⟨by decide, by decide⟩ ..
    · rw [if_neg hmissing]
      exact column_gapped hread (Bool.eq_false_iff.mpr hmissing)
  · rw [if_neg hread, if_neg hread]
    refine Reading.column_gap ?_ ..
    split
    · decide
    · split <;> decide

/-! ## Columns of integers and of words -/

/-- A cell which is neither missing nor a number nor a switch. -/
def IsWord (cell : String) : Prop :=
  isMissing cell = false ∧ readInteger? cell = none ∧ readReal? cell = none ∧ readSwitch? cell = none

instance (cell : String) : Decidable (IsWord cell) := inferInstanceAs (Decidable (_ ∧ _ ∧ _ ∧ _))

/-- No word for missing cells is an integer. -/
theorem isMissing_of_readInteger? {n : Int} (h : readInteger? cell = some n) : isMissing cell = false := by
  have hwords : ∀ word ∈ missingWords, readInteger? word = none := by decide +kernel
  refine Bool.eq_false_iff.mpr fun hmissing => ?_
  rw [hwords cell (List.contains_iff_mem.mp hmissing)] at h
  exact nomatch h

/-- **Integers make a column of integers**, where there is room for them. -/
theorem ofCells_integers {ns : List Int} (hroom : ∀ cell ∈ cells, HasRoom cell)
    (h : cells.mapM readInteger? = some ns) : ofCells cells = .integers ns := by
  rw [mapM_eq_some_iff] at h
  have hinteger : ∀ cell ∈ cells, isMissing cell = false ∧ (readInteger? cell).isSome = true := by
    clear hroom
    induction h with
    | nil => exact nofun
    | cons hn _ ih => exact List.forall_mem_cons.mpr ⟨⟨isMissing_of_readInteger? hn, by rw [hn]; rfl⟩, ih⟩
  have hread : cells.all (readable readInteger?) = true :=
    List.all_eq_true.mpr fun cell hmem => by rw [readable, (hinteger cell hmem).2, Bool.or_true]
  have hnone : cells.any isMissing = false :=
    List.any_eq_false.mpr fun cell hmem => by rw [(hinteger cell hmem).1]; decide
  have hcolumn : cells.map (fun cell => (present? readInteger? cell).getD 0) = ns := by
    rw [← List.forall₂_eq_eq_eq, List.forall₂_map_left_iff]
    refine h.imp fun cell n hn => ?_
    rw [present?_of_present (isMissing_of_readInteger? hn), hn]
    rfl
  rw [ofCells_eq, reading, if_pos hread, integerReading_of_hasRoom hroom, hnone, ← hcolumn]
  rfl

/-- **A word among the cells of a column makes all of them text**, but for those that are missing. -/
theorem ofCells_of_word {word : String} (hmem : word ∈ cells) (hword : IsWord word) :
    ofCells cells = .texts (cells.map fun cell => if isMissing cell then none else some cell) := by
  have hnot {α : Type} {read : String → Option α} (h : read word = none) : ¬cells.all (readable read) = true := by
    intro hall
    have hreadable := List.all_eq_true.mp hall word hmem
    rw [readable, hword.1, h] at hreadable
    exact nomatch hreadable
  rw [ofCells_eq, reading, if_neg (hnot hword.2.1), if_neg (hnot hword.2.2.1), if_neg (hnot hword.2.2.2)]
  rfl

end Column

end RegisterEvolution
