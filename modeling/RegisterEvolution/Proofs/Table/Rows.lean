import Mathlib.Data.List.TakeWhile
import RegisterEvolution.Proofs.Table.Reader

/-!
# `Proofs.Table.Rows` — rows of a text, line by line

What is read up to the end of a line does not depend on what follows it, so that the rows of a text are the rows of its
lines one after the other.

* `Csv.lines`, `Csv.lines_append` — the rows of a text, and those of two texts with a line end between them;
* `Csv.lines_separators` — the row of a line of separators;
* `Csv.rows?_of_addsBlankRow`, `Csv.table_of_addsBlankRow` — a row of empty cells is added to a text, and so to its
  table;
* `Csv.readsBlanks`, `Csv.infersTypes` — what is relied upon of the reader of comma-separated text.
-/

namespace RegisterEvolution.Csv

variable {c : Char} {cs ds body tail rest : List Char} {row : List String} {rs : List (List String)}

/-! ## Cells -/

theorem dropWhile_append_stop {p : Char → Bool} (hc : p c = false) (cs ds : List Char) :
    (cs ++ c :: ds).dropWhile p = cs.dropWhile p ++ c :: ds := by
  rw [List.dropWhile_append]
  split
  · rename_i hempty
    rw [List.isEmpty_iff.mp hempty, List.dropWhile_cons_of_neg (by rw [hc]; decide), List.nil_append]
  · rfl

theorem takeWhile_append_stop {p : Char → Bool} (hc : p c = false) (cs ds : List Char) :
    (cs ++ c :: ds).takeWhile p = cs.takeWhile p := by
  rw [List.takeWhile_append]
  split
  · rename_i hall
    rw [List.takeWhile_cons_of_neg (by rw [hc]; decide), List.append_nil]
    exact ((List.takeWhile_prefix p).eq_of_length hall).symm
  · rfl

/-- What a text begins with stands in front of a different character that follows it. -/
theorem exists_cons_of_append {d : Char} (hcd : c ≠ d) (h : cs ++ c :: ds = d :: rest) :
    ∃ others, cs = d :: others := by
  cases cs with
  | nil => exact absurd (List.cons.inj h).1 hcd
  | cons e others => exact ⟨others, congrArg (· :: others) (List.cons.inj h).1⟩

theorem endsCell_of_isLineEnd (hc : isLineEnd c = true) : endsCell c = true := by
  rw [endsCell, hc, Bool.or_true]

theorem ne_of_isLineEnd {d : Char} (hc : isLineEnd c = true) (hd : isLineEnd d = false) : c ≠ d := by
  rintro rfl
  exact absurd hc (by rw [hd]; decide)

/-- What follows a closing quotation mark is left as it is. -/
theorem quotedPart?_append (hc : c ≠ '"') (h : quotedPart? cs = some (body, tail)) (ds : List Char) :
    quotedPart? (cs ++ c :: ds) = some (body, tail ++ c :: ds) := by
  fun_induction quotedPart? cs generalizing body tail with
  | case1 => exact nomatch h
  | case2 rest ih =>
      obtain ⟨⟨inner, after⟩, hrest, hpair⟩ := Option.map_eq_some_iff.mp h
      obtain ⟨rfl, rfl⟩ := Prod.mk.inj hpair
      simp [quotedPart?, ih hrest]
  | case3 rest hrest =>
      obtain ⟨rfl, rfl⟩ := Prod.mk.inj (Option.some.inj h)
      refine quotedPart?.eq_3 _ fun others hothers => ?_
      obtain ⟨inner, hinner⟩ := exists_cons_of_append hc hothers
      exact hrest inner hinner
  | case4 d rest hdouble hquote ih =>
      obtain ⟨⟨inner, after⟩, hrest, hpair⟩ := Option.map_eq_some_iff.mp h
      obtain ⟨rfl, rfl⟩ := Prod.mk.inj hpair
      have hplain : ∀ others, d = '"' → rest ++ c :: ds = '"' :: others → False := fun _ hd _ => hquote hd
      rw [List.cons_append, quotedPart?.eq_4 _ _ hplain hquote, ih hrest]
      rfl

/-- What follows a quoted part is shorter. -/
theorem length_of_quotedPart? (h : quotedPart? cs = some (body, tail)) : tail.length < cs.length := by
  fun_induction quotedPart? cs generalizing body tail with
  | case1 => exact nomatch h
  | case2 rest ih | case4 d rest _ _ ih =>
      obtain ⟨⟨inner, after⟩, hrest, hpair⟩ := Option.map_eq_some_iff.mp h
      obtain ⟨rfl, rfl⟩ := Prod.mk.inj hpair
      have := ih hrest
      simp only [List.length_cons]
      omega
  | case3 rest _ =>
      obtain ⟨rfl, rfl⟩ := Prod.mk.inj (Option.some.inj h)
      exact Nat.lt_succ_self _

/-- A cell is read up to the end of its line, whatever follows. -/
theorem cell?_append (hc : isLineEnd c = true) {cell : List Char} (h : cell? cs = some (cell, rest)) (ds : List Char) :
    cell? (cs ++ c :: ds) = some (cell, rest ++ c :: ds) := by
  have hstop : (!endsCell c) = false := by rw [endsCell_of_isLineEnd hc]; rfl
  have hblank : decide (c = ' ') = false := decide_eq_false (ne_of_isLineEnd hc rfl)
  have hquote : c ≠ '"' := ne_of_isLineEnd hc rfl
  unfold cell? at h ⊢
  rw [dropWhile_append_stop hblank]
  split at h
  · rename_i inner hinner
    rw [hinner]
    obtain ⟨⟨body, tail⟩, hbody, hpair⟩ := Option.map_eq_some_iff.mp h
    obtain ⟨rfl, rfl⟩ := Prod.mk.inj hpair
    simp [quotedPart?_append hquote hbody, takeWhile_append_stop (p := fun d => !endsCell d) hstop,
      dropWhile_append_stop (p := fun d => !endsCell d) hstop]
  · rename_i hplain
    obtain ⟨rfl, rfl⟩ := Prod.mk.inj (Option.some.inj h)
    split
    · rename_i inner hinner
      obtain ⟨others, hothers⟩ := exists_cons_of_append hquote hinner
      exact absurd hothers (hplain others)
    · rw [takeWhile_append_stop (p := fun d => !endsCell d) hstop,
        dropWhile_append_stop (p := fun d => !endsCell d) hstop]

theorem length_of_cell? {cell : List Char} (h : cell? cs = some (cell, rest)) : rest.length ≤ cs.length := by
  have hblanks : (cs.dropWhile (· = ' ')).length ≤ cs.length := (List.dropWhile_suffix _).length_le
  unfold cell? at h
  split at h
  · rename_i inner hinner
    rw [hinner, List.length_cons] at hblanks
    obtain ⟨⟨body, tail⟩, hbody, hpair⟩ := Option.map_eq_some_iff.mp h
    obtain ⟨rfl, rfl⟩ := Prod.mk.inj hpair
    have hquoted := length_of_quotedPart? hbody
    have htail : (tail.dropWhile fun c => !endsCell c).length ≤ tail.length := (List.dropWhile_suffix _).length_le
    omega
  · obtain ⟨rfl, rfl⟩ := Prod.mk.inj (Option.some.inj h)
    exact (List.dropWhile_suffix _).length_le.trans hblanks

/-- A row is read up to the end of its line, whatever follows. -/
theorem cells?_append (hc : isLineEnd c = true) {m n : Nat} (h : cells? n cs = some (row, rest)) (hle : n ≤ m)
    (ds : List Char) : cells? m (cs ++ c :: ds) = some (row, rest ++ c :: ds) := by
  induction n generalizing m cs row with
  | zero => exact nomatch h
  | succ n ih =>
      obtain ⟨m, rfl⟩ : ∃ k, m = k + 1 := ⟨m - 1, by omega⟩
      unfold cells? at h ⊢
      obtain ⟨⟨cell, after⟩, hcell, hrow⟩ := Option.bind_eq_some_iff.mp h
      refine Option.bind_eq_some_iff.mpr ⟨(cell, after ++ c :: ds), cell?_append hc hcell ds, ?_⟩
      simp only at hrow ⊢
      split at hrow
      · rename_i tail
        obtain ⟨⟨cells, last⟩, hcells, hpair⟩ := Option.bind_eq_some_iff.mp hrow
        obtain ⟨rfl, rfl⟩ := Prod.mk.inj (Option.some.inj hpair)
        exact Option.bind_eq_some_iff.mpr ⟨(cells, last ++ c :: ds), ih hcells (by omega), rfl⟩
      · rename_i hlast
        obtain ⟨rfl, rfl⟩ := Prod.mk.inj (Option.some.inj hrow)
        split
        · rename_i tail htail
          obtain ⟨others, hothers⟩ := exists_cons_of_append (ne_of_isLineEnd hc rfl) htail
          exact absurd hothers (hlast others)
        · rfl

theorem length_of_cells? {n : Nat} (h : cells? n cs = some (row, rest)) : rest.length ≤ cs.length := by
  induction n generalizing cs row with
  | zero => exact nomatch h
  | succ n ih =>
      unfold cells? at h
      obtain ⟨⟨cell, after⟩, hcell, hrow⟩ := Option.bind_eq_some_iff.mp h
      have hshort := length_of_cell? hcell
      simp only at hrow
      split at hrow
      · rename_i tail
        obtain ⟨⟨cells, last⟩, hcells, hpair⟩ := Option.bind_eq_some_iff.mp hrow
        obtain ⟨rfl, rfl⟩ := Prod.mk.inj (Option.some.inj hpair)
        have := ih hcells
        rw [List.length_cons] at hshort
        omega
      · obtain ⟨rfl, rfl⟩ := Prod.mk.inj (Option.some.inj hrow)
        exact hshort

/-! ## Rows -/

/-- A text without the blanks in front. -/
def afterBlanks (cs : List Char) : List Char := cs.dropWhile fun c => c = ' ' || c = '\t'

/-- The rows of a text, with as many steps as it can take. -/
def lines (cs : List Char) : Option (List (List String)) := rowsFrom? (cs.length + 1) cs

/-- Blanks are left out up to a line end. -/
theorem afterBlanks_append (hc : isLineEnd c = true) (cs ds : List Char) :
    afterBlanks (cs ++ c :: ds) = afterBlanks cs ++ c :: ds :=
  dropWhile_append_stop (by simp [ne_of_isLineEnd (d := ' ') hc rfl, ne_of_isLineEnd (d := '\t') hc rfl]) cs ds

theorem length_afterLineEnd (cs : List Char) : (afterLineEnd cs).length ≤ cs.length - 1 := by
  unfold afterLineEnd
  split <;> simp only [List.length_cons, List.length_nil] <;> omega

theorem length_afterBlanks (cs : List Char) : (afterBlanks cs).length ≤ cs.length := (List.dropWhile_suffix _).length_le

/-- One step through a text that is not empty. -/
theorem rowsFrom?_succ (hne : cs ≠ []) (n : Nat) : rowsFrom? (n + 1) cs =
    if (afterBlanks cs).head?.all isLineEnd then rowsFrom? n (afterLineEnd (afterBlanks cs))
    else (cells? (cs.length + 1) cs).bind fun (row, rest) =>
      (rowsFrom? n (afterLineEnd rest)).map (row :: ·) := by
  rw [rowsFrom?, if_neg (by simpa using hne)]
  show (if (afterBlanks cs).head?.all isLineEnd then _ else _) = _
  split
  · rfl
  · cases cells? (cs.length + 1) cs with
    | none => rfl
    | some parts =>
        obtain ⟨row, rest⟩ := parts
        show (rowsFrom? n (afterLineEnd rest)).bind (fun rows => some (row :: rows)) = _
        exact Option.map_eq_bind.symm

/-- It makes no difference how many steps may be taken, if they are enough. -/
theorem rowsFrom?_congr {m n : Nat} (hm : cs.length < m) (hn : cs.length < n) : rowsFrom? m cs = rowsFrom? n cs := by
  induction m generalizing n cs with
  | zero => exact absurd hm (Nat.not_lt_zero _)
  | succ m ih =>
      obtain ⟨n, rfl⟩ : ∃ k, n = k + 1 := ⟨n - 1, by omega⟩
      by_cases hne : cs = []
      · rw [hne]
        rfl
      have hpos : 0 < cs.length := List.length_pos_iff.mpr hne
      rw [rowsFrom?_succ hne, rowsFrom?_succ hne]
      split
      · have := length_afterLineEnd (afterBlanks cs)
        have := length_afterBlanks cs
        exact ih (by omega) (by omega)
      · refine Option.bind_congr fun ⟨row, rest⟩ hrow => ?_
        have := length_afterLineEnd rest
        have := length_of_cells? hrow
        exact congrArg (Option.map (row :: ·)) (ih (by omega) (by omega))

theorem lines_nil : lines [] = some [] := rfl

/-- A line of blanks is no row. -/
theorem lines_of_blank (hne : cs ≠ []) (h : (afterBlanks cs).head?.all isLineEnd = true) :
    lines cs = lines (afterLineEnd (afterBlanks cs)) := by
  have hpos : 0 < cs.length := List.length_pos_iff.mpr hne
  have := length_afterLineEnd (afterBlanks cs)
  have := length_afterBlanks cs
  rw [lines, rowsFrom?_succ hne, if_pos h]
  exact rowsFrom?_congr (by omega) (Nat.lt_succ_self _)

/-- Any other line is one. -/
theorem lines_of_row (hne : cs ≠ []) (h : (afterBlanks cs).head?.all isLineEnd = false) :
    lines cs = (cells? (cs.length + 1) cs).bind fun (row, rest) => (lines (afterLineEnd rest)).map (row :: ·) := by
  have hpos : 0 < cs.length := List.length_pos_iff.mpr hne
  rw [lines, rowsFrom?_succ hne, if_neg (by rw [h]; decide)]
  refine Option.bind_congr fun ⟨row, rest⟩ hrow => ?_
  have := length_afterLineEnd rest
  have := length_of_cells? hrow
  exact congrArg (Option.map (row :: ·)) (rowsFrom?_congr (by omega) (Nat.lt_succ_self _))

/-- A line end in front of a text ends a line that is no row. -/
theorem lines_afterLineEnd (hc : isLineEnd c = true) (ds : List Char) :
    lines (c :: ds) = lines (afterLineEnd (c :: ds)) := by
  have hstays : afterBlanks (c :: ds) = c :: ds := afterBlanks_append hc [] ds
  rw [lines_of_blank (List.cons_ne_nil c ds) (by rw [hstays]; exact hc), hstays]

/-- A line feed behind another line end makes no difference. -/
theorem lines_afterLineEnd_cons (c : Char) (ds : List Char) : lines (afterLineEnd (c :: ds)) = lines ds := by
  unfold afterLineEnd
  split
  · rename_i rest hpair
    rw [(List.cons.inj hpair).2]
    exact (lines_afterLineEnd (c := '\n') (by decide) rest).symm
  · rename_i hpair
    rw [(List.cons.inj hpair).2]
  · rename_i hnil
    exact nomatch hnil

/-- A line end in front of a text is no row. -/
theorem lines_lineEnd (hc : isLineEnd c = true) (ds : List Char) : lines (c :: ds) = lines ds :=
  (lines_afterLineEnd hc ds).trans (lines_afterLineEnd_cons c ds)

/-- What is left after a line end of a text is followed by what follows the text. -/
theorem lines_afterLineEnd_append (hc : isLineEnd c = true) (cs ds : List Char) :
    lines (afterLineEnd (cs ++ c :: ds)) = lines (afterLineEnd cs ++ c :: ds) := by
  cases cs with
  | nil => exact (lines_afterLineEnd hc ds).symm
  | cons d rest =>
      rw [List.cons_append, lines_afterLineEnd_cons]
      unfold afterLineEnd
      split
      · rename_i after hpair
        rw [(List.cons.inj hpair).2]
        exact lines_lineEnd (by decide) _
      · rename_i hpair
        rw [(List.cons.inj hpair).2]
      · rename_i hnil
        exact nomatch hnil

/-- **The rows of two texts with a line end between them** are those of the one and then those of the other. -/
theorem lines_append (hc : isLineEnd c = true) (h : lines cs = some rs) (ds : List Char) :
    lines (cs ++ c :: ds) = (lines ds).map (rs ++ ·) := by
  -- by induction on the length of the first text, line by line
  induction hlength : cs.length using Nat.strong_induction_on generalizing cs rs with
  | _ n ih =>
      subst hlength
      by_cases hne : cs = []
      · subst hne
        obtain rfl := Option.some.inj (lines_nil.symm.trans h)
        exact (lines_lineEnd hc ds).trans Option.map_id'.symm
      have hpos : 0 < cs.length := List.length_pos_iff.mpr hne
      have hne' : cs ++ c :: ds ≠ [] := List.append_ne_nil_of_left_ne_nil hne _
      have hblank := afterBlanks_append hc cs ds
      have hhead : (afterBlanks (cs ++ c :: ds)).head?.all isLineEnd = (afterBlanks cs).head?.all isLineEnd := by
        rw [hblank]
        cases afterBlanks cs with
        | nil => exact hc
        | cons d rest => rfl
      cases hline : (afterBlanks cs).head?.all isLineEnd with
      | true =>
          rw [lines_of_blank hne hline] at h
          have := length_afterLineEnd (afterBlanks cs)
          have := length_afterBlanks cs
          rw [lines_of_blank hne' (hhead.trans hline), hblank, lines_afterLineEnd_append hc]
          exact ih _ (by omega) h rfl
      | false =>
          rw [lines_of_row hne hline] at h
          obtain ⟨⟨row, rest⟩, hrow, hrows⟩ := Option.bind_eq_some_iff.mp h
          obtain ⟨others, hothers, rfl⟩ := Option.map_eq_some_iff.mp hrows
          have := length_afterLineEnd rest
          have := length_of_cells? hrow
          have hmore : (cs ++ c :: ds).length + 1 ≥ cs.length + 1 := by simp
          rw [lines_of_row hne' (hhead.trans hline), cells?_append hc hrow hmore]
          show (lines (afterLineEnd (rest ++ c :: ds))).map (row :: ·) = _
          rw [lines_afterLineEnd_append hc, ih _ (by omega) hothers rfl, Option.map_map]
          rfl

/-! ## Lines of separators -/

/-- The cells between separators are empty. -/
theorem cells?_separators {k n : Nat} (h : k < n) :
    cells? n (List.replicate k ',') = some (List.replicate (k + 1) "", []) := by
  induction k generalizing n with
  | zero =>
      obtain ⟨n, rfl⟩ : ∃ m, n = m + 1 := ⟨n - 1, by omega⟩
      rfl
  | succ k ih =>
      obtain ⟨n, rfl⟩ : ∃ m, n = m + 1 := ⟨n - 1, by omega⟩
      have hcell : cell? (List.replicate (k + 1) ',') = some ([], ',' :: List.replicate k ',') := rfl
      unfold cells?
      rw [hcell]
      simp only [Option.bind_eq_bind, Option.bind_some, ih (n := n) (by omega)]
      rfl

/-- **A line of separators is a row of empty cells.** -/
theorem lines_separators {k : Nat} (hk : 0 < k) : lines (List.replicate k ',') = some [List.replicate (k + 1) ""] := by
  obtain ⟨k, rfl⟩ : ∃ m, k = m + 1 := ⟨k - 1, by omega⟩
  have hne : List.replicate (k + 1) ',' ≠ [] := List.cons_ne_nil _ _
  have hline : (afterBlanks (List.replicate (k + 1) ',')).head?.all isLineEnd = false := rfl
  rw [lines_of_row hne hline, cells?_separators (by simp)]
  rfl

/-! ## Rows that are added to a text -/

theorem rows?_eq (s : String) : rows? s = lines (withoutMark s.toList) := by
  refine rowsFrom?_congr ?_ (Nat.lt_succ_self _)
  have hlength : s.toList.length = s.length := String.length_toList
  unfold withoutMark
  split
  · rename_i rest heq
    rw [heq, List.length_cons] at hlength
    omega
  · omega

theorem withoutMark_append (hne : cs ≠ []) (ds : List Char) : withoutMark (cs ++ ds) = withoutMark cs ++ ds := by
  obtain ⟨c, rest, rfl⟩ := List.ne_nil_iff_exists_cons.mp hne
  rw [List.cons_append]
  unfold withoutMark
  split
  · rename_i after heq
    obtain ⟨rfl, rfl⟩ := List.cons.inj heq
    rfl
  · rename_i hplain
    split
    · rename_i after heq
      obtain ⟨rfl, rfl⟩ := List.cons.inj heq
      exact absurd rfl (hplain _)
    · rfl

section Added

open TableReader (lineEnds blankLine)

variable {above lineEnd : String} {first : List String} {others : List (List String)}

/-- A line end may be written with two characters. -/
theorem lines_append_lineEnd (h : lines cs = some rs) (hend : lineEnd ∈ lineEnds) (ds : List Char) :
    lines (cs ++ lineEnd.toList ++ ds) = (lines ds).map (rs ++ ·) := by
  simp only [lineEnds, List.mem_cons, List.not_mem_nil, or_false] at hend
  rw [List.append_assoc]
  rcases hend with rfl | rfl | rfl
  · exact lines_append (by decide) h ds
  · exact lines_append (by decide) h ds
  · exact (lines_append (by decide) h ('\n' :: ds)).trans (by rw [lines_lineEnd (by decide)])

/-- The rows of two texts with a line end between them, where the first one holds some row. -/
theorem rows?_append (hrows : rows? above = some (first :: others)) (hend : lineEnd ∈ lineEnds) (below : String) :
    rows? (above ++ lineEnd ++ below) = (lines below.toList).map (first :: others ++ ·) := by
  have hne : above.toList ≠ [] := by
    intro hnil
    rw [rows?_eq, hnil] at hrows
    exact nomatch hrows
  rw [rows?_eq] at hrows ⊢
  rw [String.toList_append, String.toList_append, List.append_assoc, withoutMark_append hne, ← List.append_assoc]
  exact lines_append_lineEnd hrows hend _

theorem lines_blankLine {width : Nat} (h : 2 ≤ width) :
    lines (blankLine width).toList = some [List.replicate width ""] := by
  have hwidth : width - 1 + 1 = width := by omega
  rw [blankLine, String.toList_ofList, lines_separators (by omega), hwidth]

theorem padTo_replicate (width : Nat) : padTo width (List.replicate width "") = List.replicate width "" := by
  rw [padTo, List.length_replicate, Nat.sub_self, List.replicate_zero, List.append_nil]

theorem length_padTo_self (row : List String) : (padTo row.length row).length = row.length := by
  rw [padTo, Nat.sub_self, List.replicate_zero, List.append_nil]

/-- A text holds a table if it has a row and no row is wider than the first one. -/
theorem table_eq_ok_iff {s : String} {rows : List (List String)} : table s = .ok rows ↔
    ∃ first others, rows? s = some (first :: others) ∧ (∀ row ∈ others, row.length ≤ first.length) ∧
      rows = (first :: others).map (padTo first.length) := by
  unfold table
  split
  · rename_i hnone
    simp [hnone]
  · rename_i hempty
    simp [hempty]
  · rename_i first others hrows
    have hall : (others.all fun row => row.length ≤ first.length) = true ↔
        ∀ row ∈ others, row.length ≤ first.length := by
      simp
    constructor
    · intro h
      split at h
      · rename_i hfit
        exact ⟨first, others, hrows, hall.mp hfit, (Except.ok.inj h).symm⟩
      · exact nomatch h
    · rintro ⟨first', others', hrows', hfit, rfl⟩
      obtain ⟨rfl, rfl⟩ := List.cons.inj (Option.some.inj (hrows.symm.trans hrows'))
      rw [if_pos (hall.mpr hfit)]

/-- The rows of a table are rows of its text. -/
theorem rows?_of_table {s : String} (h : table s = .ok (first :: others)) : ∃ rest, rows? s = some (first :: rest) := by
  obtain ⟨first', rest, hrows, -, hpadded⟩ := table_eq_ok_iff.mp h
  obtain ⟨rfl, -⟩ := List.cons.inj hpadded
  have hsame : padTo first'.length first' = first' := by
    rw [padTo, Nat.sub_self, List.replicate_zero, List.append_nil]
  exact ⟨rest, by rw [hrows, hsame]⟩

/-- **A line of separators adds a row of empty cells** after the first row of a text. -/
theorem rows?_of_addsBlankRow {s t : String} {rows : List (List String)} (h : reader.AddsBlankRow s t)
    (hrows : rows? s = some rows) (hwide : 2 ≤ (rows.headD []).length) :
    ∃ first above below, rows = first :: above ++ below ∧
      rows? t = some (first :: above ++ List.replicate first.length "" :: below) := by
  -- what stands at the end is read as the one row that is added
  have hatEnd {above lineEnd : String} {first : List String} {others : List (List String)}
      (habove : rows? above = some (first :: others)) (hend : lineEnd ∈ lineEnds) (hfirst : 2 ≤ first.length) :
      rows? (above ++ lineEnd ++ blankLine first.length) =
        some (first :: others ++ [List.replicate first.length ""]) := by
    rw [rows?_append habove hend, lines_blankLine hfirst]
    rfl
  cases h with
  | @between above lineEnd lineEnd' below first _ htable hend hend' =>
      obtain ⟨others, habove⟩ := rows?_of_table htable
      rw [rows?_append habove hend] at hrows
      obtain ⟨more, hmore, rfl⟩ := Option.map_eq_some_iff.mp hrows
      refine ⟨first, others, more, rfl, ?_⟩
      have hblank := lines_blankLine (show 2 ≤ first.length from hwide)
      have hparts : above ++ lineEnd ++ blankLine first.length ++ lineEnd' ++ below =
          above ++ lineEnd ++ (blankLine first.length ++ lineEnd' ++ below) := by simp only [String.append_assoc]
      rw [hparts, rows?_append habove hend, String.toList_append, String.toList_append,
        lines_append_lineEnd hblank hend', hmore]
      rfl
  | @afterLast above lineEnd first _ htable hend =>
      obtain ⟨others, habove⟩ := rows?_of_table htable
      obtain rfl := Option.some.inj (habove.symm.trans hrows)
      exact ⟨first, others, [], (List.append_nil _).symm, hatEnd habove hend hwide⟩
  | @last above lineEnd first _ htable hend =>
      obtain ⟨others, habove⟩ := rows?_of_table htable
      have hsame : rows? (above ++ lineEnd) = some (first :: others) := by
        have hnone := rows?_append habove hend ""
        rw [String.append_empty] at hnone
        exact hnone.trans (congrArg some (List.append_nil _))
      obtain rfl := Option.some.inj (hsame.symm.trans hrows)
      exact ⟨first, others, [], (List.append_nil _).symm, hatEnd habove hend hwide⟩

/-- **The table of a text has a row of empty cells more** when a line of separators is added to the text. -/
theorem table_of_addsBlankRow {s t : String} {rows : List (List String)} (h : reader.AddsBlankRow s t)
    (htable : table s = .ok rows) (hwide : 2 ≤ Table.width rows) :
    ∃ rows', table t = .ok rows' ∧ Table.AddsBlank rows rows' := by
  obtain ⟨first, others, hrows, hfit, rfl⟩ := table_eq_ok_iff.mp htable
  have hwidth : Table.width ((first :: others).map (padTo first.length)) = first.length := length_padTo_self first
  rw [hwidth] at hwide
  obtain ⟨first', above, below, hsame, hadded⟩ := rows?_of_addsBlankRow h hrows hwide
  obtain ⟨rfl, rfl⟩ := List.cons.inj hsame
  refine ⟨_, ?_, (first :: above).map (padTo first.length), below.map (padTo first.length), List.cons_ne_nil _ _,
    by simp, rfl⟩
  rw [hwidth]
  refine table_eq_ok_iff.mpr ⟨first, above ++ List.replicate first.length "" :: below, hadded, ?_, ?_⟩
  · intro row hrow
    rcases List.mem_append.mp hrow with habove | hbelow
    · exact hfit row (List.mem_append_left _ habove)
    rcases List.mem_cons.mp hbelow with rfl | hbelow
    · exact (List.length_replicate ..).le
    · exact hfit row (List.mem_append_right _ hbelow)
  · simp [padTo_replicate]

end Added

/-! ## The reader of comma-separated text -/

open Column

theorem length_missing_infer (cells : List String) : (reader.infer cells).missing.length = cells.length := by
  show (ofCells cells).missing.length = _
  rw [ofCells_eq, missing_column, List.length_map]

/-- **Comma-separated text is read with its blank rows.** -/
theorem readsBlanks (limit : Nat) : reader.ReadsBlanks limit where
  aligned := length_missing_infer
  blankRow added read wide := table_of_addsBlankRow added read wide
  emptyCell _ _ room := ofCells_gap room

/-- **The types of columns are told in comma-separated text.** -/
theorem infersTypes (limit : Nat) : reader.InfersTypes limit where
  aligned := length_missing_infer
  numeric {cells} _ numbers := by
    show (∃ xs, (ofCells cells).numbers? = some xs) ∧ true ∉ (ofCells cells).missing
    rw [ofCells_eq, missing_column]
    refine ⟨numbers?_of_numeric numbers _, fun hmem => ?_⟩
    obtain ⟨cell, hcell, hmisses⟩ := List.mem_map.mp hmem
    rw [misses_of_numeric numbers hcell] at hmisses
    exact nomatch hmisses
  integers _ _ room read := ofCells_integers room read
  words _ _ among isWord := ofCells_of_word among isWord

end RegisterEvolution.Csv
