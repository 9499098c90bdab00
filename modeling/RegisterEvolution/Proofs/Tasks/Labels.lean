import RegisterEvolution.Proofs.Machine.Vector
import RegisterEvolution.Proofs.Tasks.Accuracy
import RegisterEvolution.Proofs.Tasks.Samples

/-!
# `Proofs.Tasks.Labels` — the numbers of labels and their names

However labels are numbered, the name of a number is the text of the label: the name at the last position where it is
given, the integer itself, or the text in its place among all texts. Labels of a loaded file are therefore classes of
the task that is made of it.

* `pairwise_distinctTexts`, `mem_distinctTexts` — the different texts in increasing order;
* `lastPosition?_eq_some_iff` — the last position of a name;
* `Resolves`, `Named` — numbers that stand for texts, and where their names come from;
* `readSamples_labels` — the labels of loaded samples are classes of the task made of them;
* `numberLabels_faithful` — labels are numbered faithfully, or refused.
-/

namespace RegisterEvolution

/-! ## Different texts in order -/

section Texts

variable {s t : String} {names texts : List String}

theorem mem_insertText : t ∈ insertText s names ↔ t = s ∨ t ∈ names := by
  induction names with
  | nil => simp [insertText]
  | cons name rest ih =>
      unfold insertText
      split
      · exact List.mem_cons
      · rename_i hbefore
        split
        · rw [List.mem_cons, ih, List.mem_cons, or_left_comm]
        · rename_i hafter
          obtain rfl : s = name := String.le_antisymm (String.not_lt.mp hafter) (String.not_lt.mp hbefore)
          rw [List.mem_cons, ← or_assoc, or_self]

theorem pairwise_insertText (h : names.Pairwise (· < ·)) : (insertText s names).Pairwise (· < ·) := by
  induction names with
  | nil => exact List.pairwise_singleton ..
  | cons name rest ih =>
      obtain ⟨hfirst, hrest⟩ := List.pairwise_cons.mp h
      unfold insertText
      split
      · rename_i hbefore
        refine List.pairwise_cons.mpr ⟨fun t ht => ?_, h⟩
        rcases List.mem_cons.mp ht with rfl | ht
        · exact hbefore
        · exact String.lt_trans hbefore (hfirst t ht)
      · split
        · rename_i hafter
          refine List.pairwise_cons.mpr ⟨fun t ht => ?_, ih hrest⟩
          rcases mem_insertText.mp ht with rfl | ht
          · exact hafter
          · exact hfirst t ht
        · exact h

theorem mem_distinctTexts : t ∈ distinctTexts texts ↔ t ∈ texts := by
  unfold distinctTexts
  induction texts with
  | nil => rfl
  | cons s rest ih => rw [List.foldr_cons, mem_insertText, ih, List.mem_cons]

theorem pairwise_distinctTexts (texts : List String) : (distinctTexts texts).Pairwise (· < ·) := by
  unfold distinctTexts
  induction texts with
  | nil => exact .nil
  | cons s rest ih => exact pairwise_insertText ih

end Texts

/-! ## Positions of names -/

section Positions

variable {name : String} {names texts : List String} {numbers : List Nat} {i : Nat}

/-- A name has a last position exactly if it is there. -/
theorem exists_lastPosition?_iff : (∃ i, lastPosition? name names = some i) ↔ name ∈ names := by
  induction names with
  | nil => simp [lastPosition?]
  | cons n rest ih =>
      unfold lastPosition?
      rw [List.mem_cons, ← ih]
      cases lastPosition? name rest with
      | some i => simp
      | none => simp [eq_comm]

/-- The last position of a name is one where it stands, and it stands at none after it. -/
theorem lastPosition?_eq_some_iff :
    lastPosition? name names = some i ↔ names[i]? = some name ∧ name ∉ names.drop (i + 1) := by
  induction names generalizing i with
  | nil => simp [lastPosition?]
  | cons n rest ih =>
      have hlater : (∃ j, lastPosition? name rest = some j) ↔ name ∈ rest := exists_lastPosition?_iff
      unfold lastPosition?
      cases hrest : lastPosition? name rest with
      | some j =>
          have hmem : name ∈ rest := hlater.mp ⟨j, hrest⟩
          cases i with
          | zero => simp [hmem]
          | succ k =>
              rw [List.getElem?_cons_succ, List.drop_succ_cons, ← ih, hrest]
              simp
      | none =>
          have hmem : name ∉ rest := fun hmem => by
            obtain ⟨j, hj⟩ := hlater.mpr hmem
            exact nomatch hrest.symm.trans hj
          cases i with
          | zero => simp [hmem]
          | succ k =>
              rw [List.getElem?_cons_succ, List.drop_succ_cons, ← ih, hrest]
              simp

/-- Texts are numbered by the last positions of their names. -/
theorem numberBy_eq_ok_iff : numberBy names texts = .ok numbers ↔
    List.Forall₂ (fun text number => lastPosition? text names = some number) texts numbers := by
  rw [← Column.mapM_eq_some_iff]
  unfold numberBy
  split
  · rename_i found hfound
    rw [hfound, Except.ok.injEq, Option.some.injEq]
  · rename_i hnone
    rw [hnone]
    exact ⟨nofun, nofun⟩

/-- Texts are refused exactly if one of them is no name, and the error tells which ones. -/
theorem numberBy_eq_error_iff {e : LoadError} : numberBy names texts = .error e ↔
    (∃ text ∈ texts, text ∉ names) ∧
      e = .unknownLabels (distinctTexts (texts.filter fun text => !names.contains text)) names := by
  have hfound : (∃ numbers, numberBy names texts = .ok numbers) ↔ ∀ text ∈ texts, text ∈ names := by
    simp only [numberBy_eq_ok_iff, exists_forall₂_iff, exists_lastPosition?_iff]
  constructor
  · intro h
    refine ⟨?_, ?_⟩
    · by_contra hall
      push Not at hall
      obtain ⟨numbers, hok⟩ := hfound.mpr hall
      exact nomatch h.symm.trans hok
    · unfold numberBy at h
      split at h
      · exact nomatch h
      · exact (Except.error.inj h).symm
  · rintro ⟨⟨text, hmem, hunknown⟩, rfl⟩
    have hnone : texts.mapM (fun text => lastPosition? text names) = none := by
      refine Option.eq_none_iff_forall_not_mem.mpr fun numbers hnumbers => ?_
      exact hunknown (hfound.mp ⟨numbers, numberBy_eq_ok_iff.mpr (Column.mapM_eq_some_iff.mp hnumbers)⟩ text hmem)
    unfold numberBy
    rw [hnone]

end Positions

/-! ## Numbers that stand for texts -/

/-- Every number is the position of its text in a list of names, and two numbers are equal exactly if their texts
    are. -/
structure Resolves (names texts : List String) (numbers : List Nat) : Prop where
  decodes : List.Forall₂ (fun number text => names[number]? = some text) numbers texts
  alike : ∀ i j : Nat, numbers[i]? = numbers[j]? ↔ texts[i]? = texts[j]?

/-- Where the names of labels come from, and what is known about the numbers then. -/
inductive Named (labels : Column) : Option (List String) → List Nat → List String → Prop
  /-- Of several given names that are equal the last one counts. -/
  | given {names : List String} {numbers : List Nat}
      (last : List.Forall₂ (fun number text => text ∉ names.drop (number + 1)) numbers labels.cellTexts) :
    Named labels (some names) numbers names
  /-- Integers number themselves, and the names go on to the greatest one. -/
  | integers {cells : List Int} {numbers : List Nat} {greatest : Nat} (column : labels = .integers cells)
      (same : numbers.map (fun n : Nat => (n : Int)) = cells) (listed : (greatest : Int) ∈ cells)
      (bound : ∀ n ∈ cells, n ≤ greatest) :
    Named labels none numbers ((List.range (greatest + 1)).map fun n => toString n)
  /-- Other labels are numbered in the order of their texts. -/
  | texts {numbers : List Nat} {names : List String} (column : ∀ cells, labels ≠ .integers cells)
      (ascending : names.Pairwise (· < ·)) (mem_iff : ∀ text, text ∈ names ↔ text ∈ labels.cellTexts) :
    Named labels none numbers names

section Numbers

variable {labels : Column} {classNames : Option (List String)} {names texts : List String} {numbers : List Nat}
  {cells : List Int}

/-- Elements of two lists are equal together where equality of the ones decides about that of the others. -/
theorem alike_of_forall₂ {α β : Type} {R : α → β → Prop} {xs : List α} {ys : List β} (h : List.Forall₂ R xs ys)
    (hR : ∀ {x y x' y'}, R x y → R x' y' → (x = x' ↔ y = y')) (i j : Nat) : xs[i]? = xs[j]? ↔ ys[i]? = ys[j]? := by
  have hrel : ∀ k : Nat, Option.Rel R xs[k]? ys[k]? := by
    induction h with
    | nil => exact fun _ => .none
    | cons hxy _ ih =>
        intro k
        cases k with
        | zero => exact .some hxy
        | succ k => exact ih k
  have hi := hrel i
  have hj := hrel j
  generalize xs[i]? = x, ys[i]? = y, xs[j]? = x', ys[j]? = y' at hi hj ⊢
  cases hi with
  | none => cases hj <;> simp
  | some hxy =>
      cases hj with
      | none => simp
      | some hxy' =>
          rw [Option.some.injEq, Option.some.injEq]
          exact hR hxy hxy'

/-- Numbers that stand for texts are those of names. -/
theorem Resolves.lt (h : Resolves names texts numbers) : ∀ number ∈ numbers, number < names.length :=
  ((List.forall₂_and_left numbers texts).mp (h.decodes.imp fun _ _ hname =>
    ⟨(List.getElem?_eq_some_iff.mp hname).1, hname⟩)).1

theorem Resolves.of_numberBy (h : numberBy names texts = .ok numbers) : Resolves names texts numbers := by
  have hpositions := (numberBy_eq_ok_iff.mp h).flip
  refine ⟨hpositions.imp fun number text hnumber => (lastPosition?_eq_some_iff.mp hnumber).1, ?_⟩
  refine alike_of_forall₂ hpositions fun {number text number' text'} hnumber hnumber' => ⟨?_, ?_⟩
  · rintro rfl
    exact Option.some.inj
      ((lastPosition?_eq_some_iff.mp hnumber).1.symm.trans (lastPosition?_eq_some_iff.mp hnumber').1)
  · rintro rfl
    exact Option.some.inj (hnumber.symm.trans hnumber')

/-- The greatest of some integers and a bound is one of them, and none is greater. -/
theorem foldl_max_mem (cells : List Int) (least : Int) :
    cells.foldl max least ∈ least :: cells ∧ ∀ n ∈ least :: cells, n ≤ cells.foldl max least := by
  induction cells generalizing least with
  | nil => simp
  | cons n rest ih =>
      obtain ⟨hmem, hbound⟩ := ih (max least n)
      rw [List.foldl_cons]
      refine ⟨?_, ?_⟩
      · rcases List.mem_cons.mp hmem with heq | hrest
        · rw [heq]
          rcases max_choice least n with hmax | hmax <;> simp [hmax]
        · exact List.mem_cons_of_mem _ (List.mem_cons_of_mem _ hrest)
      · have hgreatest := hbound _ (List.mem_cons_self ..)
        intro m hm
        rcases List.mem_cons.mp hm with rfl | hm
        · exact (le_max_left ..).trans hgreatest
        rcases List.mem_cons.mp hm with rfl | hm
        · exact (le_max_right ..).trans hgreatest
        · exact hbound m (List.mem_cons_of_mem _ hm)

/-- Integers that are not negative number themselves. -/
theorem named_integers (hne : cells ≠ []) (hcells : ∀ n ∈ cells, 0 ≤ n) :
    Resolves (numberNames (cells.foldl max 0 + 1).toNat) (Column.integers cells).cellTexts (cells.map Int.toNat) ∧
      Named (.integers cells) none (cells.map Int.toNat) (numberNames (cells.foldl max 0 + 1).toNat) := by
  obtain ⟨hmem, hbound⟩ := foldl_max_mem cells 0
  have hlisted : cells.foldl max 0 ∈ cells := by
    refine (List.mem_cons.mp hmem).elim (fun hzero => ?_) id
    obtain ⟨n, rest, rfl⟩ := List.ne_nil_iff_exists_cons.mp hne
    have hn : n = 0 := le_antisymm (hzero ▸ hbound n (by simp)) (hcells n (List.mem_cons_self ..))
    rw [hzero, ← hn]
    exact List.mem_cons_self ..
  obtain ⟨greatest, hgreatest⟩ := Int.eq_ofNat_of_zero_le (hcells _ hlisted)
  rw [hgreatest] at hlisted hbound ⊢
  have hsame : (cells.map Int.toNat).map (fun n : Nat => (n : Int)) = cells := by
    rw [List.map_map]
    exact (List.map_congr_left fun n hn => Int.toNat_of_nonneg (hcells n hn)).trans (List.map_id _)
  have hnames : ((greatest : Int) + 1).toNat = greatest + 1 := by omega
  rw [hnames]
  refine ⟨?_, .integers rfl hsame hlisted fun n hn => hbound n (List.mem_cons_of_mem _ hn)⟩
  have hpositions : List.Forall₂ (fun number text => number < greatest + 1 ∧ text = number.repr) (cells.map Int.toNat)
      (Column.integers cells).cellTexts := by
    rw [Column.cellTexts, List.forall₂_map_left_iff, List.forall₂_map_right_iff, List.forall₂_same]
    intro n hn
    obtain ⟨k, rfl⟩ := Int.eq_ofNat_of_zero_le (hcells n hn)
    have hle := hbound k (List.mem_cons_of_mem _ hn)
    exact ⟨by omega, rfl⟩
  refine ⟨hpositions.imp fun number text h => ?_, alike_of_forall₂ hpositions fun h h' => ?_⟩
  · rw [numberNames, List.getElem?_map, List.getElem?_range h.1, h.2]
    rfl
  · rw [h.2, h'.2, Nat.repr_inj]

/-! ## Labels of a column -/

theorem numberLabels_given (labels : Column) (names : List String) :
    numberLabels labels (some names) = (numberBy names labels.cellTexts).map fun numbers => (numbers, names) := by
  show (numberBy names labels.cellTexts >>= fun numbers => .ok (numbers, names)) = _
  cases numberBy names labels.cellTexts <;> rfl

theorem numberLabels_integers (cells : List Int) : numberLabels (.integers cells) none =
    if ∃ n ∈ cells, n < 0 then .error .negativeLabel
    else .ok (cells.map Int.toNat, numberNames (cells.foldl max 0 + 1).toNat) := by
  unfold numberLabels
  simp

theorem numberLabels_texts (hcolumn : ∀ cells, labels ≠ .integers cells) : numberLabels labels none =
    (numberBy (distinctTexts labels.cellTexts) labels.cellTexts).map
      fun numbers => (numbers, distinctTexts labels.cellTexts) := by
  cases labels with
  | integers cells => exact absurd rfl (hcolumn cells)
  | reals | switches | texts =>
      unfold numberLabels
      simp only
      cases numberBy (distinctTexts _) _ <;> rfl

theorem except_map_eq_ok {α β ε : Type} {r : Except ε α} {f : α → β} {b : β} :
    r.map f = .ok b ↔ ∃ a, r = .ok a ∧ f a = b := by
  cases r <;> simp [Except.map]

theorem except_map_eq_error {α β ε : Type} {r : Except ε α} {f : α → β} {e : ε} :
    r.map f = .error e ↔ r = .error e := by
  cases r <;> simp [Except.map]

/-- **Numbers that labels are given stand for their texts**, and are the positions of their names. -/
theorem numberLabels_ok (hne : labels.cellTexts ≠ []) (h : numberLabels labels classNames = .ok (numbers, names)) :
    Resolves names labels.cellTexts numbers ∧ Named labels classNames numbers names := by
  cases classNames with
  | some given =>
      rw [numberLabels_given, except_map_eq_ok] at h
      obtain ⟨_, hnumbers, hpair⟩ := h
      obtain ⟨rfl, rfl⟩ := Prod.mk.inj hpair
      refine ⟨.of_numberBy hnumbers, .given ?_⟩
      exact (numberBy_eq_ok_iff.mp hnumbers).flip.imp fun _ _ hlast => (lastPosition?_eq_some_iff.mp hlast).2
  | none =>
      by_cases hcolumn : ∃ cells, labels = .integers cells
      · obtain ⟨cells, rfl⟩ := hcolumn
        rw [numberLabels_integers] at h
        split at h
        · exact nomatch h
        rename_i hcells
        obtain ⟨rfl, rfl⟩ := Prod.mk.inj (Except.ok.inj h)
        push Not at hcells
        exact named_integers (fun hnil => hne (by rw [hnil]; rfl)) hcells
      · rw [not_exists] at hcolumn
        rw [numberLabels_texts hcolumn, except_map_eq_ok] at h
        obtain ⟨_, hnumbers, hpair⟩ := h
        obtain ⟨rfl, rfl⟩ := Prod.mk.inj hpair
        exact ⟨.of_numberBy hnumbers, .texts hcolumn (pairwise_distinctTexts _) fun _ => mem_distinctTexts⟩

/-- **Labels are refused** that are no given names, and integers below zero where no names are given. -/
theorem numberLabels_eq_error_iff {e : LoadError} : numberLabels labels classNames = .error e ↔
    (∃ names ∈ classNames, (∃ text ∈ labels.cellTexts, text ∉ names) ∧
      e = .unknownLabels (distinctTexts (labels.cellTexts.filter fun text => !names.contains text)) names) ∨
    classNames = none ∧ (∃ cells, labels = .integers cells ∧ ∃ n ∈ cells, n < 0) ∧ e = .negativeLabel := by
  cases classNames with
  | some given => simp [numberLabels_given, except_map_eq_error, numberBy_eq_error_iff]
  | none =>
      simp only [Option.not_mem_none, false_and, exists_false, false_or, true_and]
      by_cases hcolumn : ∃ cells, labels = .integers cells
      · obtain ⟨cells, rfl⟩ := hcolumn
        rw [numberLabels_integers]
        simp only [Column.integers.injEq, exists_eq_left']
        split
        · rename_i hnegative
          rw [and_iff_right hnegative, Except.error.injEq, eq_comm]
        · rename_i hcells
          exact ⟨nofun, fun h => absurd h.1 hcells⟩
      · have htexts : ∀ text ∈ labels.cellTexts, text ∈ distinctTexts labels.cellTexts :=
          fun _ => mem_distinctTexts.mpr
        rw [not_exists] at hcolumn
        rw [numberLabels_texts hcolumn, except_map_eq_error, numberBy_eq_error_iff]
        constructor
        · rintro ⟨⟨text, hmem, hunknown⟩, -⟩
          exact absurd (htexts text hmem) hunknown
        · rintro ⟨⟨cells, hcells, -⟩, -⟩
          exact absurd hcells (hcolumn cells)

end Numbers

/-! ## Labels of loaded samples -/

section Loaded

open Table

variable {reader : TableReader} {rows : List (List String)} {labelColumn : Int} {classNames : Option (List String)}
  {set : SampleSet}

/-- Samples are made of rows of one width and of the numbers of their labels. -/
theorem mem_samples {features : List (List Float)} {numbers : List Nat} {s : LabelledSample}
    (h : s ∈ (transpose numbers.length features).zipWith (fun row (label : Nat) => ⟨row, label⟩) numbers) :
    s.features.length = features.length ∧ ∃ number ∈ numbers, s.label = number := by
  rw [← List.map_uncurry_zip_eq_zipWith, List.mem_map] at h
  obtain ⟨⟨row, number⟩, hmem, rfl⟩ := h
  obtain ⟨hrow, hnumber⟩ := List.of_mem_zip hmem
  obtain ⟨i, -, rfl⟩ := List.mem_map.mp hrow
  exact ⟨List.length_map .., number, hnumber, rfl⟩

/-- There are samples, their rows have one width, and their labels are among the names. -/
theorem Sampled.labels_inside (h : Sampled reader rows labelColumn classNames set) :
    set.samples ≠ [] ∧ ∃ width, ∀ s ∈ set.samples,
      s.features.length = width ∧ 0 ≤ s.label ∧ s.label < set.names.length := by
  obtain ⟨features, numbers, -, hlabels, hsamples⟩ := h.made
  have hne : (reader.column rows (labelPosition rows labelColumn)).cellTexts ≠ [] := by
    have hposition : labelPosition rows labelColumn < width rows :=
      labelPosition_lt (Nat.zero_lt_of_lt h.wide) labelColumn
    have hlength := length_rowsInUse_le rows.length (reader.infer_mem_columns hposition)
    rw [TableReader.column, Column.cellTexts_keep]
    exact Column.pick_ne_nil h.used (hlength.trans_eq (Column.length_missing _))
  have hresolves := (numberLabels_ok hne hlabels).1
  have hnumbers : 0 < numbers.length := hresolves.decodes.length_eq ▸ List.length_pos_iff.mpr hne
  refine ⟨?_, features.length, fun s hs => ?_⟩
  · refine List.ne_nil_of_length_pos ?_
    rw [hsamples, List.length_zipWith, transpose, List.length_map, List.length_range, min_self]
    exact hnumbers
  · rw [hsamples] at hs
    obtain ⟨hwidth, number, hnumber, hlabel⟩ := mem_samples hs
    rw [hlabel]
    exact ⟨hwidth, Int.natCast_nonneg _, by exact_mod_cast hresolves.lt number hnumber⟩

/-- **Loaded samples make a task**, as its actions are all of the names. -/
theorem Sampled.exists_task (h : Sampled reader rows labelColumn classNames set)
    (hroom : (set.names.length : Int) ≤ Classification.labelLimit) :
    ∃ c, Classification.ofSampleSet set = .ok c ∧ c.samples = set.samples ∧ c.actionCount = set.names.length := by
  obtain ⟨hne, width, hinside⟩ := h.labels_inside
  refine ⟨⟨set.samples, width, set.names.length⟩, Classification.ofValues_eq_ok_iff.mpr ⟨?_, ?_, ?_, rfl⟩, rfl, rfl⟩
  · exact fun hnil => hne (List.map_eq_nil_iff.mp hnil)
  · obtain ⟨s, hs⟩ := List.exists_mem_of_ne_nil _ hne
    have := hinside s hs
    omega
  · rw [List.forall₂_map_left_iff, List.forall₂_same]
    intro s hs
    obtain ⟨hwidth, hlow, hhigh⟩ := hinside s hs
    exact ⟨Value.toVector_floats s.features, hwidth, rfl, hlow, lt_min hhigh (hhigh.trans_le hroom)⟩

/--
**The labels of samples that are loaded are classes of the task made of them**, and the task is made: only for more
names than `labelLimit`, for which no list has room, there might be a label that is too large for it.
-/
theorem readSamples_labels {file : String} {text : Option String}
    (h : readSamples reader file text labelColumn classNames = .ok set) :
    (∀ s ∈ set.samples, 0 ≤ s.label ∧ s.label < set.names.length) ∧
      ((set.names.length : Int) ≤ Classification.labelLimit → ∃ c, Classification.ofSampleSet set = .ok c ∧
        c.samples = set.samples ∧ c.actionCount = set.names.length) := by
  obtain ⟨s, -, rows, -, hsampled⟩ := readSamples_eq_ok_iff.mp h
  obtain ⟨-, width, hinside⟩ := hsampled.labels_inside
  exact ⟨fun s hs => (hinside s hs).2, hsampled.exists_task⟩

end Loaded

/--
**Labels are resolved faithfully.** The numbers that the labels of a column are given, which is not empty, stand for
their texts and are as many as there are rows, in range, and equal where the texts are. Given names stay as they are;
without them integers number themselves, and other labels are numbered in the order of their texts. Labels are refused
exactly if some text is no given name, or if no names are given and some integer is negative. Therefore the labels of
samples that are loaded by any reader are classes of the task made of them, and the task is made.
-/
theorem numberLabels_faithful (labels : Column) (classNames : Option (List String)) :
    (labels.cellTexts ≠ [] → ∀ numbers names, numberLabels labels classNames = .ok (numbers, names) →
      Resolves names labels.cellTexts numbers ∧ Named labels classNames numbers names) ∧
    (∀ e, numberLabels labels classNames = .error e ↔
      (∃ names ∈ classNames, (∃ text ∈ labels.cellTexts, text ∉ names) ∧
        e = .unknownLabels (distinctTexts (labels.cellTexts.filter fun text => !names.contains text)) names) ∨
      classNames = none ∧ (∃ cells, labels = .integers cells ∧ ∃ n ∈ cells, n < 0) ∧ e = .negativeLabel) ∧
    ∀ reader file text labelColumn set, readSamples reader file text labelColumn classNames = .ok set →
      (∀ s ∈ set.samples, 0 ≤ s.label ∧ s.label < set.names.length) ∧
      ((set.names.length : Int) ≤ Classification.labelLimit → ∃ c, Classification.ofSampleSet set = .ok c ∧
        c.samples = set.samples ∧ c.actionCount = set.names.length) :=
  ⟨fun hne _ _ => numberLabels_ok hne, fun _ => numberLabels_eq_error_iff, fun _ _ _ _ _ => readSamples_labels⟩

/-- A label with blanks, a missing one and one of which the name is given twice; and a file with integers for labels. -/
theorem numberLabels_faithful_repeated :
    let labels := Column.texts [some " b ", none, some "a"]
    let names := ["a", "nan", "b", "a"]
    labels.cellTexts ≠ [] ∧ Resolves names labels.cellTexts [2, 1, 3] ∧ Named labels (some names) [2, 1, 3] names ∧
      ∃ set, readSamples Csv.reader "a.csv" (some "5,2\n7,0\n") (-1) none = .ok set ∧ set.names = ["0", "1", "2"] ∧
        ∃ c, Classification.ofSampleSet set = .ok c ∧ c.samples = set.samples ∧ c.actionCount = 3 := by
  have hne : (Column.texts [some " b ", none, some "a"]).cellTexts ≠ [] := by decide
  obtain ⟨hresolves, hnamed⟩ := (numberLabels_faithful _ (some ["a", "nan", "b", "a"])).1 hne [2, 1, 3] _ rfl
  obtain ⟨set, hload⟩ : ∃ set, readSamples Csv.reader "a.csv" (some "5,2\n7,0\n") (-1) none = .ok set := ⟨_, rfl⟩
  have hnames : set.names = ["0", "1", "2"] := congrArg SampleSet.names (Except.ok.inj hload).symm
  refine ⟨hne, hresolves, hnamed, set, hload, hnames, ?_⟩
  have htask := ((numberLabels_faithful (.texts []) none).2.2 _ _ _ _ _ hload).2
  rw [hnames] at htask
  exact htask (by decide)

end RegisterEvolution
