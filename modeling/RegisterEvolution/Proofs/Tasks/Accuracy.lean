import Mathlib.Data.List.Perm.Basic
import RegisterEvolution.Proofs.Binary64.Quotient
import RegisterEvolution.Proofs.Program.Memory

/-!
# `Proofs.Tasks.Accuracy` — the share of samples that a program recognises

A prediction is right when the action register at the label is greater than every other one, so that the tally of right
predictions counts the samples of which this is true. Every sample is run on cleared banks; therefore neither the order
of the samples nor what was executed before changes the count.

* `Registers.Foremost`, `Program.recognises` — what a right prediction is;
* `Classification.evaluate_eq` — the score is the share of the samples that are recognised;
* `Classification.Made`, `Classification.ofValues_eq_ok_iff` — what a task is made of, and when it is made;
* `evaluate_accuracy` — these together, for settings bound to the task and programs that have been built.
-/

namespace RegisterEvolution

open Binary64

variable {sizes : BankSizes}

/-! ## Right predictions -/

namespace Registers

/-- The action register at `label` is greater than every other one of the first `n` registers. -/
def Foremost (r : Registers) (n label : Int) : Prop :=
  ∃ i : Fin r.values.size, (i : Int) = label ∧ label < n ∧
    ∀ j : Fin r.values.size, (j : Int) < n → j ≠ i → r.values[j] < r.values[i]

instance (r : Registers) (n label : Int) : Decidable (r.Foremost n label) :=
  inferInstanceAs (Decidable (∃ i : Fin r.values.size, (i : Int) = label ∧ label < n ∧
    ∀ j : Fin r.values.size, (j : Int) < n → j ≠ i → r.values[j] < r.values[i]))

/-- There is only one greatest register, the one at the label, exactly if that one is greater than every other one. -/
theorem Greatest.sole_eq_some_iff {r : Registers} {n label : Int} {best : List Nat} (hr : r.InRange)
    (h : r.Greatest n best) : Classification.sole best = some label ↔ r.Foremost n label := by
  constructor
  · intro hsole
    obtain ⟨i, rfl, rfl⟩ : ∃ i : Nat, best = [i] ∧ label = i := by
      unfold Classification.sole at hsole
      split at hsole
      · exact ⟨_, rfl, (Option.some.inj hsole).symm⟩
      · exact nomatch hsole
    have hmem : i ∈ [i] := List.mem_cons_self ..
    obtain ⟨hlt, x, hx, -⟩ := (h.mem_iff i).mp hmem
    obtain ⟨hi, rfl⟩ := Array.getElem?_eq_some_iff.mp hx
    refine ⟨⟨i, hi⟩, rfl, hlt, fun j hj hne => ?_⟩
    refine h.lt_of_not_mem hr hmem hx hj (Array.getElem?_eq_getElem j.isLt) fun hlisted => hne ?_
    exact Fin.ext (List.mem_singleton.mp hlisted)
  · rintro ⟨i, rfl, hlt, hless⟩
    -- whatever is listed is not less than the register at the label, and so is that register
    have hsame : ∀ j ∈ best, j = i := by
      intro j hj
      obtain ⟨hjn, y, hy, hgreatest⟩ := (h.mem_iff j).mp hj
      obtain ⟨hjsize, rfl⟩ := Array.getElem?_eq_some_iff.mp hy
      have hle := hgreatest i _ hlt (Array.getElem?_eq_getElem i.isLt)
      refine Classical.byContradiction fun hne => ?_
      have hj' := (hr _ (Array.getElem_mem hjsize)).isFinite
      have hi' := (hr _ (Array.getElem_mem i.isLt)).isFinite
      exact (not_lt_iff_le hj' hi').mpr hle (hless ⟨j, hjsize⟩ hjn fun heq => hne (congrArg Fin.val heq))
    obtain ⟨a, rest, rfl⟩ := List.ne_nil_iff_exists_cons.mp h.nonempty
    obtain rfl := hsame a (List.mem_cons_self ..)
    cases rest with
    | nil => rfl
    | cons b rest =>
        have hlt := List.rel_of_pairwise_cons h.ascending (List.mem_cons_self ..)
        have := hsame b (List.mem_cons_of_mem _ (List.mem_cons_self ..))
        omega

end Registers

/-- Whether, after an execution on the features of a sample, the action register at its label is greater than every
    other one. -/
def Program.recognises (p : Program) (sizes : BankSizes) (s : LabelledSample) : Bool :=
  match p.execute (some s.features) (Registers.blank sizes) with
  | .ok _ banks => decide (banks.Foremost sizes.actions s.label)
  | .error _ _ => false

/-! ## The score -/

namespace Classification

section Score

variable {σ : Type} {c : Classification} {p : Program} {b : Bench σ} {samples : List LabelledSample}

/-- A program without a flaw predicts on as many features as it has inputs, and is right if it recognises the sample. -/
theorem predict_ok (husable : p.shape.Usable sizes) (hfits : p.shape.Fits sizes p.code)
    (hc : c.actionCount = sizes.actions) {s : LabelledSample} (hwidth : (s.features.length : Int) = sizes.inputs)
    (hb : b.registers.Fits sizes) : ∃ predicted r, r.Fits sizes ∧
      c.predict p (.list (s.features.map .float)) b = .ok predicted ⟨r, b.world⟩ ∧
      (predicted = some s.label ↔ p.recognises sizes s = true) := by
  have hexecute : p.execute (some s.features) b.registers = p.execute (some s.features) (Registers.blank sizes) := by
    rw [← Program.executeFrom_floats]
    exact Program.executeFrom_congr hb hb.blank
  obtain ⟨banks, hbanks⟩ := Program.executeWith_ok .binary64 husable.room hfits hb.blank hwidth
  obtain ⟨hkept, hrange, hgreatest⟩ := Program.ends_in_range husable hb.blank hwidth hbanks
  have hrun : p.execute (some s.features) (Registers.blank sizes) = .ok () banks := hbanks
  refine ⟨sole (banks.argmax sizes.actions), banks, hkept, ?_, ?_⟩
  · rw [predict_eq, Program.executeFrom_floats, hexecute, hrun, hc]
  · unfold Program.recognises
    simp only [hrun, decide_eq_true_iff]
    exact hgreatest.sole_eq_some_iff hrange

/-- A tally goes up by the samples that are recognised, and by all samples: by induction on them. -/
theorem observeAll_ok (husable : p.shape.Usable sizes) (hfits : p.shape.Fits sizes p.code)
    (hc : c.actionCount = sizes.actions) (hwidth : ∀ s ∈ samples, (s.features.length : Int) = sizes.inputs)
    (hb : b.registers.Fits sizes) (a : Accuracy) : ∃ r, r.Fits sizes ∧
      c.observeAll p samples a b =
        .ok ⟨a.correct + samples.countP (p.recognises sizes), a.total + samples.length⟩ ⟨r, b.world⟩ := by
  induction samples generalizing a b with
  | nil => exact ⟨b.registers, hb, rfl⟩
  | cons s rest ih =>
      obtain ⟨hs, hrest⟩ := List.forall_mem_cons.mp hwidth
      obtain ⟨predicted, r, hr, hpredict, hright⟩ := predict_ok husable hfits hc hs hb
      obtain ⟨r', hr', hobserve⟩ := ih hrest (b := ⟨r, b.world⟩) hr (a.observe predicted s.label)
      refine ⟨r', hr', ?_⟩
      unfold observeAll
      refine (bind_eq_ok.mpr ⟨predicted, _, hpredict, hobserve⟩).trans ?_
      congr 2
      · rw [List.countP_cons, Accuracy.observe]
        simp only [hright]
        split <;> omega
      · show a.total + 1 + rest.length = a.total + (rest.length + 1)
        omega

/-- **A score is the share of the samples that are recognised**, whatever the banks hold before. -/
theorem evaluate_eq (husable : p.shape.Usable sizes) (hfits : p.shape.Fits sizes p.code)
    (hc : c.actionCount = sizes.actions) (hwidth : ∀ s ∈ c.samples, (s.features.length : Int) = sizes.inputs)
    (hne : c.samples ≠ []) (hb : b.registers.Fits sizes) : ∃ r, r.Fits sizes ∧
      c.evaluate p b = .ok (Decimal.quotient (c.samples.countP (p.recognises sizes)) c.size) ⟨r, b.world⟩ := by
  obtain ⟨r, hr, hobserve⟩ := observeAll_ok husable hfits hc hwidth hb .none
  refine ⟨r, hr, bind_eq_ok.mpr ⟨_, _, hobserve, ?_⟩⟩
  have htotal : Accuracy.none.total + c.samples.length = c.size := Nat.zero_add _
  have hcorrect : Accuracy.none.correct + c.samples.countP (p.recognises sizes) =
      c.samples.countP (p.recognises sizes) := Nat.zero_add _
  have hsome : c.size ≠ 0 := fun h => hne (List.length_eq_zero_iff.mp h)
  rw [htotal, hcorrect, Accuracy.value, if_neg hsome]
  rfl

end Score

/-! ## Construction -/

theorem ofFault_eq_ok_iff {α : Type} {r : Except Fault α} {a : α} : ofValues.ofFault r = .ok a ↔ r = .ok a := by
  cases r with
  | error f => exact ⟨nofun, nofun⟩
  | ok a' => exact ⟨fun h => congrArg Except.ok (Except.ok.inj h), fun h => congrArg Except.ok (Except.ok.inj h)⟩

/-- A sample as it is read from features and a label, with so many features and a class below a bound. -/
structure Reads (bound : Int) (width : Nat) (x : Value × Value) (s : LabelledSample) : Prop where
  features : x.1.toVector = .ok s.features
  width : s.features.length = width
  label : toLabel x.2 = .ok s.label
  inside : 0 ≤ s.label ∧ s.label < bound

/-- What it takes for a task to be made of labelled features for so many actions, and what it is then. -/
structure Made (values : List (Value × Value)) (n : Int) (c : Classification) : Prop where
  nonempty : values ≠ []
  actions : 1 ≤ n
  samples : List.Forall₂ (Reads (min n labelLimit) c.inputCount) values c.samples
  count : c.actionCount = n

section Construction

variable {values : List (Value × Value)} {samples : List LabelledSample} {rows : List (List Float)} {labels : List Int}
  {n bound : Int} {width : Nat} {c : Classification}

/-- Samples are read when their features and their labels are, and none of them is out of range. -/
theorem forall₂_reads_iff : List.Forall₂ (Reads bound width) values samples ↔
    List.Forall₂ (fun x row => x.1.toVector = .ok row) values (samples.map (·.features)) ∧
      List.Forall₂ (fun x label => toLabel x.2 = .ok label) values (samples.map (·.label)) ∧
      (∀ s ∈ samples, s.features.length = width) ∧ ∀ s ∈ samples, 0 ≤ s.label ∧ s.label < bound := by
  induction samples generalizing values with
  | nil => simp
  | cons s rest ih =>
      cases values with
      | nil => simp
      | cons x values =>
          simp only [List.map_cons, List.forall₂_cons, List.forall_mem_cons, ih]
          constructor
          · rintro ⟨hs, hrows, hlabels, hwidth, hinside⟩
            exact ⟨⟨hs.features, hrows⟩, ⟨hs.label, hlabels⟩, ⟨hs.width, hwidth⟩, hs.inside, hinside⟩
          · rintro ⟨⟨hfeatures, hrows⟩, ⟨hlabel, hlabels⟩, ⟨hwidth, hwidths⟩, hinside, hinsides⟩
            exact ⟨⟨hfeatures, hwidth, hlabel, hinside⟩, hrows, hlabels, hwidths, hinsides⟩

/-- As many rows as labels are those of samples. -/
theorem exists_samples (h : rows.length = labels.length) :
    ∃ samples : List LabelledSample, rows = samples.map (·.features) ∧ labels = samples.map (·.label) := by
  induction rows generalizing labels with
  | nil => exact ⟨[], rfl, List.length_eq_zero_iff.mp h.symm⟩
  | cons row rows ih =>
      cases labels with
      | nil => exact nomatch h
      | cons label labels =>
          obtain ⟨samples, rfl, rfl⟩ := ih (Nat.succ.inj h)
          exact ⟨⟨row, label⟩ :: samples, rfl, rfl⟩

theorem zipWith_mk (samples : List LabelledSample) :
    (samples.map (·.features)).zipWith LabelledSample.mk (samples.map (·.label)) = samples := by
  rw [List.zipWith_map, List.zipWith_self, List.map_id']

theorem checkLabelSize_eq_ok_iff {u : Unit} :
    checkLabelSize labels = .ok u ↔ ∀ l ∈ labels, -labelLimit ≤ l ∧ l < labelLimit := by
  unfold checkLabelSize
  simp

/-- No label is outside, exactly if all of them are inside. -/
theorem outside_isEmpty_iff :
    ¬(!(labels.filter fun l => decide (l < 0) || decide (n ≤ l)).isEmpty) = true ↔ ∀ l ∈ labels, 0 ≤ l ∧ l < n := by
  simp [List.filter_eq_nil_iff]

/-- Rows are even when all of them are as wide as the first one. -/
theorem rows_even_iff : ¬(rows.any fun row => decide (row.length ≠ (rows.headD []).length)) = true ↔
    ∀ row ∈ rows, row.length = (rows.headD []).length := by
  simp

/-- **A task is made of samples that can be read**, with one number of features and labels among the actions. -/
theorem ofValues_eq_ok_iff : ofValues values n = .ok c ↔ Made values n c := by
  unfold ofValues
  simp only [refuse_eq_ok_iff, except_bind_eq_ok, ofFault_eq_ok_iff, mapM_eq_ok_iff, checkLabelSize_eq_ok_iff,
    outside_isEmpty_iff, rows_even_iff, List.isEmpty_iff, Int.not_lt]
  constructor
  · rintro ⟨hne, hn, rows, hrows, hwidth, labels, hlabels, ⟨⟩, hsize, hinside, hc⟩
    obtain rfl := Except.ok.inj hc
    obtain ⟨samples, rfl, rfl⟩ := exists_samples (hrows.length_eq.symm.trans hlabels.length_eq)
    rw [zipWith_mk]
    rw [List.forall_mem_map] at hwidth hsize hinside
    refine ⟨hne, hn, forall₂_reads_iff.mpr ⟨hrows, hlabels, hwidth, fun s hs => ?_⟩, rfl⟩
    exact ⟨(hinside s hs).1, lt_min (hinside s hs).2 (hsize s hs).2⟩
  · rintro ⟨hne, hn, hreads, rfl⟩
    obtain ⟨hrows, hlabels, hwidth, hinside⟩ := forall₂_reads_iff.mp hreads
    obtain ⟨s, rest, hsamples⟩ : ∃ s rest, c.samples = s :: rest := by
      refine List.ne_nil_iff_exists_cons.mp fun hnil => hne ?_
      rwa [hnil, List.forall₂_nil_right_iff] at hreads
    have hhead : ((c.samples.map (·.features)).headD []).length = c.inputCount := by
      rw [hsamples]
      exact hwidth s (hsamples ▸ List.mem_cons_self ..)
    have hlimit : 0 ≤ labelLimit := by decide
    refine ⟨hne, hn, _, hrows, ?_, _, hlabels, ⟨⟩, ?_, ?_, ?_⟩
    · rw [List.forall_mem_map, hhead]
      exact hwidth
    · rw [List.forall_mem_map]
      intro s hs
      have := hinside s hs
      omega
    · rw [List.forall_mem_map]
      intro s hs
      have := hinside s hs
      omega
    · rw [zipWith_mk, hhead]
      rfl

/-- When a task is made, read off what is given. -/
theorem exists_ofValues_iff : (∃ c, ofValues values n = .ok c) ↔
    values ≠ [] ∧ 1 ≤ n ∧ ∃ width, ∀ x ∈ values, ∃ s, Reads (min n labelLimit) width x s := by
  simp only [ofValues_eq_ok_iff, ← exists_forall₂_iff]
  constructor
  · rintro ⟨c, hc⟩
    exact ⟨hc.nonempty, hc.actions, c.inputCount, c.samples, hc.samples⟩
  · rintro ⟨hne, hn, width, samples, hsamples⟩
    exact ⟨⟨samples, width, n⟩, hne, hn, hsamples, rfl⟩

/-- A label that is one of the actions and that no column of integers has room for is refused. -/
theorem wide_label_refused :
    let values := [(Value.list [.float 1.0], Value.int labelLimit)]
    values ≠ [] ∧ 1 ≤ labelLimit + 1 ∧ (∃ width, ∀ x ∈ values, ∃ s, Reads (labelLimit + 1) width x s) ∧
      ¬∃ c, ofValues values (labelLimit + 1) = .ok c := by
  refine ⟨nofun, by decide, ⟨1, ?_⟩, ?_⟩
  · rw [List.forall_mem_singleton]
    exact ⟨⟨[1.0], labelLimit⟩, rfl, rfl, rfl, by decide, by decide⟩
  · rw [exists_ofValues_iff]
    rintro ⟨-, -, width, hreads⟩
    obtain ⟨s, hs⟩ := hreads _ (List.mem_singleton_self _)
    have hlabel : s.label = labelLimit := (Except.ok.inj hs.label).symm
    have := hs.inside
    omega

/-- The same samples in another order make a task of the same samples in another order. -/
theorem Made.perm {values' : List (Value × Value)} (h : Made values n c) (hperm : values'.Perm values) :
    ∃ c', Made values' n c' ∧ c'.samples.Perm c.samples ∧ c'.inputCount = c.inputCount := by
  obtain ⟨samples, hsamples, hsame⟩ := List.perm_comp_forall₂ hperm h.samples
  have hne : values' ≠ [] := fun hnil => h.nonempty (List.nil_perm.mp (hnil ▸ hperm))
  exact ⟨⟨samples, c.inputCount, n⟩, ⟨hne, h.actions, hsamples, rfl⟩, hsame, rfl⟩

theorem Made.features_length (h : Made values n c) : ∀ s ∈ c.samples, s.features.length = c.inputCount :=
  (forall₂_reads_iff.mp h.samples).2.2.1

theorem Made.size_eq (h : Made values n c) : c.size = values.length := h.samples.length_eq.symm

end Construction

/-! ## The score of a program that has been built -/

/-- A classification scores a program by `x` on any banks of its sizes, and leaves such banks and the world as it is. -/
def Scores (c : Classification) (p : Program) (sizes : BankSizes) (x : Float) : Prop :=
  ∀ (σ : Type) (b : Bench σ), b.registers.Fits sizes →
    ∃ r, r.Fits sizes ∧ c.evaluate p b = .ok x ⟨r, b.world⟩

theorem Made.scores {values : List (Value × Value)} {n : Int} {c : Classification} {p : Program} (h : Made values n c)
    (husable : p.shape.Usable sizes) (hfits : p.shape.Fits sizes p.code) (hinputs : sizes.inputs = c.inputCount)
    (hactions : sizes.actions = n) :
    c.Scores p sizes (Decimal.quotient (c.samples.countP (p.recognises sizes)) c.size) := by
  have hwidth : ∀ s ∈ c.samples, (s.features.length : Int) = sizes.inputs := by
    intro s hs
    rw [hinputs, h.features_length s hs]
  have hne : c.samples ≠ [] := by
    intro hnil
    have hsize := h.size_eq
    unfold size at hsize
    rw [hnil] at hsize
    exact h.nonempty (List.length_eq_zero_iff.mp hsize.symm)
  exact fun σ b hb => evaluate_eq husable hfits (h.count.trans hactions.symm) hwidth hne hb

/--
**The score of a classification is its accuracy.** A task is made of at least one sample and one action where the
features can be read as rows of one width and the labels as classes that a column of integers has room for. Settings
bound to it describe a shape, and for a program built from that shape:

* the score is the number nearest to the share of the samples after which the action register at the label is greater
  than every other one, and lies between zero and one;
* it is scored by that on whatever the banks hold, and executions keep the sizes of the banks;
* the same samples in another order make a task that scores it the same.
-/
theorem evaluate_accuracy (values : List (Value × Value)) (n : Int) :
    ((∃ c, ofValues values n = .ok c) ↔
      values ≠ [] ∧ 1 ≤ n ∧ ∃ width, ∀ x ∈ values, ∃ s, Reads (min n labelLimit) width x s) ∧
    ∀ (c : Classification) (settings bound : ProgramSettings), ofValues values n = .ok c →
      settings.bind c.inputCount c.actionCount = .ok bound →
      List.Forall₂ (Reads (min n labelLimit) c.inputCount) values c.samples ∧
      ∃ shape sizes, bound.shape = .ok shape ∧ shape.sizes? = some sizes ∧ sizes.inputs = c.inputCount ∧
        sizes.actions = n ∧ ∀ code fitness s p s₁, Store.construct shape code fitness s = .ok p s₁ →
          let hits := c.samples.countP (p.recognises sizes)
          let x := Decimal.quotient hits values.length
          IsNearest x (hits / values.length) ∧ 0.0 ≤ x ∧ x ≤ 1.0 ∧ c.Scores p sizes x ∧
            (∀ calls, ((s₁.afterCalls calls).registers p).Fits sizes) ∧
            ∀ values', values'.Perm values → ∃ c', ofValues values' n = .ok c' ∧ c'.Scores p sizes x := by
  refine ⟨exists_ofValues_iff, fun c settings bound hc hbind => ?_⟩
  have hmade := ofValues_eq_ok_iff.mp hc
  obtain ⟨shape, sizes, hshape, husable, hinputs, hactions⟩ := ProgramSettings.exists_shape_of_bind hbind
  rw [hmade.count] at hactions
  refine ⟨hmade.samples, shape, sizes, hshape, husable.bound, hinputs, hactions, ?_⟩
  intro code fitness s p s₁ hp hits x
  obtain ⟨rfl, rfl, sizes', hsizes, hfits, -⟩ := Store.construct_ok hp
  obtain rfl : sizes = sizes' := Option.some.inj (husable.bound.symm.trans hsizes)
  have hscores := hmade.scores husable hfits hinputs hactions
  rw [hmade.size_eq] at hscores
  have hpos : 0 < values.length := List.length_pos_of_ne_nil hmade.nonempty
  have hall : hits ≤ values.length := by
    rw [← hmade.size_eq]
    exact List.countP_le_length
  have hnearest : IsNearest x (hits / values.length) := quotient_isNearest hpos hall
  obtain ⟨hlow, hhigh⟩ := hnearest.between (by positivity)
    (div_le_one_of_le₀ (by exact_mod_cast hall) (by positivity))
  refine ⟨hnearest, hlow, hhigh, hscores, fun calls => ?_, fun values' hperm => ?_⟩
  · exact ((Store.construct_equips hsizes hp).afterCalls calls).fits
  · obtain ⟨c', hc', hsame, hwidth⟩ := hmade.perm hperm
    have hscores' := hc'.scores husable hfits (hinputs.trans (congrArg _ hwidth.symm)) hactions
    rw [hc'.size_eq, hperm.length_eq, hsame.countP_eq] at hscores'
    exact ⟨c', ofValues_eq_ok_iff.mpr hc', hscores'⟩

/-- Numbers to be told apart by their sign; the label of zero and that of the last one are wrong. -/
def signValues : List (Value × Value) :=
  [(.list [.float 1.0], .int 0), (.list [.float (-1.0)], .int 1), (.list [.float 0.0], .int 0),
    (.list [.float 2.0], .bool true)]

/-- The task of telling them apart. -/
def signs : Classification := ⟨[⟨[1.0], 0⟩, ⟨[-1.0], 1⟩, ⟨[0.0], 0⟩, ⟨[2.0], 1⟩], 1, 2⟩

/-- The shape of default settings that are bound to it. -/
def signShape : Shape := ⟨32, some 3, some 1, some 2, none, 0.1, 0.5, 10.0, .single⟩

/-- The input is added to the first action register, and the second one stays zero. -/
def signCode : List Instruction := [⟨"add", 0, 0, .external, none⟩]

/-- Two of the four samples are recognised, as zero is a tie, and in any order. -/
theorem evaluate_accuracy_signs :
    ∃ p s₁, Store.construct signShape signCode none .empty = .ok p s₁ ∧ signs.Scores p ⟨3, 1, 2⟩ 0.5 ∧
      ∀ values', values'.Perm signValues → ∃ c', ofValues values' 2 = .ok c' ∧ c'.Scores p ⟨3, 1, 2⟩ 0.5 := by
  have hmade : ofValues signValues 2 = .ok signs := rfl
  obtain ⟨bound, hbind⟩ : ∃ bound, ({} : ProgramSettings).bind 1 2 = .ok bound := ⟨_, rfl⟩
  obtain ⟨p, s₁, hp⟩ : ∃ p s₁, Store.construct signShape signCode none .empty = .ok p s₁ := ⟨_, _, rfl⟩
  obtain ⟨-, shape, sizes, hshape, hsizes, -, -, hscores⟩ :=
    (evaluate_accuracy signValues 2).2 signs {} bound hmade hbind
  obtain rfl : signShape = shape := by
    obtain rfl := Except.ok.inj hbind
    exact Except.ok.inj hshape
  obtain rfl : (⟨3, 1, 2⟩ : BankSizes) = sizes := Option.some.inj hsizes
  obtain ⟨-, -, -, hscore, -, hperm⟩ := hscores signCode none .empty p s₁ hp
  obtain ⟨rfl, -⟩ := EStateM.Result.ok.inj hp
  have hhits : signs.samples.countP (Program.recognises ⟨0, signCode, signShape⟩ ⟨3, 1, 2⟩) = 2 := by decide +kernel
  have hshare : Decimal.quotient 2 4 = 0.5 := by decide +kernel
  refine ⟨_, s₁, hp, ?_, ?_⟩
  · rw [← hshare, ← hhits]
    exact hscore
  · rw [← hshare, ← hhits]
    exact hperm

end Classification

end RegisterEvolution
