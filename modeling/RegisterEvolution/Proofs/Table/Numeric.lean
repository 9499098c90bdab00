import RegisterEvolution.Proofs.Binary64.Definite
import RegisterEvolution.Proofs.Table.Column

/-!
# `Proofs.Table.Numeric` — columns of numbers

A cell that is a number by itself is one in whatever way its column is read, and it never counts as missing. So a column
of such cells can be used for features, and no row of it is left out.

* `Column.readReal?_isNaN` — what is read as a number is one;
* `Column.IsNumeric` — cells that are numbers;
* `Column.misses_of_numeric`, `Column.numbers?_of_numeric` — what becomes of them in a column.
-/

namespace RegisterEvolution

namespace Column

open Binary64
open Float.Model (UnpackedFloat)

/-! ## Numbers that are read -/

/-- Powers of ten that are finite numbers. -/
theorem powerOfTen_regular {n : Nat} (hn : n ≤ 308) : Regular (powerOfTen n) := by
  have hsmall : ∀ n ≤ 22, Regular (powerOfTen n) := by decide +kernel
  by_cases hfast : n ≤ 22
  · exact hsmall n hfast
  have hslow : powerOfTen n =
      Float.ofModel (Float.Model.pack (UnpackedFloat.ofScientific format 1 (n : Int))) := by
    unfold powerOfTen Float.ofScientific
    rw [dif_neg fun h => hfast h.2]
    rfl
  have hparts : UnpackedFloat.ofScientific format 1 (n : Int) =
      UnpackedFloat.roundWithAccuracy format .positive (2 ^ 53 * 10 ^ n) (-53) .exact := by
    unfold UnpackedFloat.ofScientific
    rw [dif_neg (by decide), if_neg (by show ¬2 ^ 11 < (n : Int); omega),
      if_neg (by show ¬(n : Int) < -(2 ^ 11 + _); omega), if_pos (Int.natCast_nonneg n)]
    rfl
  have hpos : 0 < 2 ^ 53 * 10 ^ n := Nat.mul_pos (Nat.two_pow_pos 53) (Nat.pow_pos (by decide))
  have hdrop : Droppable (2 ^ 53 * 10 ^ n) (-53) := by
    have hlog : 53 ≤ (2 ^ 53 * 10 ^ n).log2 :=
      (Nat.le_log2 hpos.ne').mpr (Nat.le_mul_of_pos_right _ (Nat.pow_pos (by decide)))
    unfold Droppable
    omega
  have hexact : unit .positive * (((2 ^ 53 * 10 ^ n : ℕ) : ℚ) * 2 ^ (-53 : Int)) = 10 ^ n := by
    rw [unit, one_mul]
    push_cast
    rw [mul_right_comm, show (9007199254740992 : ℚ) * 2 ^ (-53 : Int) = 1 by norm_num, one_mul]
  have hbound : (10 : ℚ) ^ n < overflow := by
    have hpower : 10 ^ n < (2 ^ 54 - 1) * 2 ^ 970 := (Nat.pow_le_pow_right (by decide) hn).trans_lt (by decide +kernel)
    have hnat := natAbs_lt_overflow (n := ((10 ^ n : ℕ) : Int)) (by rwa [Int.natAbs_natCast])
    rwa [Int.natAbs_natCast, Nat.cast_pow, Nat.cast_ofNat] at hnat
  have hrounded : Rounded (10 ^ n)
      (UnpackedFloat.roundWithAccuracy format .positive (2 ^ 53 * 10 ^ n) (-53) .exact) := by
    rw [← hexact]
    exact .roundWithAccuracy .positive hpos hdrop
  rw [hslow, hparts]
  exact regular_of_rounded hrounded (by rwa [abs_of_pos (by positivity)]) (one_le_pow₀ (by norm_num))

theorem powerOfTen_regular_of_le {n : Nat} (h : (n : Int) ≤ scaleLimit) : Regular (powerOfTen n) := by
  have hlimit : scaleLimit = 308 := rfl
  exact powerOfTen_regular (by omega)

/-- Scaling keeps a number a number: the powers of ten that it takes are neither zero nor infinite. -/
theorem scaled?_isNaN {x y : Float} {exponent : Int} (hx : x.isNaN = false) (h : scaled? x exponent = some y) :
    y.isNaN = false := by
  have hlimit : scaleLimit = 308 := rfl
  unfold scaled? at h
  extract_lets scaled at h
  split at h
  · exact nomatch h
  rename_i hrange
  obtain rfl := Option.some.inj h
  have hexponent : ¬scaleLimit < exponent := fun hlt => hrange (by simp [hlt])
  dsimp only [scaled]
  split
  · exact isNaN_mul hx (powerOfTen_regular_of_le (by omega))
  split
  · decide
  split
  · exact isNaN_div (isNaN_div hx (powerOfTen_regular_of_le (by omega))) (powerOfTen_regular_of_le (by omega))
  · exact isNaN_div hx (powerOfTen_regular_of_le (by omega))

/-- Digits are added up to a number. -/
theorem foldl_digits_isNaN (cs : List Char) {x : Float} (hx : x.isNaN = false) :
    (cs.foldl (fun x c => x * 10.0 + Decimal.ofNat (c.toNat - '0'.toNat)) x).isNaN = false := by
  induction cs generalizing x with
  | nil => exact hx
  | cons c rest ih =>
      have hcode : c.toNat - '0'.toNat < 2 ^ 53 := by
        have := c.val.toNat_lt
        show c.val.toNat - _ < _
        omega
      exact ih (isNaN_add (isNaN_mul hx (by decide)) (atMost_ofNat hcode).within.isFinite)

/-- Digits that are added up, perhaps negated, and scaled are a number. -/
theorem scaled?_digits_isNaN {cs : List Char} {negative : Bool} {exponent : Int} {x : Float}
    (h : (let sum := cs.foldl (fun x c => x * 10.0 + Decimal.ofNat (c.toNat - '0'.toNat)) 0.0
      scaled? (if negative then -sum else sum) exponent) = some x) : x.isNaN = false := by
  have hsum := foldl_digits_isNaN cs (x := 0.0) (by decide)
  refine scaled?_isNaN ?_ h
  split
  · exact isNaN_neg hsum
  · exact hsum

theorem readDecimal?_isNaN {cell : String} {x : Float} (h : readDecimal? cell = some x) : x.isNaN = false := by
  unfold readDecimal? at h
  simp only at h
  -- with a fraction or without one
  split at h <;>
  · split at h
    · exact nomatch h
    split at h
    · exact nomatch h
    · exact scaled?_digits_isNaN h

/-- **What is read as a number is one**, an infinity at worst. -/
theorem readReal?_isNaN {cell : String} {x : Float} (h : readReal? cell = some x) : x.isNaN = false := by
  unfold readReal? at h
  cases hdecimal : readDecimal? cell with
  | some y =>
      rw [hdecimal] at h
      obtain rfl := Option.some.inj h
      exact readDecimal?_isNaN hdecimal
  | none =>
      rw [hdecimal] at h
      change readInfinity? cell = some x at h
      unfold readInfinity? at h
      simp only at h
      split at h
      · obtain rfl := Option.some.inj h
        split <;> decide
      · exact nomatch h

/-! ## Cells that are numbers -/

/-- The cell is a number when it stands by itself. -/
def IsNumeric (cell : String) : Prop := ∃ x, Decimal.readFloat? cell = some x ∧ x.isNaN = false

instance (cell : String) : Decidable (IsNumeric cell) :=
  decidable_of_iff ((Decimal.readFloat? cell).any (fun x => !x.isNaN) = true)
    (by simp only [Option.any_eq_true, Bool.not_eq_true', IsNumeric])

variable {cells kept : List String} {cell : String}

/-- No word for missing cells is a number. -/
theorem IsNumeric.isMissing (h : IsNumeric cell) : isMissing cell = false := by
  have hwords : ∀ word ∈ missingWords, (Decimal.readFloat? word).all Float.isNaN = true := by decide +kernel
  obtain ⟨x, hread, hnumber⟩ := h
  refine Bool.eq_false_iff.mpr fun hmissing => ?_
  have hword := hwords cell (List.contains_iff_mem.mp hmissing)
  rw [hread, Option.all_some, hnumber] at hword
  exact nomatch hword

theorem any_isMissing_of_numeric (h : ∀ cell ∈ cells, IsNumeric cell) : cells.any Column.isMissing = false :=
  List.any_eq_false.mpr fun cell hmem => by rw [(h cell hmem).isMissing]; decide

/-- **No cell of a column of numbers counts as missing.** -/
theorem misses_of_numeric (h : ∀ cell ∈ cells, IsNumeric cell) (hmem : cell ∈ cells) :
    (reading cells).misses cell = false := by
  have hpresent := (h cell hmem).isMissing
  have hnone := any_isMissing_of_numeric h
  unfold reading integerReading
  rw [hnone]
  split
  · split
    · rfl
    · split
      · rfl
      · simp [Reading.misses, present?_of_present hpresent]
  split
  · rename_i hreals
    obtain ⟨-, x, hx⟩ := exists_read hreals hnone hmem
    simp only [Reading.misses, present?_of_present hpresent, hx, Option.getD_some]
    exact readReal?_isNaN hx
  split
  · rename_i hswitches
    obtain ⟨-, b, hb⟩ := exists_read hswitches hnone hmem
    simp [Reading.misses, present?_of_present hpresent, hb]
  · simp [Reading.misses, present?_of_present hpresent]

/-- **Cells that are numbers make numbers**, however their column is read. -/
theorem numbers?_of_numeric (h : ∀ cell ∈ kept, IsNumeric cell) (r : Reading) :
    ∃ xs, (r.column kept).numbers? = some xs := by
  cases r with
  | integers | gapped | reals | switches => exact ⟨_, rfl⟩
  | texts | written =>
      have hall : ∀ cell ∈ kept, ∃ x, Decimal.readFloat? cell = some x := fun cell hmem =>
        (h cell hmem).imp fun _ hx => hx.1
      choose! number hnumber using hall
      refine ⟨kept.map number, mapM_eq_some_iff.mpr ?_⟩
      rw [List.forall₂_map_left_iff, List.forall₂_map_right_iff, List.forall₂_same]
      intro cell hmem
      have hpresent := (h cell hmem).isMissing
      simpa [present?_of_present hpresent] using hnumber cell hmem

end Column

end RegisterEvolution
