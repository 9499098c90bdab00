import Mathlib.Algebra.Order.Field.Basic
import Mathlib.Algebra.Order.Field.Rat
import Mathlib.Tactic.FieldSimp
import Mathlib.Tactic.Linarith
import Mathlib.Tactic.Ring
import RegisterEvolution.Decimal.Shortest

/-!
# `Proofs.Decimal.Shortest` — the shortest digits tell binary64 numbers apart

The digits that are selected for a number are in its rounding interval: at the latest, one of the two neighbours with
seventeen digits is. The intervals of two numbers have at most an end in common, and then it belongs to only one of
them.

* `Ratio.value`, `Scientific.value` — what a ratio and a scientific form stand for;
* `Ratio.zpow_leading_le` — the leading exponent is not too large;
* `Rounding.Covers`, `contains_iff` — the interval in rational numbers;
* `seventeenth_lt_width`, `contains_seventeen` — the interval is not missed with seventeen digits;
* `contains_shortest` — the shortest digits are in the interval;
* `Normal`, `Normal.eq_of_covers` — a number that is in two intervals is in one interval twice.
-/

namespace RegisterEvolution.Decimal

variable {r : Ratio} {i : Rounding} {s : Scientific} {m n : Nat} {e d k : Int}

theorem ten_zpow_pos (k : Int) : (0 : ℚ) < 10 ^ k := zpow_pos (by norm_num) k

/-- A power of ten, by the sign of its exponent. -/
theorem ten_zpow_eq (k : Int) :
    (10 : ℚ) ^ k = if 0 ≤ k then ((10 ^ k.toNat : ℕ) : ℚ) else 1 / (10 ^ (-k).toNat : ℕ) := by
  split
  · rename_i h
    rw [Nat.cast_pow, ← zpow_natCast, Int.toNat_of_nonneg h]
    rfl
  · rename_i h
    rw [Nat.cast_pow, ← zpow_natCast, Int.toNat_of_nonneg (by omega), zpow_neg, one_div, inv_inv]
    rfl

/-! ## Ratios -/

/-- The rational number of a ratio. -/
def Ratio.value (r : Ratio) : ℚ := r.numerator / r.denominator

/-- The rational number of a scientific form. -/
def Scientific.value (s : Scientific) : ℚ := s.coefficient * 10 ^ s.exponent

namespace Ratio

theorem denominator_shift_pos (h : 0 < r.denominator) (k : Int) : 0 < (r.shift k).denominator := by
  unfold shift
  split
  · exact h
  · exact Nat.mul_pos h (Nat.pow_pos (by decide))

theorem value_shift (r : Ratio) (k : Int) : (r.shift k).value = r.value * 10 ^ k := by
  rw [ten_zpow_eq, shift]
  split
  · simp only [value, Nat.pow_eq, Nat.cast_mul]
    ring
  · simp only [value, Nat.pow_eq, Nat.cast_mul]
    field_simp

theorem value_ofPower (m : Nat) (e : Int) : (ofPower m e).value = m * 2 ^ e := by
  unfold ofPower
  split
  · rename_i h
    simp only [value, Nat.pow_eq]
    rw [Nat.cast_mul, Nat.cast_pow, Nat.cast_one, div_one, ← zpow_natCast, Int.toNat_of_nonneg h]
    rfl
  · rename_i h
    simp only [value, Nat.pow_eq]
    rw [Nat.cast_pow, ← zpow_natCast, Int.toNat_of_nonneg (by omega), zpow_neg, div_inv_eq_mul]
    rfl

theorem denominator_ofPower_pos (m : Nat) (e : Int) : 0 < (ofPower m e).denominator := by
  unfold ofPower
  split
  · exact Nat.one_pos
  · exact Nat.pow_pos (by decide)

/-- The nearest whole number is one of the two around a ratio. -/
theorem nearest_eq (r : Ratio) :
    r.nearest = r.numerator / r.denominator ∨ r.nearest = r.numerator / r.denominator + 1 := by
  simp only [nearest]
  split_ifs
  · exact .inl rfl
  · exact .inr rfl
  · exact .inl rfl
  · exact .inr rfl

/-- A number has at least the value of its first digit. -/
theorem pow_digitCount_le (h : 0 < n) : 10 ^ (digitCount n - 1) ≤ n := by
  by_contra hlt
  have hpos : 0 < n.repr.length := Nat.length_repr_pos
  by_cases hone : n.repr.length = 1
  · rw [digitCount, hone] at hlt
    omega
  · have hle := (Nat.length_repr_le_iff (k := n.repr.length - 1) (by omega)).mpr (Nat.lt_of_not_le hlt)
    omega

theorem lt_pow_digitCount (n : Nat) : n < 10 ^ digitCount n :=
  (Nat.length_repr_le_iff Nat.length_repr_pos).mp le_rfl

/-- The leading exponent of a positive ratio is not too large. -/
theorem zpow_leading_le (hn : 0 < r.numerator) (hd : 0 < r.denominator) : (10 : ℚ) ^ r.leading ≤ r.value := by
  have hdQ : (0 : ℚ) < r.denominator := by exact_mod_cast hd
  simp only [leading]
  split
  · rename_i h
    have hone : 1 ≤ (r.shift (-((digitCount r.numerator : Int) - digitCount r.denominator))).value := by
      have hpos := denominator_shift_pos hd (-((digitCount r.numerator : Int) - digitCount r.denominator))
      rw [value, le_div_iff₀ (by exact_mod_cast hpos), one_mul]
      exact_mod_cast h
    rwa [value_shift, zpow_neg, ← div_eq_mul_inv, le_div_iff₀ (ten_zpow_pos _), one_mul] at hone
  · rw [value, le_div_iff₀ hdQ]
    have hnum : ((10 ^ (digitCount r.numerator - 1) : ℕ) : ℚ) ≤ r.numerator := by exact_mod_cast pow_digitCount_le hn
    have hden : (r.denominator : ℚ) ≤ ((10 ^ digitCount r.denominator : ℕ) : ℚ) := by
      exact_mod_cast (lt_pow_digitCount r.denominator).le
    have hcount : 0 < digitCount r.numerator := Nat.length_repr_pos
    calc (10 : ℚ) ^ ((digitCount r.numerator : Int) - digitCount r.denominator - 1) * r.denominator
        ≤ 10 ^ ((digitCount r.numerator : Int) - digitCount r.denominator - 1) *
            ((10 ^ digitCount r.denominator : ℕ) : ℚ) := mul_le_mul_of_nonneg_left hden (ten_zpow_pos _).le
      _ = ((10 ^ (digitCount r.numerator - 1) : ℕ) : ℚ) := by
          rw [Nat.cast_pow, Nat.cast_pow, ← zpow_natCast, ← zpow_natCast]
          push_cast
          rw [← zpow_add₀ (by norm_num)]
          congr 1
          omega
      _ ≤ r.numerator := hnum

end Ratio

/-! ## Rounding intervals -/

namespace Rounding

/-- Whether a rational number is in the interval. -/
def Covers (i : Rounding) (q : ℚ) : Prop :=
  if i.closed then (i.low : ℚ) / i.denominator ≤ q ∧ q ≤ i.high / i.denominator
  else (i.low : ℚ) / i.denominator < q ∧ q < i.high / i.denominator

/-- Inside the ends, it makes no difference whether they belong to the interval. -/
theorem covers_of_lt {q : ℚ} (hlow : (i.low : ℚ) / i.denominator < q) (hhigh : q < i.high / i.denominator) :
    i.Covers q := by
  unfold Covers
  split
  · exact ⟨hlow.le, hhigh.le⟩
  · exact ⟨hlow, hhigh⟩

theorem le_of_covers {q : ℚ} (h : i.Covers q) : (i.low : ℚ) / i.denominator ≤ q ∧ q ≤ i.high / i.denominator := by
  unfold Covers at h
  split at h
  · exact h
  · exact ⟨h.1.le, h.2.le⟩

/-- The comparison in whole numbers is that of the rational numbers. -/
theorem contains_iff (hd : 0 < i.denominator) : i.contains s = true ↔ i.Covers s.value := by
  have hpoint : ((Ratio.mk s.coefficient 1).shift s.exponent).value = s.value := by
    rw [Ratio.value_shift, Ratio.value, Nat.cast_one, div_one, Scientific.value]
  have hpos := Ratio.denominator_shift_pos (r := ⟨s.coefficient, 1⟩) Nat.one_pos s.exponent
  rw [← hpoint, Ratio.value]
  unfold contains Covers
  have hdQ : (0 : ℚ) < i.denominator := by exact_mod_cast hd
  have hposQ : (0 : ℚ) < ((Ratio.mk s.coefficient 1).shift s.exponent).denominator := by exact_mod_cast hpos
  split
  · rw [decide_eq_true_iff, div_le_div_iff₀ hdQ hposQ, div_le_div_iff₀ hposQ hdQ]
    norm_cast
  · rw [decide_eq_true_iff, div_lt_div_iff₀ hdQ hposQ, div_lt_div_iff₀ hposQ hdQ]
    norm_cast

/-- How many quarters of its last place a number is above its interval's lower end. -/
def below (m : Nat) (e : Int) : Nat := if m = 2 ^ 52 ∧ -1074 < e then 1 else 2

/-- The lower end is in front of the number and behind zero. -/
theorem below_bounds (hm : 0 < m) (e : Int) : 1 ≤ below m e ∧ below m e < 4 * m := by
  unfold below
  split_ifs <;> omega

theorem denominator_ofPower_pos (m : Nat) (e : Int) : 0 < (ofPower m e).denominator :=
  Ratio.denominator_ofPower_pos 1 (e - 2)

/-- A number of quarters as a fraction with the denominator of the interval. -/
theorem quarters_eq (m k : Nat) (e : Int) :
    ((k * (Ratio.ofPower 1 (e - 2)).numerator : ℕ) : ℚ) / (ofPower m e).denominator = k * 2 ^ (e - 2) := by
  have hunit : (Ratio.ofPower 1 (e - 2)).value = 2 ^ (e - 2) := by
    rw [Ratio.value_ofPower, Nat.cast_one, one_mul]
  rw [Nat.cast_mul, mul_div_assoc, ← hunit]
  rfl

theorem low_eq (m : Nat) (e : Int) :
    ((ofPower m e).low : ℚ) / (ofPower m e).denominator = ((4 * m - below m e : ℕ) : ℚ) * 2 ^ (e - 2) :=
  quarters_eq m _ e

theorem value_eq (m : Nat) (e : Int) :
    ((ofPower m e).value : ℚ) / (ofPower m e).denominator = ((4 * m : ℕ) : ℚ) * 2 ^ (e - 2) := quarters_eq m _ e

theorem high_eq (m : Nat) (e : Int) :
    ((ofPower m e).high : ℚ) / (ofPower m e).denominator = ((4 * m + 2 : ℕ) : ℚ) * 2 ^ (e - 2) := quarters_eq m _ e

theorem closed_iff (m : Nat) (e : Int) : (ofPower m e).closed = true ↔ m % 2 = 0 := decide_eq_true_iff

/-- The ends do not belong to the interval of an odd mantissa. -/
theorem lt_of_covers_odd (hodd : m % 2 = 1) {q : ℚ} (h : (ofPower m e).Covers q) :
    ((ofPower m e).low : ℚ) / (ofPower m e).denominator < q ∧ q < (ofPower m e).high / (ofPower m e).denominator := by
  have hopen : ¬(ofPower m e).closed = true := by
    rw [closed_iff]
    omega
  rwa [Covers, if_neg hopen] at h

/-! ## Candidates -/

/-- The candidate with `count` digits that is not above the value of the interval. -/
def lower (i : Rounding) (leading : Int) (count : Nat) : Scientific :=
  let scaled := (Ratio.mk i.value i.denominator).shift (-(leading - count + 1))
  ⟨scaled.numerator / scaled.denominator, leading - count + 1⟩

/-- The candidate that follows. -/
def upper (i : Rounding) (leading : Int) (count : Nat) : Scientific :=
  ⟨(i.lower leading count).coefficient + 1, leading - count + 1⟩

variable {leading : Int} {count : Nat}

/-- What is selected with a given count of digits is one of the candidates, and it is in the interval. -/
theorem contains_of_hit? (h : i.hit? leading count = some s) : i.contains s = true := by
  simp only [hit?] at h
  split at h
  · rename_i hlower hupper
    obtain rfl := Option.some.inj h
    cases Ratio.nearest_eq ((Ratio.mk i.value i.denominator).shift (-(leading - count + 1))) with
    | inl hnearest => rwa [hnearest]
    | inr hnearest => rwa [hnearest]
  · rename_i hlower _
    obtain rfl := Option.some.inj h
    exact hlower
  · rename_i _ hupper
    obtain rfl := Option.some.inj h
    exact hupper
  · exact nomatch h

/-- Something is selected if one of the candidates is in the interval. -/
theorem exists_hit? (h : i.contains (i.lower leading count) = true ∨ i.contains (i.upper leading count) = true) :
    ∃ s, i.hit? leading count = some s := by
  simp only [hit?]
  split
  · exact ⟨_, rfl⟩
  · exact ⟨_, rfl⟩
  · exact ⟨_, rfl⟩
  · rename_i hlower hupper
    cases h with
    | inl h => exact absurd (hlower.symm.trans h) Bool.false_ne_true
    | inr h => exact absurd (hupper.symm.trans h) Bool.false_ne_true

/-- The value is between the candidates. -/
theorem lower_le_lt_upper (hd : 0 < i.denominator) (leading : Int) (count : Nat) :
    (i.lower leading count).value ≤ (i.value : ℚ) / i.denominator ∧
      (i.value : ℚ) / i.denominator < (i.upper leading count).value := by
  have hscaled : ((Ratio.mk i.value i.denominator).shift (-(leading - count + 1))).value * 10 ^ (leading - count + 1) =
      (i.value : ℚ) / i.denominator := by
    rw [Ratio.value_shift, mul_assoc, ← zpow_add₀ (by norm_num), neg_add_cancel, zpow_zero, mul_one, Ratio.value]
  rw [← hscaled]
  have hpos := Ratio.denominator_shift_pos (r := ⟨i.value, i.denominator⟩) hd (-(leading - count + 1))
  unfold lower upper lower Scientific.value
  generalize (Ratio.mk i.value i.denominator).shift (-(leading - count + 1)) = r at hpos
  have hposQ : (0 : ℚ) < r.denominator := by exact_mod_cast hpos
  refine ⟨mul_le_mul_of_nonneg_right ?_ (ten_zpow_pos _).le, mul_lt_mul_of_pos_right ?_ (ten_zpow_pos _)⟩
  · rw [Ratio.value, le_div_iff₀ hposQ]
    exact_mod_cast Nat.div_mul_le_self r.numerator r.denominator
  · rw [Ratio.value, div_lt_iff₀ hposQ]
    exact_mod_cast Nat.lt_mul_of_div_lt (Nat.lt_succ_self _) hpos

/-- The candidates are one unit of the last digit apart. -/
theorem upper_value (i : Rounding) (leading : Int) (count : Nat) :
    (i.upper leading count).value = (i.lower leading count).value + 10 ^ (leading - count + 1) := by
  show (((i.lower leading count).coefficient + 1 : ℕ) : ℚ) * 10 ^ (leading - count + 1) =
    (i.lower leading count).coefficient * 10 ^ (leading - count + 1) + 10 ^ (leading - count + 1)
  push_cast
  ring

end Rounding

/-! ## Seventeen digits -/

section Seventeen

variable (hm : 0 < m) (hlt : m < 2 ^ 53)
include hm

theorem Rounding.value_ofPower_pos : 0 < (Rounding.ofPower m e).value := by
  have hquarters : (0 : ℚ) < (Rounding.ofPower m e).value / (Rounding.ofPower m e).denominator := by
    rw [Rounding.value_eq]
    exact mul_pos (by exact_mod_cast Nat.mul_pos (by decide) hm) (zpow_pos (by norm_num) _)
  have hd := Rounding.denominator_ofPower_pos m e
  exact_mod_cast (div_pos_iff_of_pos_right (by exact_mod_cast hd)).mp hquarters

include hlt

/-- One unit of the seventeenth digit is less than the width of the interval. -/
theorem seventeenth_lt_width :
    (10 : ℚ) ^ ((Ratio.mk (Rounding.ofPower m e).value (Rounding.ofPower m e).denominator).leading - (17 : ℕ) + 1) <
      (2 + Rounding.below m e) * 2 ^ (e - 2) := by
  have hleading := Ratio.zpow_leading_le (r := ⟨(Rounding.ofPower m e).value, (Rounding.ofPower m e).denominator⟩)
    (Rounding.value_ofPower_pos hm) (Rounding.denominator_ofPower_pos m e)
  rw [Ratio.value, Rounding.value_eq] at hleading
  generalize (Ratio.mk (Rounding.ofPower m e).value (Rounding.ofPower m e).denominator).leading = leading at hleading
  have hdigits : (10 : ℚ) ^ (leading - (17 : ℕ) + 1) * 10 ^ 16 = 10 ^ leading := by
    rw [← zpow_natCast, ← zpow_add₀ (by norm_num)]
    congr 1
    omega
  -- The interval is narrower at a power of two, but the mantissa is the least one there.
  have hcount : 4 * m < (2 + Rounding.below m e) * 10 ^ 16 := by
    unfold Rounding.below
    split_ifs <;> omega
  have hcountQ : ((4 * m : ℕ) : ℚ) < (2 + Rounding.below m e) * 10 ^ 16 := by exact_mod_cast hcount
  have hunit : (0 : ℚ) < 2 ^ (e - 2) := zpow_pos (by norm_num) _
  have hbound : (10 : ℚ) ^ (leading - (17 : ℕ) + 1) * 10 ^ 16 < (2 + Rounding.below m e) * 2 ^ (e - 2) * 10 ^ 16 := by
    calc (10 : ℚ) ^ (leading - (17 : ℕ) + 1) * 10 ^ 16 ≤ ((4 * m : ℕ) : ℚ) * 2 ^ (e - 2) := hdigits.trans_le hleading
      _ < (2 + Rounding.below m e) * 10 ^ 16 * 2 ^ (e - 2) := mul_lt_mul_of_pos_right hcountQ hunit
      _ = (2 + Rounding.below m e) * 2 ^ (e - 2) * 10 ^ 16 := by ring
  exact lt_of_mul_lt_mul_right hbound (by norm_num)

/-- One of the candidates with seventeen digits is in the interval: the upper one, or the lower one if the upper one
    is beyond the end. -/
theorem contains_seventeen :
    let i := Rounding.ofPower m e
    let leading := (Ratio.mk i.value i.denominator).leading
    i.contains (i.lower leading 17) = true ∨ i.contains (i.upper leading 17) = true := by
  intro i leading
  have hd : 0 < i.denominator := Rounding.denominator_ofPower_pos m e
  have hunit : (0 : ℚ) < 2 ^ (e - 2) := zpow_pos (by norm_num) _
  have hvalue : (i.value : ℚ) / i.denominator = 4 * m * 2 ^ (e - 2) := by
    rw [Rounding.value_eq]
    push_cast
    ring
  obtain ⟨hbelow, hle⟩ := Rounding.below_bounds hm e
  have hlow : (i.low : ℚ) / i.denominator = (4 * m - Rounding.below m e) * 2 ^ (e - 2) := by
    rw [Rounding.low_eq, Nat.cast_sub hle.le]
    push_cast
    ring
  have hhigh : (i.high : ℚ) / i.denominator = (4 * m + 2) * 2 ^ (e - 2) := by
    rw [Rounding.high_eq]
    push_cast
    ring
  have hbelow : (1 : ℚ) ≤ Rounding.below m e := by exact_mod_cast hbelow
  obtain ⟨hlower, hupper⟩ := Rounding.lower_le_lt_upper hd leading 17
  have hstep := Rounding.upper_value i leading 17
  have hwidth := seventeenth_lt_width (e := e) hm hlt
  -- The upper candidate is above the value. If it is beyond the interval as well, the lower one, which is less than
  -- the width of the interval away from it, is not.
  by_cases hinside : (i.upper leading 17).value < i.high / i.denominator
  · refine .inr ((Rounding.contains_iff hd).mpr (Rounding.covers_of_lt ?_ hinside))
    rw [hvalue] at hupper
    rw [hlow]
    nlinarith
  · refine .inl ((Rounding.contains_iff hd).mpr (Rounding.covers_of_lt ?_ ?_))
    · rw [hhigh] at hinside
      rw [hlow]
      linarith
    · rw [hvalue] at hlower
      rw [hhigh]
      linarith

/-- **The shortest digits are in the rounding interval of their number.** -/
theorem contains_shortest : (Rounding.ofPower m e).contains (shortest m e) = true := by
  obtain ⟨last, hlast⟩ := Rounding.exists_hit? (contains_seventeen (e := e) hm hlt)
  unfold shortest
  cases hfound : ((List.range 17).map (· + 1)).findSome? ((Rounding.ofPower m e).hit?
      (Ratio.mk (Rounding.ofPower m e).value (Rounding.ofPower m e).denominator).leading) with
  | none =>
      have hnone := List.findSome?_eq_none_iff.mp hfound 17 (by decide)
      exact nomatch hnone.symm.trans hlast
  | some s =>
      obtain ⟨count, _, hcount⟩ := List.exists_of_findSome?_eq_some hfound
      simp only [hfound, Option.getD_some]
      exact Rounding.contains_of_hit? hcount

end Seventeen

/-! ## Intervals of two numbers -/

/-- A positive mantissa and an exponent as binary64 numbers have them: the mantissa is shorter than fifty-three bits
    only at the least exponent. -/
structure Normal (m : Nat) (e : Int) : Prop where
  pos : 0 < m
  lt : m < 2 ^ 53
  least : -1074 ≤ e
  long : 2 ^ 52 ≤ m ∨ e = -1074

namespace Normal

/-- In quarters of the last place, the interval of a number ends where that of a larger one begins, or in front of it;
    neighbours do not both have an even mantissa. -/
theorem quarters_lt (h : Normal m e) (h' : Normal n d) (hlt : e < d ∨ e = d ∧ m < n) :
    4 * m + 2 < (4 * n - Rounding.below n d) * 2 ^ (d - e).toNat ∨
      4 * m + 2 = (4 * n - Rounding.below n d) * 2 ^ (d - e).toNat ∧ (m % 2 = 1 ∨ n % 2 = 1) := by
  obtain ⟨hm, hm53, he, hlong⟩ := h
  obtain ⟨hn, hn53, hd, hlong'⟩ := h'
  cases hlt with
  | inl hlt =>
      have hdouble : (4 * n - Rounding.below n d) * 2 ^ 1 ≤ (4 * n - Rounding.below n d) * 2 ^ (d - e).toNat :=
        Nat.mul_le_mul_left _ (Nat.pow_le_pow_right (by decide) (by omega))
      generalize (4 * n - Rounding.below n d) * 2 ^ (d - e).toNat = a at hdouble
      unfold Rounding.below at hdouble
      split_ifs at hdouble <;> omega
  | inr hlt =>
      obtain ⟨rfl, hlt⟩ := hlt
      have hbelow : Rounding.below n e = 2 := if_neg (by omega)
      rw [hbelow, Int.sub_self, Int.toNat_zero, pow_zero]
      omega

/-- No number is in the intervals of both a number and a larger one. -/
theorem not_covers (h : Normal m e) (h' : Normal n d) (hlt : e < d ∨ e = d ∧ m < n) {q : ℚ}
    (hq : (Rounding.ofPower m e).Covers q) : ¬(Rounding.ofPower n d).Covers q := by
  intro hq'
  have hunit : (0 : ℚ) < 2 ^ (e - 2) := zpow_pos (by norm_num) _
  have hlow : ((Rounding.ofPower n d).low : ℚ) / (Rounding.ofPower n d).denominator =
      (((4 * n - Rounding.below n d) * 2 ^ (d - e).toNat : ℕ) : ℚ) * 2 ^ (e - 2) := by
    rw [Rounding.low_eq, Nat.cast_mul, Nat.cast_pow, mul_assoc, ← zpow_natCast, Int.toNat_of_nonneg (by omega)]
    push_cast
    rw [← zpow_add₀ (by norm_num)]
    congr 2
    omega
  have hhigh := Rounding.high_eq m e
  obtain ⟨-, hqhigh⟩ := Rounding.le_of_covers hq
  obtain ⟨hqlow, -⟩ := Rounding.le_of_covers hq'
  have hle := hqlow.trans hqhigh
  rw [hlow, hhigh, mul_le_mul_iff_of_pos_right hunit, Nat.cast_le] at hle
  cases h.quarters_lt h' hlt with
  | inl hquarters => omega
  | inr hquarters =>
      -- The number is the end that the intervals share, and one of them is open.
      obtain ⟨heq, hodd⟩ := hquarters
      rw [hlow, ← heq] at hqlow
      rw [hhigh] at hqhigh
      obtain rfl := le_antisymm hqhigh hqlow
      cases hodd with
      | inl hodd =>
          obtain ⟨-, hinside⟩ := Rounding.lt_of_covers_odd hodd hq
          rw [hhigh] at hinside
          exact lt_irrefl _ hinside
      | inr hodd =>
          obtain ⟨hinside, -⟩ := Rounding.lt_of_covers_odd hodd hq'
          rw [hlow, ← heq] at hinside
          exact lt_irrefl _ hinside

/-- **Rounding intervals tell numbers apart.** -/
theorem eq_of_covers (h : Normal m e) (h' : Normal n d) {q : ℚ} (hq : (Rounding.ofPower m e).Covers q)
    (hq' : (Rounding.ofPower n d).Covers q) : m = n ∧ e = d := by
  by_contra hne
  by_cases hlt : e < d ∨ e = d ∧ m < n
  · exact h.not_covers h' hlt hq hq'
  · exact h'.not_covers h (by omega) hq' hq

/-- What is in the interval of a positive number is positive. -/
theorem pos_of_covers (h : Normal m e) {q : ℚ} (hq : (Rounding.ofPower m e).Covers q) : 0 < q := by
  obtain ⟨hlow, -⟩ := Rounding.le_of_covers hq
  rw [Rounding.low_eq] at hlow
  have hquarters : 0 < 4 * m - Rounding.below m e := Nat.sub_pos_of_lt (Rounding.below_bounds h.pos e).2
  have hpositive : (0 : ℚ) < ((4 * m - Rounding.below m e : ℕ) : ℚ) * 2 ^ (e - 2) :=
    mul_pos (by exact_mod_cast hquarters) (zpow_pos (by norm_num) _)
  exact hpositive.trans_le hlow

end Normal

end RegisterEvolution.Decimal
