import RegisterEvolution.Proofs.Binary64.Arithmetic

/-!
# `Proofs.Binary64.Quotient` — quotients

A quotient is formed with more bits than there is room for, and what is left over by the division is kept as two bits
more: they say on which side of half a unit it is. So the quotient is rounded as if it were exact, and the number that
it is rounded to is as near to it as any.

* `residual`, `roundWithAccuracy_residual` — what is left over, as two more bits of the mantissa;
* `half_of_shifted` — the rounded mantissa is within half a unit of the quotient;
* `le_of_half` — a multiple of the last place within half of it is as near as any number;
* `exists_quotient` — the quotient of two magnitudes is within half a unit of the last place;
* `IsNearest`, `quotient_isNearest` — the quotient of natural numbers of which the first is not larger.
-/

namespace RegisterEvolution.Binary64

open Float.Model Float.Model.UnpackedFloat

/-! ## What is left over -/

/-- The two bits behind a mantissa that stand for what is left over. -/
def residual : Accuracy → Nat
  | .exact => 0
  | .inexact .lt => 1
  | .inexact .eq => 2
  | .inexact .gt => 3

theorem residual_lt (acc : Accuracy) : residual acc < 4 := by
  unfold residual
  split <;> omega

/-- The bits beside a mantissa are those that fall off when it is shifted by two places. -/
theorem ofMantissaAndAccuracy_eq (m : Nat) (acc : Accuracy) :
    ExtendedMantissa.ofMantissaAndAccuracy m acc = (⟨4 * m + residual acc, false, false⟩ : ExtendedMantissa) >>> 2 := by
  have hshift (r : Nat) (hr : r < 4) : (⟨4 * m + r, false, false⟩ : ExtendedMantissa) >>> 2 =
      ⟨m, r / 2 % 2 != 0, r % 2 != 0⟩ := by
    show (⟨(4 * m + r) / 2 / 2, (4 * m + r) / 2 % 2 != 0, (4 * m + r) % 2 != 0 || false⟩ : ExtendedMantissa) = _
    rw [Bool.or_false, show (4 * m + r) / 2 / 2 = m by omega, show (4 * m + r) / 2 % 2 = r / 2 % 2 by omega,
      show (4 * m + r) % 2 = r % 2 by omega]
  rw [hshift _ (residual_lt acc)]
  rcases acc with _ | order
  · rfl
  · cases order <;> rfl

theorem shiftRight_add (em : ExtendedMantissa) (j k : Nat) : em >>> j >>> k = em >>> (j + k) := by
  induction k with
  | zero => rfl
  | succ k ih =>
      rw [shiftRight_succ, ih, ← Nat.add_assoc, shiftRight_succ]

theorem log2_residual {m r : Nat} (hm : 0 < m) (hr : r < 4) : (4 * m + r).log2 = m.log2 + 2 := by
  have hlow := Nat.log2_self_le hm.ne'
  have hhigh := Nat.lt_log2_self (n := m)
  refine (Nat.log2_eq_iff (by omega)).mpr ⟨?_, ?_⟩
  · rw [Nat.pow_add]
    omega
  · rw [Nat.add_right_comm, Nat.pow_add]
    omega

section Residual

variable {m : Nat} {e : Int} {acc : Accuracy}

/-- The last place that is kept does not depend on what is left over. -/
theorem lastPlace_residual (hplace : 0 < m ∨ e ≤ -1074) : lastPlace (4 * m + residual acc) (e - 2) = lastPlace m e := by
  have hr := residual_lt acc
  unfold lastPlace
  rcases Nat.eq_zero_or_pos m with rfl | hm
  · have hlog : (4 * 0 + residual acc).log2 < 2 := by
      by_cases h0 : 4 * 0 + residual acc = 0
      · rw [h0]
        decide
      · exact (Nat.log2_lt h0).mpr (by omega)
    have he := hplace.resolve_left (Nat.lt_irrefl 0)
    have h0 : (0 : Nat).log2 = 0 := by decide
    rw [h0]
    omega
  · rw [log2_residual hm hr]
    omega

/-- **What is left over may be written behind the mantissa.** -/
theorem roundWithAccuracy_residual (s : Sign) (hdrop : Droppable m e) (hplace : 0 < m ∨ e ≤ -1074) :
    roundWithAccuracy format s m e acc = roundWithAccuracy format s (4 * m + residual acc) (e - 2) .exact := by
  have hlast : max ((m.log2 : Int) + 1 + e - 53) (-1074) =
      max (((4 * m + residual acc).log2 : Int) + 1 + (e - 2) - 53) (-1074) := (lastPlace_residual hplace).symm
  have hfirst : shiftToTargetExponent format m e acc =
      (let k := (max ((m.log2 : Int) + 1 + e - 53) (-1074) - e).toNat
      (ExtendedMantissa.ofMantissaAndAccuracy m acc >>> k, e + k)) := by
    unfold shiftToTargetExponent shiftToExponent
    rw [targetExponent_eq]
    rfl
  have hsame : shiftToTargetExponent format (4 * m + residual acc) (e - 2) .exact =
      shiftToTargetExponent format m e acc := by
    have hmore : (max ((m.log2 : Int) + 1 + e - 53) (-1074) - (e - 2)).toNat =
        2 + (max ((m.log2 : Int) + 1 + e - 53) (-1074) - e).toNat := by
      unfold Droppable at hdrop
      omega
    rw [hfirst, shiftToTargetExponent_eq, ← hlast, hmore]
    simp only
    rw [ofMantissaAndAccuracy_eq, shiftRight_add]
    congr 1
    push_cast
    ring
  unfold roundWithAccuracy
  rw [hsame]

end Residual

/-! ## Half a unit -/

/-- What the two bits say about the rest of a division. -/
theorem residual_cases (r n : Nat) :
    (r = 0 ∧ residual (accuracyOfFraction r n) = 0) ∨ (0 < r ∧ 2 * r < n ∧ residual (accuracyOfFraction r n) = 1) ∨
      (2 * r = n ∧ residual (accuracyOfFraction r n) = 2) ∨ (n < 2 * r ∧ residual (accuracyOfFraction r n) = 3) := by
  unfold accuracyOfFraction
  by_cases h0 : r = 0
  · rw [if_pos h0]
    exact .inl ⟨h0, rfl⟩
  · rw [if_neg h0]
    rcases Nat.lt_trichotomy (2 * r) n with h | h | h
    · rw [Nat.compare_eq_lt.mpr h]
      exact .inr (.inl ⟨by omega, h, rfl⟩)
    · rw [Nat.compare_eq_eq.mpr h]
      exact .inr (.inr (.inl ⟨h, rfl⟩))
    · rw [Nat.compare_eq_gt.mpr h]
      exact .inr (.inr (.inr ⟨h, rfl⟩))

/-- With them, what is dropped is compared with half a unit as it is without rounding. -/
theorem half_of_residual (w k : Nat) {r n : Nat} (hr : r < n) :
    (4 * w + residual (accuracyOfFraction r n) ≤ 2 * 2 ^ k → 2 * (w * n + r) ≤ 2 ^ k * n) ∧
      (2 * 2 ^ k ≤ 4 * w + residual (accuracyOfFraction r n) → 2 ^ k * n ≤ 2 * (w * n + r)) := by
  have hcases := residual_cases r n
  cases k with
  | zero =>
      rcases Nat.eq_zero_or_pos w with rfl | hw
      · constructor <;> intro h <;> omega
      · have hwn : n ≤ w * n := Nat.le_mul_of_pos_left n hw
        constructor <;> intro h <;> omega
  | succ k =>
      rw [Nat.pow_succ, show 2 ^ k * 2 * n = 2 * (2 ^ k * n) by ring]
      generalize 2 ^ k = half
      constructor
      · intro h
        rcases Nat.lt_or_ge w half with hlt | hge
        · have hwn : (w + 1) * n ≤ half * n := Nat.mul_le_mul_right n hlt
          rw [Nat.succ_mul] at hwn
          omega
        · obtain rfl : w = half := by omega
          omega
      · intro h
        have hwn : half * n ≤ w * n := Nat.mul_le_mul_right n (by omega)
        omega

/-- **The rounded mantissa is within half a unit of the quotient**, the unit being `2 ^ k`. -/
theorem half_of_shifted (m k : Nat) {n : Nat} (hn : 0 < n) :
    2 * (shifted (4 * (m / n) + residual (accuracyOfFraction (m % n) n)) (k + 2) * 2 ^ k * n) ≤
        2 * m + 2 ^ k * n ∧
      2 * m ≤
        2 * (shifted (4 * (m / n) + residual (accuracyOfFraction (m % n) n)) (k + 2) * 2 ^ k * n) + 2 ^ k * n := by
  obtain ⟨hbelow, habove⟩ := half_of_residual (m / n % 2 ^ k) k (Nat.mod_lt m hn)
  have hr := residual_lt (accuracyOfFraction (m % n) n)
  have hw := Nat.mod_lt (m / n) (Nat.two_pow_pos k)
  have hq : m / n = 2 ^ k * (m / n / 2 ^ k) + m / n % 2 ^ k := (Nat.div_add_mod ..).symm
  have hm : m = (m / n / 2 ^ k * 2 ^ k) * n + (m / n % 2 ^ k * n + m % n) := by
    conv_lhs => rw [← Nat.div_add_mod m n, hq]
    ring
  have hrest : m / n % 2 ^ k * n + m % n < 2 ^ k * n := by
    have hwn : (m / n % 2 ^ k + 1) * n ≤ 2 ^ k * n := Nat.mul_le_mul_right n hw
    have := Nat.mod_lt m hn
    rw [Nat.succ_mul] at hwn
    omega
  generalize residual (accuracyOfFraction (m % n) n) = d at *
  generalize m / n / 2 ^ k = c at *
  generalize m / n % 2 ^ k = w at *
  have hdivision : (4 * (m / n) + d) / 2 ^ (k + 2) = c ∧ (4 * (m / n) + d) % 2 ^ (k + 2) = 4 * w + d := by
    refine (Nat.div_mod_unique (Nat.two_pow_pos _)).mpr ⟨?_, ?_⟩
    · rw [hq, Nat.pow_add]
      ring
    · rw [Nat.pow_add]
      omega
  have hunit : (2 : Nat) ^ (k + 2) = 4 * 2 ^ k := by
    rw [Nat.pow_add]
    ring
  have hdown : c * 2 ^ k * n = c * (2 ^ k * n) := Nat.mul_assoc ..
  have hup : (c + 1) * 2 ^ k * n = c * (2 ^ k * n) + 2 ^ k * n := by ring
  rw [hdown] at hm
  rw [shifted_eq, hdivision.1, hdivision.2, hunit]
  generalize c * (2 ^ k * n) = below at *
  generalize 2 ^ k * n = width at *
  generalize w * n + m % n = rest at *
  by_cases hless : 2 * (4 * w + d) < 4 * 2 ^ k
  · rw [if_pos hless, hdown]
    have := hbelow (by omega)
    omega
  · rw [if_neg hless]
    by_cases heven : 2 * (4 * w + d) = 4 * 2 ^ k
    · -- half a unit: both neighbours are near enough
      rw [if_pos heven]
      have := hbelow (by omega)
      have := habove (by omega)
      rcases Nat.mod_two_eq_zero_or_one c with h | h
      · rw [h, Nat.add_zero, hdown]
        omega
      · rw [h, hup]
        omega
    · rw [if_neg heven, hup]
      have := habove (by omega)
      omega

/-! ## The nearest number -/

/-- A multiple of a unit within half of it is as near as any other multiple. -/
theorem le_of_half_multiple {a j : ℤ} {w q : ℚ} (hw : 0 < w) (h : |a * w - q| ≤ w / 2) : |a * w - q| ≤ |j * w - q| := by
  rcases eq_or_ne a j with rfl | hne
  · exact le_refl _
  · have hapart : w ≤ |j * w - a * w| := by
      rw [← sub_mul, abs_mul, abs_of_pos hw]
      refine le_mul_of_one_le_left hw.le ?_
      rw [← Int.cast_sub, ← Int.cast_abs]
      exact_mod_cast Int.one_le_abs (sub_ne_zero.mpr hne.symm)
    have htriangle : |j * w - a * w| ≤ |j * w - q| + |a * w - q| := by
      rw [abs_sub_comm (a * w) q]
      exact abs_sub_le _ _ _
    linarith

/-- A number at a place that is not lower is a multiple of the unit there. -/
theorem exists_multiple {u : UnpackedFloat} {e : Int} (h : ∀ s m d hm, u = .finite s m d hm → e ≤ d) :
    ∃ j : ℤ, value u = j * 2 ^ e := by
  cases u with
  | notANumber => exact ⟨0, by simp [value]⟩
  | infinity s => exact ⟨0, by simp [value]⟩
  | zero s => exact ⟨0, by simp [value]⟩
  | finite s m d hm =>
      refine ⟨s.apply (m * 2 ^ (d - e).toNat : ℕ), ?_⟩
      rw [cast_apply, mul_assoc, Int.cast_natCast, ← mul_zpow_eq m (h s m d hm rfl)]
      rfl

/-- **A multiple of the last place within half of it is as near as any number**: a number with a lower last place is on
    the far side of a power of two. -/
theorem le_of_half {a : ℤ} {e : Int} {q : ℚ} (h : |a * 2 ^ e - q| ≤ 2 ^ e / 2)
    (hlong : (2 : ℚ) ^ 52 * 2 ^ e ≤ q ∨ e = -1074) {u : UnpackedFloat} (cu : Canonical u) :
    |a * 2 ^ e - q| ≤ |value u - q| := by
  by_cases hplace : ∀ s m d hm, u = .finite s m d hm → e ≤ d
  · obtain ⟨j, hj⟩ := exists_multiple hplace
    rw [hj]
    exact le_of_half_multiple (zpow_pos_two e) h
  · push Not at hplace
    obtain ⟨s, m, d, hm, rfl, hlower⟩ := hplace
    obtain ⟨hlt, hmin, -⟩ := cu
    have hpower := hlong.resolve_right (by omega)
    have hvalue : value (.finite s m d hm) ≤ 2 ^ 52 * 2 ^ e := by
      have hmagnitude : (m : ℚ) * 2 ^ d ≤ (2 ^ 52 : ℕ) * 2 ^ e := by
        refine mul_zpow_le_mul_zpow hlower.le ?_
        have hpow : 2 ^ 1 ≤ 2 ^ (e - d).toNat := Nat.pow_le_pow_right (by decide) (by omega)
        omega
      push_cast at hmagnitude
      have hpos := value_pos (e := d) hm
      cases s with
      | negative =>
          rw [value_negative]
          linarith
      | positive => rwa [value_positive]
    have hnear := le_of_half_multiple (j := 2 ^ 52) (zpow_pos_two e) h
    rw [Int.cast_pow, Int.cast_ofNat] at hnear
    rw [abs_of_nonpos (sub_nonpos.mpr hpower)] at hnear
    rw [abs_of_nonpos (sub_nonpos.mpr (hvalue.trans hpower))]
    linarith

/-- A finite number that no other one is nearer to a rational number than. -/
structure IsNearest (x : Float) (q : ℚ) : Prop where
  finite : x.isFinite = true
  le : ∀ y : Float, y.isFinite = true → |valueOf x - q| ≤ |valueOf y - q|

namespace IsNearest

variable {x : Float} {q : ℚ}

/-- The number nearest to a fraction is between zero and one. -/
theorem between (h : IsNearest x q) (h0 : 0 ≤ q) (h1 : q ≤ 1) : 0.0 ≤ x ∧ x ≤ 1.0 := by
  have hzero : valueOf 0.0 = 0 := rfl
  have hbelow := h.le 0.0 (by decide)
  have habove := h.le 1.0 (by decide)
  rw [hzero, zero_sub, abs_neg, abs_of_nonneg h0] at hbelow
  rw [valueOf_one, abs_of_nonneg (sub_nonneg.mpr h1)] at habove
  rw [le_iff_valueOf (by decide) h.finite, le_iff_valueOf h.finite (by decide), hzero, valueOf_one]
  have hlow := neg_abs_le (valueOf x - q)
  have hhigh := le_abs_self (valueOf x - q)
  constructor <;> linarith

end IsNearest

/-! ## The quotient -/

section Quotient

variable {m n : Nat} {e d : Int}

/-- The exponent down to which the quotient of two magnitudes is formed. -/
def quotientPlace (m : Nat) (e : Int) (n : Nat) (d : Int) : Int :=
  min (e - d) (max ((m.log2 : Int) + e - (n.log2 + d) - 53) (-1074))

/-- The dividend, brought to that exponent. -/
def dividend (m : Nat) (e : Int) (n : Nat) (d : Int) : Nat := m * 2 ^ (e - d - quotientPlace m e n d).toNat

theorem dividend_mul (hn : 0 < n) :
    (dividend m e n d : ℚ) * 2 ^ quotientPlace m e n d = m * 2 ^ e / (n * 2 ^ d) * n := by
  have hscaled := mul_zpow_eq m (show quotientPlace m e n d ≤ e - d from min_le_left _ _)
  have hn0 : (n : ℚ) ≠ 0 := by exact_mod_cast hn.ne'
  have hd0 := (zpow_pos_two d).ne'
  unfold dividend
  rw [← hscaled, zpow_sub₀ (by norm_num)]
  field_simp

/-- A division is one of integers, of which the rest is kept. -/
theorem div_eq (s t : Sign) (hm : 0 < m) (hn : 0 < n) :
    UnpackedFloat.div format (.finite s m e hm) (.finite t n d hn) =
      roundWithAccuracy format (s / t) (dividend m e n d / n) (quotientPlace m e n d)
        (accuracyOfFraction (dividend m e n d % n) n) := by
  have htarget : min (e - d) (format.targetExponent (totalExponent m e - totalExponent n d)) =
      quotientPlace m e n d := by
    rw [targetExponent_eq]
    unfold totalExponent quotientPlace
    omega
  have hdividend : m <<< (e - d - quotientPlace m e n d).toNat = dividend m e n d := Nat.shiftLeft_eq ..
  simp only [UnpackedFloat.div, divCore]
  rw [htarget, hdividend]

/-- The quotient is long, unless it is formed down to the least exponent. -/
theorem quotient_long (hm : 0 < m) (hn : 0 < n) (hshort : m.log2 ≤ n.log2 + 53) :
    2 ^ 52 ≤ dividend m e n d / n ∨ quotientPlace m e n d ≤ -1074 := by
  by_cases hleast : quotientPlace m e n d ≤ -1074
  · exact .inr hleast
  · refine .inl ((Nat.le_div_iff_mul_le hn).mpr ?_)
    have hplaces : m.log2 + (e - d - quotientPlace m e n d).toNat = 53 + n.log2 := by
      unfold quotientPlace at *
      omega
    calc 2 ^ 52 * n ≤ 2 ^ 52 * 2 ^ (n.log2 + 1) := Nat.mul_le_mul_left _ Nat.lt_log2_self.le
      _ = 2 ^ (53 + n.log2) := by rw [← Nat.pow_add]; congr 1; omega
      _ = 2 ^ m.log2 * 2 ^ (e - d - quotientPlace m e n d).toNat := by rw [← hplaces, Nat.pow_add]
      _ ≤ dividend m e n d := Nat.mul_le_mul_right _ (Nat.log2_self_le hm.ne')

/-- Without what is left over, the quotient is not above the fraction. -/
theorem quotient_le (hn : 0 < n) :
    ((dividend m e n d / n : ℕ) : ℚ) * 2 ^ quotientPlace m e n d ≤ m * 2 ^ e / (n * 2 ^ d) := by
  have hdivide : ((dividend m e n d / n : ℕ) : ℚ) * n ≤ dividend m e n d := by
    exact_mod_cast Nat.div_mul_le_self _ _
  have hscaled := mul_le_mul_of_nonneg_right hdivide (zpow_pos_two (quotientPlace m e n d)).le
  rw [dividend_mul hn] at hscaled
  refine le_of_mul_le_mul_right ?_ (show (0 : ℚ) < n by exact_mod_cast hn)
  linarith

/-- The quotient before it is rounded, with what is left over. -/
def extendedQuotient (m : Nat) (e : Int) (n : Nat) (d : Int) : Nat :=
  4 * (dividend m e n d / n) + residual (accuracyOfFraction (dividend m e n d % n) n)

theorem extendedQuotient_pos (hm : 0 < m) : 0 < extendedQuotient m e n d := by
  have hpos : 0 < dividend m e n d := Nat.mul_pos hm (Nat.two_pow_pos _)
  have hsplit := Nat.div_add_mod (dividend m e n d) n
  unfold extendedQuotient
  rcases Nat.eq_zero_or_pos (dividend m e n d / n) with hzero | hquotient
  · rw [hzero, Nat.mul_zero, Nat.zero_add] at hsplit
    rcases residual_cases (dividend m e n d % n) n with h | h | h | h <;> omega
  · omega

/-- It is less than a unit above the fraction. -/
theorem extendedQuotient_lt (hn : 0 < n) :
    (extendedQuotient m e n d : ℚ) * 2 ^ (quotientPlace m e n d - 2) <
      m * 2 ^ e / (n * 2 ^ d) + 2 ^ quotientPlace m e n d := by
  have hbits : extendedQuotient m e n d < (dividend m e n d / n + 1) * 4 := by
    have := residual_lt (accuracyOfFraction (dividend m e n d % n) n)
    unfold extendedQuotient
    omega
  have hquotient := quotient_le (m := m) (e := e) (d := d) hn
  calc (extendedQuotient m e n d : ℚ) * 2 ^ (quotientPlace m e n d - 2)
      < ((dividend m e n d / n + 1) * 4 : ℕ) * 2 ^ (quotientPlace m e n d - 2) :=
        mul_lt_mul_of_pos_right (by exact_mod_cast hbits) (zpow_pos_two _)
    _ = (dividend m e n d / n : ℕ) * 2 ^ quotientPlace m e n d + 2 ^ quotientPlace m e n d := by
        rw [zpow_sub₀ (by norm_num)]
        push_cast
        ring
    _ ≤ m * 2 ^ e / (n * 2 ^ d) + 2 ^ quotientPlace m e n d := by linarith

/-- The mantissa that the quotient is rounded to is within half a unit of the fraction. -/
theorem half_of_quotient (hn : 0 < n) (k : Nat) :
    |(shifted (extendedQuotient m e n d) (k + 2) : ℚ) * 2 ^ (quotientPlace m e n d + k) - m * 2 ^ e / (n * 2 ^ d)| ≤
      2 ^ (quotientPlace m e n d + k) / 2 := by
  obtain ⟨hhigh, hlow⟩ := half_of_shifted (dividend m e n d) k hn
  have hhigh : (2 : ℚ) * (shifted (extendedQuotient m e n d) (k + 2) * 2 ^ k * n) ≤
      2 * dividend m e n d + 2 ^ k * n := by
    exact_mod_cast hhigh
  have hlow : (2 : ℚ) * dividend m e n d ≤
      2 * (shifted (extendedQuotient m e n d) (k + 2) * 2 ^ k * n) + 2 ^ k * n := by
    exact_mod_cast hlow
  have hfraction := dividend_mul (m := m) (e := e) (d := d) hn
  have hunit := zpow_pos_two (quotientPlace m e n d)
  have hnpos : (0 : ℚ) < n := by exact_mod_cast hn
  rw [zpow_add₀ (by norm_num), zpow_natCast, abs_le]
  generalize (2 : ℚ) ^ quotientPlace m e n d = w at *
  generalize (m : ℚ) * 2 ^ e / (n * 2 ^ d) = q at *
  have hhigh' := mul_le_mul_of_nonneg_right hhigh hunit.le
  have hlow' := mul_le_mul_of_nonneg_right hlow hunit.le
  constructor
  · refine le_of_mul_le_mul_right ?_ hnpos
    linarith
  · refine le_of_mul_le_mul_right ?_ hnpos
    linarith

/-- What the parts of a quotient are, with the mantissa within half a unit of the last place. -/
theorem exists_quotient (s t : Sign) (hm : 0 < m) (hn : 0 < n) (hshort : m.log2 ≤ n.log2 + 53) :
    ∃ (a : Nat) (l : Int),
      Rounded (unit (s / t) * (extendedQuotient m e n d * 2 ^ (quotientPlace m e n d - 2)))
        (UnpackedFloat.div format (.finite s m e hm) (.finite t n d hn)) ∧
      value (UnpackedFloat.div format (.finite s m e hm) (.finite t n d hn)) = unit (s / t) * (a * 2 ^ l) ∧
      |a * 2 ^ l - (m * 2 ^ e / (n * 2 ^ d) : ℚ)| ≤ 2 ^ l / 2 ∧
      ((2 : ℚ) ^ 52 * 2 ^ l ≤ m * 2 ^ e / (n * 2 ^ d) ∨ l = -1074) := by
  have hlong := quotient_long (e := e) (d := d) hm hn hshort
  have hdrop : Droppable (dividend m e n d / n) (quotientPlace m e n d) := by
    rcases hlong with hlong | hleast
    · have hlog : 52 ≤ (dividend m e n d / n).log2 := (Nat.le_log2 (by omega)).mpr hlong
      unfold Droppable
      omega
    · unfold Droppable
      omega
  have hplace : 0 < dividend m e n d / n ∨ quotientPlace m e n d ≤ -1074 := hlong.imp_left fun hlong => by omega
  have hlast : lastPlace (extendedQuotient m e n d) (quotientPlace m e n d - 2) =
      lastPlace (dividend m e n d / n) (quotientPlace m e n d) := lastPlace_residual hplace
  have hdiv := (div_eq s t hm hn).trans (roundWithAccuracy_residual (s / t) hdrop hplace)
  obtain ⟨k, hk⟩ := hdrop.exists_shift
  have hk' : lastPlace (extendedQuotient m e n d) (quotientPlace m e n d - 2) =
      quotientPlace m e n d - 2 + (k + 2 : ℕ) := by
    rw [hlast, hk]
    push_cast
    ring
  have hpos := extendedQuotient_pos (e := e) (n := n) (d := d) hm
  have hdrop' : Droppable (extendedQuotient m e n d) (quotientPlace m e n d - 2) := by
    unfold Droppable
    unfold lastPlace at hk'
    omega
  refine ⟨shifted (extendedQuotient m e n d) (k + 2), quotientPlace m e n d + k, ?_, ?_, half_of_quotient hn k, ?_⟩
  · rw [hdiv]
    exact .roundWithAccuracy (s / t) hpos hdrop'
  · rw [hdiv, ← hk, ← hlast, ← nearest_eq hk']
    exact value_roundWithAccuracy (s / t) hpos hdrop'
  · by_cases hleast : quotientPlace m e n d + k = -1074
    · exact .inr hleast
    · refine .inl (le_trans ?_ (quotient_le hn))
      have hlog : (dividend m e n d / n).log2 = 52 + k := by
        unfold lastPlace at hk
        omega
      have hpower : 2 ^ (52 + k) ≤ dividend m e n d / n := by
        have hne : dividend m e n d / n ≠ 0 := by
          intro hzero
          rw [hzero, show (0 : Nat).log2 = 0 by decide] at hlog
          omega
        rw [← hlog]
        exact Nat.log2_self_le hne
      have hpower : (2 : ℚ) ^ 52 * 2 ^ k ≤ (dividend m e n d / n : ℕ) := by
        rw [← pow_add]
        exact_mod_cast hpower
      rw [zpow_add₀ (by norm_num), zpow_natCast, mul_comm (2 ^ quotientPlace m e n d), ← mul_assoc]
      exact mul_le_mul_of_nonneg_right hpower (zpow_pos_two _).le

/-- The quotient of a natural number and one that is not smaller is not out of range. -/
theorem extendedQuotient_fraction (hm : 0 < m) (h : m ≤ n) :
    (extendedQuotient m 0 n 0 : ℚ) * 2 ^ (quotientPlace m 0 n 0 - 2) < overflow := by
  have hplace : (2 : ℚ) ^ quotientPlace m 0 n 0 ≤ 1 :=
    zpow_le_one_of_nonpos₀ (by norm_num) (by unfold quotientPlace; omega)
  have hfraction : (m : ℚ) * 2 ^ (0 : Int) / (n * 2 ^ (0 : Int)) ≤ 1 := by
    rw [zpow_zero, mul_one, mul_one]
    exact div_le_one_of_le₀ (by exact_mod_cast h) (Nat.cast_nonneg n)
  have hpow : (1 : ℚ) ≤ 2 ^ (970 : Int) := one_le_zpow₀ (by norm_num) (by norm_num)
  have hextended := extendedQuotient_lt (m := m) (e := 0) (d := 0) (show 0 < n by omega)
  unfold overflow
  generalize (2 : ℚ) ^ (970 : Int) = t at hpow
  linarith

/-- **The quotient of a number and one that is not smaller is the number nearest to the fraction.** -/
theorem quotient_isNearest (hn : 0 < n) (h : m ≤ n) : IsNearest (Decimal.quotient m n) (m / n) := by
  rcases Nat.eq_zero_or_pos m with rfl | hm
  · have hquotient : Decimal.quotient 0 n = 0.0 := by
      unfold Decimal.quotient
      rw [dif_neg (Nat.lt_irrefl 0)]
    have hzero : valueOf 0.0 = 0 := rfl
    rw [hquotient]
    refine ⟨by decide, fun y _ => ?_⟩
    rw [hzero, Nat.cast_zero, zero_div, sub_zero, abs_zero]
    exact abs_nonneg _
  · have hlog : m.log2 ≤ n.log2 := (Nat.le_log2 (by omega)).mpr ((Nat.log2_self_le hm.ne').trans h)
    obtain ⟨a, l, hrounded, hvalue, hhalf, hlong⟩ :=
      exists_quotient (e := 0) (d := 0) .positive .positive hm hn (by omega)
    have hquotient : Decimal.quotient m n = .ofModel (Float.Model.pack
        (UnpackedFloat.div format (.finite .positive m 0 hm) (.finite .positive n 0 hn))) := by
      unfold Decimal.quotient
      rw [dif_pos hm, dif_pos hn]
    have hpositive : ∀ q : ℚ, unit (.positive / .positive) * q = q := one_mul
    rw [hpositive] at hrounded hvalue
    have hrange : |(extendedQuotient m 0 n 0 : ℚ) * 2 ^ (quotientPlace m 0 n 0 - 2)| < overflow := by
      rw [abs_of_pos (value_pos (extendedQuotient_pos hm))]
      exact extendedQuotient_fraction hm h
    rw [zpow_zero, mul_one, mul_one] at hhalf hlong
    rw [hquotient]
    refine ⟨hrounded.isFinite_ofModel hrange, fun y hy => ?_⟩
    have hparts : valueOf (.ofModel (Float.Model.pack
        (UnpackedFloat.div format (.finite .positive m 0 hm) (.finite .positive n 0 hn)))) = a * 2 ^ l := by
      unfold valueOf
      rw [unpack_ofModel (hrounded.canonical hrange), hvalue]
    rw [hparts]
    exact le_of_half (a := a) hhalf hlong (canonical_toModel y)

end Quotient

end RegisterEvolution.Binary64
