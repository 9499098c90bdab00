import RegisterEvolution.Proofs.Binary64.Order

/-!
# `Proofs.Binary64.Value` — the rational numbers that finite numbers stand for

Arithmetic is exact up to rounding, so what it does is said in rational numbers. A finite number stands for its mantissa
with its sign, times a power of two.

* `value`, `valueOf` — the rational number;
* `valueOf_le`, `le_iff_valueOf` — the order of finite numbers is that of their values;
* `abs_value_le` — no value exceeds the largest finite number;
* `floor_eq`, `ceil_eq` — rounding to integers, read off the exact form, is that of the value.
-/

namespace RegisterEvolution.Binary64

open Float.Model Float.Model.UnpackedFloat

/-- One with a sign. -/
def unit : Sign → ℚ
  | .negative => -1
  | .positive => 1

/-- The rational number that finite parts stand for. -/
def value : UnpackedFloat → ℚ
  | .finite s m e _ => unit s * (m * 2 ^ e)
  | _ => 0

/-- The rational number that a finite number stands for. -/
def valueOf (x : Float) : ℚ := value x.toModel.unpack

theorem value_zero (s : Sign) : value (.zero s) = 0 := rfl

theorem value_negative (m : Nat) (e : Int) (hm : 0 < m) : value (.finite .negative m e hm) = -(m * 2 ^ e) :=
  neg_one_mul _

theorem value_positive (m : Nat) (e : Int) (hm : 0 < m) : value (.finite .positive m e hm) = m * 2 ^ e := one_mul _

theorem valueOf_one : valueOf 1.0 = 1 := by
  show unit .positive * (((2 ^ 52 : ℕ) : ℚ) * 2 ^ (-52 : Int)) = 1
  norm_num [unit]

theorem cast_apply (s : Sign) (n : Int) : ((s.apply n : Int) : ℚ) = unit s * n := by
  cases s with
  | negative => simp [Sign.apply, unit]
  | positive => simp [Sign.apply, unit]

theorem unit_mul (s t : Sign) : unit (s * t) = unit s * unit t := by
  cases s with
  | negative =>
      cases t with
      | negative => exact (show (-1 : ℚ) * -1 = 1 by norm_num).symm
      | positive => exact (mul_one (-1 : ℚ)).symm
  | positive =>
      cases t with
      | negative => exact (one_mul (-1 : ℚ)).symm
      | positive => exact (one_mul (1 : ℚ)).symm

theorem zpow_pos_two (e : Int) : (0 : ℚ) < 2 ^ e := zpow_pos (by norm_num) e

/-- A magnitude at a smaller exponent. -/
theorem mul_zpow_eq (n : Nat) {d e : Int} (h : d ≤ e) : (n : ℚ) * 2 ^ e = (n * 2 ^ (e - d).toNat : ℕ) * 2 ^ d := by
  have hsplit : (2 : ℚ) ^ e = 2 ^ (e - d).toNat * 2 ^ d := by
    rw [← zpow_natCast, ← zpow_add₀ (by norm_num)]
    congr 1
    omega
  rw [hsplit]
  push_cast
  ring

/-- Magnitudes are compared at a common exponent. -/
theorem mul_zpow_le_mul_zpow {m n : Nat} {d e : Int} (h : d ≤ e) (hle : m ≤ n * 2 ^ (e - d).toNat) :
    (m : ℚ) * 2 ^ d ≤ n * 2 ^ e := by
  rw [mul_zpow_eq n h]
  exact mul_le_mul_of_nonneg_right (by exact_mod_cast hle) (zpow_pos_two d).le

theorem mul_zpow_lt_mul_zpow {m n : Nat} {d e : Int} (h : d ≤ e) (hlt : m < n * 2 ^ (e - d).toNat) :
    (m : ℚ) * 2 ^ d < n * 2 ^ e := by
  rw [mul_zpow_eq n h]
  exact mul_lt_mul_of_pos_right (by exact_mod_cast hlt) (zpow_pos_two d)

/-! ## Order -/

/-- Of two canonical mantissas, the one in front of the other has the smaller value. -/
theorem magnitude_lt {m n : Nat} {d e : Int} (hm : m < 2 ^ 53) (hn : 2 ^ 52 ≤ n ∨ e = -1074) (hd : -1074 ≤ d)
    (hn' : n < 2 ^ 53) (h : (d + 1075) * 2 ^ 53 + (m : Int) < (e + 1075) * 2 ^ 53 + (n : Int)) :
    (m : ℚ) * 2 ^ d < n * 2 ^ e := by
  have hexponent : d ≤ e := by omega
  refine mul_zpow_lt_mul_zpow hexponent ?_
  rcases hexponent.eq_or_lt with rfl | hlt
  · rw [Int.sub_self, Int.toNat_zero, pow_zero, mul_one]
    omega
  · -- a larger exponent makes up for any mantissa, because its own one is long
    have hlong : 2 ^ 52 ≤ n := by omega
    have hpow : 2 ^ 1 ≤ 2 ^ (e - d).toNat := Nat.pow_le_pow_right (by decide) (by omega)
    calc m < 2 ^ 52 * 2 ^ 1 := by omega
      _ ≤ n * 2 ^ (e - d).toNat := Nat.mul_le_mul hlong hpow

theorem value_pos {m : Nat} {e : Int} (hm : 0 < m) : (0 : ℚ) < m * 2 ^ e :=
  mul_pos (by exact_mod_cast hm) (zpow_pos_two e)

theorem value_lt_of_level_lt {u v : UnpackedFloat} (hu : u.isFinite = true) (hv : v.isFinite = true) (cu : Canonical u)
    (cv : Canonical v) (h : level u < level v) : value u < value v := by
  obtain ⟨s, rfl⟩ | ⟨s, m, e, hm, rfl⟩ := zero_or_finite hu
  · obtain ⟨t, rfl⟩ | ⟨t, n, d, hn, rfl⟩ := zero_or_finite hv
    · exact absurd h (Int.lt_irrefl 0)
    · have hpos := level_pos (m := n) cv.2.1
      cases t with
      | negative => exact absurd (show (0 : Int) < -((d + 1075) * 2 ^ 53 + (n : Int)) from h) (by omega)
      | positive =>
          rw [value_positive]
          exact value_pos hn
  · have hposU := level_pos (m := m) cu.2.1
    have hvalueU := value_pos (e := e) hm
    obtain ⟨t, rfl⟩ | ⟨t, n, d, hn, rfl⟩ := zero_or_finite hv
    · cases s with
      | negative =>
          rw [value_negative]
          exact neg_neg_of_pos hvalueU
      | positive => exact absurd (show (e + 1075) * 2 ^ 53 + (m : Int) < 0 from h) (by omega)
    · have hposV := level_pos (m := n) cv.2.1
      have hvalueV := value_pos (e := d) hn
      cases s with
      | negative =>
          cases t with
          | negative =>
              rw [value_negative, value_negative]
              exact neg_lt_neg (magnitude_lt cv.1 cu.2.2.2 cv.2.1 cu.1 (Int.neg_lt_neg_iff.mp h))
          | positive =>
              rw [value_negative, value_positive]
              linarith
      | positive =>
          cases t with
          | negative =>
              exact absurd (show (e + 1075) * 2 ^ 53 + (m : Int) < -((d + 1075) * 2 ^ 53 + (n : Int)) from h) (by omega)
          | positive =>
              rw [value_positive, value_positive]
              exact magnitude_lt cu.1 cv.2.2.2 cu.2.1 cv.1 h

/-- Finite parts at the same place differ in nothing but the sign of a zero. -/
theorem value_eq_of_level_eq {u v : UnpackedFloat} (hu : u.isFinite = true) (hv : v.isFinite = true) (cu : Canonical u)
    (cv : Canonical v) (h : level u = level v) : value u = value v := by
  obtain ⟨s, rfl⟩ | ⟨s, m, e, hm, rfl⟩ := zero_or_finite hu
  · obtain ⟨t, rfl⟩ | ⟨t, n, d, hn, rfl⟩ := zero_or_finite hv
    · rfl
    · have hpos := level_pos (m := n) cv.2.1
      cases t <;> simp only [level, Sign.apply] at h <;> omega
  · have hposU := level_pos (m := m) cu.2.1
    obtain ⟨t, rfl⟩ | ⟨t, n, d, hn, rfl⟩ := zero_or_finite hv
    · cases s <;> simp only [level, Sign.apply] at h <;> omega
    · have hposV := level_pos (m := n) cv.2.1
      have hparts : s = t ∧ m = n ∧ e = d := by
        have hm' := cu.1
        have hn' := cv.1
        cases s <;> cases t <;> simp only [level, Sign.apply] at h <;> simp <;> omega
      obtain ⟨rfl, rfl, rfl⟩ := hparts
      rfl

theorem value_le_of_level_le {u v : UnpackedFloat} (hu : u.isFinite = true) (hv : v.isFinite = true) (cu : Canonical u)
    (cv : Canonical v) (h : level u ≤ level v) : value u ≤ value v := by
  rcases h.eq_or_lt with heq | hlt
  · exact (value_eq_of_level_eq hu hv cu cv heq).le
  · exact (value_lt_of_level_lt hu hv cu cv hlt).le

/-- **The order of finite numbers is that of their values.** -/
theorem valueOf_le {x y : Float} (hx : x.isFinite = true) (hy : y.isFinite = true) (h : x ≤ y) :
    valueOf x ≤ valueOf y :=
  value_le_of_level_le hx hy (canonical_toModel x) (canonical_toModel y) ((le_iff_level hx hy).mp h)

theorem le_iff_valueOf {x y : Float} (hx : x.isFinite = true) (hy : y.isFinite = true) :
    x ≤ y ↔ valueOf x ≤ valueOf y := by
  refine ⟨valueOf_le hx hy, fun h => ?_⟩
  rw [le_iff_level hx hy]
  refine Int.not_lt.mp fun hlt => ?_
  exact absurd h (value_lt_of_level_lt hy hx (canonical_toModel y) (canonical_toModel x) hlt).not_ge

/-- The largest finite number. -/
def greatest : ℚ := (2 ^ 53 - 1) * 2 ^ 971

/-- **No value exceeds the largest finite number.** -/
theorem abs_value_le {u : UnpackedFloat} (cu : Canonical u) : |value u| ≤ greatest := by
  have hpos : 0 ≤ greatest := by norm_num [greatest]
  cases u with
  | notANumber => simpa [value] using hpos
  | infinity s => simpa [value] using hpos
  | zero s => simpa [value] using hpos
  | finite s m e hm =>
      obtain ⟨hlt, hmin, hmax, -⟩ := cu
      have habs : |value (.finite s m e hm)| = m * 2 ^ e := by
        cases s with
        | negative => rw [value_negative, abs_neg, abs_of_pos (value_pos hm)]
        | positive => rw [value_positive, abs_of_pos (value_pos hm)]
      have hle : ((m : ℕ) : ℚ) ≤ 2 ^ 53 - 1 := by
        rw [le_sub_iff_add_le]
        exact_mod_cast hlt
      have hpow : (2 : ℚ) ^ e ≤ 2 ^ (971 : ℤ) := zpow_le_zpow_right₀ (by norm_num) hmax
      rw [habs]
      calc (m : ℚ) * 2 ^ e ≤ (2 ^ 53 - 1) * 2 ^ (971 : ℤ) :=
            mul_le_mul hle hpow (zpow_pos_two e).le (by norm_num)
        _ = greatest := by norm_num [greatest]

/-! ## Integers -/

theorem signed_eq (s : Sign) (m : Nat) (e : Int) : (⟨isNegative s, m, e⟩ : Decimal.Dyadic).signed = s.apply m := by
  cases s <;> rfl

/-- Rounding the exact form down is rounding the value down. -/
theorem floor_eq (d : Decimal.Dyadic) : d.floor = ⌊(d.signed : ℚ) * 2 ^ d.exponent⌋ := by
  unfold Decimal.Dyadic.floor
  split
  · rename_i h
    have hpow : (2 : ℚ) ^ d.exponent = ((2 ^ d.exponent.toNat : ℤ) : ℚ) := by
      rw [Int.cast_pow, ← zpow_natCast, Int.toNat_of_nonneg h]
      rfl
    rw [hpow, ← Int.cast_mul, Int.floor_intCast]
    rfl
  · rename_i h
    have hpow : (2 : ℚ) ^ d.exponent = (((2 ^ (-d.exponent).toNat : ℕ) : ℚ))⁻¹ := by
      rw [Nat.cast_pow, ← zpow_natCast, ← zpow_neg, Int.toNat_of_nonneg (by omega), neg_neg]
      rfl
    have hpos : (0 : ℤ) ≤ Int.pow 2 (-d.exponent).toNat := Int.le_of_lt (Int.pow_pos (by decide))
    rw [hpow, ← div_eq_mul_inv, Rat.floor_intCast_div_natCast, Int.fdiv_eq_ediv_of_nonneg _ hpos]
    congr 1

theorem signed_shapeOf {u : UnpackedFloat} {d : Decimal.Dyadic} (h : shapeOf u = .finite d) :
    (d.signed : ℚ) * 2 ^ d.exponent = value u := by
  cases u with
  | notANumber => exact nomatch h
  | infinity s => exact nomatch h
  | zero s =>
      obtain rfl := Decimal.Shape.finite.inj h
      rw [signed_eq, cast_apply]
      simp [value]
  | finite s m e hm =>
      obtain rfl := Decimal.Shape.finite.inj h
      rw [signed_eq, cast_apply, mul_assoc]
      rfl

/-- **Rounding a number up to an integer is rounding its value up.** -/
theorem ceil_eq {x : Float} {d : Decimal.Dyadic} (h : Decimal.Shape.ofFloat x = .finite d) : d.ceil = ⌈valueOf x⌉ := by
  rw [shape_ofFloat] at h
  have hsigned : (({ d with negative := !d.negative } : Decimal.Dyadic).signed : ℚ) = -(d.signed : ℚ) := by
    unfold Decimal.Dyadic.signed
    cases d.negative <;> simp
  unfold Decimal.Dyadic.ceil valueOf
  rw [floor_eq, hsigned, neg_mul, signed_shapeOf h]
  rfl

end RegisterEvolution.Binary64
