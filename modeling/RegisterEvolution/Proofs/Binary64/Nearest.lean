import RegisterEvolution.Proofs.Binary64.Rounding
import RegisterEvolution.Proofs.Binary64.Value

/-!
# `Proofs.Binary64.Nearest` — magnitudes are rounded in their order

The bits that are dropped when a magnitude is rounded decide to which neighbour, so rounding a mantissa is division
with the quotient rounded to the nearest integer. A larger magnitude is therefore not rounded to a smaller one, and what
does not reach half a unit above the largest finite number stays finite.

* `shifted_eq`, `shifted_mono` — rounding of mantissas;
* `nearest`, `nearest_mono` — rounding of magnitudes, the exponent being unlimited;
* `roundWithAccuracy_cases`, `value_roundWithAccuracy` — what rounding makes of parts, and its value;
* `canonical_of_lt` — what is rounded to a finite number.
-/

namespace RegisterEvolution.Binary64

open Float.Model Float.Model.UnpackedFloat

/-! ## Mantissas -/

/-- What the two bits beside a shifted mantissa say about the bits that have been dropped. -/
theorem shiftRight_bits (m k : Nat) :
    (((⟨m, false, false⟩ : ExtendedMantissa) >>> k).roundBit = true ↔ 2 ^ k ≤ 2 * (m % 2 ^ k)) ∧
      (((⟨m, false, false⟩ : ExtendedMantissa) >>> k).stickyBit = true ↔ 2 * (m % 2 ^ k) % 2 ^ k ≠ 0) := by
  induction k with
  | zero =>
      refine ⟨⟨fun h => absurd h Bool.false_ne_true, ?_⟩, ⟨fun h => absurd h Bool.false_ne_true, ?_⟩⟩
      · simp [Nat.mod_one]
      · simp [Nat.mod_one]
  | succ k ih =>
      obtain ⟨hround, hsticky⟩ := ih
      have hquotient := (shiftRight_bounds m k).1
      have hlt := Nat.mod_lt m (Nat.two_pow_pos k)
      have hbit := Nat.mod_two_eq_zero_or_one (m / 2 ^ k)
      have hmod : m % 2 ^ (k + 1) = m % 2 ^ k + 2 ^ k * (m / 2 ^ k % 2) := by rw [Nat.pow_succ, Nat.mod_mul]
      rw [shiftRight_succ]
      generalize (⟨m, false, false⟩ : ExtendedMantissa) >>> k = em at *
      constructor
      · -- the new round bit is the last bit of the quotient
        show (em.mantissa % 2 != 0) = true ↔ _
        rw [hquotient, hmod, Nat.pow_succ]
        rcases hbit with h | h
        · simp [h]
          omega
        · simp [h]
          omega
      · -- the new sticky bit says whether anything has been dropped before
        show (em.roundBit || em.stickyBit) = true ↔ _
        have hrest : 2 * (m % 2 ^ (k + 1)) % 2 ^ (k + 1) = 2 * (m % 2 ^ k) := by
          rw [hmod, Nat.pow_succ, Nat.mul_comm (2 ^ k) 2, Nat.mul_mod_mul_left, Nat.add_mul_mod_self_left,
            Nat.mod_eq_of_lt hlt]
        rw [Bool.or_eq_true, hround, hsticky, hrest]
        constructor
        · rintro (h | h)
          · have hpos := Nat.two_pow_pos k
            omega
          · intro hzero
            rw [hzero] at h
            exact h (Nat.zero_mod _)
        · intro h
          by_cases hle : 2 ^ k ≤ 2 * (m % 2 ^ k)
          · exact .inl hle
          · exact .inr (by rwa [Nat.mod_eq_of_lt (by omega)])

/-- **The mantissa after a shift and rounding** is the nearest integer to the quotient, and the even one of two. -/
theorem shifted_eq (m k : Nat) : shifted m k =
    if 2 * (m % 2 ^ k) < 2 ^ k then m / 2 ^ k
    else if 2 * (m % 2 ^ k) = 2 ^ k then m / 2 ^ k + m / 2 ^ k % 2
    else m / 2 ^ k + 1 := by
  obtain ⟨hround, hsticky⟩ := shiftRight_bits m k
  have hquotient := (shiftRight_bounds m k).1
  have hlt := Nat.mod_lt m (Nat.two_pow_pos k)
  unfold shifted
  generalize (⟨m, false, false⟩ : ExtendedMantissa) >>> k = em at *
  obtain ⟨c, roundBit, stickyBit⟩ := em
  simp only at hround hsticky hquotient
  subst hquotient
  cases roundBit with
  | false =>
      have hless : 2 * (m % 2 ^ k) < 2 ^ k := Nat.lt_of_not_le fun h => Bool.false_ne_true (hround.mpr h)
      rw [if_pos hless]
      cases stickyBit <;> rfl
  | true =>
      have hle := hround.mp rfl
      have hrest : 2 * (m % 2 ^ k) % 2 ^ k = 2 * (m % 2 ^ k) - 2 ^ k := by
        rw [Nat.mod_eq_sub_mod hle, Nat.mod_eq_of_lt (by omega)]
      rw [if_neg (by omega)]
      cases stickyBit with
      | false =>
          have hnone : ¬ 2 * (m % 2 ^ k) % 2 ^ k ≠ 0 := fun h => Bool.false_ne_true (hsticky.mpr h)
          rw [if_pos (by omega)]
          rfl
      | true =>
          have hsome := hsticky.mp rfl
          rw [if_neg (by omega)]
          rfl

/-- Zeros behind a mantissa and as many places more make no difference. -/
theorem shifted_mul_two_pow (m k j : Nat) : shifted (m * 2 ^ j) (k + j) = shifted m k := by
  have hpos := Nat.two_pow_pos j
  have hquotient : m * 2 ^ j / 2 ^ (k + j) = m / 2 ^ k := by
    rw [Nat.pow_add, Nat.mul_div_mul_right _ _ hpos]
  have hrest : 2 * (m * 2 ^ j % 2 ^ (k + j)) = 2 * (m % 2 ^ k) * 2 ^ j := by
    rw [Nat.pow_add, Nat.mul_mod_mul_right, Nat.mul_assoc]
  have hlt : 2 * (m % 2 ^ k) * 2 ^ j < 2 ^ k * 2 ^ j ↔ 2 * (m % 2 ^ k) < 2 ^ k := Nat.mul_lt_mul_right hpos
  have heq : 2 * (m % 2 ^ k) * 2 ^ j = 2 ^ k * 2 ^ j ↔ 2 * (m % 2 ^ k) = 2 ^ k := Nat.mul_left_inj hpos.ne'
  rw [shifted_eq, shifted_eq, hquotient, hrest, Nat.pow_add]
  simp only [hlt, heq]

theorem shifted_mono_left {m n : Nat} (h : m ≤ n) (k : Nat) : shifted m k ≤ shifted n k := by
  rcases (Nat.div_le_div_right h : m / 2 ^ k ≤ n / 2 ^ k).eq_or_lt with hsame | hless
  · -- with the same quotient, the larger mantissa has the larger rest
    have hrest : m % 2 ^ k ≤ n % 2 ^ k := by
      have hm := Nat.div_add_mod m (2 ^ k)
      have hn := Nat.div_add_mod n (2 ^ k)
      rw [hsame] at hm
      omega
    rw [shifted_eq, shifted_eq, hsame]
    split_ifs <;> omega
  · calc shifted m k ≤ m / 2 ^ k + 1 := shifted_le_div m k
      _ ≤ n / 2 ^ k := hless
      _ ≤ shifted n k := div_le_shifted n k

/-- **A larger quotient is not rounded to a smaller integer.** -/
theorem shifted_mono {m n j k : Nat} (h : m * 2 ^ k ≤ n * 2 ^ j) : shifted m j ≤ shifted n k := by
  calc shifted m j = shifted (m * 2 ^ k) (j + k) := (shifted_mul_two_pow m j k).symm
    _ ≤ shifted (n * 2 ^ j) (j + k) := shifted_mono_left h _
    _ = shifted n k := by rw [Nat.add_comm j k, shifted_mul_two_pow]

/-! ## Magnitudes -/

/-- The exponent of the last place that is kept of a magnitude. -/
def lastPlace (m : Nat) (e : Int) : Int := max ((m.log2 : Int) + 1 + e - 53) (-1074)

/-- The magnitude that a magnitude is rounded to, the exponent being unlimited. -/
def nearest (m : Nat) (e : Int) : ℚ := shifted m (lastPlace m e - e).toNat * 2 ^ lastPlace m e

theorem Droppable.exists_shift {m : Nat} {e : Int} (h : Droppable m e) : ∃ k : Nat, lastPlace m e = e + k :=
  ⟨(lastPlace m e - e).toNat, by unfold Droppable at h; unfold lastPlace; omega⟩

theorem nearest_eq {m k : Nat} {e : Int} (hk : lastPlace m e = e + k) :
    nearest m e = shifted m k * 2 ^ lastPlace m e := by
  unfold nearest
  rw [show (lastPlace m e - e).toNat = k by omega]

theorem nearest_nonneg (m : Nat) (e : Int) : 0 ≤ nearest m e :=
  mul_nonneg (Nat.cast_nonneg _) (zpow_pos_two _).le

section Magnitudes

variable {m n : Nat} {d e : Int}

theorem two_zpow_log2_le (hm : 0 < m) : (2 : ℚ) ^ ((m.log2 : Int) + e) ≤ m * 2 ^ e := by
  rw [zpow_add₀ (by norm_num), zpow_natCast]
  refine mul_le_mul_of_nonneg_right ?_ (zpow_pos_two e).le
  exact_mod_cast Nat.log2_self_le hm.ne'

theorem lt_two_zpow_log2 (m : Nat) (e : Int) : (m : ℚ) * 2 ^ e < 2 ^ ((m.log2 : Int) + 1 + e) := by
  rw [zpow_add₀ (by norm_num)]
  refine mul_lt_mul_of_pos_right ?_ (zpow_pos_two e)
  exact_mod_cast Nat.lt_log2_self

/-- The first places of magnitudes are in their order. -/
theorem log2_add_le (hm : 0 < m) (h : (m : ℚ) * 2 ^ d ≤ n * 2 ^ e) : (m.log2 : Int) + d ≤ n.log2 + e := by
  have hlt : (2 : ℚ) ^ ((m.log2 : Int) + d) < 2 ^ ((n.log2 : Int) + 1 + e) :=
    (two_zpow_log2_le hm).trans_lt (h.trans_lt (lt_two_zpow_log2 n e))
  have := (zpow_lt_zpow_iff_right₀ (by norm_num)).mp hlt
  omega

/-- **A larger magnitude is not rounded to a smaller one.** -/
theorem nearest_mono (hm : 0 < m) (hn : 0 < n) (hd : Droppable m d) (he : Droppable n e)
    (h : (m : ℚ) * 2 ^ d ≤ n * 2 ^ e) : nearest m d ≤ nearest n e := by
  obtain ⟨j, hj⟩ := hd.exists_shift
  obtain ⟨k, hk⟩ := he.exists_shift
  have hplaces : lastPlace m d ≤ lastPlace n e := by
    have := log2_add_le hm h
    unfold lastPlace
    omega
  rw [nearest_eq hj, nearest_eq hk]
  rcases hplaces.eq_or_lt with hsame | hless
  · -- with the same last place, the mantissas are rounded in their order
    rw [hsame]
    refine mul_le_mul_of_nonneg_right ?_ (zpow_pos_two _).le
    refine Nat.cast_le.mpr (shifted_mono ?_)
    have hscaled := mul_le_mul_of_nonneg_right h (zpow_pos_two (j + k - lastPlace n e)).le
    rw [mul_assoc, mul_assoc, ← zpow_add₀ (by norm_num), ← zpow_add₀ (by norm_num),
      show d + (j + k - lastPlace n e) = (k : Int) by omega, show e + (j + k - lastPlace n e) = (j : Int) by omega,
      zpow_natCast, zpow_natCast] at hscaled
    exact_mod_cast hscaled
  · -- otherwise the smaller one is below all that the larger one may be rounded to
    have hshort := (shifted_long hm.ne' hj).1
    have hlong : 2 ^ 52 ≤ shifted n k := by
      refine (shifted_long hn.ne' hk).2.resolve_right fun hleast => ?_
      unfold lastPlace at *
      omega
    refine mul_zpow_le_mul_zpow hless.le ?_
    have hpow : 2 ^ 1 ≤ 2 ^ (lastPlace n e - lastPlace m d).toNat := Nat.pow_le_pow_right (by decide) (by omega)
    calc shifted m j ≤ 2 ^ 52 * 2 ^ 1 := by omega
      _ ≤ shifted n k * 2 ^ (lastPlace n e - lastPlace m d).toNat := Nat.mul_le_mul hlong hpow

/-- What rounding makes of parts: a mantissa that is too long by one bit is halved. -/
theorem roundWithAccuracy_cases {k : Nat} (s : Sign) (hm : 0 < m) (hk : lastPlace m e = e + k) :
    (shifted m k = 0 ∧ roundWithAccuracy format s m e .exact = .zero s) ∨
      (∃ hc : 0 < shifted m k, shifted m k < 2 ^ 53 ∧ (2 ^ 52 ≤ shifted m k ∨ lastPlace m e = -1074) ∧
        roundWithAccuracy format s m e .exact = .finite s (shifted m k) (lastPlace m e) hc) ∨
      (shifted m k = 2 ^ 53 ∧
        roundWithAccuracy format s m e .exact = .finite s (2 ^ 52) (lastPlace m e + 1) (by decide)) := by
  have hshift : (lastPlace m e - e).toNat = k := by omega
  have hmin : -1074 ≤ lastPlace m e := le_max_right _ _
  obtain ⟨hle, hlong⟩ := shifted_long hm.ne' hk
  rw [roundWithAccuracy_eq s hshift, ← hk]
  rw [← hk] at hlong
  by_cases hcarry : shifted m k = 2 ^ 53
  · refine .inr (.inr ⟨hcarry, ?_⟩)
    rw [hcarry, shiftToTargetExponent_carry hmin]
    rfl
  · rw [shiftToTargetExponent_of_lt (by omega) hmin]
    by_cases hzero : shifted m k = 0
    · exact .inl ⟨hzero, by simp [hzero]⟩
    · exact .inr (.inl ⟨by omega, by omega, hlong, by simp [hzero]⟩)

/-- **The value of rounded parts** is the nearest magnitude with the sign. -/
theorem value_roundWithAccuracy (s : Sign) (hm : 0 < m) (hdrop : Droppable m e) :
    value (roundWithAccuracy format s m e .exact) = unit s * nearest m e := by
  obtain ⟨k, hk⟩ := hdrop.exists_shift
  rw [nearest_eq hk]
  rcases roundWithAccuracy_cases s hm hk with ⟨hzero, heq⟩ | ⟨hc, -, -, heq⟩ | ⟨hcarry, heq⟩
  · rw [heq, hzero, Nat.cast_zero, zero_mul, mul_zero]
    rfl
  · rw [heq]
    rfl
  · rw [heq, hcarry]
    show unit s * (((2 ^ 52 : ℕ) : ℚ) * 2 ^ (lastPlace m e + 1)) = _
    rw [zpow_add_one₀ (by norm_num)]
    push_cast
    ring

/-- Half a unit of the last place above the largest finite number. -/
def overflow : ℚ := (2 ^ 54 - 1) * 2 ^ (970 : Int)

theorem greatest_add_half : greatest + 2 ^ (970 : Int) = overflow := by
  unfold greatest overflow
  rw [zpow_ofNat, pow_succ (2 : ℚ) 970]
  generalize (2 : ℚ) ^ 970 = t
  ring

theorem greatest_add_one_lt : greatest + 1 < overflow := by
  rw [← greatest_add_half]
  exact add_lt_add_right (one_lt_zpow₀ (by norm_num) (by norm_num)) greatest

theorem overflow_lt : overflow < 2 ^ (1024 : Int) := by
  have hsplit : (2 : ℚ) ^ (1024 : Int) = 2 ^ 54 * 2 ^ (970 : Int) := by
    rw [← zpow_natCast, ← zpow_add₀ (by norm_num)]
    rfl
  rw [hsplit]
  exact mul_lt_mul_of_pos_right (by norm_num) (zpow_pos_two 970)

theorem shifted_le_of_lt {k c : Nat} (h : 2 * m < (2 * c + 1) * 2 ^ k) : shifted m k ≤ c := by
  have hsplit := Nat.div_add_mod m (2 ^ k)
  have hpos := Nat.two_pow_pos k
  have hquotient : m / 2 ^ k ≤ c := by
    refine Nat.le_of_lt_succ ((Nat.div_lt_iff_lt_mul hpos).mpr ?_)
    nlinarith
  rcases hquotient.eq_or_lt with hsame | hless
  · have hrest : 2 * (m % 2 ^ k) < 2 ^ k := by
      rw [hsame] at hsplit
      nlinarith
    rw [shifted_eq, if_pos hrest, hsame]
  · exact (shifted_le_div m k).trans hless

/-- **Nothing below half a unit above the largest finite number is rounded beyond it.** -/
theorem canonical_of_lt (s : Sign) (hm : 0 < m) (hdrop : Droppable m e) (h : (m : ℚ) * 2 ^ e < overflow) :
    Canonical (roundWithAccuracy format s m e .exact) := by
  obtain ⟨k, hk⟩ := hdrop.exists_shift
  have hmin : -1074 ≤ lastPlace m e := le_max_right _ _
  have hplace : lastPlace m e ≤ 971 := by
    have hlt : (2 : ℚ) ^ ((m.log2 : Int) + e) < 2 ^ (1024 : Int) :=
      (two_zpow_log2_le hm).trans_lt (h.trans overflow_lt)
    have := (zpow_lt_zpow_iff_right₀ (by norm_num)).mp hlt
    unfold lastPlace
    omega
  rcases roundWithAccuracy_cases s hm hk with ⟨hzero, heq⟩ | ⟨hc, hlt, hlong, heq⟩ | ⟨hcarry, heq⟩
  · rw [heq]
    trivial
  · rw [heq]
    exact ⟨hlt, hmin, hplace, hlong⟩
  · rw [heq]
    refine ⟨by decide, by omega, ?_, .inl (Nat.le_refl _)⟩
    -- at the last exponent, there is no mantissa below the bound that is rounded to one of too many bits
    rcases hplace.eq_or_lt with hlast | hless
    · exfalso
      have hexponent : e = 971 - k := by omega
      have hsplit : (2 : ℚ) ^ e * 2 ^ k = 2 * 2 ^ (970 : Int) := by
        rw [hexponent, ← zpow_natCast, ← zpow_add₀ (by norm_num), mul_comm, ← zpow_add_one₀ (by norm_num)]
        congr 1
        omega
      have hscaled := mul_lt_mul_of_pos_right h (pow_pos (two_pos : (0 : ℚ) < 2) k)
      have hbound : (m : ℚ) * 2 < (2 ^ 54 - 1) * 2 ^ k := by
        refine lt_of_mul_lt_mul_right ?_ (zpow_pos_two 970).le
        calc (m : ℚ) * 2 * 2 ^ (970 : Int) = m * 2 ^ e * 2 ^ k := by rw [mul_assoc, mul_assoc, hsplit]
          _ < overflow * 2 ^ k := hscaled
          _ = (2 ^ 54 - 1) * 2 ^ k * 2 ^ (970 : Int) := by unfold overflow; ring
      have hcast : 2 * m < (2 * 9007199254740991 + 1) * 2 ^ k := by
        have hnumeral : (2 ^ 54 - 1 : ℚ) = ((2 * 9007199254740991 + 1 : ℕ) : ℚ) := by norm_num
        rw [hnumeral, mul_comm] at hbound
        exact_mod_cast hbound
      have := shifted_le_of_lt hcast
      omega
    · omega

/-- A canonical mantissa keeps all its places. -/
theorem nearest_of_canonical {s : Sign} {hm : 0 < m} (h : Canonical (.finite s m e hm)) :
    Droppable m e ∧ nearest m e = m * 2 ^ e := by
  obtain ⟨hlt, hmin, -, hform⟩ := h
  have hlog := (Nat.log2_lt hm.ne').mpr hlt
  have hplace : lastPlace m e = e + (0 : Nat) := by
    unfold lastPlace
    rcases hform with hlong | hleast
    · rw [log2_eq hlong hlt]
      omega
    · omega
  refine ⟨?_, ?_⟩
  · unfold Droppable
    unfold lastPlace at hplace
    omega
  · rw [nearest_eq hplace, hplace, Int.natCast_zero, Int.add_zero]
    rfl

end Magnitudes

end RegisterEvolution.Binary64
