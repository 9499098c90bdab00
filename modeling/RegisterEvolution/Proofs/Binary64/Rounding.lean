import RegisterEvolution.Proofs.Binary64.Order

/-!
# `Proofs.Binary64.Rounding` — products and differences within a bound

Shares and pool sizes are counts multiplied by a fraction. A product or difference is computed exactly and then
rounded, and rounding does not pass a bound that is itself an integer below `2 ^ 53`: below it every integer is a
binary64 number, and rounding is monotone. The bound is followed through the two shifts that rounding consists of.

* `Within` — finite parts of a magnitude that is at most a given integer;
* `roundWithAccuracy_within` — rounding stays within a bound, keeps the sign, and yields canonical parts;
* `mul_within`, `sub_within`, `ofNat_within` — products, differences, and integers.
-/

namespace RegisterEvolution.Binary64

open Float.Model Float.Model.UnpackedFloat

/-- Finite parts of a magnitude that is at most `n`. -/
def Within (n : Nat) : UnpackedFloat → Prop
  | .zero _ => True
  | .finite _ m e _ => e ≤ 0 ∧ m ≤ n * 2 ^ (-e).toNat
  | _ => False

/-- Finite parts with the given sign, zero apart. -/
def Signed (s : Sign) : UnpackedFloat → Prop
  | .zero _ => True
  | .finite t _ _ _ => t = s
  | _ => False

theorem Within.isFinite {n : Nat} {u : UnpackedFloat} (h : Within n u) : u.isFinite = true := by
  cases u with
  | notANumber => exact h.elim
  | infinity s => exact h.elim
  | zero s => rfl
  | finite s m e hm => rfl

/-! ## Shifting and rounding a mantissa -/

theorem shiftRight_succ (em : ExtendedMantissa) (k : Nat) : em >>> (k + 1) = (em >>> k).shiftRightOne := rfl

/-- A shifted mantissa is a quotient, and half a unit in the last place is only counted when it is there. -/
theorem shiftRight_bounds (m k : Nat) :
    ((⟨m, false, false⟩ : ExtendedMantissa) >>> k).mantissa = m / 2 ^ k ∧
      (2 * ((⟨m, false, false⟩ : ExtendedMantissa) >>> k).mantissa +
        ((⟨m, false, false⟩ : ExtendedMantissa) >>> k).roundBit.toNat) * 2 ^ k ≤ 2 * m := by
  induction k with
  | zero => exact ⟨(Nat.div_one m).symm, Nat.le_of_eq (by show (2 * m + 0) * 1 = 2 * m; omega)⟩
  | succ k ih =>
      obtain ⟨hquotient, hbound⟩ := ih
      rw [shiftRight_succ]
      constructor
      · show _ / 2 = _
        rw [hquotient, Nat.div_div_eq_div_mul, Nat.pow_succ]
      · generalize (⟨m, false, false⟩ : ExtendedMantissa) >>> k = em at hbound
        have hbit : (em.mantissa % 2 != 0).toNat = em.mantissa % 2 := by
          rcases Nat.mod_two_eq_zero_or_one em.mantissa with h | h <;> simp [h]
        show (2 * (em.mantissa / 2) + (em.mantissa % 2 != 0).toNat) * 2 ^ (k + 1) ≤ 2 * m
        rw [hbit, Nat.div_add_mod, Nat.pow_succ]
        -- the old round bit is dropped, and the bit that takes its place was counted twice before
        calc em.mantissa * (2 ^ k * 2) = 2 * em.mantissa * 2 ^ k := by
              rw [Nat.mul_comm (2 ^ k) 2, ← Nat.mul_assoc, Nat.mul_comm em.mantissa 2]
          _ ≤ (2 * em.mantissa + em.roundBit.toNat) * 2 ^ k := Nat.mul_le_mul_right _ (Nat.le_add_right _ _)
          _ ≤ 2 * m := hbound

theorem roundedMantissa_bounds (em : ExtendedMantissa) :
    em.mantissa ≤ em.roundedMantissa ∧ em.roundedMantissa ≤ em.mantissa + em.roundBit.toNat := by
  obtain ⟨m, roundBit, stickyBit⟩ := em
  cases roundBit with
  | false => cases stickyBit <;> exact ⟨Nat.le_refl m, Nat.le_refl m⟩
  | true =>
      cases stickyBit with
      | false =>
          show m ≤ m + m % 2 ∧ m + m % 2 ≤ m + 1
          omega
      | true => exact ⟨Nat.le_succ m, Nat.le_refl (m + 1)⟩

/-- The mantissa after a shift and rounding. -/
def shifted (m k : Nat) : Nat := ((⟨m, false, false⟩ : ExtendedMantissa) >>> k).roundedMantissa

theorem div_le_shifted (m k : Nat) : m / 2 ^ k ≤ shifted m k := by
  rw [← (shiftRight_bounds m k).1]
  exact (roundedMantissa_bounds _).1

theorem shifted_le_div (m k : Nat) : shifted m k ≤ m / 2 ^ k + 1 := by
  have hle := (roundedMantissa_bounds ((⟨m, false, false⟩ : ExtendedMantissa) >>> k)).2
  have hbit := Bool.toNat_le ((⟨m, false, false⟩ : ExtendedMantissa) >>> k).roundBit
  rw [(shiftRight_bounds m k).1] at hle
  unfold shifted
  omega

/-- **Rounding to integers does not pass an integer.** -/
theorem shifted_le {m k n : Nat} (h : m ≤ n * 2 ^ k) : shifted m k ≤ n := by
  have hle := (roundedMantissa_bounds ((⟨m, false, false⟩ : ExtendedMantissa) >>> k)).2
  have hbit := Bool.toNat_le ((⟨m, false, false⟩ : ExtendedMantissa) >>> k).roundBit
  have hbound : (2 * ((⟨m, false, false⟩ : ExtendedMantissa) >>> k).mantissa +
      ((⟨m, false, false⟩ : ExtendedMantissa) >>> k).roundBit.toNat) * 2 ^ k ≤ 2 * n * 2 ^ k :=
    calc _ ≤ 2 * m := (shiftRight_bounds m k).2
      _ ≤ 2 * (n * 2 ^ k) := Nat.mul_le_mul_left 2 h
      _ = 2 * n * 2 ^ k := (Nat.mul_assoc ..).symm
  have hhalf := Nat.le_of_mul_le_mul_right hbound (Nat.two_pow_pos k)
  unfold shifted
  omega

/-! ## Rounding to the format -/

theorem targetExponent_eq (t : Int) : format.targetExponent t = max (t - 53) (-1074) := by
  have hbits : (format.mantissaBits : Int) = 53 := by decide
  have hmin : format.minExponent = -1074 := by decide
  unfold Format.targetExponent
  rw [hbits, hmin]

/-- Whether parts can be rounded by dropping bits alone. -/
def Droppable (m : Nat) (e : Int) : Prop := e ≤ max ((m.log2 : Int) + 1 + e - 53) (-1074)

theorem shiftToTargetExponent_eq {m : Nat} {e : Int} :
    shiftToTargetExponent format m e .exact =
      (let k := (max ((m.log2 : Int) + 1 + e - 53) (-1074) - e).toNat
      ((⟨m, false, false⟩ : ExtendedMantissa) >>> k, e + k)) := by
  unfold shiftToTargetExponent shiftToExponent
  rw [targetExponent_eq]
  rfl

/-- A mantissa of at most fifty-three bits is not shifted again. -/
theorem shiftToTargetExponent_of_lt {m : Nat} {e : Int} (hm : m < 2 ^ 53) (he : -1074 ≤ e) :
    shiftToTargetExponent format m e .exact = (⟨m, false, false⟩, e) := by
  have hlog : m.log2 < 53 := by
    by_cases h0 : m = 0
    · rw [h0]
      decide
    · exact (Nat.log2_lt h0).mpr hm
  have hshift : (max ((m.log2 : Int) + 1 + e - 53) (-1074) - e).toNat = 0 := by omega
  rw [shiftToTargetExponent_eq, hshift]
  simp only [Int.natCast_zero, Int.add_zero]
  rfl

/-- A mantissa that rounding made too long is halved. -/
theorem shiftToTargetExponent_carry {e : Int} (he : -1074 ≤ e) :
    shiftToTargetExponent format (2 ^ 53) e .exact = (⟨2 ^ 52, false, false⟩, e + 1) := by
  have hlog : (2 ^ 53 : Nat).log2 = 53 := by decide
  have hshift : (max (((2 ^ 53 : Nat).log2 : Int) + 1 + e - 53) (-1074) - e).toNat = 1 := by
    rw [hlog]
    omega
  rw [shiftToTargetExponent_eq, hshift]
  rfl

/-- Rounding is one shift by the distance to the target exponent, and a second that takes up the carry of the first. -/
theorem roundWithAccuracy_eq {m k : Nat} {e : Int} (s : Sign)
    (hshift : (max ((m.log2 : Int) + 1 + e - 53) (-1074) - e).toNat = k) :
    roundWithAccuracy format s m e .exact =
      (let second := shiftToTargetExponent format (shifted m k) (e + k) .exact
      if h : second.1.mantissa = 0 then .zero s else .finite s second.1.mantissa second.2 (Nat.pos_of_ne_zero h)) := by
  unfold roundWithAccuracy
  rw [shiftToTargetExponent_eq, hshift]
  rfl

/-- The first shift leaves at most fifty-three bits, and exactly so many unless it stops at the least exponent. -/
theorem shifted_long {m k : Nat} {e : Int} (hm : m ≠ 0) (hk : max ((m.log2 : Int) + 1 + e - 53) (-1074) = e + k) :
    shifted m k ≤ 2 ^ 53 ∧ (2 ^ 52 ≤ shifted m k ∨ e + k = -1074) := by
  constructor
  · refine Nat.le_trans (shifted_le_div m k) (Nat.succ_le_of_lt ?_)
    rw [Nat.div_lt_iff_lt_mul (Nat.two_pow_pos k), ← Nat.pow_add]
    exact (Nat.log2_lt hm).mp (by omega)
  · by_cases hleast : e + k = -1074
    · exact .inr hleast
    · refine .inl (Nat.le_trans ?_ (div_le_shifted m k))
      rw [Nat.le_div_iff_mul_le (Nat.two_pow_pos k), ← Nat.pow_add]
      exact (Nat.le_log2 hm).mp (by omega)

/-- What the second shift leaves, from what the first one left. -/
theorem shiftToTargetExponent_within {s : Sign} {c n : Nat} {d : Int} (hmin : -1074 ≤ d) (hmax : d ≤ 0)
    (hn : n < 2 ^ 53) (hc : c ≤ 2 ^ 53) (hlong : 2 ^ 52 ≤ c ∨ d = -1074) (hbound : c ≤ n * 2 ^ (-d).toNat)
    {u : UnpackedFloat} (hu : u = (let second := shiftToTargetExponent format c d .exact
      if h : second.1.mantissa = 0 then .zero s else .finite s second.1.mantissa second.2 (Nat.pos_of_ne_zero h))) :
    Canonical u ∧ Within n u ∧ Signed s u := by
  subst hu
  by_cases hcarry : c = 2 ^ 53
  · -- the bound leaves room for the carry only below exponent zero
    have hneg : d ≤ -1 := by
      apply Classical.byContradiction
      intro hpos
      have h0 : (-d).toNat = 0 := by omega
      rw [h0, hcarry] at hbound
      omega
    rw [hcarry, shiftToTargetExponent_carry hmin]
    have hlt53 : (2 ^ 52 : Nat) < 2 ^ 53 := by decide
    refine ⟨⟨hlt53, Int.le_trans hmin (by omega), by omega, .inl (Nat.le_refl _)⟩, ⟨by omega, ?_⟩, rfl⟩
    have hstep : (-d).toNat = (-(d + 1)).toNat + 1 := by omega
    rw [hcarry, hstep, Nat.pow_succ 2 (-(d + 1)).toNat, ← Nat.mul_assoc] at hbound
    show 2 ^ 52 ≤ n * 2 ^ (-(d + 1)).toNat
    omega
  · rw [shiftToTargetExponent_of_lt (by omega) hmin]
    by_cases hzero : c = 0
    · simp only [hzero]
      exact ⟨trivial, trivial, trivial⟩
    · simp only [hzero, dite_false]
      exact ⟨⟨by omega, hmin, by omega, hlong⟩, ⟨hmax, hbound⟩, rfl⟩

/-- **A value below an integer of fifty-three bits stays below it when it is rounded.** -/
theorem roundWithAccuracy_within {s : Sign} {m n : Nat} {e : Int} (hm : 0 < m) (he : e ≤ 0) (hdrop : Droppable m e)
    (hn : n < 2 ^ 53) (h : m ≤ n * 2 ^ (-e).toNat) :
    Canonical (roundWithAccuracy format s m e .exact) ∧ Within n (roundWithAccuracy format s m e .exact) ∧
      Signed s (roundWithAccuracy format s m e .exact) := by
  have hm0 : m ≠ 0 := Nat.pos_iff_ne_zero.mp hm
  obtain ⟨k, hk⟩ : ∃ k : Nat, max ((m.log2 : Int) + 1 + e - 53) (-1074) = e + k :=
    ⟨(max ((m.log2 : Int) + 1 + e - 53) (-1074) - e).toNat, by unfold Droppable at hdrop; omega⟩
  have hshift : (max ((m.log2 : Int) + 1 + e - 53) (-1074) - e).toNat = k := by omega
  -- the target exponent is not positive, because the bound has at most fifty-three bits
  have hlog : m.log2 < 53 + (-e).toNat := by
    refine (Nat.log2_lt hm0).mpr (Nat.lt_of_le_of_lt h ?_)
    rw [Nat.pow_add]
    exact Nat.mul_lt_mul_of_pos_right hn (Nat.two_pow_pos _)
  have htarget : e + k ≤ 0 := by omega
  have hmin : -1074 ≤ e + k := by omega
  have hsplit : (-e).toNat = (-(e + k)).toNat + k := by omega
  have hbound : shifted m k ≤ n * 2 ^ (-(e + k)).toNat := by
    refine shifted_le ?_
    rw [Nat.mul_assoc, ← Nat.pow_add, ← hsplit]
    exact h
  obtain ⟨hlt, hlong⟩ := shifted_long hm0 hk
  exact shiftToTargetExponent_within hmin htarget hn hlt hlong hbound (roundWithAccuracy_eq s hshift)

/-! ## Products, differences, integers -/

theorem log2_shiftLeft {m : Nat} (hm : 0 < m) (k : Nat) : (m <<< k).log2 = m.log2 + k := by
  have hm0 : m ≠ 0 := Nat.pos_iff_ne_zero.mp hm
  have hpow := Nat.two_pow_pos k
  rw [Nat.shiftLeft_eq]
  refine (Nat.log2_eq_iff (Nat.mul_ne_zero hm0 (Nat.pos_iff_ne_zero.mp hpow))).mpr ⟨?_, ?_⟩
  · rw [Nat.pow_add]
    exact Nat.mul_le_mul_right _ (Nat.log2_self_le hm0)
  · rw [Nat.add_right_comm, Nat.pow_add]
    exact Nat.mul_lt_mul_of_pos_right Nat.lt_log2_self hpow

/-- Rounding lengthens the mantissa first where the format has room for more bits. -/
theorem round_eq {m : Nat} (hm : 0 < m) (s : Sign) (e : Int) : ∃ k : Nat,
    round format s m e = roundWithAccuracy format s (m <<< k) (e - k) .exact ∧ Droppable (m <<< k) (e - k) := by
  refine ⟨(e - format.targetExponent (totalExponent m e)).toNat, rfl, ?_⟩
  have htarget : format.targetExponent (totalExponent m e) = max ((m.log2 : Int) + 1 + e - 53) (-1074) :=
    targetExponent_eq _
  unfold Droppable
  rw [log2_shiftLeft hm, htarget]
  omega

theorem round_within {s : Sign} {m n : Nat} {e : Int} (hm : 0 < m) (he : e ≤ 0) (hn : n < 2 ^ 53)
    (h : m ≤ n * 2 ^ (-e).toNat) :
    Canonical (round format s m e) ∧ Within n (round format s m e) ∧ Signed s (round format s m e) := by
  obtain ⟨k, hround, hdrop⟩ := round_eq hm s e
  have hsplit : (-(e - k)).toNat = (-e).toNat + k := by omega
  rw [hround]
  refine roundWithAccuracy_within ?_ (by omega) hdrop hn ?_
  · rw [Nat.shiftLeft_eq]
    exact Nat.mul_pos hm (Nat.two_pow_pos k)
  · rw [hsplit, Nat.pow_add, ← Nat.mul_assoc, Nat.shiftLeft_eq]
    exact Nat.mul_le_mul_right _ h

theorem normalize_within {m : Int} {n : Nat} {e : Int} (s : Sign) (he : e ≤ 0) (hn : n < 2 ^ 53)
    (h : m.natAbs ≤ n * 2 ^ (-e).toNat) :
    Canonical (UnpackedFloat.normalize format m e s) ∧ Within n (UnpackedFloat.normalize format m e s) := by
  unfold UnpackedFloat.normalize
  rcases Int.lt_trichotomy m 0 with hm | rfl | hm
  · rw [Int.compare_eq_lt.mpr hm]
    have hround := round_within (s := .negative) (m := (-m).toNat) (by omega) he hn (by omega)
    exact ⟨hround.1, hround.2.1⟩
  · exact ⟨trivial, trivial⟩
  · rw [Int.compare_eq_gt.mpr hm]
    have hround := round_within (s := .positive) (m := m.toNat) (by omega) he hn (by omega)
    exact ⟨hround.1, hround.2.1⟩

/-- A product has fifty-three bits, unless both factors are at the least exponent. -/
theorem droppable_mul {s t : Sign} {m n : Nat} {d e : Int} {hm : 0 < m} {hn : 0 < n}
    (h : Canonical (.finite s m d hm)) (h' : Canonical (.finite t n e hn)) : Droppable (m * n) (d + e) := by
  have hlog : ∀ c, c ≤ m * n → 2 ^ 52 ≤ c → 52 ≤ (m * n).log2 := fun c hc hlong =>
    (Nat.le_log2 (Nat.mul_pos hm hn).ne').mpr (hlong.trans hc)
  unfold Droppable
  rcases h.2.2.2 with hlong | hleast
  · have := hlog m (Nat.le_mul_of_pos_right m hn) hlong
    omega
  · rcases h'.2.2.2 with hlong' | hleast'
    · have := hlog n (Nat.le_mul_of_pos_left n hm) hlong'
      omega
    · omega

/-- The bound of a product is the product of the bounds. -/
theorem mul_within {u v : UnpackedFloat} {s t : Sign} {k n : Nat} (hn : k * n < 2 ^ 53) (cu : Canonical u)
    (cv : Canonical v) (hu : Within k u) (hv : Within n v) (su : Signed s u) (sv : Signed t v) :
    Canonical (UnpackedFloat.mul format u v) ∧ Within (k * n) (UnpackedFloat.mul format u v) ∧
      Signed (s * t) (UnpackedFloat.mul format u v) := by
  obtain ⟨s', rfl⟩ | ⟨s', m, e, hm, rfl⟩ := zero_or_finite hu.isFinite
  · obtain ⟨t', rfl⟩ | ⟨t', m', e', hm', rfl⟩ := zero_or_finite hv.isFinite
    · exact ⟨trivial, trivial, trivial⟩
    · exact ⟨trivial, trivial, trivial⟩
  · obtain rfl : s' = s := su
    obtain ⟨t', rfl⟩ | ⟨t', m', e', hm', rfl⟩ := zero_or_finite hv.isFinite
    · exact ⟨trivial, trivial, trivial⟩
    · obtain rfl : t' = t := sv
      obtain ⟨he, hle⟩ := hu
      obtain ⟨he', hle'⟩ := hv
      have hpos : 0 < m * m' := Nat.mul_pos hm hm'
      have hsplit : (-(e + e')).toNat = (-e).toNat + (-e').toNat := by omega
      refine roundWithAccuracy_within hpos (by omega) (droppable_mul cu cv) hn ?_
      rw [hsplit, Nat.pow_add]
      calc m * m' ≤ k * 2 ^ (-e).toNat * (n * 2 ^ (-e').toNat) := Nat.mul_le_mul hle hle'
        _ = k * n * (2 ^ (-e).toNat * 2 ^ (-e').toNat) := Nat.mul_mul_mul_comm ..

/-- A difference of two numbers that are not negative is not larger than the larger one. -/
theorem sub_within {u v : UnpackedFloat} {n : Nat} (hn : n < 2 ^ 53) (cu : Canonical u) (cv : Canonical v)
    (hu : Within n u) (hv : Within n v) (su : Signed .positive u) (sv : Signed .positive v) :
    Canonical (UnpackedFloat.sub format u v) ∧ (UnpackedFloat.sub format u v).isFinite = true := by
  obtain ⟨s, rfl⟩ | ⟨s, m, e, hm, rfl⟩ := zero_or_finite hu.isFinite
  · obtain ⟨t, rfl⟩ | ⟨t, m', e', hm', rfl⟩ := zero_or_finite hv.isFinite
    · cases s <;> cases t <;> exact ⟨trivial, rfl⟩
    · exact ⟨cv, rfl⟩
  · obtain rfl : s = .positive := su
    obtain ⟨t, rfl⟩ | ⟨t, m', e', hm', rfl⟩ := zero_or_finite hv.isFinite
    · exact ⟨cu, rfl⟩
    · obtain rfl : t = .positive := sv
      obtain ⟨he, hle⟩ := hu
      obtain ⟨he', hle'⟩ := hv
      -- both mantissas are brought to the smaller exponent, and stay below the bound there
      have hscaled : ∀ {a : Nat} {d : Int}, min e e' ≤ d → d ≤ 0 → a ≤ n * 2 ^ (-d).toNat →
          a <<< (d - min e e').toNat ≤ n * 2 ^ (-(min e e')).toNat := by
        intro a d hd hd0 ha
        have hsplit : (-(min e e')).toNat = (-d).toNat + (d - min e e').toNat := by omega
        rw [hsplit, Nat.pow_add, ← Nat.mul_assoc, Nat.shiftLeft_eq]
        exact Nat.mul_le_mul_right _ ha
      have hleft := hscaled (Int.min_le_left e e') he hle
      have hright := hscaled (Int.min_le_right e e') he' hle'
      have hdiff : ∀ {a b c : Nat}, a ≤ c → b ≤ c → ((a : Int) - (b : Int)).natAbs ≤ c := by
        intro a b c ha hb
        omega
      have hnormalize := normalize_within .positive (Int.le_trans (Int.min_le_left e e') he) hn
        (hdiff hleft hright)
      exact ⟨hnormalize.1, hnormalize.2.isFinite⟩

/-- An integer below `2 ^ 53` is not more than itself. -/
theorem ofNat_within {n : Nat} (hn : n < 2 ^ 53) :
    Canonical (UnpackedFloat.ofNat format n) ∧ Within n (UnpackedFloat.ofNat format n) ∧
      Signed .positive (UnpackedFloat.ofNat format n) := by
  unfold UnpackedFloat.ofNat UnpackedFloat.ofInt UnpackedFloat.normalize
  rcases Nat.eq_zero_or_pos n with rfl | hpos
  · exact ⟨trivial, trivial, trivial⟩
  · rw [Int.compare_eq_gt.mpr (by omega)]
    exact round_within hpos (Int.le_refl 0) hn (by simp)

end RegisterEvolution.Binary64
