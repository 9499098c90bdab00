import RegisterEvolution.Proofs.Settings.Accepted

/-!
# `Proofs.Settings.Interval` — the interval that constants are drawn from

Constants are drawn between the range that is set and its negative. Accepted settings make this an interval of finite
numbers that is not empty, also where the range is written as an integer of any size that still has a nearest number.

* `signed_unpack_pack`, `level_ofNat_nonneg` — the nearest number of an integer without a sign has none either;
* `ProgramSettings.constantRange_of_shape` — the interval of a shape that accepted settings describe.
-/

namespace RegisterEvolution

namespace Binary64

open Float.Model Float.Model.UnpackedFloat

/-! ## Signs that rounding and packing keep -/

theorem roundWithAccuracy_signed (s : Sign) (m : Nat) (e : Int) (a : UnpackedFloat.Accuracy) :
    Signed s (roundWithAccuracy format s m e a) := by
  unfold roundWithAccuracy
  simp only
  split
  · exact trivial
  · exact rfl

theorem mul_finite_signed {s t : Sign} {m n : Nat} {e d : Int} {hm : 0 < m} {hn : 0 < n} :
    Signed (s * t) (UnpackedFloat.mul format (.finite s m e hm) (.finite t n d hn)) := by
  unfold UnpackedFloat.mul
  exact roundWithAccuracy_signed (s * t) (m * n) (e + d) .exact

/-- What is unpacked has the sign that has been packed up, whatever the exponent and the mantissa come to. -/
theorem signed_unpack_packComponents (s : Sign) (e : BitVec 11) (m : BitVec 52)
    (h : (UnpackedFloat.unpack format (packComponents format s e m)).isFinite = true) :
    Signed s (UnpackedFloat.unpack format (packComponents format s e m)) := by
  revert h
  unfold UnpackedFloat.unpack
  simp only [unpackMantissa_packComponents, unpackExponent_packComponents, unpackSign_packComponents,
    Sign.ofBitVec_toBitVec]
  intro h
  split
  · rename_i htop
    rw [if_pos htop] at h
    split at h <;> exact absurd h Bool.false_ne_true
  · split
    · split
      · exact trivial
      · exact rfl
    · exact rfl

/-- Also parts that do not fit the format keep their sign, as long as they do not become infinite. -/
theorem signed_unpack_pack {s : Sign} {u : UnpackedFloat} (hu : Signed s u)
    (h : (UnpackedFloat.unpack format (UnpackedFloat.pack format u)).isFinite = true) :
    Signed s (UnpackedFloat.unpack format (UnpackedFloat.pack format u)) := by
  cases u with
  | notANumber => exact hu.elim
  | infinity t => exact hu.elim
  | zero t =>
      rw [unpack_pack (u := .zero t) trivial]
      exact trivial
  | finite t m e hm =>
      obtain rfl : t = s := hu
      unfold UnpackedFloat.pack at h ⊢
      simp only at h ⊢
      split at h
      · rename_i hlarge
        rw [if_pos hlarge]
        exact signed_unpack_packComponents t _ _ h
      · rename_i hlarge
        rw [if_neg hlarge]
        split at h
        · rename_i hnormal
          rw [if_pos hnormal]
          exact signed_unpack_packComponents t _ _ h
        · rename_i hnormal
          rw [if_neg hnormal]
          exact signed_unpack_packComponents t _ _ h

theorem level_nonneg_of_signed {u : UnpackedFloat} (cu : Canonical u) (hu : Signed .positive u) : 0 ≤ level u := by
  cases u with
  | notANumber => exact Int.le_refl 0
  | infinity s => exact Int.le_refl 0
  | zero s => exact Int.le_refl 0
  | finite s m e hm =>
      obtain rfl : s = .positive := hu
      exact Int.le_of_lt (level_pos cu.2.1)

/-- **The nearest number of an integer without a sign is not below zero.** Integers below `2 ^ 53` are converted exactly
    and all others are rounded. -/
theorem level_ofNat_nonneg {n : Nat} (h : (Decimal.ofNat n).isFinite = true) : 0 ≤ levelOf (Decimal.ofNat n) := by
  refine level_nonneg_of_signed (canonical_toModel _) ?_
  by_cases hsmall : n < 2 ^ 53
  · exact (atMost_ofNat hsmall).signed
  · have hofNat : Decimal.ofNat n = Float.ofModel (Float.Model.pack (UnpackedFloat.ofScientific format n 0)) := by
      unfold Decimal.ofNat Float.ofScientific
      rw [dif_neg fun hfast => hsmall hfast.1]
      rfl
    have hsigned : Signed .positive (UnpackedFloat.ofScientific format n 0) := by
      have hlog : (0 : Int) ≤ (n.log2 : Int) := Int.natCast_nonneg _
      unfold UnpackedFloat.ofScientific
      rw [dif_neg (by omega), if_neg (by decide), if_neg (by show ¬ (0 : Int) < -(2 ^ 11 + (n.log2 : Int)); omega),
        if_pos (Int.le_refl 0)]
      exact mul_finite_signed (s := .positive) (t := .positive)
    rw [hofNat] at h ⊢
    exact signed_unpack_pack hsigned h

end Binary64

/-! ## The range of accepted settings -/

open Binary64

namespace Check

/-- A positive value stands for a finite number that is not below zero. -/
theorem positive_finite {v : Value} (h : positive v = .ok ()) {x : Float} (hx : v.toReal = .ok x) :
    x.isFinite = true ∧ 0 ≤ levelOf x := by
  unfold positive at h
  split at h
  · rename_i b
    cases b with
    | false => cases h
    | true =>
        obtain rfl : (1.0 : Float) = x := Except.ok.inj hx
        decide
  · rename_i n
    split at h
    · cases h
    · split at h
      · rename_i hpos
        -- the sign of the integer plays no part, because it is positive
        simp only [Value.toReal, Value.toNumber, Decimal.ofInt?] at hx
        split at hx
        · rename_i y hy
          obtain rfl := Except.ok.inj hx
          split at hy
          · rename_i hfinite
            rw [if_neg (by omega)] at hy
            obtain rfl := Option.some.inj hy
            exact ⟨hfinite, level_ofNat_nonneg hfinite⟩
          · cases hy
        · cases hx
      · cases h
  · rename_i y
    split at h
    · rename_i hrange
      obtain rfl : y = x := Except.ok.inj hx
      have hzero : (0.0 : Float).isFinite = true := by decide
      have hlevel : levelOf 0.0 = 0 := by decide
      have hlt := (lt_iff_level hzero hrange.1).mp hrange.2
      rw [hlevel] at hlt
      exact ⟨hrange.1, Int.le_of_lt hlt⟩
    · cases h
  · cases h

end Check

/-- **The interval of constants** is one of finite numbers, and it is not empty. -/
theorem ProgramSettings.constantRange_of_shape {p : ProgramSettings} {shape : Shape} (hvalid : p.validate = .ok ())
    (hshape : p.shape = .ok shape) :
    (-shape.constantRange).isFinite = true ∧ shape.constantRange.isFinite = true ∧
      -shape.constantRange ≤ shape.constantRange := by
  obtain ⟨x, hx, rfl⟩ : ∃ x, p.constantRange.toReal = .ok x ∧ shape.constantRange = x := by
    unfold ProgramSettings.shape at hshape
    obtain ⟨_, -, hshape⟩ := except_bind_eq_ok.mp hshape
    obtain ⟨_, -, hshape⟩ := except_bind_eq_ok.mp hshape
    obtain ⟨_, -, hshape⟩ := except_bind_eq_ok.mp hshape
    obtain ⟨_, -, hshape⟩ := except_bind_eq_ok.mp hshape
    obtain ⟨_, -, hshape⟩ := except_bind_eq_ok.mp hshape
    obtain ⟨_, -, hshape⟩ := except_bind_eq_ok.mp hshape
    obtain ⟨_, -, hshape⟩ := except_bind_eq_ok.mp hshape
    obtain ⟨x, hx, hshape⟩ := except_bind_eq_ok.mp hshape
    obtain rfl := Except.ok.inj hshape
    exact ⟨x, hx, rfl⟩
  obtain ⟨hfinite, hlevel⟩ := Check.positive_finite (checked_of_validate hvalid).range hx
  have hneg := isFinite_neg hfinite
  refine ⟨hneg, hfinite, (le_iff_level hneg hfinite).mpr ?_⟩
  rw [level_neg]
  omega

end RegisterEvolution
