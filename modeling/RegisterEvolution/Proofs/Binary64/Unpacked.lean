import Mathlib
import RegisterEvolution.Decimal.Binary

/-!
# `Proofs.Binary64.Unpacked` — binary64 numbers and their parts

A `Float` is a bit pattern, and its operations work on the sign, mantissa and exponent that the pattern stands for.
This module says what these parts can be, and that packing them up loses nothing.

* `Canonical` — the parts that unpacking yields;
* `unpack_pack` — packing canonical parts up and unpacking them again;
* `shapeOf`, `shape_ofFloat` — the exact form that printing and rounding start from, read off the parts.
-/

namespace RegisterEvolution.Binary64

open Float.Model Float.Model.UnpackedFloat

/-- The format of a `Float`. -/
abbrev format : Format := Format.binary64

theorem bias_eq : (format.exponentBias : Int) + format.mantissaBitsWithoutImplicit = 1075 := by decide

/-! ## Bit fields -/

theorem toNat_unpackMantissa (b : BitVec 64) : (@unpackMantissa format b).toNat = b.toNat % 2 ^ 52 := by
  simp [unpackMantissa, Nat.shiftRight_zero]

theorem toNat_unpackExponent (b : BitVec 64) :
    (@unpackExponent format b).toNat = b.toNat / 2 ^ 52 % 2 ^ 11 := by
  simp [unpackExponent, Nat.shiftRight_eq_div_pow]

theorem toNat_unpackSign (b : BitVec 64) : (@unpackSign format b).toNat = b.toNat / 2 ^ 63 % 2 := by
  simp [unpackSign, Nat.shiftRight_eq_div_pow]

/-- The mantissa field with the implicit bit in front. -/
theorem toNat_one_append (v : BitVec 52) : (1#1 ++ v).toNat = 2 ^ 52 + v.toNat := by
  have h := Nat.two_pow_add_eq_or_of_lt v.isLt 1
  rw [BitVec.toNat_append]
  show 2 ^ 52 * 1 ||| v.toNat = _
  rw [← h, Nat.mul_one]

/-! ## Canonical parts -/

/-- Parts as unpacking yields them: a mantissa of fifty-three bits, shorter only at the least exponent. -/
def Canonical : UnpackedFloat → Prop
  | .finite _ m e _ => m < 2 ^ 53 ∧ -1074 ≤ e ∧ e ≤ 971 ∧ (2 ^ 52 ≤ m ∨ e = -1074)
  | _ => True

theorem canonical_unpack (b : BitVec 64) : Canonical (UnpackedFloat.unpack format b) := by
  have hexponent := toNat_unpackExponent b
  have hmantissa := toNat_unpackMantissa b
  have hbias := bias_eq
  unfold UnpackedFloat.unpack
  simp only [hbias]
  split
  · split <;> trivial
  · rename_i hnotTop
    have htop : (@unpackExponent format b).toNat ≠ 2047 := fun h =>
      hnotTop (BitVec.eq_of_toNat_eq (by rw [h]; rfl))
    split
    · rename_i hzero
      split
      · trivial
      · rw [hzero]
        simp only [Canonical]
        rw [hmantissa]
        refine ⟨by omega, by simp, by simp, .inr (by simp)⟩
    · rename_i hnonzero
      have hpos : (@unpackExponent format b).toNat ≠ 0 := fun h =>
        hnonzero (BitVec.eq_of_toNat_eq (by rw [h]; rfl))
      have hnormal := toNat_one_append (@unpackMantissa format b)
      rw [hmantissa] at hnormal
      simp only [Canonical]
      rw [hnormal]
      omega

theorem log2_eq {m : Nat} (h : 2 ^ 52 ≤ m) (hlt : m < 2 ^ 53) : m.log2 = 52 := by
  have hm : m ≠ 0 := by omega
  have hle := (Nat.le_log2 hm).mpr h
  have hlog := (Nat.log2_lt hm).mpr hlt
  omega

theorem log2_lt {m : Nat} (hm : m ≠ 0) (h : m < 2 ^ 52) : m.log2 < 52 := (Nat.log2_lt hm).mpr h

/-- A mantissa of fifty-three bits is packed up without its first bit, which an exponent field that is not empty gives
    back. -/
theorem unpack_normal {s : Sign} {m : Nat} {e : Int} (hm : 0 < m) (hlong : 2 ^ 52 ≤ m) (hlt : m < 2 ^ 53)
    (hmin : -1074 ≤ e) (hmax : e ≤ 971) :
    UnpackedFloat.unpack format (packComponents format s (BitVec.ofNat 11 (e + 1075).toNat) (BitVec.ofNat 52 m)) =
      .finite s m e hm := by
  have hexponent : (BitVec.ofNat 11 (e + 1075).toNat).toNat = (e + 1075).toNat := by
    rw [BitVec.toNat_ofNat, Nat.mod_eq_of_lt (by omega)]
  have hmantissa : (1#1 ++ BitVec.ofNat 52 m).toNat = m := by
    rw [toNat_one_append, BitVec.toNat_ofNat]
    omega
  have hnotTop : BitVec.ofNat 11 (e + 1075).toNat ≠ -1#11 := by
    intro h
    have hones : (-1#11 : BitVec 11).toNat = 2047 := by decide
    have := congrArg BitVec.toNat h
    rw [hexponent, hones] at this
    omega
  have hnonzero : BitVec.ofNat 11 (e + 1075).toNat ≠ 0#11 := by
    intro h
    have hzero : (0#11 : BitVec 11).toNat = 0 := by decide
    have := congrArg BitVec.toNat h
    rw [hexponent, hzero] at this
    omega
  have hbias := bias_eq
  unfold UnpackedFloat.unpack
  simp only [unpackMantissa_packComponents, unpackExponent_packComponents, unpackSign_packComponents,
    Sign.ofBitVec_toBitVec, hbias]
  rw [if_neg hnotTop, if_neg hnonzero]
  simp only [UnpackedFloat.finite.injEq]
  refine ⟨trivial, hmantissa, ?_⟩
  rw [hexponent]
  omega

/-- A shorter mantissa is packed up as it is, with an empty exponent field. -/
theorem unpack_subnormal {s : Sign} {m : Nat} (hm : 0 < m) (hlt : m < 2 ^ 52) :
    UnpackedFloat.unpack format (packComponents format s 0#11 (BitVec.ofNat 52 m)) = .finite s m (-1074) hm := by
  have hmantissa : (BitVec.ofNat 52 m).toNat = m := by
    rw [BitVec.toNat_ofNat, Nat.mod_eq_of_lt (by omega)]
  have hnonzero : BitVec.ofNat 52 m ≠ 0#52 := by
    intro h
    have hzero : (0#52 : BitVec 52).toNat = 0 := by decide
    have := congrArg BitVec.toNat h
    rw [hmantissa, hzero] at this
    omega
  have hbias := bias_eq
  unfold UnpackedFloat.unpack
  simp only [unpackMantissa_packComponents, unpackExponent_packComponents, unpackSign_packComponents,
    Sign.ofBitVec_toBitVec, hbias]
  rw [if_neg (by decide), dif_neg hnonzero]
  simp only [if_true, UnpackedFloat.finite.injEq]
  exact ⟨trivial, hmantissa, by decide⟩

/-- **Packing canonical parts up loses nothing.** -/
theorem unpack_pack {u : UnpackedFloat} (h : Canonical u) :
    UnpackedFloat.unpack format (UnpackedFloat.pack format u) = u := by
  cases u with
  | notANumber => rfl
  | infinity s => cases s <;> rfl
  | zero s => cases s <;> rfl
  | finite s m e hm =>
      obtain ⟨hlt, hmin, hmax, hform⟩ := h
      have hbits : format.mantissaBits = 53 := by decide
      have hbias : e + (format.exponentBias : Int) + (format.mantissaBitsWithoutImplicit : Int) = e + 1075 := by
        rw [Int.add_assoc, bias_eq]
      unfold UnpackedFloat.pack
      simp only [hbias, hbits]
      rw [if_neg (by show ¬ 2 ^ 11 ≤ _; omega)]
      -- how long the mantissa is decides which of the two encodings is used
      by_cases hlong : 2 ^ 52 ≤ m
      · rw [if_pos (by rw [log2_eq hlong hlt])]
        exact unpack_normal hm hlong hlt hmin hmax
      · obtain rfl : e = -1074 := by omega
        have hlog := log2_lt (Nat.pos_iff_ne_zero.mp hm) (Nat.lt_of_not_le hlong)
        rw [if_neg (by omega)]
        exact unpack_subnormal hm (Nat.lt_of_not_le hlong)

/-! ## The exact form -/

/-- Whether a sign is the negative one. -/
def isNegative : Sign → Bool
  | .negative => true
  | .positive => false

/-- The exact form of a number with the given parts. -/
def shapeOf : UnpackedFloat → Decimal.Shape
  | .notANumber => .notANumber
  | .infinity s => .infinite (isNegative s)
  | .zero s => .finite ⟨isNegative s, 0, -1074⟩
  | .finite s m e _ => .finite ⟨isNegative s, m, e⟩

theorem isNegative_ofBitVec (b : BitVec 64) :
    isNegative (Sign.ofBitVec (@unpackSign format b)) = decide (2 ^ 63 ≤ b.toNat) := by
  have hsign := toNat_unpackSign b
  have hlt := b.isLt
  unfold Sign.ofBitVec
  by_cases h : 2 ^ 63 ≤ b.toNat
  · rw [if_neg, decide_eq_true h]
    · rfl
    · intro h0
      have := congrArg BitVec.toNat h0
      rw [hsign] at this
      simp at this
      omega
  · rw [if_pos, decide_eq_false h]
    · rfl
    · refine BitVec.eq_of_toNat_eq ?_
      rw [hsign]
      simp
      omega

/-- The parts of a bit pattern in the exact form, field by field. -/
theorem shapeOf_unpack (b : BitVec 64) : shapeOf (UnpackedFloat.unpack format b) =
    let negative := decide (2 ^ 63 ≤ b.toNat)
    let exponent : Nat := b.toNat / 2 ^ 52 % 2 ^ 11
    let mantissa : Nat := b.toNat % 2 ^ 52
    if exponent = 2047 then if mantissa = 0 then .infinite negative else .notANumber
    else if exponent = 0 then .finite ⟨negative, mantissa, -1074⟩
    else .finite ⟨negative, mantissa + 2 ^ 52, (exponent : Int) - 1075⟩ := by
  have hexponent := toNat_unpackExponent b
  have hmantissa := toNat_unpackMantissa b
  have hnegative := isNegative_ofBitVec b
  have htop : @unpackExponent format b = -1#11 ↔ b.toNat / 2 ^ 52 % 2 ^ 11 = 2047 := by
    rw [BitVec.toNat_eq, hexponent]
    rfl
  have hbottom : @unpackExponent format b = 0#11 ↔ b.toNat / 2 ^ 52 % 2 ^ 11 = 0 := by
    rw [BitVec.toNat_eq, hexponent]
    rfl
  have hempty : @unpackMantissa format b = 0#52 ↔ b.toNat % 2 ^ 52 = 0 := by
    rw [BitVec.toNat_eq, hmantissa]
    rfl
  have hbias := bias_eq
  unfold UnpackedFloat.unpack
  simp only [hbias]
  by_cases h1 : b.toNat / 2 ^ 52 % 2 ^ 11 = 2047
  · rw [if_pos (htop.mpr h1), if_pos h1]
    by_cases h0 : b.toNat % 2 ^ 52 = 0
    · rw [if_pos (hempty.mpr h0), if_pos h0, shapeOf, hnegative]
    · rw [if_neg (mt hempty.mp h0), if_neg h0, shapeOf]
  · rw [if_neg (mt htop.mp h1), if_neg h1]
    by_cases h2 : b.toNat / 2 ^ 52 % 2 ^ 11 = 0
    · rw [if_pos (hbottom.mpr h2), if_pos h2]
      by_cases h0 : b.toNat % 2 ^ 52 = 0
      · rw [dif_pos (hempty.mpr h0), shapeOf, hnegative, h0]
      · rw [dif_neg (mt hempty.mp h0), shapeOf, hnegative, hmantissa, hexponent, h2]
        rfl
    · rw [if_neg (mt hbottom.mp h2), if_neg h2, shapeOf, hnegative, toNat_one_append, hmantissa, hexponent,
        Nat.add_comm]

/-- **The exact form is read off the parts of a number.** -/
theorem shape_ofFloat (x : Float) : Decimal.Shape.ofFloat x = shapeOf x.toModel.unpack :=
  (shapeOf_unpack x.toModel.toBits.toBitVec).symm

end RegisterEvolution.Binary64
