import RegisterEvolution.Proofs.Binary64.Arithmetic

/-!
# `Proofs.Binary64.Definite` — operations that yield a number

Rounding may lose a magnitude to zero or to infinity, but it makes a number of every number. What is not a number only
comes out of an operation that has no value at all, such as the product of zero and infinity.

* `isNaN_ofModel` — what is packed up as a number is one;
* `Regular` — finite numbers other than zero;
* `isNaN_mul`, `isNaN_div`, `isNaN_add`, `isNaN_neg` — operations with regular or finite numbers;
* `isNaN_ofNat`, `isNaN_ofInt` — integers as numbers.
-/

namespace RegisterEvolution.Binary64

open Float.Model Float.Model.UnpackedFloat

/-! ## Packing and rounding -/

/-- Only the greatest exponent field leaves room for what is not a number. -/
theorem isNaN_unpack_components {s : Sign} {exponent : BitVec 11} {mantissa : BitVec 52} (h : exponent ≠ -1#11) :
    (UnpackedFloat.unpack format (packComponents format s exponent mantissa)).isNaN = false := by
  unfold UnpackedFloat.unpack
  simp only [unpackMantissa_packComponents, unpackExponent_packComponents]
  rw [if_neg h]
  split
  · split <;> rfl
  · rfl

/-- **Numbers are packed up as numbers**, also those that have no place in the format. -/
theorem isNaN_unpack_pack {u : UnpackedFloat} (h : u.isNaN = false) :
    (UnpackedFloat.unpack format (UnpackedFloat.pack format u)).isNaN = false := by
  cases u with
  | notANumber => exact nomatch h
  | infinity s => cases s <;> rfl
  | zero s => cases s <;> rfl
  | finite s m e hm =>
      unfold UnpackedFloat.pack
      simp only
      split
      · cases s <;> rfl
      · rename_i hsmall
        change ¬2 ^ 11 ≤ _ at hsmall
        split
        · refine isNaN_unpack_components fun htop => ?_
          have hones : (-1#11 : BitVec 11).toNat = 2047 := by decide
          have hfield := congrArg BitVec.toNat htop
          change (BitVec.ofNat 11 _).toNat = _ at hfield
          rw [BitVec.toNat_ofNat, hones] at hfield
          omega
        · exact isNaN_unpack_components (by decide)

theorem isNaN_ofModel {u : UnpackedFloat} (h : u.isNaN = false) : (Float.ofModel (Float.Model.pack u)).isNaN = false :=
  isNaN_unpack_pack h

theorem isNaN_roundWithAccuracy (s : Sign) (m : Nat) (e : Int) (acc : Accuracy) :
    (roundWithAccuracy format s m e acc).isNaN = false := by
  unfold roundWithAccuracy
  simp only
  split <;> rfl

theorem isNaN_normalize (m e : Int) (s : Sign) : (UnpackedFloat.normalize format m e s).isNaN = false := by
  unfold UnpackedFloat.normalize
  split
  · exact isNaN_roundWithAccuracy ..
  · rfl
  · exact isNaN_roundWithAccuracy ..

/-! ## Operations -/

/-- Whether parts are finite and not zero. -/
def isRegular : UnpackedFloat → Bool
  | .finite .. => true
  | _ => false

/-- A finite number other than zero. -/
def Regular (x : Float) : Prop := isRegular x.toModel.unpack = true

instance (x : Float) : Decidable (Regular x) := inferInstanceAs (Decidable (_ = true))

/-- What a number that is not below one is rounded to is not zero. -/
theorem regular_of_rounded {q : ℚ} {u : UnpackedFloat} (h : Rounded q u) (hrange : |q| < overflow) (hq : 1 ≤ q) :
    Regular (Float.ofModel (Float.Model.pack u)) := by
  have hvalue : 1 ≤ value u := Rounds.one.mono h.rounds hq
  unfold Regular
  rw [unpack_ofModel (h.canonical hrange)]
  obtain ⟨s, rfl⟩ | ⟨s, m, e, hm, rfl⟩ := zero_or_finite h.finite
  · exact absurd hvalue (by rw [value_zero]; norm_num)
  · rfl

variable {x y : Float}

theorem isNaN_mul (hx : x.isNaN = false) (hy : Regular y) : (x * y).isNaN = false := by
  refine isNaN_ofModel (u := UnpackedFloat.mul format x.toModel.unpack y.toModel.unpack) ?_
  change x.toModel.unpack.isNaN = false at hx
  unfold Regular at hy
  generalize x.toModel.unpack = u, y.toModel.unpack = v at hx hy ⊢
  cases v with
  | notANumber | infinity | zero => exact nomatch hy
  | finite t n d hn =>
      cases u with
      | notANumber => exact nomatch hx
      | infinity | zero => rfl
      | finite s m e hm => exact isNaN_roundWithAccuracy ..

theorem isNaN_div (hx : x.isNaN = false) (hy : Regular y) : (x / y).isNaN = false := by
  refine isNaN_ofModel (u := UnpackedFloat.div format x.toModel.unpack y.toModel.unpack) ?_
  change x.toModel.unpack.isNaN = false at hx
  unfold Regular at hy
  generalize x.toModel.unpack = u, y.toModel.unpack = v at hx hy ⊢
  cases v with
  | notANumber | infinity | zero => exact nomatch hy
  | finite t n d hn =>
      cases u with
      | notANumber => exact nomatch hx
      | infinity | zero => rfl
      | finite s m e hm => exact isNaN_roundWithAccuracy ..

theorem isNaN_add (hx : x.isNaN = false) (hy : y.isFinite = true) : (x + y).isNaN = false := by
  refine isNaN_ofModel (u := UnpackedFloat.add format x.toModel.unpack y.toModel.unpack) ?_
  change x.toModel.unpack.isNaN = false at hx
  rw [isFinite_iff] at hy
  generalize x.toModel.unpack = u, y.toModel.unpack = v at hx hy ⊢
  obtain ⟨t, rfl⟩ | ⟨t, n, d, hn, rfl⟩ := zero_or_finite hy
  · cases u with
    | notANumber => exact nomatch hx
    | infinity | finite => rfl
    | zero s => cases s <;> cases t <;> rfl
  · cases u with
    | notANumber => exact nomatch hx
    | infinity | zero => rfl
    | finite s m e hm => exact isNaN_normalize ..

theorem isNaN_neg (hx : x.isNaN = false) : (-x).isNaN = false := by
  refine isNaN_ofModel (u := x.toModel.unpack.neg) ?_
  change x.toModel.unpack.isNaN = false at hx
  generalize x.toModel.unpack = u at hx ⊢
  cases u with
  | notANumber => exact nomatch hx
  | infinity | zero | finite => rfl

/-! ## Integers -/

theorem isNaN_ofNat (n : Nat) : (Decimal.ofNat n).isNaN = false := by
  by_cases hsmall : n < 2 ^ 53
  · exact isNaN_of_finite (atMost_ofNat hsmall).within.isFinite
  · obtain ⟨u, hofNat, hrounded⟩ := exists_rounded_ofNat (Nat.le_of_not_lt hsmall)
    rw [hofNat]
    refine isNaN_ofModel ?_
    obtain ⟨s, rfl⟩ | ⟨s, m, e, hm, rfl⟩ := zero_or_finite hrounded.finite
    · rfl
    · rfl

/-- **Integers become numbers**, infinities at worst. -/
theorem isNaN_ofInt (n : Int) : (Decimal.ofInt n).isNaN = false := by
  unfold Decimal.ofInt
  simp only
  split
  · exact isNaN_neg (isNaN_ofNat _)
  · exact isNaN_ofNat _

end RegisterEvolution.Binary64
