import RegisterEvolution.Proofs.Binary64.Rounding

/-!
# `Proofs.Binary64.Magnitude` — fractions of a count

* `AtMost` — numbers between zero and an integer;
* `AtMost.mul`, `AtMost.isFinite_sub`, `atMost_ofNat` — how they are computed with;
* `atMost_one` — the numbers that a check for a fraction accepts;
* `AtMost.shape` — the integer part of such a number, which lies between zero and the integer.
-/

namespace RegisterEvolution.Binary64

open Float.Model Float.Model.UnpackedFloat

/-- A number that is not negative and not greater than `n`. -/
structure AtMost (n : Nat) (x : Float) : Prop where
  within : Within n x.toModel.unpack
  signed : Signed .positive x.toModel.unpack

theorem atMost_zero (n : Nat) : AtMost n 0.0 := ⟨trivial, trivial⟩

/-- A number that a check for a fraction accepts. -/
theorem atMost_one {x : Float} (h0 : 0.0 ≤ x) (h1 : x ≤ 1.0) : AtMost 1 x := by
  have hcanonical := canonical_toModel x
  have hle0 : ((UnpackedFloat.zero .positive).compare x.toModel.unpack).any (·.isLE) = true := of_decide_eq_true h0
  have hle1 : (x.toModel.unpack.compare (.finite .positive (2 ^ 52) (-52) (by decide))).any (·.isLE) = true :=
    of_decide_eq_true h1
  have hlevel : x.isFinite = true → levelOf x ≤ levelOf 1.0 := fun hx => (le_iff_level hx rfl).mp h1
  suffices h : Within 1 x.toModel.unpack ∧ Signed .positive x.toModel.unpack from ⟨h.1, h.2⟩
  rw [isFinite_iff] at hlevel
  unfold levelOf at hlevel
  generalize x.toModel.unpack = u at *
  cases u with
  | notANumber => exact absurd hle0 Bool.false_ne_true
  | infinity s =>
      cases s with
      | negative => exact absurd hle0 Bool.false_ne_true
      | positive => exact absurd hle1 Bool.false_ne_true
  | zero s => exact ⟨trivial, trivial⟩
  | finite s m e hm =>
      cases s with
      | negative => exact absurd hle0 Bool.false_ne_true
      | positive =>
          refine ⟨?_, rfl⟩
          obtain ⟨hlt, hmin, -, -⟩ := hcanonical
          -- one has the least mantissa of its exponent, so the exponent of the number is no larger
          have hplace : (e + 1075) * 2 ^ 53 + (m : Int) ≤ (-52 + 1075) * 2 ^ 53 + 2 ^ 52 := hlevel rfl
          refine ⟨by omega, ?_⟩
          rw [Nat.one_mul]
          by_cases he : e = -52
          · subst he
            show m ≤ 2 ^ 52
            omega
          · have hpow : 2 ^ 53 ≤ 2 ^ (-e).toNat := Nat.pow_le_pow_right (by decide) (by omega)
            omega

namespace AtMost

variable {k n : Nat} {x y : Float}

theorem mul (hn : k * n < 2 ^ 53) (hx : AtMost k x) (hy : AtMost n y) : AtMost (k * n) (x * y) := by
  obtain ⟨hcanonical, hwithin, hsigned⟩ :=
    mul_within hn (canonical_toModel x) (canonical_toModel y) hx.within hy.within hx.signed hy.signed
  have hunpack : (x * y).toModel.unpack = UnpackedFloat.mul format x.toModel.unpack y.toModel.unpack :=
    unpack_ofModel hcanonical
  exact ⟨by rw [hunpack]; exact hwithin, by rw [hunpack]; exact hsigned⟩

theorem isFinite_sub (hn : n < 2 ^ 53) (hx : AtMost n x) (hy : AtMost n y) : (x - y).isFinite = true := by
  obtain ⟨hcanonical, hfinite⟩ :=
    sub_within hn (canonical_toModel x) (canonical_toModel y) hx.within hy.within hx.signed hy.signed
  rw [isFinite_iff]
  have hunpack : (x - y).toModel.unpack = UnpackedFloat.sub format x.toModel.unpack y.toModel.unpack :=
    unpack_ofModel hcanonical
  rw [hunpack]
  exact hfinite

theorem mono {m : Nat} (h : AtMost n x) (hle : n ≤ m) : AtMost m x := by
  refine ⟨?_, h.signed⟩
  have hwithin := h.within
  generalize x.toModel.unpack = u at *
  cases u with
  | notANumber => exact hwithin
  | infinity s => exact hwithin
  | zero s => exact trivial
  | finite s m' e hm => exact ⟨hwithin.1, Nat.le_trans hwithin.2 (Nat.mul_le_mul_right _ hle)⟩

end AtMost

theorem unpack_ofUInt64 {n : Nat} (hn : n < 2 ^ 53) :
    n.toUInt64.toFloat.toModel.unpack = UnpackedFloat.ofNat format n := by
  have hsize : n.toUInt64.toNat = n := by
    show n % 2 ^ 64 = n
    omega
  have hmodel : n.toUInt64.toFloat.toModel =
      Float.Model.pack (UnpackedFloat.ofNat format n.toUInt64.toNat) := rfl
  rw [hmodel, hsize]
  exact unpack_pack (ofNat_within hn).1

theorem atMost_ofUInt64 {n : Nat} (hn : n < 2 ^ 53) : AtMost n n.toUInt64.toFloat := by
  obtain ⟨-, hwithin, hsigned⟩ := ofNat_within hn
  have hunpack := unpack_ofUInt64 hn
  exact ⟨by rw [hunpack]; exact hwithin, by rw [hunpack]; exact hsigned⟩

/-- Integers below `2 ^ 53` take no powers of ten. -/
theorem ofNat_eq {n : Nat} (hn : n < 2 ^ 53) : Decimal.ofNat n = n.toUInt64.toFloat * 1.0 := by
  unfold Decimal.ofNat Float.ofScientific
  rw [dif_pos ⟨hn, by decide⟩]
  rfl

/-- Integers below `2 ^ 53` are not rounded up. -/
theorem atMost_ofNat {n : Nat} (hn : n < 2 ^ 53) : AtMost n (Decimal.ofNat n) := by
  have hone : AtMost 1 1.0 := ⟨⟨by decide, by decide⟩, rfl⟩
  have hproduct := (atMost_ofUInt64 hn).mul (by rw [Nat.mul_one]; exact hn) hone
  rw [ofNat_eq hn]
  rwa [Nat.mul_one] at hproduct

theorem ofInt?_natCast {n : Nat} (h : (Decimal.ofNat n).isFinite = true) :
    Decimal.ofInt? (n : Int) = some (Decimal.ofNat n) := by
  unfold Decimal.ofInt?
  rw [Int.natAbs_natCast, if_pos h, if_neg (by omega)]

theorem shape_of_finite {x : Float} (hx : x.isFinite = true) : ∃ d, Decimal.Shape.ofFloat x = .finite d := by
  rw [shape_ofFloat]
  obtain ⟨s, hu⟩ | ⟨s, m, e, hm, hu⟩ := zero_or_finite ((isFinite_iff x).mp hx)
  · rw [hu]
    exact ⟨_, rfl⟩
  · rw [hu]
    exact ⟨_, rfl⟩

/-- **The integer part of a number between zero and `n` lies between zero and `n`.** -/
theorem AtMost.shape {n : Nat} {x : Float} (h : AtMost n x) :
    ∃ d, Decimal.Shape.ofFloat x = .finite d ∧ 0 ≤ d.floor ∧ d.floor ≤ n := by
  obtain ⟨hwithin, hsigned⟩ := h
  rw [shape_ofFloat]
  generalize x.toModel.unpack = u at *
  cases u with
  | notANumber => exact hwithin.elim
  | infinity s => exact hwithin.elim
  | zero s =>
      refine ⟨_, rfl, ?_⟩
      cases s with
      | negative => exact ⟨by decide, Int.natCast_nonneg n⟩
      | positive => exact ⟨by decide, Int.natCast_nonneg n⟩
  | finite s m e hm =>
      obtain rfl : s = .positive := hsigned
      obtain ⟨he, hle⟩ := hwithin
      refine ⟨_, rfl, ?_⟩
      have hpow : (0 : Int) < 2 ^ (-e).toNat := Int.pow_pos (by decide)
      have hsigned : (⟨isNegative .positive, m, e⟩ : Decimal.Dyadic).signed = m := rfl
      unfold Decimal.Dyadic.floor
      rw [hsigned]
      split
      · rename_i h0
        obtain rfl : e = 0 := Int.le_antisymm he h0
        have hmn : m ≤ n := by simpa using hle
        show 0 ≤ (m : Int) * 1 ∧ (m : Int) * 1 ≤ n
        omega
      · show 0 ≤ Int.fdiv (m : Int) (2 ^ (-e).toNat) ∧ Int.fdiv (m : Int) (2 ^ (-e).toNat) ≤ n
        rw [Int.fdiv_eq_ediv_of_nonneg _ (Int.le_of_lt hpow)]
        refine ⟨Int.ediv_nonneg (Int.natCast_nonneg m) (Int.le_of_lt hpow), ?_⟩
        refine Int.ediv_le_of_le_mul hpow ?_
        exact_mod_cast hle

end RegisterEvolution.Binary64
