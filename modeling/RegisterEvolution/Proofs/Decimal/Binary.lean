import RegisterEvolution.Proofs.Binary64.Unpacked

/-!
# `Proofs.Decimal.Binary` — bit patterns and what they stand for

* `shapeOfFields_inj` — the fields of a bit pattern are read off what they stand for;
* `eq_of_shape` — so is the number, unless it is none;
* `shape_ne_notANumber` — what a number stands for is one.
-/

namespace RegisterEvolution.Decimal

variable {x y : Float}

theorem eq_of_toBits (h : x.toBits.toNat = y.toBits.toNat) : x = y := by
  obtain ⟨⟨bits, _⟩⟩ := x
  obtain ⟨⟨bits', _⟩⟩ := y
  obtain rfl : bits = bits' := UInt64.toNat_inj.mp h
  rfl

/-- What the sign, the exponent field and the mantissa field of a bit pattern stand for. -/
def shapeOfFields (negative : Bool) (exponent mantissa : Nat) : Shape :=
  if exponent = 2047 then if mantissa = 0 then .infinite negative else .notANumber
  else if exponent = 0 then .finite ⟨negative, mantissa, -1074⟩
  else .finite ⟨negative, mantissa + 2 ^ 52, (exponent : Int) - 1075⟩

/-- Fields are determined by what they stand for, unless that is no number. -/
theorem shapeOfFields_inj {s t : Bool} {e d m n : Nat} (hm : m < 2 ^ 52) (hn : n < 2 ^ 52)
    (hnumber : shapeOfFields s e m ≠ .notANumber) (h : shapeOfFields s e m = shapeOfFields t d n) :
    s = t ∧ e = d ∧ m = n := by
  unfold shapeOfFields at h hnumber
  split_ifs at h hnumber <;> simp only [Shape.infinite.injEq, Shape.finite.injEq, Dyadic.mk.injEq] at h
  · exact ⟨h, by omega, by omega⟩
  · exact absurd rfl hnumber
  · exact ⟨h.1, by omega, by omega⟩
  · exact absurd h.2.1 (by omega)
  · exact absurd h.2.1 (by omega)
  · exact ⟨h.1, by omega, by omega⟩

/-- A bit pattern is determined by what it stands for, unless that is no number. -/
theorem eq_of_shape (hx : Shape.ofFloat x ≠ .notANumber) (h : Shape.ofFloat x = Shape.ofFloat y) : x = y := by
  have hfields (z : Float) : Shape.ofFloat z = shapeOfFields (decide (2 ^ 63 ≤ z.toBits.toNat))
      (z.toBits.toNat / 2 ^ 52 % 2 ^ 11) (z.toBits.toNat % 2 ^ 52) := rfl
  rw [hfields] at hx
  rw [hfields, hfields] at h
  obtain ⟨hsign, hexponent, hmantissa⟩ := shapeOfFields_inj (Nat.mod_lt _ (by decide)) (Nat.mod_lt _ (by decide)) hx h
  rw [decide_eq_decide] at hsign
  have hxlt := x.toBits.toNat_lt
  have hylt := y.toBits.toNat_lt
  refine eq_of_toBits ?_
  omega

theorem shape_ne_notANumber (h : x.isNaN = false) : Shape.ofFloat x ≠ .notANumber := by
  rw [Binary64.shape_ofFloat]
  have hunpack : x.toModel.unpack.isNaN = false := h
  cases hparts : x.toModel.unpack with
  | notANumber =>
      rw [hparts] at hunpack
      exact nomatch hunpack
  | infinity s => exact nofun
  | zero s => exact nofun
  | finite s m e hm => exact nofun

end RegisterEvolution.Decimal
