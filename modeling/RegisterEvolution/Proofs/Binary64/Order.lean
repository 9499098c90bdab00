import RegisterEvolution.Proofs.Binary64.Unpacked

/-!
# `Proofs.Binary64.Order` — comparing finite numbers

The comparison of canonical parts is lexicographic, so finite numbers are ordered like the integers that put mantissa
and exponent together. Laws of the order of finite numbers become laws of integers that way.

* `level` — the integer;
* `lt_iff_level`, `le_iff_level`, `beq_iff_level` — the comparisons of finite numbers;
* `level_neg` — negation turns the order round;
* `isFinite_of_between` — what lies between finite numbers is finite.
-/

namespace RegisterEvolution.Binary64

open Float.Model Float.Model.UnpackedFloat

/-! ## Finite numbers -/

/-- Whether the parts are those of a finite number. -/
theorem isFinite_iff (x : Float) : x.isFinite = true ↔ x.toModel.unpack.isFinite = true := Iff.rfl

/-- Finite parts are zero or have a mantissa. -/
theorem zero_or_finite {u : UnpackedFloat} (h : u.isFinite = true) :
    (∃ s, u = .zero s) ∨ ∃ s m e hm, u = .finite s m e hm := by
  cases u with
  | notANumber => exact absurd h Bool.false_ne_true
  | infinity s => exact absurd h Bool.false_ne_true
  | zero s => exact .inl ⟨s, rfl⟩
  | finite s m e hm => exact .inr ⟨s, m, e, hm, rfl⟩

theorem canonical_toModel (x : Float) : Canonical x.toModel.unpack := canonical_unpack _

/-- The parts of a number that is made out of canonical parts. -/
theorem unpack_ofModel {u : UnpackedFloat} (h : Canonical u) :
    (Float.ofModel (Float.Model.pack u)).toModel.unpack = u := unpack_pack h

/-- The place of finite parts in their order. -/
def level : UnpackedFloat → Int
  | .finite s m e _ => s.apply ((e + 1075) * 2 ^ 53 + m)
  | _ => 0

/-- The place of a finite number in the order. -/
def levelOf (x : Float) : Int := level x.toModel.unpack

/-- Exponents first and then mantissas, or both in one integer. -/
theorem then_eq_compare {m n : Nat} {d e : Int} (hm : m < 2 ^ 53) (hn : n < 2 ^ 53) :
    (compare d e).then (compare m n) = compare ((d + 1075) * 2 ^ 53 + (m : Int)) ((e + 1075) * 2 ^ 53 + (n : Int)) := by
  rcases Int.lt_trichotomy d e with h | rfl | h
  · rw [Int.compare_eq_lt.mpr h, Int.compare_eq_lt.mpr (by omega)]
    rfl
  · rw [Int.compare_eq_eq.mpr rfl]
    rcases Nat.lt_trichotomy m n with h | rfl | h
    · rw [Nat.compare_eq_lt.mpr h, Int.compare_eq_lt.mpr (by omega)]
      rfl
    · rw [Nat.compare_eq_eq.mpr rfl, Int.compare_eq_eq.mpr rfl]
      rfl
    · rw [Nat.compare_eq_gt.mpr h, Int.compare_eq_gt.mpr (by omega)]
      rfl
  · rw [Int.compare_eq_gt.mpr h, Int.compare_eq_gt.mpr (by omega)]
    rfl

theorem level_pos {m : Nat} {e : Int} (he : -1074 ≤ e) : 0 < (e + 1075) * 2 ^ 53 + (m : Int) := by omega

theorem compare_neg (a b : Int) : compare (-a) (-b) = (compare a b).swap := by
  rcases Int.lt_trichotomy a b with h | rfl | h
  · rw [Int.compare_eq_lt.mpr h, Int.compare_eq_gt.mpr (by omega)]
    rfl
  · rw [Int.compare_eq_eq.mpr rfl, Int.compare_eq_eq.mpr rfl]
    rfl
  · rw [Int.compare_eq_gt.mpr h, Int.compare_eq_lt.mpr (by omega)]
    rfl

/-- **The comparison of finite numbers is that of their places.** -/
theorem compare_eq_compare_level {u v : UnpackedFloat} (hu : u.isFinite = true) (hv : v.isFinite = true)
    (cu : Canonical u) (cv : Canonical v) : u.compare v = some (compare (level u) (level v)) := by
  obtain ⟨s, rfl⟩ | ⟨s, m, e, hm, rfl⟩ := zero_or_finite hu
  · obtain ⟨t, rfl⟩ | ⟨t, n, d, hn, rfl⟩ := zero_or_finite hv
    · rfl
    · have hpos := level_pos (m := n) cv.2.1
      cases t with
      | negative => exact congrArg some (Int.compare_eq_gt.mpr (Int.neg_neg_of_pos hpos)).symm
      | positive => exact congrArg some (Int.compare_eq_lt.mpr hpos).symm
  · have hposU := level_pos (m := m) cu.2.1
    obtain ⟨t, rfl⟩ | ⟨t, n, d, hn, rfl⟩ := zero_or_finite hv
    · cases s with
      | negative => exact congrArg some (Int.compare_eq_lt.mpr (Int.neg_neg_of_pos hposU)).symm
      | positive => exact congrArg some (Int.compare_eq_gt.mpr hposU).symm
    · have hposV := level_pos (m := n) cv.2.1
      have hthen := then_eq_compare (d := e) (e := d) cu.1 cv.1
      -- equal signs compare exponent and mantissa, turned round below zero; different signs decide by themselves
      cases s with
      | negative =>
          cases t with
          | negative =>
              show some ((compare e d).then (compare m n)).swap = _
              rw [hthen, ← compare_neg]
              rfl
          | positive =>
              refine congrArg some (Int.compare_eq_lt.mpr ?_).symm
              show -((e + 1075) * 2 ^ 53 + (m : Int)) < (d + 1075) * 2 ^ 53 + (n : Int)
              omega
      | positive =>
          cases t with
          | negative =>
              refine congrArg some (Int.compare_eq_gt.mpr ?_).symm
              show -((d + 1075) * 2 ^ 53 + (n : Int)) < (e + 1075) * 2 ^ 53 + (m : Int)
              omega
          | positive =>
              show some ((compare e d).then (compare m n)) = _
              rw [hthen]
              rfl

section Finite

variable {x y : Float}

theorem lt_iff_level (hx : x.isFinite = true) (hy : y.isFinite = true) : x < y ↔ levelOf x < levelOf y := by
  show decide ((x.toModel.unpack.compare y.toModel.unpack == some .lt) = true) = true ↔ _
  rw [compare_eq_compare_level hx hy (canonical_toModel x) (canonical_toModel y)]
  simp [levelOf, Int.compare_eq_lt]

theorem le_iff_level (hx : x.isFinite = true) (hy : y.isFinite = true) : x ≤ y ↔ levelOf x ≤ levelOf y := by
  show decide ((x.toModel.unpack.compare y.toModel.unpack).any (·.isLE) = true) = true ↔ _
  rw [compare_eq_compare_level hx hy (canonical_toModel x) (canonical_toModel y)]
  simp [levelOf, Int.isLE_compare]

theorem not_lt_iff_le (hx : x.isFinite = true) (hy : y.isFinite = true) : ¬ x < y ↔ y ≤ x := by
  rw [lt_iff_level hx hy, le_iff_level hy hx]
  exact Int.not_lt

theorem not_le_iff_lt (hx : x.isFinite = true) (hy : y.isFinite = true) : ¬ x ≤ y ↔ y < x := by
  rw [le_iff_level hx hy, lt_iff_level hy hx]
  exact Int.not_le

/-- Zeros of either sign are equal, and otherwise equal numbers are the same. -/
theorem beq_iff_level (hx : x.isFinite = true) (hy : y.isFinite = true) : (x == y) = true ↔ levelOf x = levelOf y := by
  show (x.toModel.unpack.compare y.toModel.unpack == some .eq) = true ↔ _
  rw [compare_eq_compare_level hx hy (canonical_toModel x) (canonical_toModel y)]
  simp [levelOf]

/-! ## Negation -/

theorem unpack_neg (x : Float) : (-x).toModel.unpack = x.toModel.unpack.neg := by
  refine unpack_ofModel ?_
  have hx := canonical_toModel x
  cases hu : x.toModel.unpack with
  | notANumber => trivial
  | infinity s => trivial
  | zero s => trivial
  | finite s m e hm =>
      rw [hu] at hx
      exact hx

theorem isFinite_neg (hx : x.isFinite = true) : (-x).isFinite = true := by
  rw [isFinite_iff] at hx ⊢
  rw [unpack_neg]
  obtain ⟨s, hu⟩ | ⟨s, m, e, hm, hu⟩ := zero_or_finite hx
  · rw [hu]
    rfl
  · rw [hu]
    rfl

/-- **Negation turns the order round.** -/
theorem level_neg (x : Float) : levelOf (-x) = -levelOf x := by
  unfold levelOf
  rw [unpack_neg]
  cases x.toModel.unpack with
  | notANumber => rfl
  | infinity s => rfl
  | zero s => rfl
  | finite s m e hm =>
      cases s with
      | negative => exact (Int.neg_neg _).symm
      | positive => rfl

theorem neg_lt_neg_iff (hx : x.isFinite = true) (hy : y.isFinite = true) : -x < -y ↔ y < x := by
  rw [lt_iff_level (isFinite_neg hx) (isFinite_neg hy), lt_iff_level hy hx, level_neg, level_neg]
  omega

/-! ## A total order on finite numbers -/

theorem le_refl_of_finite (hx : x.isFinite = true) : x ≤ x := (le_iff_level hx hx).mpr (Int.le_refl _)

theorem le_trans_of_finite {z : Float} (hx : x.isFinite = true) (hy : y.isFinite = true) (hz : z.isFinite = true)
    (h : x ≤ y) (h' : y ≤ z) : x ≤ z := by
  rw [le_iff_level hx hy] at h
  rw [le_iff_level hy hz] at h'
  exact (le_iff_level hx hz).mpr (Int.le_trans h h')

theorem isNaN_of_finite (hx : x.isFinite = true) : x.isNaN = false := by
  show x.toModel.unpack.isNaN = false
  obtain ⟨s, hu⟩ | ⟨s, m, e, hm, hu⟩ := zero_or_finite ((isFinite_iff x).mp hx)
  · rw [hu]
    rfl
  · rw [hu]
    rfl

theorem isFinite_abs (hx : x.isFinite = true) : x.abs.isFinite = true := by
  have hunpack : x.abs.toModel.unpack = x.toModel.unpack.abs := by
    refine unpack_ofModel ?_
    have hcanonical := canonical_toModel x
    cases hu : x.toModel.unpack with
    | notANumber => trivial
    | infinity s => trivial
    | zero s => trivial
    | finite s m e hm =>
        rw [hu] at hcanonical
        exact hcanonical
  rw [isFinite_iff] at hx ⊢
  rw [hunpack]
  obtain ⟨s, hu⟩ | ⟨s, m, e, hm, hu⟩ := zero_or_finite hx
  · rw [hu]
    rfl
  · rw [hu]
    rfl

end Finite

/-! ## Comparisons of any numbers -/

section Any

variable {x y : Float}

theorem le_of_lt_float (h : x < y) : x ≤ y := by
  have hlt : (x.toModel.unpack.compare y.toModel.unpack == some .lt) = true := of_decide_eq_true h
  show decide ((x.toModel.unpack.compare y.toModel.unpack).any (·.isLE) = true) = true
  rw [eq_of_beq hlt]
  rfl

theorem unpack_infinity : (1.0 / 0.0 : Float).toModel.unpack = .infinity .positive := rfl

/-- Finite numbers are below infinity. -/
theorem lt_infinity (hx : x.isFinite = true) : x < 1.0 / 0.0 := by
  show decide ((x.toModel.unpack.compare (1.0 / 0.0 : Float).toModel.unpack == some .lt) = true) = true
  obtain ⟨t, hu⟩ | ⟨t, m, e, hm, hu⟩ := zero_or_finite ((isFinite_iff x).mp hx)
  · rw [hu, unpack_infinity]
    rfl
  · rw [hu, unpack_infinity]
    cases t <;> rfl

/-- Nothing is above infinity. -/
theorem not_infinity_lt (x : Float) : ¬ 1.0 / 0.0 < x := by
  show ¬ decide (((1.0 / 0.0 : Float).toModel.unpack.compare x.toModel.unpack == some .lt) = true) = true
  rw [unpack_infinity]
  generalize x.toModel.unpack = u
  cases u with
  | notANumber => exact Bool.false_ne_true
  | infinity t => cases t <;> exact Bool.false_ne_true
  | zero t => exact Bool.false_ne_true
  | finite t m e hm => exact Bool.false_ne_true

/-- **What lies between finite numbers is finite.** -/
theorem isFinite_of_between {b c : Float} (hb : b.isFinite = true) (hc : c.isFinite = true) (hbx : b ≤ x)
    (hxc : x ≤ c) : x.isFinite = true := by
  have hlow : (b.toModel.unpack.compare x.toModel.unpack).any (·.isLE) = true := of_decide_eq_true hbx
  have hhigh : (x.toModel.unpack.compare c.toModel.unpack).any (·.isLE) = true := of_decide_eq_true hxc
  rw [isFinite_iff] at hb hc ⊢
  generalize x.toModel.unpack = u at *
  cases u with
  | notANumber => exact absurd hhigh Bool.false_ne_true
  | infinity s =>
      -- an infinity is on the wrong side of one of the two, which is zero or has a mantissa
      cases s with
      | negative =>
          obtain ⟨t, hu⟩ | ⟨t, m, e, hm, hu⟩ := zero_or_finite hb
          · rw [hu] at hlow
            exact absurd hlow Bool.false_ne_true
          · rw [hu] at hlow
            exact absurd hlow Bool.false_ne_true
      | positive =>
          obtain ⟨t, hu⟩ | ⟨t, m, e, hm, hu⟩ := zero_or_finite hc
          · rw [hu] at hhigh
            exact absurd hhigh Bool.false_ne_true
          · rw [hu] at hhigh
            exact absurd hhigh Bool.false_ne_true
  | zero s => rfl
  | finite s m e hm => rfl

end Any

end RegisterEvolution.Binary64
