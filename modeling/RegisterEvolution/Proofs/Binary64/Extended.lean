import RegisterEvolution.Proofs.Binary64.Order

/-!
# `Proofs.Binary64.Extended` — comparing numbers that may be infinite

The infinities are in front of and behind all finite numbers, so the integers that order the finite numbers have room
for them. What is not a number takes part in no comparison; it gets the last place, which is where sorting puts it.

* `place`, `placeOf` — the integer;
* `le_iff_place`, `beq_iff_place` — the comparisons of numbers.
-/

namespace RegisterEvolution.Binary64

open Float.Model Float.Model.UnpackedFloat

/-- The place of parts in the order of all numbers; what is not a number is the last of all. -/
def place : UnpackedFloat → Int
  | .notANumber => 2049 * 2 ^ 53
  | .infinity s => s.apply (2048 * 2 ^ 53)
  | u => level u

/-- The place of a number in the order of all numbers. -/
def placeOf (x : Float) : Int := place x.toModel.unpack

/-- Parts of a number are finite or those of an infinity. -/
theorem finite_or_infinity {u : UnpackedFloat} (h : u.isNaN = false) : u.isFinite = true ∨ ∃ s, u = .infinity s := by
  cases u with
  | notANumber => exact nomatch h
  | infinity s => exact .inr ⟨s, rfl⟩
  | zero s => exact .inl rfl
  | finite s m e hm => exact .inl rfl

theorem place_of_finite {u : UnpackedFloat} (h : u.isFinite = true) : place u = level u := by
  obtain ⟨s, rfl⟩ | ⟨s, m, e, hm, rfl⟩ := zero_or_finite h
  · rfl
  · rfl

/-- Finite numbers stay clear of the places of the infinities. -/
theorem level_between {u : UnpackedFloat} (h : Canonical u) :
    -(2048 * 2 ^ 53) < level u ∧ level u < 2048 * 2 ^ 53 := by
  have hzero : -(2048 * 2 ^ 53) < (0 : Int) ∧ (0 : Int) < 2048 * 2 ^ 53 := by decide
  cases u with
  | notANumber => exact hzero
  | infinity s => exact hzero
  | zero s => exact hzero
  | finite s m e hm =>
      obtain ⟨hlt, hmin, hmax, -⟩ := h
      cases s with
      | negative =>
          simp only [level, Sign.apply]
          omega
      | positive =>
          simp only [level, Sign.apply]
          omega

/-- What is not a number has a place behind all numbers. -/
theorem place_lt_of_isNaN {u : UnpackedFloat} (h : Canonical u) (hnan : u.isNaN = false) : place u < 2049 * 2 ^ 53 := by
  rcases finite_or_infinity hnan with hfinite | ⟨s, rfl⟩
  · have := (level_between h).2
    rw [place_of_finite hfinite]
    omega
  · cases s <;> decide

theorem compare_infinity_left {u : UnpackedFloat} (hu : u.isFinite = true) :
    (infinity .positive).compare u = some .gt ∧ (infinity .negative).compare u = some .lt := by
  obtain ⟨s, rfl⟩ | ⟨s, m, e, hm, rfl⟩ := zero_or_finite hu
  · exact ⟨rfl, rfl⟩
  · exact ⟨rfl, rfl⟩

theorem compare_infinity_right {u : UnpackedFloat} (hu : u.isFinite = true) :
    u.compare (infinity .positive) = some .lt ∧ u.compare (infinity .negative) = some .gt := by
  obtain ⟨s, rfl⟩ | ⟨s, m, e, hm, rfl⟩ := zero_or_finite hu
  · exact ⟨rfl, rfl⟩
  · cases s with
    | negative => exact ⟨rfl, rfl⟩
    | positive => exact ⟨rfl, rfl⟩

/-- **The comparison of numbers is that of their places.** -/
theorem compare_eq_compare_place {u v : UnpackedFloat} (hu : u.isNaN = false) (hv : v.isNaN = false)
    (cu : Canonical u) (cv : Canonical v) : u.compare v = some (compare (place u) (place v)) := by
  have hbetweenU := level_between cu
  have hbetweenV := level_between cv
  rcases finite_or_infinity hu with hfinite | ⟨s, rfl⟩
  · rcases finite_or_infinity hv with hfinite' | ⟨t, rfl⟩
    · rw [place_of_finite hfinite, place_of_finite hfinite']
      exact compare_eq_compare_level hfinite hfinite' cu cv
    · rw [place_of_finite hfinite]
      cases t with
      | negative =>
          rw [(compare_infinity_right hfinite).2]
          exact congrArg some (Int.compare_eq_gt.mpr hbetweenU.1).symm
      | positive =>
          rw [(compare_infinity_right hfinite).1]
          exact congrArg some (Int.compare_eq_lt.mpr hbetweenU.2).symm
  · rcases finite_or_infinity hv with hfinite' | ⟨t, rfl⟩
    · rw [place_of_finite hfinite']
      cases s with
      | negative =>
          rw [(compare_infinity_left hfinite').2]
          exact congrArg some (Int.compare_eq_lt.mpr hbetweenV.1).symm
      | positive =>
          rw [(compare_infinity_left hfinite').1]
          exact congrArg some (Int.compare_eq_gt.mpr hbetweenV.2).symm
    · cases s <;> cases t <;> decide

theorem compare_eq_none {u v : UnpackedFloat} (h : u.isNaN = true ∨ v.isNaN = true) : u.compare v = none := by
  rcases h with h | h
  · cases u with
    | notANumber => rfl
    | _ => exact nomatch h
  · cases v with
    | notANumber => cases u with
      | infinity s => cases s <;> rfl
      | finite s m e hm => cases s <;> rfl
      | _ => rfl
    | _ => exact nomatch h

section Numbers

variable {x y : Float}

theorem le_iff_place (hx : x.isNaN = false) (hy : y.isNaN = false) : x ≤ y ↔ placeOf x ≤ placeOf y := by
  show decide ((x.toModel.unpack.compare y.toModel.unpack).any (·.isLE) = true) = true ↔ _
  rw [compare_eq_compare_place hx hy (canonical_toModel x) (canonical_toModel y)]
  simp [placeOf, Int.isLE_compare]

/-- Zeros of either sign are equal, and otherwise equal numbers are the same. -/
theorem beq_iff_place (hx : x.isNaN = false) (hy : y.isNaN = false) : (x == y) = true ↔ placeOf x = placeOf y := by
  show (x.toModel.unpack.compare y.toModel.unpack == some .eq) = true ↔ _
  rw [compare_eq_compare_place hx hy (canonical_toModel x) (canonical_toModel y)]
  simp [placeOf]

/-- What is not a number is not compared. -/
theorem isNaN_of_le (h : x ≤ y) : x.isNaN = false ∧ y.isNaN = false := by
  have hany : (x.toModel.unpack.compare y.toModel.unpack).any (·.isLE) = true := of_decide_eq_true h
  constructor
  · refine Bool.eq_false_iff.mpr fun hnan => ?_
    rw [compare_eq_none (.inl hnan)] at hany
    exact Bool.false_ne_true hany
  · refine Bool.eq_false_iff.mpr fun hnan => ?_
    rw [compare_eq_none (.inr hnan)] at hany
    exact Bool.false_ne_true hany

end Numbers

end RegisterEvolution.Binary64
