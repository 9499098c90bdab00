import RegisterEvolution.Machine.Opcode
import RegisterEvolution.Machine.Registers
import RegisterEvolution.Proofs.Binary64.Order

/-!
# `Proofs.Machine.Saturation` — registers in range

Saturation makes a register out of any number, so that nothing need be known about the arithmetic that the number comes
from: it takes telling what is not a number, and the order of the rest. Banks in range have a greatest value, and the
indices where it stands are what a decision is made of.

* `Saturated`, `saturated_saturate` — what a register may hold, and that saturation yields it;
* `saturate_saturate`, `saturate_finiteInput` — numbers that saturation does not tell apart;
* `Registers.InRange` — banks whose registers hold nothing else, and what keeps them so;
* `Registers.greatest_argmax` — the indices of the greatest action registers.
-/

namespace RegisterEvolution

open Binary64

/-! ## Numbers in range -/

/-- A number that a register may hold. -/
structure Saturated (x : Float) : Prop where
  isNumber : x.isNaN = false
  low : -saturationBound ≤ x
  high : x ≤ saturationBound

theorem saturated_zero : Saturated 0.0 := ⟨by decide, by decide, by decide⟩

/-- **Saturation yields a number in range**, whatever it is applied to. -/
theorem saturated_saturate (x : Float) : Saturated (saturate x) := by
  have hends : -saturationBound < saturationBound := by decide
  unfold saturate
  split
  · exact saturated_zero
  · rename_i hnumber
    rw [Bool.not_eq_true] at hnumber
    by_cases hcap : x < saturationBound
    · simp only [if_pos hcap]
      split
      · rename_i hlow
        exact ⟨hnumber, le_of_lt_float hlow, le_of_lt_float hcap⟩
      · exact ⟨by decide, by decide, by decide⟩
    · simp only [if_neg hcap, if_pos hends]
      exact ⟨by decide, by decide, by decide⟩

/-- Numbers in range are finite, so that they are ordered. -/
theorem Saturated.isFinite {x : Float} (h : Saturated x) : x.isFinite = true :=
  isFinite_of_between (by decide) (by decide) h.low h.high

/-! ## Numbers that saturation does not tell apart -/

/-- What is not a number is saturated to zero. -/
theorem saturate_of_isNaN {x : Float} (h : x.isNaN = true) : saturate x = 0.0 := by
  unfold saturate
  rw [if_pos h]

/-- Numbers below the upper bound are cut off below the lower one. -/
theorem saturate_of_lt {x : Float} (hnan : ¬ x.isNaN = true) (h : x < saturationBound) :
    saturate x = if -saturationBound < x then x else -saturationBound := by
  unfold saturate
  rw [if_neg hnan]
  simp only [if_pos h]

theorem saturate_of_not_lt {x : Float} (hnan : ¬ x.isNaN = true) (h : ¬ x < saturationBound) :
    saturate x = saturationBound := by
  have hends : -saturationBound < saturationBound := by decide
  unfold saturate
  rw [if_neg hnan]
  simp only [if_neg h, if_pos hends]

/-- Saturation leaves a number as it is, or yields zero or one of its bounds. -/
theorem saturate_cases (x : Float) :
    saturate x = x ∨ saturate x = 0.0 ∨ saturate x = saturationBound ∨ saturate x = -saturationBound := by
  by_cases hnan : x.isNaN = true
  · exact .inr (.inl (saturate_of_isNaN hnan))
  · by_cases hcap : x < saturationBound
    · rw [saturate_of_lt hnan hcap]
      by_cases hlow : -saturationBound < x
      · exact .inl (if_pos hlow)
      · exact .inr (.inr (.inr (if_neg hlow)))
    · exact .inr (.inr (.inl (saturate_of_not_lt hnan hcap)))

/-- **Saturating twice is saturating once**, the sign of zero included. -/
theorem saturate_saturate (x : Float) : saturate (saturate x) = saturate x := by
  rcases saturate_cases x with h | h | h | h
  · rw [h, h]
  · rw [h]
    decide
  · rw [h]
    decide
  · rw [h]
    decide

theorem exists_infinity {x : Float} (h : x.isInf = true) : ∃ s, x.toModel.unpack = .infinity s := by
  have hparts : x.toModel.unpack.isInf = true := h
  cases hu : x.toModel.unpack with
  | infinity s => exact ⟨s, rfl⟩
  | notANumber => simp [hu, Float.Model.UnpackedFloat.isInf] at hparts
  | zero s => simp [hu, Float.Model.UnpackedFloat.isInf] at hparts
  | finite s m e hm => simp [hu, Float.Model.UnpackedFloat.isInf] at hparts

/-- Infinities are saturated to the bound that is nearest to them. -/
theorem saturate_of_isInf {x : Float} (h : x.isInf = true) :
    saturate x = if 0.0 < x then saturationBound else -saturationBound := by
  obtain ⟨s, hx⟩ := exists_infinity h
  have hnan : ¬ x.isNaN = true := by
    show ¬ x.toModel.unpack.isNaN = true
    rw [hx]
    exact Bool.false_ne_true
  have hlt : ∀ y : Float, y < x ↔ (y.toModel.unpack.compare (.infinity s) == some .lt) = true := by
    intro y
    rw [← hx]
    exact decide_eq_true_iff
  have hgt : ∀ y : Float,
      x < y ↔ ((Float.Model.UnpackedFloat.infinity s).compare y.toModel.unpack == some .lt) = true := by
    intro y
    rw [← hx]
    exact decide_eq_true_iff
  cases s with
  | positive =>
      have hpos : 0.0 < x := (hlt 0.0).mpr (by decide)
      have hcap : ¬ x < saturationBound := by
        rw [hgt]
        decide
      rw [saturate_of_not_lt hnan hcap, if_pos hpos]
  | negative =>
      have hpos : ¬ 0.0 < x := by
        rw [hlt]
        decide
      have hcap : x < saturationBound := (hgt _).mpr (by decide)
      have hlow : ¬ -saturationBound < x := by
        rw [hlt]
        decide
      rw [saturate_of_lt hnan hcap, if_neg hlow, if_neg hpos]

/-- **Making an input finite does not show once it is saturated**: the largest finite numbers lie beyond the bounds. -/
theorem saturate_finiteInput (x : Float) : saturate (finiteInput x) = saturate x := by
  unfold finiteInput
  by_cases hnan : x.isNaN = true
  · rw [if_pos hnan, saturate_of_isNaN hnan]
    decide
  · rw [if_neg hnan]
    by_cases hinf : x.isInf = true
    · rw [if_pos hinf, saturate_of_isInf hinf]
      by_cases hpos : 0.0 < x
      · rw [if_pos hpos, if_pos hpos]
        decide +kernel
      · rw [if_neg hpos, if_neg hpos]
        decide +kernel
    · rw [if_neg hinf]

namespace Registers

/-! ## Banks in range -/

/-- Every working register holds a number in range. -/
def InRange (r : Registers) : Prop := ∀ x ∈ r.values, Saturated x

variable {r : Registers}

theorem inRange_loaded {registers : Nat} {inputs : Array Float} :
    InRange ⟨Array.replicate registers 0.0, inputs⟩ := by
  intro x hx
  rw [Array.eq_of_mem_replicate hx]
  exact saturated_zero

/-- Writing what has been saturated keeps a bank in range. -/
theorem InRange.write {r' : Registers} {index : Int} {x : Float} (hr : r.InRange)
    (h : r.write index (saturate x) = .ok r') : r'.InRange := by
  unfold Registers.write at h
  split at h
  · obtain rfl := Except.ok.inj h
    intro y hy
    rcases Array.mem_or_eq_of_mem_setIfInBounds hy with hmem | rfl
    · exact hr y hmem
    · exact saturated_saturate x
  · exact nomatch h

/-! ## The greatest action registers -/

/-- `best` lists the indices, in ascending order, of those of the first `n` registers that no other one exceeds. -/
structure Greatest (r : Registers) (n : Int) (best : List Nat) : Prop where
  nonempty : best ≠ []
  ascending : best.Pairwise (· < ·)
  mem_iff : ∀ i : Nat, i ∈ best ↔ (i : Int) < n ∧ ∃ x, r.values[i]? = some x ∧
    ∀ (j : Nat) (y : Float), (j : Int) < n → r.values[j]? = some y → y ≤ x

/-- A register in range that is not listed is less than one that is: it would be as great, and so listed, otherwise. -/
theorem Greatest.lt_of_not_mem {r : Registers} {n : Int} {best : List Nat} {i j : Nat} {x y : Float} (hr : r.InRange)
    (h : r.Greatest n best) (hi : i ∈ best) (hx : r.values[i]? = some x) (hj : (j : Int) < n)
    (hy : r.values[j]? = some y) (hj' : j ∉ best) : y < x := by
  have hfinite {k : Nat} {z : Float} (hz : r.values[k]? = some z) : z.isFinite = true :=
    (hr z (Array.mem_of_getElem? hz)).isFinite
  obtain ⟨-, x', hx', hgreatest⟩ := (h.mem_iff i).mp hi
  obtain rfl : x = x' := Option.some.inj (hx.symm.trans hx')
  refine (not_le_iff_lt (hfinite hx) (hfinite hy)).mp fun hle => hj' ?_
  refine (h.mem_iff j).mpr ⟨hj, y, hy, fun k z hk hz => ?_⟩
  exact le_trans_of_finite (hfinite hz) (hfinite hx) (hfinite hy) (hgreatest k z hk hz) hle

theorem mem_indicesOf {best : Float} {xs : List Float} {i : Nat} :
    i ∈ indicesOf best xs ↔ ∃ x, xs[i]? = some x ∧ (x == best) = true := by
  simp [indicesOf, List.mem_zipIdx_iff_getElem?]

theorem indicesOf_ascending (best : Float) (xs : List Float) : (indicesOf best xs).Pairwise (· < ·) := by
  have hsublist : (indicesOf best xs).Sublist (xs.zipIdx.map Prod.snd) := List.filter_sublist.map _
  rw [List.zipIdx_map_snd] at hsublist
  exact (List.pairwise_lt_range' ..).sublist hsublist

/-- The greater of two finite numbers is one of them, and the other one does not exceed it. -/
theorem greater_of_finite {a b : Float} (ha : a.isFinite = true) (hb : b.isFinite = true) :
    (greater a b = a ∧ levelOf b ≤ levelOf a) ∨ (greater a b = b ∧ levelOf a ≤ levelOf b) := by
  have hchoice : greater a b = if a < b then b else a := by
    unfold greater
    rw [isNaN_of_finite ha, isNaN_of_finite hb]
    rfl
  rw [hchoice]
  by_cases hlt : a < b
  · rw [if_pos hlt]
    exact .inr ⟨rfl, Int.le_of_lt ((lt_iff_level ha hb).mp hlt)⟩
  · rw [if_neg hlt]
    exact .inl ⟨rfl, (le_iff_level hb ha).mp ((not_lt_iff_le ha hb).mp hlt)⟩

/-- Going through finite numbers from one of them, the greatest so far is one of those seen, and none of them exceeds
    it. -/
theorem foldl_greater {x : Float} {xs : List Float} (h : ∀ y ∈ x :: xs, y.isFinite = true) :
    xs.foldl greater x ∈ x :: xs ∧ ∀ y ∈ x :: xs, levelOf y ≤ levelOf (xs.foldl greater x) := by
  induction xs generalizing x with
  | nil => simp
  | cons y rest ih =>
      have hx := h x (List.mem_cons_self ..)
      have hy := h y (List.mem_cons_of_mem x (List.mem_cons_self ..))
      have hrest : ∀ z ∈ rest, z.isFinite = true := fun z hz =>
        h z (List.mem_cons_of_mem x (List.mem_cons_of_mem y hz))
      rw [List.foldl_cons]
      rcases greater_of_finite hx hy with ⟨hkeep, hle⟩ | ⟨htake, hle⟩
      · rw [hkeep]
        obtain ⟨hmem, hmax⟩ := ih (x := x) (List.forall_mem_cons.mpr ⟨hx, hrest⟩)
        have hhead := hmax x (List.mem_cons_self ..)
        refine ⟨List.cons_subset_cons x (List.subset_cons_self y rest) hmem, ?_⟩
        intro z hz
        rcases List.mem_cons.mp hz with rfl | hz
        · exact hhead
        · rcases List.mem_cons.mp hz with rfl | hz
          · exact Int.le_trans hle hhead
          · exact hmax z (List.mem_cons_of_mem x hz)
      · rw [htake]
        obtain ⟨hmem, hmax⟩ := ih (x := y) (List.forall_mem_cons.mpr ⟨hy, hrest⟩)
        refine ⟨List.mem_cons_of_mem x hmem, ?_⟩
        intro z hz
        rcases List.mem_cons.mp hz with rfl | hz
        · exact Int.le_trans hle (hmax y (List.mem_cons_self ..))
        · exact hmax z hz

/-- Where a list of finite numbers holds one that none of them exceeds, it holds what none of them exceeds. -/
theorem mem_indicesOf_greatest {best : Float} {xs : List Float} (hfinite : ∀ x ∈ xs, x.isFinite = true)
    (hbest : best ∈ xs) (hmax : ∀ x ∈ xs, levelOf x ≤ levelOf best) {i : Nat} :
    i ∈ indicesOf best xs ↔ ∃ x, xs[i]? = some x ∧ ∀ (j : Nat) (y : Float), xs[j]? = some y → y ≤ x := by
  rw [mem_indicesOf]
  refine exists_congr fun x => and_congr_right fun hx => ?_
  have hmem := List.mem_of_getElem? hx
  rw [beq_iff_level (hfinite x hmem) (hfinite best hbest)]
  constructor
  · intro hequal j y hy
    have hy := List.mem_of_getElem? hy
    rw [le_iff_level (hfinite y hy) (hfinite x hmem), hequal]
    exact hmax y hy
  · intro hgreatest
    obtain ⟨k, hk⟩ := List.getElem?_of_mem hbest
    have hle := (le_iff_level (hfinite best hbest) (hfinite x hmem)).mp (hgreatest k best hk)
    exact Int.le_antisymm (hmax x hmem) hle

theorem getElem?_actions {n : Int} (h0 : 0 ≤ n) {i : Nat} {x : Float} :
    (r.actions n)[i]? = some x ↔ (i : Int) < n ∧ r.values[i]? = some x := by
  unfold actions
  rw [if_pos h0, List.getElem?_take, Array.getElem?_toList]
  split
  · rename_i hlt
    simp only [iff_and_self]
    intro _
    omega
  · rename_i hge
    constructor
    · intro h
      exact nomatch h
    · rintro ⟨hlt, -⟩
      omega

theorem InRange.actions_finite {n : Int} (hr : r.InRange) (h0 : 0 ≤ n) : ∀ x ∈ r.actions n, x.isFinite = true := by
  intro x hx
  obtain ⟨i, hi⟩ := List.getElem?_of_mem hx
  exact (hr x (Array.mem_of_getElem? ((getElem?_actions h0).mp hi).2)).isFinite

/-- **The arguments of the maximum.** In a bank in range that has an action register they are the action registers that
    no other one exceeds. A value that is not a number would prevail in the maximum and equal no register. -/
theorem greatest_argmax {n : Int} (hr : r.InRange) (hpos : 1 ≤ n) (hsize : n ≤ r.values.size) :
    r.Greatest n (r.argmax n) := by
  have hget := @getElem?_actions r n (by omega)
  have hfinite := hr.actions_finite (n := n) (by omega)
  obtain ⟨x, xs, hactions⟩ : ∃ x xs, r.actions n = x :: xs := by
    rw [← List.ne_nil_iff_exists_cons]
    intro hnil
    have hfirst := (@hget 0 _).mpr ⟨by omega, Array.getElem?_eq_getElem (by omega)⟩
    rw [hnil] at hfirst
    exact nomatch hfirst
  have hargmax : r.argmax n = indicesOf (xs.foldl greater x) (r.actions n) := by
    unfold argmax
    rw [hactions]
  rw [hargmax]
  obtain ⟨hbest, hmax⟩ := foldl_greater (hactions ▸ hfinite)
  rw [← hactions] at hbest hmax
  have hmem := @mem_indicesOf_greatest _ _ hfinite hbest hmax
  refine ⟨?_, indicesOf_ascending .., fun i => ?_⟩
  · obtain ⟨i, hi⟩ := List.getElem?_of_mem hbest
    refine List.ne_nil_of_mem (hmem.mpr ⟨_, hi, fun j y hy => ?_⟩)
    have hy := List.mem_of_getElem? hy
    exact (le_iff_level (hfinite y hy) (hfinite _ hbest)).mpr (hmax y hy)
  · rw [hmem]
    simp only [hget, and_imp, and_assoc]
    constructor
    · rintro ⟨y, hi, hy, hgreatest⟩
      exact ⟨hi, y, hy, hgreatest⟩
    · rintro ⟨hi, y, hy, hgreatest⟩
      exact ⟨y, hi, hy, hgreatest⟩

end Registers

end RegisterEvolution
