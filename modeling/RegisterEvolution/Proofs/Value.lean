import Mathlib.Algebra.Group.Int.Defs
import Mathlib.Algebra.Group.Nat.Defs
import RegisterEvolution.Value

/-!
# `Proofs.Value` — values that can be written out

Messages, labels and texts quote values, and an integer of too many digits cannot be quoted. What makes a value fit to
be quoted is said here once: all the values in it are, and an integer is if it has few enough digits.
-/

namespace RegisterEvolution

namespace Value

@[simp] theorem areWritable_singleton (v : Value) : areWritable [v] = v.isWritable := by
  simp [areWritable]

theorem areWritable_iff {items : List Value} : areWritable items = true ↔ ∀ v ∈ items, v.isWritable = true := by
  induction items with
  | nil => simp [areWritable]
  | cons v rest ih => simp [areWritable, ih]

/-- The keys of a mapping that can be written out. -/
theorem areWritable_keys {entries : List (Value × Value)} (h : entriesWritable entries = true) :
    areWritable (entries.map (·.1)) = true := by
  induction entries with
  | nil => rfl
  | cons entry rest ih =>
      obtain ⟨key, value⟩ := entry
      rw [entriesWritable, Bool.and_eq_true, Bool.and_eq_true] at h
      rw [List.map_cons, areWritable, h.1.1, ih h.2]
      rfl

variable {m n : Int}

/-- An integer can be written out unless it has too many digits. -/
theorem isWritable_int : (int n).isWritable = true ↔ n.natAbs < 10 ^ Decimal.integerDigitLimit := by
  rw [isWritable]
  -- the power is not to be evaluated
  generalize Decimal.integerDigitLimit = limit
  exact decide_eq_true_iff

theorem isWritable_small (h : n.natAbs < 1000) : (int n).isWritable = true :=
  isWritable_int.mpr <|
    calc n.natAbs < 10 ^ 3 := h
      _ ≤ 10 ^ Decimal.integerDigitLimit := Nat.pow_le_pow_right (by decide) (by simp [Decimal.integerDigitLimit])

theorem isWritable_zero : (int 0).isWritable = true := isWritable_small (by decide)

/-- What counts up to an integer that can be written out can be written out as well. -/
theorem isWritable_of_le (h : 0 ≤ m) (hle : m ≤ n) (hn : (int n).isWritable = true) : (int m).isWritable = true := by
  rw [isWritable_int] at hn ⊢
  exact Nat.lt_of_le_of_lt (by omega) hn

/-- The least integer that is too long. -/
theorem isWritable_ten_pow : (int (10 ^ Decimal.integerDigitLimit)).isWritable = false := by
  rw [← Bool.not_eq_true, isWritable_int]
  generalize Decimal.integerDigitLimit = limit
  simp [Int.natAbs_pow]

end Value

end RegisterEvolution
