import RegisterEvolution.Machine.Vector

/-!
# `Proofs.Machine.Vector` — vectors of numbers

Inputs may be anything that can be read as numbers. Where they are numbers already, they are read as they are.

* `Value.extent_floats` — the extent of a list of numbers;
* `Value.toVector_floats` — the numbers that are read from it.
-/

namespace RegisterEvolution

namespace Value

/-- A list of numbers has one direction. -/
theorem extent_floats (xs : List Float) : (Value.list (xs.map .float)).extent = ⟨[xs.length], true⟩ := by
  have hitems : ∀ xs : List Float, extents (xs.map .float) = List.replicate xs.length ⟨[], true⟩ := by
    intro xs
    induction xs with
    | nil => rfl
    | cons x rest ih => simp [extents, extent, ih, List.replicate_succ]
  have hmeet : ∀ n : Nat, (List.replicate n ⟨[], true⟩).foldl Extent.meet ⟨[], true⟩ = ⟨[], true⟩ := by
    intro n
    induction n with
    | zero => rfl
    | succ n ih => simpa [List.replicate_succ, Extent.meet, commonPrefixOf] using ih
  cases xs with
  | nil => rfl
  | cons x rest => simp [extent, extents, hitems, hmeet]

/-- A list of numbers is read as these numbers. -/
theorem toVector_floats (xs : List Float) : (Value.list (xs.map .float)).toVector = .ok xs := by
  have hleaves : ∀ xs : List Float, leavesOf (xs.map .float) = xs.map .float := by
    intro xs
    induction xs with
    | nil => rfl
    | cons x rest ih => simp [leavesOf, leaves, ih]
  have hread : (xs.map Value.float).mapM toEntry = .ok xs := by
    induction xs with
    | nil => rfl
    | cons x rest ih =>
        rw [List.map_cons, List.mapM_cons, ih]
        rfl
  simp [toVector, extent_floats, leaves, hleaves, hread]

end Value

end RegisterEvolution
