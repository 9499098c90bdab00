import RegisterEvolution.Proofs.Program.Memory

/-!
# `Proofs.Tasks.Decision` — what a program decides in a state

A decision is an execution on the numbers in a state and the lowest of the greatest action registers after it. It does
not depend on what the banks held before, and the only states without a decision are those that cannot be read and those
of another number of numbers than there are inputs.

* `Registers.Lowest` — the lowest of the greatest action registers;
* `Program.Decides`, `Program.Refuses` — the action in a state, and the states without one;
* `chooseAction_ends` — a decision is made where the state allows it, and nothing else makes it fail.
-/

namespace RegisterEvolution

open Binary64

variable {shape : Shape} {sizes : BankSizes}

/-! ## The lowest of the greatest registers -/

namespace Registers

/-- `best` is an index below `n` at which no register is exceeded by those below `n`, and the first one of that kind. -/
structure Lowest (r : Registers) (n : Int) (best : Nat) : Prop where
  lt : (best : Int) < n
  greatest : ∃ x, r.values[best]? = some x ∧
    ∀ (j : Nat) (y : Float), (j : Int) < n → r.values[j]? = some y → y ≤ x ∧ (j < best → y < x)

/-- The first of the greatest registers is the lowest of them. -/
theorem Greatest.lowest {r : Registers} {n : Int} {best : Nat} {others : List Nat} (hr : r.InRange)
    (h : r.Greatest n (best :: others)) : r.Lowest n best := by
  have hmem : best ∈ best :: others := List.mem_cons_self ..
  obtain ⟨hlt, x, hx, hgreatest⟩ := (h.mem_iff best).mp hmem
  refine ⟨hlt, x, hx, fun j y hj hy => ⟨hgreatest j y hj hy, fun hbefore => ?_⟩⟩
  refine h.lt_of_not_mem hr hmem hx hj hy fun hlisted => ?_
  rcases List.mem_cons.mp hlisted with rfl | hother
  · exact absurd hbefore (Nat.lt_irrefl _)
  · have := List.rel_of_pairwise_cons h.ascending hother
    omega

end Registers

/-! ## Decisions -/

/-- A program decides for `action` in a state when that is the lowest of the greatest action registers after the program
    has been executed on the numbers in the state. -/
def Program.Decides (p : Program) (sizes : BankSizes) (state : Value) (action : Nat) : Prop :=
  ∃ xs banks, (Control.stateVector state).toVector = .ok xs ∧
    p.execute (some xs) (Registers.blank sizes) = .ok () banks ∧ banks.Lowest sizes.actions action

/-- The states in which a program fails to decide, with the errors: they cannot be read as numbers, or not as as many as
    there are inputs. -/
inductive BankSizes.Refuses (sizes : BankSizes) (state : Value) : Error → Prop where
  | unreadable {f : Fault} (h : (Control.stateVector state).toVector = .error f) : sizes.Refuses state (.fault f)
  | wrongLength {xs : List Float} (h : (Control.stateVector state).toVector = .ok xs)
      (hlength : (xs.length : Int) ≠ sizes.inputs) :
      sizes.Refuses state (.task (.wrongInputCount sizes.inputs.toNat xs.length))

namespace Control

variable {σ : Type} {p : Program} {state : Value} {b : Bench σ}

/-- A decision, read off the banks and the state only. -/
theorem chooseAction_eq (c : Control σ) (p : Program) (state : Value) (b : Bench σ) :
    c.chooseAction p state b =
      match (stateVector state).toVector with
      | .error f => .error (.fault f) b
      | .ok xs =>
        match p.execute (some xs) b.registers with
        | .error e r => .error e { b with registers := r }
        | .ok _ r =>
          match r.argmax c.actionCount with
          | best :: _ => .ok best { b with registers := r }
          | [] => .error (.fault Fault.indexOutOfRange) { b with registers := r } := by
  unfold chooseAction
  cases (stateVector state).toVector with
  | error f => rfl
  | ok xs =>
      simp only
      show EStateM.bind (Scoring.execute p (.list (xs.map .float))) _ b = _
      rw [EStateM.bind, Scoring.execute_eq, Program.executeFrom_floats]
      cases p.execute (some xs) b.registers with
      | error e r => rfl
      | ok u r =>
          simp only
          cases r.argmax c.actionCount with
          | nil => rfl
          | cons best others => rfl

/-- **A program without a flaw decides in every state of so many numbers as it has inputs**, and refuses the others. The
    banks keep their sizes and the world is left alone. -/
theorem chooseAction_ends (c : Control σ) (husable : p.shape.Usable sizes) (hfits : p.shape.Fits sizes p.code)
    (hc : c.actionCount = sizes.actions) (hb : b.registers.Fits sizes) :
    Ends (fun action b' => p.Decides sizes state action ∧ b'.registers.Fits sizes)
      (fun e b' => sizes.Refuses state e ∧ b'.registers.Fits sizes) (c.chooseAction p state b) := by
  rw [chooseAction_eq]
  cases hstate : (stateVector state).toVector with
  | error f => exact ⟨.unreadable hstate, hb⟩
  | ok xs =>
      have hexecute : p.execute (some xs) b.registers = p.execute (some xs) (Registers.blank sizes) := by
        rw [← Program.executeFrom_floats]
        exact Program.executeFrom_congr hb hb.blank
      simp only [hexecute]
      by_cases hlength : (xs.length : Int) = sizes.inputs
      · obtain ⟨banks, hbanks⟩ := Program.executeWith_ok .binary64 husable.room hfits hb.blank hlength
        obtain ⟨hkept, hrange, hgreatest⟩ := Program.ends_in_range husable hb.blank hlength hbanks
        obtain ⟨best, others, hargmax⟩ := List.ne_nil_iff_exists_cons.mp hgreatest.nonempty
        have hrun : p.execute (some xs) (Registers.blank sizes) = .ok () banks := hbanks
        rw [hargmax] at hgreatest
        simp only [hrun, hc, hargmax]
        exact ⟨⟨xs, banks, hstate, hrun, hgreatest.lowest hrange⟩, hkept⟩
      · have hrefused : p.execute (some xs) (Registers.blank sizes) =
            .error (.task (.wrongInputCount sizes.inputs.toNat xs.length)) (Registers.blank sizes) := by
          rw [← Program.executeFrom_floats]
          exact (Program.executeFrom_eq_task_iff hb.blank).mpr
            ⟨nofun, xs, Value.toVector_floats xs, hlength, rfl, rfl⟩
        simp only [hrefused]
        exact ⟨.wrongLength hstate hlength, hb.blank⟩

end Control

end RegisterEvolution
