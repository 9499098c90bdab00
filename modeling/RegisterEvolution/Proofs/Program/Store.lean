import RegisterEvolution.Program.Store
import RegisterEvolution.Proofs.Outcome
import RegisterEvolution.Proofs.Program.Validity

/-!
# `Proofs.Program.Store` — how the store changes

Constructions append to the store and leave every entry as it is; scoring overwrites the fitness or the banks of an
entry that exists. Both kinds of change are stated through `Store.cell?`, so that nothing else needs to look at the
array.

* `Store.Extends` — a store with more numbers used up, and nothing else changed;
* `Store.Retains` — a store in which no fitness has been lost or changed;
* `Store.construct_ends`, `Store.construct_of_fits` — what a construction comes to, and that it succeeds for what fits;
* `Store.fitnessAt`, `Store.cell?_modifyCell` — entries by number, before and after a change.
-/

namespace RegisterEvolution

namespace Store

/-! ## Entries by number -/

/-- The fitness recorded under a number. -/
def fitnessAt (s : Store) (id : Nat) : Option Float := (s.cell? id).bind (·.fitness)

theorem fitness_eq (s : Store) (p : Program) : s.fitness p = s.fitnessAt p.id := rfl

theorem fitnessAt_eq {s : Store} {id : Nat} {c : Cell} (h : s.cell? id = some c) : s.fitnessAt id = c.fitness := by
  unfold fitnessAt
  rw [h]
  rfl

theorem exists_cell_of_fitnessAt {s : Store} {id : Nat} {x : Float} (h : s.fitnessAt id = some x) :
    ∃ c, s.cell? id = some c ∧ c.fitness = some x := by
  unfold fitnessAt at h
  exact Option.bind_eq_some_iff.mp h

/-- Only numbers that have been used up have entries. -/
theorem lt_nextId {s : Store} {id : Nat} {c : Cell} (h : s.cell? id = some c) : id < s.nextId := by
  apply Classical.byContradiction
  intro hge
  unfold cell? at h
  rw [Array.getElem?_eq_none (Nat.le_of_not_lt hge)] at h
  exact nomatch h

theorem cell?_modifyCell (s : Store) (id : Nat) (f : Cell → Cell) (id' : Nat) :
    (s.modifyCell id f).cell? id' = if id = id' then (s.cell? id').map f else s.cell? id' := by
  unfold modifyCell cell?
  simp only [Array.getElem?_modify]
  by_cases h : id = id'
  · rw [if_pos h, if_pos h]
    cases s.cells[id']? with
    | none => rfl
    | some c => cases c <;> rfl
  · rw [if_neg h, if_neg h]

@[simp] theorem nextId_modifyCell (s : Store) (id : Nat) (f : Cell → Cell) : (s.modifyCell id f).nextId = s.nextId := by
  simp [nextId, modifyCell]

/-! ## Scores and banks written down -/

theorem cell?_setFitness (s : Store) (p : Program) (x : Option Float) (id : Nat) :
    (s.setFitness p x).cell? id =
      if p.id = id then (s.cell? id).map fun c => { c with fitness := x } else s.cell? id :=
  cell?_modifyCell s p.id _ id

theorem cell?_setRegisters (s : Store) (p : Program) (r : Registers) (id : Nat) :
    (s.setRegisters p r).cell? id =
      if p.id = id then (s.cell? id).map fun c => { c with registers := r } else s.cell? id :=
  cell?_modifyCell s p.id _ id

@[simp] theorem nextId_setFitness (s : Store) (p : Program) (x : Option Float) : (s.setFitness p x).nextId = s.nextId :=
  nextId_modifyCell s p.id _

@[simp] theorem nextId_setRegisters (s : Store) (p : Program) (r : Registers) :
    (s.setRegisters p r).nextId = s.nextId := nextId_modifyCell s p.id _

/-- A written score is found again, and every other one is as it was. -/
theorem fitnessAt_setFitness {s : Store} {p : Program} {c : Cell} (h : s.cell? p.id = some c) (x : Option Float)
    (id : Nat) : (s.setFitness p x).fitnessAt id = if p.id = id then x else s.fitnessAt id := by
  unfold fitnessAt
  rw [cell?_setFitness]
  by_cases hid : p.id = id
  · rw [if_pos hid, if_pos hid, ← hid, h]
    rfl
  · rw [if_neg hid, if_neg hid]

theorem fitnessAt_setRegisters (s : Store) (p : Program) (r : Registers) (id : Nat) :
    (s.setRegisters p r).fitnessAt id = s.fitnessAt id := by
  unfold fitnessAt
  rw [cell?_setRegisters]
  split
  · cases s.cell? id <;> rfl
  · rfl

theorem registers_eq {s : Store} {p : Program} {c : Cell} (h : s.cell? p.id = some c) :
    s.registers p = c.registers := by
  unfold registers
  rw [h]
  rfl

/-! ## Growth -/

/-- A store in which more numbers have been used up, and nothing else has changed. -/
structure Extends (s s' : Store) : Prop where
  nextId_le : s.nextId ≤ s'.nextId
  cell?_eq : ∀ id, id < s.nextId → s'.cell? id = s.cell? id

namespace Extends

variable {s s' s'' : Store}

theorem refl (s : Store) : s.Extends s := ⟨Nat.le_refl _, fun _ _ => rfl⟩

theorem trans (h : s.Extends s') (h' : s'.Extends s'') : s.Extends s'' :=
  ⟨Nat.le_trans h.nextId_le h'.nextId_le, fun id hid => by
    rw [h'.cell?_eq id (Nat.lt_of_lt_of_le hid h.nextId_le), h.cell?_eq id hid]⟩

theorem fitnessAt_eq (h : s.Extends s') {id : Nat} (hid : id < s.nextId) : s'.fitnessAt id = s.fitnessAt id := by
  unfold fitnessAt
  rw [h.cell?_eq id hid]

/-- Entries stay. -/
theorem cell?_some (h : s.Extends s') {id : Nat} {c : Cell} (hc : s.cell? id = some c) : s'.cell? id = some c := by
  rw [h.cell?_eq id (lt_nextId hc), hc]

theorem fitnessAt_some (h : s.Extends s') {id : Nat} {x : Float} (hx : s.fitnessAt id = some x) :
    s'.fitnessAt id = some x := by
  obtain ⟨c, hc, -⟩ := exists_cell_of_fitnessAt hx
  rw [h.fitnessAt_eq (lt_nextId hc), hx]

end Extends

/-! ## Scores that stay -/

/-- Every fitness that has been written down in `s` is in `s'` as well. -/
def Retains (s s' : Store) : Prop := ∀ id x, s.fitnessAt id = some x → s'.fitnessAt id = some x

namespace Retains

variable {s s' s'' : Store}

theorem refl (s : Store) : s.Retains s := fun _ _ => id

theorem trans (h : s.Retains s') (h' : s'.Retains s'') : s.Retains s'' := fun id x hx => h' id x (h id x hx)

end Retains

theorem Extends.retains {s s' : Store} (h : s.Extends s') : s.Retains s' := fun _ _ => h.fitnessAt_some

/-! ## Constructions -/

@[simp]
theorem nextId_push (s : Store) (c : Option Cell) : nextId ⟨s.cells.push c⟩ = s.nextId + 1 := Array.size_push c

theorem cell?_push (s : Store) (c : Option Cell) : cell? ⟨s.cells.push c⟩ s.nextId = c := by
  unfold cell? nextId
  rw [Array.getElem?_push, if_pos rfl]
  rfl

/-- One more entry changes no other one. -/
theorem cell?_push_eq (s : Store) (c : Option Cell) (id : Nat) :
    cell? ⟨s.cells.push c⟩ id = if id = s.nextId then c else s.cell? id := by
  by_cases hid : id = s.nextId
  · rw [if_pos hid, hid, cell?_push]
  · rw [if_neg hid]
    unfold nextId at hid
    unfold cell?
    rw [Array.getElem?_push, if_neg hid]

theorem extends_push (s : Store) (c : Option Cell) : s.Extends ⟨s.cells.push c⟩ := by
  refine ⟨by simp, ?_⟩
  intro id hid
  rw [cell?_push_eq, if_neg (Nat.ne_of_lt hid)]

/-- **What a construction comes to**: a program without a flaw under the next number, on fresh banks, or an error; the
    number is used up in both cases. -/
theorem construct_ends (shape : Shape) (code : List Instruction) (fitness : Option Float) (s : Store) :
    Ends (fun p s' => s.Extends s' ∧ s'.nextId = s.nextId + 1 ∧ p = ⟨s.nextId, code, shape⟩ ∧
        shape.flaw? code = none ∧ ∃ r, freshRegisters shape = .ok r ∧ s'.cell? p.id = some ⟨fitness, r⟩)
      (fun _ s' => s.Extends s' ∧ s'.nextId = s.nextId + 1 ∧ s'.cell? s.nextId = none)
      (construct shape code fitness s) := by
  unfold construct
  -- the entry is appended before the outcome is known, so a failed construction has used up its number
  cases hflaw : shape.flaw? code with
  | some flaw => exact ⟨extends_push s none, nextId_push s none, cell?_push s none⟩
  | none =>
      simp only
      cases hfresh : freshRegisters shape with
      | error f => exact ⟨extends_push s none, nextId_push s none, cell?_push s none⟩
      | ok r =>
          exact ⟨extends_push s _, nextId_push s _, rfl, trivial, r, rfl, cell?_push s _⟩

/-- Instructions without a flaw are built wherever the banks can be set up. -/
theorem construct_of_flawless {shape : Shape} {code : List Instruction} (hflaw : shape.flaw? code = none)
    (hbanks : ∃ r, freshRegisters shape = .ok r) (fitness : Option Float) (s : Store) :
    ∃ s', construct shape code fitness s = .ok ⟨s.nextId, code, shape⟩ s' ∧ s.Extends s' ∧
      s'.nextId = s.nextId + 1 ∧ s'.fitnessAt s.nextId = fitness := by
  obtain ⟨r, hfresh⟩ := hbanks
  refine ⟨⟨s.cells.push (some ⟨fitness, r⟩)⟩, ?_, extends_push s _, nextId_push s _, fitnessAt_eq (cell?_push s _)⟩
  unfold construct
  rw [hflaw]
  simp only [hfresh]

/-- The banks of a usable shape can be set up. -/
theorem freshRegisters_ok {shape : Shape} {sizes : BankSizes} (h : shape.Usable sizes) :
    ∃ r, freshRegisters shape = .ok r := by
  have hregisters := h.registers_pos
  have hinputs := h.inputs_pos
  unfold freshRegisters
  rw [h.bound]
  simp only [Registers.zeros?]
  rw [if_neg (by omega)]
  exact ⟨_, rfl⟩

/-- Instructions that fit a usable shape are built, under the next number and with the given fitness. -/
theorem construct_of_fits {shape : Shape} {sizes : BankSizes} {code : List Instruction} (h : shape.Usable sizes)
    (hcode : shape.Fits sizes code) (fitness : Option Float) (s : Store) :
    ∃ s', construct shape code fitness s = .ok ⟨s.nextId, code, shape⟩ s' ∧ s.Extends s' ∧
      s'.fitnessAt s.nextId = fitness := by
  obtain ⟨s', hconstruct, hgrown, -, hfitness⟩ :=
    construct_of_flawless (hcode.flaw?_eq_none h.bound) (freshRegisters_ok h) fitness s
  exact ⟨s', hconstruct, hgrown, hfitness⟩

end Store

end RegisterEvolution
