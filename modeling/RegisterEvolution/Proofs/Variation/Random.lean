import RegisterEvolution.Proofs.Draw.Choices
import RegisterEvolution.Proofs.Program.Validity

/-!
# `Proofs.Variation.Random` — random instructions fit

For a usable shape no random choice has an empty range, so drawing never fails, and every index drawn lies in its bank.

* `randomOperand_yields`, `randomDestination_yields` — the parts of a random instruction;
* `randomInstruction_yields` — a random instruction fits;
* `randomCode_yields` — a random sequence fits.
-/

namespace RegisterEvolution

theorem kindOf_yields {γ : Type} {name : String} {op : Opcode} (hop : Opcode.ofName? name = some op) :
    Yields (kindOf name : Draw γ OpKind) (· = op.kind) := by
  unfold kindOf Shape.lookUp
  rw [hop]
  exact .pure rfl

variable {γ : Type} [Generator γ] [Generator.Honest γ] {shape : Shape} {sizes : BankSizes}

/-- An operand that is there, whatever instruction it belongs to. -/
def Operand.Fits (sizes : BankSizes) (o : Operand) : Prop := ∀ i : Instruction, (i.withOperand o).OperandFits sizes

theorem randomOperand_yields (h : shape.Usable sizes) :
    Yields (randomOperand shape : Draw γ Operand) (Operand.Fits sizes) := by
  obtain ⟨hregisters, hinputs, -⟩ := h.counts
  unfold randomOperand
  rw [hregisters, hinputs]
  apply Draw.fraction_yields.bind
  intro x _
  split
  · exact Draw.uniform_yields.bind fun c _ => .pure fun i => ⟨⟨c, rfl⟩, Value.isWritable_zero⟩
  · apply Draw.fraction_yields.bind
    intro y _
    split
    · exact (Draw.belowKnown_yields h.inputs_pos).bind fun n hn => .pure fun i => hn
    · exact (Draw.belowKnown_yields h.registers_pos).bind fun n hn => .pure fun i => hn

theorem randomDestination_yields (h : shape.Usable sizes) (kind : OpKind) :
    Yields (randomDestination shape kind : Draw γ Int) fun n => 0 ≤ n ∧ n < sizes.destinations kind := by
  unfold randomDestination
  rw [h.destinationCount kind]
  exact Draw.belowKnown_yields (h.destinations_pos kind)

/-- A random instruction fits the shape it is drawn for. -/
theorem randomInstruction_yields (h : shape.Usable sizes) :
    Yields (randomInstruction shape : Draw γ Instruction) (Instruction.Fits shape sizes) := by
  apply (Draw.element_yields h.names_ne_nil).bind
  intro name hname
  obtain ⟨op, hop⟩ := h.known name hname
  apply (kindOf_yields hop).bind
  intro kind hkind
  subst hkind
  apply (randomDestination_yields h op.kind).bind
  intro destination hdestination
  refine (randomOperand_yields h).bind fun operand hoperand => .pure ?_
  exact ⟨⟨op, hop, hdestination⟩, (Shape.allows_iff hop).mpr hname, .inl (h.lt_registers hdestination.2),
    hoperand ⟨name, destination, operand.source, operand.mode, operand.constant⟩⟩

theorem randomInstructions_yields (h : shape.Usable sizes) (count : Nat) :
    Yields (randomInstructions shape count : Draw γ (List Instruction)) fun code =>
      code.length = count ∧ ∀ i ∈ code, i.Fits shape sizes := by
  induction count with
  | zero => exact .pure ⟨rfl, List.forall_mem_nil _⟩
  | succ count ih =>
      refine (randomInstruction_yields h).bind fun i hi => ih.bind fun rest hrest => .pure ⟨?_, ?_⟩
      · rw [List.length_cons, hrest.1]
      · rw [List.forall_mem_cons]
        exact ⟨hi, hrest.2⟩

/-- **A random sequence fits the shape it is drawn for.** -/
theorem randomCode_yields (h : shape.Usable sizes) :
    Yields (randomCode shape : Draw γ (List Instruction)) (shape.Fits sizes) := by
  have hlimit := h.limit_pos
  apply (Draw.integers_yields (by omega)).bind
  intro n hn
  apply (randomInstructions_yields h n.toNat).imp
  intro code hcode
  exact ⟨by omega, by omega, hcode.2⟩

end RegisterEvolution
