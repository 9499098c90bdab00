import RegisterEvolution.Proofs.Value
import RegisterEvolution.Variation.Random

/-!
# `Proofs.Program.Validity` — what the construction rules ask for

The constructor looks for the first flaw of an instruction sequence. This module states what it accepts as a predicate,
and when a shape has something for every choice that random generation makes.

* `Instruction.Fits`, `Shape.Fits` — instructions and sequences without a flaw;
* `Instruction.Writable` — instructions whose indices are short enough for a text;
* `Shape.flaw?_eq_none_iff` — the constructor accepts exactly these;
* `Shape.Usable` — a shape whose sizes are known and positive, with room for the actions and with known operations.
-/

namespace RegisterEvolution

theorem inBank_iff {index size : Int} : inBank index size = true ↔ 0 ≤ index ∧ index < size := by
  simp [inBank]

theorem BankSizes.destinations_le {sizes : BankSizes} (h : sizes.actions ≤ sizes.registers) (kind : OpKind) :
    sizes.destinations kind ≤ sizes.registers := by
  unfold destinations
  split
  · exact h
  · exact Int.le_refl _

/-! ## Instructions -/

namespace Instruction

/-- The operand is there: an index inside the bank that the mode names, or a constant. In the latter case the index can
    be written out at least. -/
def OperandFits (sizes : BankSizes) (i : Instruction) : Prop :=
  match i.mode with
  | .internal => 0 ≤ i.source ∧ i.source < sizes.registers
  | .external => 0 ≤ i.source ∧ i.source < sizes.inputs
  | .constant => (∃ c, i.constant = some c) ∧ (Value.int i.source).isWritable = true
  | .other _ => False

/-- An instruction that a program of the given shape may hold. -/
structure Fits (shape : Shape) (sizes : BankSizes) (i : Instruction) : Prop where
  operation : ∃ op, i.operation? = some op ∧ 0 ≤ i.destination ∧ i.destination < sizes.destinations op.kind
  allowed : shape.allows i.opcode = true
  short : i.destination < sizes.registers ∨ (Value.int i.destination).isWritable = true
  operand : i.OperandFits sizes

/-- The indices of an instruction can be written out, which texts that show the instruction take. -/
structure Writable (i : Instruction) : Prop where
  destination : (Value.int i.destination).isWritable = true
  source : (Value.int i.source).isWritable = true

variable {shape : Shape} {sizes : BankSizes} {i : Instruction}

theorem operandFlaw?_eq_none_iff : i.operandFlaw? sizes = none ↔ i.OperandFits sizes := by
  unfold operandFlaw? OperandFits
  cases i.mode with
  | internal => simp [inBank_iff]
  | external => simp [inBank_iff]
  | constant =>
      rw [← Option.ne_none_iff_exists']
      by_cases hc : i.constant = none <;> simp [hc]
  | other name => simp

/-- An instruction has no flaw exactly when it fits. -/
theorem flaw?_eq_none_iff : i.flaw? shape sizes = none ↔ i.Fits shape sizes := by
  unfold flaw?
  cases hop : i.operation? with
  | none =>
      constructor
      · intro h
        simp at h
      · intro h
        obtain ⟨op, hop', -⟩ := h.operation
        simp [hop] at hop'
  | some op =>
      constructor
      · intro h
        simp only [Bool.not_eq_eq_eq_not, Bool.not_true] at h
        split at h
        · simp at h
        · split at h
          · simp at h
          · rename_i hallowed hdestination
            rw [Bool.not_eq_false, inBank_iff] at hdestination
            split at h
            · simp at h
            · rename_i hshort
              have hshort : i.destination < sizes.registers ∨ (Value.int i.destination).isWritable = true := by
                simpa [inBank, hdestination.1, Decidable.or_iff_not_imp_left] using hshort
              exact ⟨⟨op, hop, hdestination⟩, by simpa using hallowed, hshort, operandFlaw?_eq_none_iff.mp h⟩
      · rintro ⟨⟨op', hop', hdestination⟩, hallowed, hshort, hoperand⟩
        obtain rfl : op = op' := by rw [hop] at hop'; exact Option.some.inj hop'
        have hshort : inBank i.destination sizes.registers = false →
            (Value.int i.destination).isWritable = true := by
          intro houtside
          exact hshort.resolve_left (by simpa [inBank, hdestination.1] using houtside)
        simpa [hallowed, inBank_iff.mpr hdestination, operandFlaw?_eq_none_iff.mpr hoperand] using hshort

theorem Fits.exists_operation (h : i.Fits shape sizes) : ∃ op, i.operation? = some op := by
  obtain ⟨op, hop, -⟩ := h.operation
  exact ⟨op, hop⟩

theorem Writable.of_small (hdestination : i.destination.natAbs < 1000) (hsource : i.source.natAbs < 1000) :
    i.Writable := ⟨Value.isWritable_small hdestination, Value.isWritable_small hsource⟩

/-- What fits can be written out if the banks are not too large for that. -/
theorem Fits.writable (h : i.Fits shape sizes) (hregisters : (Value.int sizes.registers).isWritable = true)
    (hinputs : (Value.int sizes.inputs).isWritable = true) : i.Writable := by
  obtain ⟨⟨op, hop, hlow, hhigh⟩, hallowed, hshort, hoperand⟩ := h
  constructor
  · rcases hshort with hregister | hwritable
    · exact Value.isWritable_of_le hlow (Int.le_of_lt hregister) hregisters
    · exact hwritable
  · unfold OperandFits at hoperand
    split at hoperand
    · exact Value.isWritable_of_le hoperand.1 (Int.le_of_lt hoperand.2) hregisters
    · exact Value.isWritable_of_le hoperand.1 (Int.le_of_lt hoperand.2) hinputs
    · exact hoperand.2
    · exact hoperand.elim

end Instruction

/-! ## Instruction sequences -/

namespace Shape

/-- An instruction sequence that a program of the shape may consist of. -/
structure Fits (shape : Shape) (sizes : BankSizes) (code : List Instruction) : Prop where
  nonempty : 1 ≤ code.length
  length_le : (code.length : Int) ≤ shape.maxInstructions
  each : ∀ i ∈ code, i.Fits shape sizes

variable {shape : Shape} {sizes : BankSizes} {code : List Instruction}

theorem firstFlaw?_eq_none_iff {index : Nat} :
    shape.firstFlaw? sizes index code = none ↔ ∀ i ∈ code, i.Fits shape sizes := by
  induction code generalizing index with
  | nil => simp [firstFlaw?]
  | cons i rest ih =>
      unfold firstFlaw?
      rw [List.forall_mem_cons, ← Instruction.flaw?_eq_none_iff]
      cases hi : i.flaw? shape sizes with
      | none => simpa using ih
      | some flaw => simp

/-- **The constructor accepts exactly the sequences that fit**, once the sizes of the banks are known. -/
theorem flaw?_eq_none_iff :
    shape.flaw? code = none ↔ ∃ sizes, shape.sizes? = some sizes ∧ shape.Fits sizes code := by
  unfold flaw?
  cases hsizes : shape.sizes? with
  | none => simp
  | some sizes =>
      have hfits : shape.Fits sizes code ↔
          (1 ≤ code.length ∧ (code.length : Int) ≤ shape.maxInstructions) ∧ ∀ i ∈ code, i.Fits shape sizes :=
        ⟨fun h => ⟨⟨h.nonempty, h.length_le⟩, h.each⟩, fun h => ⟨h.1.1, h.1.2, h.2⟩⟩
      by_cases hlength : 1 ≤ code.length ∧ (code.length : Int) ≤ shape.maxInstructions
      · simp [hlength, firstFlaw?_eq_none_iff, hfits]
      · simp [hlength, hfits]

theorem Fits.flaw?_eq_none (hsizes : shape.sizes? = some sizes) (h : shape.Fits sizes code) :
    shape.flaw? code = none := flaw?_eq_none_iff.mpr ⟨sizes, hsizes, h⟩

theorem fits_of_flaw?_eq_none (hsizes : shape.sizes? = some sizes) (h : shape.flaw? code = none) :
    shape.Fits sizes code := by
  obtain ⟨sizes', hsizes', hfits⟩ := flaw?_eq_none_iff.mp h
  obtain rfl : sizes = sizes' := by rw [hsizes] at hsizes'; exact Option.some.inj hsizes'
  exact hfits

/-- The names on offer are those that the shape allows. -/
theorem allows_iff {name : String} {op : Opcode} (hop : Opcode.ofName? name = some op) :
    shape.allows name = true ↔ name ∈ shape.opcodeNames := by
  unfold allows opcodeNames
  cases hn : shape.opcodes with
  | some names => simp
  | none =>
      have hmem : name ∈ Opcode.all.map Opcode.name := by
        have hname := List.find?_some hop
        exact List.mem_map.mpr ⟨op, Opcode.mem_all op, by simpa using hname⟩
      simpa using hmem

/-! ## Usable shapes -/

/-- A shape that is bound to a task and leaves a choice wherever random generation draws one. -/
structure Usable (shape : Shape) (sizes : BankSizes) : Prop where
  bound : shape.sizes? = some sizes
  limit_pos : 1 ≤ shape.maxInstructions
  inputs_pos : 1 ≤ sizes.inputs
  actions_pos : 1 ≤ sizes.actions
  room : sizes.actions ≤ sizes.registers
  names_ne_nil : shape.opcodeNames ≠ []
  known : ∀ name ∈ shape.opcodeNames, ∃ op, Opcode.ofName? name = some op

namespace Usable

theorem registers_pos (h : shape.Usable sizes) : 1 ≤ sizes.registers := Int.le_trans h.actions_pos h.room

theorem counts (h : shape.Usable sizes) :
    shape.registerCount = some sizes.registers ∧ shape.inputCount = some sizes.inputs ∧
      shape.actionCount = some sizes.actions := by
  have hb := h.bound
  unfold sizes? at hb
  split at hb
  · rename_i hr hi ha
    obtain rfl := Option.some.inj hb
    exact ⟨hr, hi, ha⟩
  · simp at hb

/-- Whatever may be written is a register. -/
theorem lt_registers (h : shape.Usable sizes) {kind : OpKind} {n : Int} (hn : n < sizes.destinations kind) :
    n < sizes.registers := Int.lt_of_lt_of_le hn (BankSizes.destinations_le h.room kind)

theorem destinations_pos (h : shape.Usable sizes) (kind : OpKind) : 1 ≤ sizes.destinations kind := by
  unfold BankSizes.destinations
  split
  · exact h.actions_pos
  · exact h.registers_pos

theorem destinationCount (h : shape.Usable sizes) (kind : OpKind) :
    shape.destinationCount kind = some (sizes.destinations kind) := by
  obtain ⟨hr, -, ha⟩ := h.counts
  unfold Shape.destinationCount BankSizes.destinations
  split
  · exact ha
  · exact hr

end Usable

end Shape

end RegisterEvolution
