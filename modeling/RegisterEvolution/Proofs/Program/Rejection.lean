import RegisterEvolution.Proofs.Program.Store
import RegisterEvolution.Settings.Check

/-!
# `Proofs.Program.Rejection` — where a construction stops

The constructor goes through the instructions in order and through the rules of each in order, and stops at the first
breach. `Validity` says what it accepts; this module says what it reports otherwise, of instructions that it can quote.

* `Instruction.Conforms` — the rules that an instruction has to keep;
* `Instruction.FirstBreach` — the first rule that it breaks: operation, destination, operand;
* `Shape.FirstOffence` — the first instruction of a sequence that breaks a rule, and that rule;
* `Shape.Refuses` — what is wrong with a sequence: its length, or else its first offence;
* `Store.construct_stops_at_first_offence` — construction accepts what conforms and reports the first offence of the
  rest, whatever comes after it.
-/

namespace RegisterEvolution

/-! ## Rules of one instruction -/

namespace Instruction

/-- The instruction names an operation that is registered and that the shape allows. -/
def Names (shape : Shape) (i : Instruction) (op : Opcode) : Prop :=
  i.operation? = some op ∧ shape.allows i.opcode = true

/-- The destination is one that operations of the given kind may write. -/
def Lands (sizes : BankSizes) (i : Instruction) (kind : OpKind) : Prop :=
  0 ≤ i.destination ∧ i.destination < sizes.destinations kind

/-- The operand is there: an index inside the bank that the mode names, or a constant. -/
def OperandConforms (sizes : BankSizes) (i : Instruction) : Prop :=
  match i.mode with
  | .internal => 0 ≤ i.source ∧ i.source < sizes.registers
  | .external => 0 ≤ i.source ∧ i.source < sizes.inputs
  | .constant => ∃ c, i.constant = some c
  | .other _ => False

/-- An instruction that keeps the rules of a shape. -/
structure Conforms (shape : Shape) (sizes : BankSizes) (i : Instruction) : Prop where
  operation : ∃ op, i.Names shape op ∧ i.Lands sizes op.kind
  operand : i.OperandConforms sizes

/-- How an operand can be missing: no such register, no such input, no constant, or no such mode. -/
inductive OperandBreach (sizes : BankSizes) (i : Instruction) : InstructionFlaw → Prop where
  | register (hmode : i.mode = .internal) (h : ¬(0 ≤ i.source ∧ i.source < sizes.registers)) :
      OperandBreach sizes i (.sourceOutside sizes.registers)
  | input (hmode : i.mode = .external) (h : ¬(0 ≤ i.source ∧ i.source < sizes.inputs)) :
      OperandBreach sizes i (.sourceOutside sizes.inputs)
  | constant (hmode : i.mode = .constant) (h : i.constant = none) : OperandBreach sizes i .constantMissing
  | mode {name : String} (hmode : i.mode = .other name) : OperandBreach sizes i .unknownMode

/-- The first rule that an instruction breaks. A rule is only looked at when the instruction keeps those before it. -/
inductive FirstBreach (shape : Shape) (sizes : BankSizes) (i : Instruction) : InstructionFlaw → Prop where
  | operation (h : ∀ op, ¬i.Names shape op) : FirstBreach shape sizes i .opcodeNotAllowed
  | destination {op : Opcode} (hop : i.Names shape op) (h : ¬i.Lands sizes op.kind) :
      FirstBreach shape sizes i (.destinationOutside (sizes.destinations op.kind))
  | operand {op : Opcode} {rule : InstructionFlaw} (hop : i.Names shape op) (hlands : i.Lands sizes op.kind)
      (h : i.OperandBreach sizes rule) : FirstBreach shape sizes i rule

variable {shape : Shape} {sizes : BankSizes} {i : Instruction} {rule : InstructionFlaw}

/-- What may be quoted fits exactly when it keeps the rules. -/
theorem Writable.fits_iff (h : i.Writable) : i.Fits shape sizes ↔ i.Conforms shape sizes := by
  have hoperand : i.OperandFits sizes ↔ i.OperandConforms sizes := by
    unfold OperandFits OperandConforms
    cases i.mode <;> simp [h.source]
  constructor
  · rintro ⟨⟨op, hop, hlands⟩, hallowed, -, hfits⟩
    exact ⟨⟨op, ⟨hop, hallowed⟩, hlands⟩, hoperand.mp hfits⟩
  · rintro ⟨⟨op, hnames, hlands⟩, hconforms⟩
    exact ⟨⟨op, hnames.1, hlands⟩, hnames.2, .inr h.destination, hoperand.mpr hconforms⟩

theorem OperandBreach.operandFlaw?_eq (h : i.OperandBreach sizes rule) : i.operandFlaw? sizes = some rule := by
  unfold operandFlaw?
  cases h with
  | register hmode h => rw [hmode]; exact if_neg (mt inBank_iff.mp h)
  | input hmode h => rw [hmode]; exact if_neg (mt inBank_iff.mp h)
  | constant hmode h => simp [hmode, h]
  | mode hmode => rw [hmode]

theorem operandBreach_of_not (h : ¬i.OperandConforms sizes) : ∃ rule, i.OperandBreach sizes rule := by
  unfold OperandConforms at h
  cases hmode : i.mode with
  | internal => exact ⟨_, .register hmode (by simpa [hmode] using h)⟩
  | external => exact ⟨_, .input hmode (by simpa [hmode] using h)⟩
  | constant => exact ⟨_, .constant hmode (by simpa [hmode, Option.eq_none_iff_forall_ne_some] using h)⟩
  | other name => exact ⟨_, .mode hmode⟩

theorem flaw?_of_not_names (h : ∀ op, ¬i.Names shape op) : i.flaw? shape sizes = some .opcodeNotAllowed := by
  unfold flaw?
  cases hop : i.operation? with
  | none => rfl
  | some op =>
      have hallowed : shape.allows i.opcode = false := by
        simpa using fun hallowed => h op ⟨hop, hallowed⟩
      simp [hallowed]

theorem Writable.flaw?_of_names (hquotable : i.Writable) {op : Opcode} (hop : i.Names shape op) :
    i.flaw? shape sizes =
      if inBank i.destination (sizes.destinations op.kind) then i.operandFlaw? sizes
      else some (.destinationOutside (sizes.destinations op.kind)) := by
  unfold flaw?
  rw [hop.1]
  cases hbank : inBank i.destination (sizes.destinations op.kind) <;> simp [hop.2, hbank, hquotable.destination]

theorem FirstBreach.flaw?_eq (h : i.FirstBreach shape sizes rule) (hquotable : i.Writable) :
    i.flaw? shape sizes = some rule := by
  cases h with
  | operation h => exact flaw?_of_not_names h
  | destination hop h => rw [hquotable.flaw?_of_names hop, if_neg (mt inBank_iff.mp h)]
  | operand hop hlands h =>
      rw [hquotable.flaw?_of_names hop, if_pos (inBank_iff.mpr hlands), h.operandFlaw?_eq]

/-- An instruction that does not conform has a first rule that it breaks. -/
theorem firstBreach_of_not_conforms (h : ¬i.Conforms shape sizes) : ∃ rule, i.FirstBreach shape sizes rule := by
  by_cases hnames : ∃ op, i.Names shape op
  · obtain ⟨op, hop⟩ := hnames
    by_cases hlands : i.Lands sizes op.kind
    · have hoperand : ¬i.OperandConforms sizes := fun hoperand => h ⟨⟨op, hop, hlands⟩, hoperand⟩
      obtain ⟨rule, hrule⟩ := operandBreach_of_not hoperand
      exact ⟨rule, .operand hop hlands hrule⟩
    · exact ⟨_, .destination hop hlands⟩
  · exact ⟨_, .operation fun op hop => hnames ⟨op, hop⟩⟩

/-- The values that the wording of a breach quotes are counts. -/
theorem FirstBreach.quoted_writable (h : i.FirstBreach shape sizes rule)
    (hcounts : ∀ n ∈ [sizes.registers, sizes.inputs, sizes.actions], (Value.int n).isWritable = true) :
    Value.areWritable rule.quoted = true := by
  simp only [List.forall_mem_cons] at hcounts
  obtain ⟨hregisters, hinputs, hactions, -⟩ := hcounts
  cases h with
  | operation h => rfl
  | destination hop h =>
      show Value.areWritable [.int _] = true
      unfold BankSizes.destinations
      split <;> simp [hregisters, hactions]
  | operand hop hlands h =>
      cases h with
      | register hmode h => simpa [InstructionFlaw.quoted] using hregisters
      | input hmode h => simpa [InstructionFlaw.quoted] using hinputs
      | constant hmode h => rfl
      | mode hmode => rfl

end Instruction

/-! ## Sequences -/

namespace Shape

/-- A number of instructions that programs of the shape may have. -/
def FitsLength (shape : Shape) (length : Nat) : Prop := 1 ≤ length ∧ (length : Int) ≤ shape.maxInstructions

/-- The limits of the shape are short enough for the messages that quote them. -/
def Writable (shape : Shape) (sizes : BankSizes) : Prop :=
  ∀ n ∈ [shape.maxInstructions, sizes.registers, sizes.inputs, sizes.actions], (Value.int n).isWritable = true

/-- The instruction at `index` breaks `rule` first, and every instruction before it keeps all rules. -/
structure FirstOffence (shape : Shape) (sizes : BankSizes) (code : List Instruction) (index : Nat) (i : Instruction)
    (rule : InstructionFlaw) : Prop where
  at_index : code[index]? = some i
  before : ∀ j ∈ code.take index, j.Conforms shape sizes
  breach : i.FirstBreach shape sizes rule

/-- What is wrong with an instruction sequence: its length, and the first offence only if the length is right. -/
inductive Refuses (shape : Shape) (sizes : BankSizes) (code : List Instruction) : ProgramFlaw → Prop where
  | length (h : ¬shape.FitsLength code.length) :
      Refuses shape sizes code (.badLength code.length shape.maxInstructions)
  | instruction {index : Nat} {i : Instruction} {rule : InstructionFlaw} (hlength : shape.FitsLength code.length)
      (h : shape.FirstOffence sizes code index i rule) : Refuses shape sizes code (.badInstruction index i rule)

variable {shape : Shape} {sizes : BankSizes} {code front rest tail : List Instruction} {index : Nat} {i : Instruction}
  {rule : InstructionFlaw} {flaw : ProgramFlaw}

/-- What may be quoted fits exactly when its length does and every instruction keeps the rules. -/
theorem fits_iff (hquotable : ∀ i ∈ code, i.Writable) :
    shape.Fits sizes code ↔ shape.FitsLength code.length ∧ ∀ i ∈ code, i.Conforms shape sizes := by
  have heach : (∀ i ∈ code, i.Fits shape sizes) ↔ ∀ i ∈ code, i.Conforms shape sizes :=
    forall₂_congr fun i hi => (hquotable i hi).fits_iff
  rw [← heach]
  exact ⟨fun h => ⟨⟨h.nonempty, h.length_le⟩, h.each⟩, fun h => ⟨h.1.1, h.1.2, h.2⟩⟩

/-- The search passes over instructions that fit. -/
theorem firstFlaw?_append (hfront : ∀ j ∈ front, j.Fits shape sizes) :
    shape.firstFlaw? sizes index (front ++ rest) = shape.firstFlaw? sizes (index + front.length) rest := by
  induction front generalizing index with
  | nil => rfl
  | cons j front ih =>
      obtain ⟨hj, hfront⟩ := List.forall_mem_cons.mp hfront
      rw [List.cons_append, firstFlaw?, Instruction.flaw?_eq_none_iff.mpr hj, List.length_cons,
        Nat.add_comm front.length, ← Nat.add_assoc]
      exact ih hfront

namespace FirstOffence

/-- The sequence around its first offender. -/
theorem split (h : shape.FirstOffence sizes code index i rule) :
    (code.take index).length = index ∧ code = code.take index ++ i :: code.drop (index + 1) := by
  obtain ⟨hlt, rfl⟩ := List.getElem?_eq_some_iff.mp h.at_index
  refine ⟨List.length_take_of_le (Nat.le_of_lt hlt), ?_⟩
  rw [List.getElem_cons_drop, List.take_append_drop]

/-- The search finds the offender if nothing up to it is too long to be quoted. -/
theorem firstFlaw?_eq (h : shape.FirstOffence sizes code index i rule)
    (hquotable : ∀ j ∈ code.take (index + 1), j.Writable) :
    shape.firstFlaw? sizes 0 code = some (.badInstruction index i rule) := by
  obtain ⟨hlength, hcode⟩ := h.split
  have hupto : code.take (index + 1) = code.take index ++ [i] := by
    rw [List.take_add_one, h.at_index]
    rfl
  rw [hupto] at hquotable
  have hfront : ∀ j ∈ code.take index, j.Fits shape sizes := by
    intro j hj
    exact (hquotable j (List.mem_append_left _ hj)).fits_iff.mpr (h.before j hj)
  have hi : i.Writable := hquotable i (List.mem_append_right _ (List.mem_singleton_self i))
  rw [hcode, firstFlaw?_append hfront, hlength, Nat.zero_add, firstFlaw?, h.breach.flaw?_eq hi]

/-- **What follows the first offender does not matter.** -/
theorem replace (h : shape.FirstOffence sizes code index i rule) (tail : List Instruction) :
    (code.take (index + 1) ++ tail).take (index + 1) = code.take (index + 1) ∧
      shape.FirstOffence sizes (code.take (index + 1) ++ tail) index i rule := by
  obtain ⟨hlt, -⟩ := List.getElem?_eq_some_iff.mp h.at_index
  have hlength : (code.take (index + 1)).length = index + 1 := List.length_take_of_le hlt
  refine ⟨List.take_left' hlength, ?_, ?_, h.breach⟩
  · rw [List.getElem?_append_left (by omega), List.getElem?_take_of_lt (Nat.lt_succ_self index)]
    exact h.at_index
  · have htake : (code.take (index + 1) ++ tail).take index = code.take index := by
      rw [List.take_append_of_le_length (by omega), List.take_take, Nat.min_eq_left (Nat.le_succ index)]
    rw [htake]
    exact h.before

end FirstOffence

/-- A sequence in which not every instruction conforms has a first offender. -/
theorem exists_firstOffence (h : ¬∀ i ∈ code, i.Conforms shape sizes) :
    ∃ index i rule, shape.FirstOffence sizes code index i rule := by
  induction code with
  | nil => exact absurd (List.forall_mem_nil _) h
  | cons j rest ih =>
      by_cases hj : j.Conforms shape sizes
      · have hrest : ¬∀ i ∈ rest, i.Conforms shape sizes := fun hrest => h (List.forall_mem_cons.mpr ⟨hj, hrest⟩)
        obtain ⟨index, i, rule, hat, hbefore, hbreach⟩ := ih hrest
        exact ⟨index + 1, i, rule, hat, List.forall_mem_cons.mpr ⟨hj, hbefore⟩, hbreach⟩
      · obtain ⟨rule, hrule⟩ := Instruction.firstBreach_of_not_conforms hj
        exact ⟨0, j, rule, rfl, List.forall_mem_nil _, hrule⟩

/-- A sequence that breaks a rule is refused for some reason. -/
theorem exists_refuses (h : ¬(shape.FitsLength code.length ∧ ∀ i ∈ code, i.Conforms shape sizes)) :
    ∃ flaw, shape.Refuses sizes code flaw := by
  by_cases hlength : shape.FitsLength code.length
  · obtain ⟨index, i, rule, hfirst⟩ := exists_firstOffence fun heach => h ⟨hlength, heach⟩
    exact ⟨_, .instruction hlength hfirst⟩
  · exact ⟨_, .length hlength⟩

/-- The constructor finds the reason that the length is. -/
theorem flaw?_of_length (hsizes : shape.sizes? = some sizes) (h : ¬shape.FitsLength code.length) :
    shape.flaw? code = some (.badLength code.length shape.maxInstructions) := by
  unfold flaw?
  rw [hsizes]
  exact if_neg h

/-- The constructor finds the first offence. -/
theorem FirstOffence.flaw?_eq (hsizes : shape.sizes? = some sizes) (hlength : shape.FitsLength code.length)
    (h : shape.FirstOffence sizes code index i rule) (hquotable : ∀ j ∈ code.take (index + 1), j.Writable) :
    shape.flaw? code = some (.badInstruction index i rule) := by
  unfold flaw?
  rw [hsizes]
  exact (if_pos hlength).trans (h.firstFlaw?_eq hquotable)

end Shape

/-! ## Constructions -/

namespace Store

variable {shape : Shape} {sizes : BankSizes} {code : List Instruction} {index : Nat} {i : Instruction}
  {rule : InstructionFlaw}

/-- A flaw ends the construction; the number is used up and nothing else changes. -/
theorem construct_of_flaw {flaw : ProgramFlaw} (h : shape.flaw? code = some flaw) (fitness : Option Float) (s : Store) :
    construct shape code fitness s = .error (.ofProgram s.nextId flaw) ⟨s.cells.push none⟩ := by
  unfold construct
  rw [h]

/-- The first offence is reported, with the instruction, if nothing up to it is too long to be quoted. -/
theorem construct_of_firstOffence (hsizes : shape.sizes? = some sizes) (hwritable : shape.Writable sizes)
    (hlength : shape.FitsLength code.length) (hfirst : shape.FirstOffence sizes code index i rule)
    (hquotable : ∀ j ∈ code.take (index + 1), j.Writable) (fitness : Option Float) (s : Store) :
    construct shape code fitness s =
      .error (.program s.nextId (.badInstruction index i rule)) ⟨s.cells.push none⟩ := by
  have hi : i.Writable := hquotable i <| by
    rw [List.take_add_one, hfirst.at_index]
    exact List.mem_append_right _ (List.mem_singleton_self i)
  have hrule := hfirst.breach.quoted_writable fun n hn => hwritable n (List.mem_cons_of_mem _ hn)
  rw [construct_of_flaw (hfirst.flaw?_eq hsizes hlength hquotable)]
  simp [Error.ofProgram, ProgramFlaw.quoted, Value.areWritable, hi.destination, hi.source, hrule]

/-- An instruction that is too long to be quoted, after some that fit, ends the construction with a general fault. -/
theorem construct_of_unquotable (front : List Instruction) {rest : List Instruction}
    (hsizes : shape.sizes? = some sizes)
    (hwritable : shape.Writable sizes) (hlength : shape.FitsLength (front ++ i :: rest).length)
    (hfront : ∀ j ∈ front, j.Fits shape sizes) (hi : ¬i.Writable) (fitness : Option Float) (s : Store) :
    construct shape (front ++ i :: rest) fitness s = .error (.fault Fault.integerTooLong) ⟨s.cells.push none⟩ := by
  simp only [Shape.Writable, List.forall_mem_cons] at hwritable
  obtain ⟨-, hregisters, hinputs, -⟩ := hwritable
  have hflaw : ∃ rule, i.flaw? shape sizes = some rule := by
    rw [← Option.ne_none_iff_exists', ne_eq, Instruction.flaw?_eq_none_iff]
    exact fun hfits => hi (hfits.writable hregisters hinputs)
  obtain ⟨rule, hrule⟩ := hflaw
  have hcode : shape.flaw? (front ++ i :: rest) = some (.badInstruction (0 + front.length) i rule) := by
    unfold Shape.flaw?
    rw [hsizes]
    refine (if_pos hlength).trans ?_
    rw [Shape.firstFlaw?_append hfront, Shape.firstFlaw?, hrule]
  have hquoted : Value.areWritable (ProgramFlaw.badInstruction (0 + front.length) i rule).quoted = false := by
    rw [← Bool.not_eq_true, Value.areWritable_iff]
    intro hall
    simp only [ProgramFlaw.quoted, List.forall_mem_cons] at hall
    exact hi ⟨hall.1, hall.2.1⟩
  rw [construct_of_flaw hcode, Error.ofProgram, hquoted]
  rfl

/-- A sequence that breaks a rule is refused with an invariant violation. -/
theorem construct_of_refuses (hsizes : shape.sizes? = some sizes) (hwritable : shape.Writable sizes)
    (hquotable : ∀ i ∈ code, i.Writable) {flaw : ProgramFlaw} (h : shape.Refuses sizes code flaw)
    (fitness : Option Float) (s : Store) :
    construct shape code fitness s = .error (.program s.nextId flaw) ⟨s.cells.push none⟩ := by
  cases h with
  | length h =>
      rw [construct_of_flaw (Shape.flaw?_of_length hsizes h)]
      simp [Error.ofProgram, ProgramFlaw.quoted, hwritable _ (List.mem_cons_self ..)]
  | instruction hlength hfirst =>
      exact construct_of_firstOffence hsizes hwritable hlength hfirst
        (fun j hj => hquotable j (List.mem_of_mem_take hj)) fitness s

/--
**A construction stops at the first offence.** With positive counts and instructions that can be quoted, exactly the
sequences of a length within bounds in which every instruction keeps the rules become programs. Any other one is refused
with an invariant violation that uses up the number of the program: for its length if that is out of bounds, and else
for the least index whose instruction does not conform, with the first rule that this instruction breaks. Whatever is
put in the place of what follows that instruction, within the bounds of the length, the error stays the same.
-/
theorem construct_stops_at_first_offence (hsizes : shape.sizes? = some sizes) (hregisters : 0 < sizes.registers)
    (hinputs : 0 < sizes.inputs) (hwritable : shape.Writable sizes) (code : List Instruction)
    (hquotable : ∀ i ∈ code, i.Writable) (fitness : Option Float) (s : Store) :
    ((∃ p s', construct shape code fitness s = .ok p s') ↔
      shape.FitsLength code.length ∧ ∀ i ∈ code, i.Conforms shape sizes) ∧
    (¬(shape.FitsLength code.length ∧ ∀ i ∈ code, i.Conforms shape sizes) →
      ∃ flaw, construct shape code fitness s = .error (.program s.nextId flaw) ⟨s.cells.push none⟩ ∧
        (Error.program s.nextId flaw).name = "InvariantViolation" ∧ shape.Refuses sizes code flaw) ∧
    ∀ index i rule s', construct shape code fitness s = .error (.program s.nextId (.badInstruction index i rule)) s' →
      (Error.program s.nextId (.badInstruction index i rule)).message =
        "program " ++ toString s.nextId ++ ", instruction " ++ toString index ++ " (" ++ i.display ++ "): " ++
          rule.message ∧
      ∀ tail, shape.FitsLength (code.take (index + 1) ++ tail).length →
        construct shape (code.take (index + 1) ++ tail) fitness s =
          .error (.program s.nextId (.badInstruction index i rule)) s' := by
  have hbanks : ∃ r, freshRegisters shape = .ok r := by
    unfold freshRegisters
    rw [hsizes]
    exact ⟨_, if_neg (by omega)⟩
  have hbuilt : shape.FitsLength code.length ∧ (∀ i ∈ code, i.Conforms shape sizes) →
      ∃ p s', construct shape code fitness s = .ok p s' := by
    intro hrules
    have hfits : shape.Fits sizes code := (Shape.fits_iff hquotable).mpr hrules
    obtain ⟨s', hconstruct, -⟩ := construct_of_flawless (hfits.flaw?_eq_none hsizes) hbanks fitness s
    exact ⟨_, s', hconstruct⟩
  have hrefused : ∀ {flaw}, shape.Refuses sizes code flaw →
      construct shape code fitness s = .error (.program s.nextId flaw) ⟨s.cells.push none⟩ :=
    fun h => construct_of_refuses hsizes hwritable hquotable h fitness s
  refine ⟨⟨?_, hbuilt⟩, ?_, ?_⟩
  · rintro ⟨p, s', hconstruct⟩
    refine Classical.byContradiction fun hrules => ?_
    obtain ⟨flaw, hflaw⟩ := Shape.exists_refuses hrules
    rw [hrefused hflaw] at hconstruct
    cases hconstruct
  · intro hrules
    obtain ⟨flaw, hflaw⟩ := Shape.exists_refuses hrules
    exact ⟨flaw, hrefused hflaw, rfl, hflaw⟩
  · intro index i rule s' hconstruct
    refine ⟨rfl, fun tail htail => ?_⟩
    -- the error tells the offence, which does not depend on the tail
    have hrules : ¬(shape.FitsLength code.length ∧ ∀ i ∈ code, i.Conforms shape sizes) := by
      intro hrules
      obtain ⟨p, s'', hok⟩ := hbuilt hrules
      rw [hok] at hconstruct
      cases hconstruct
    obtain ⟨flaw, hflaw⟩ := Shape.exists_refuses hrules
    rw [hrefused hflaw] at hconstruct
    injection hconstruct with herror hstate
    injection herror with _ hkind
    subst hkind hstate
    cases hflaw with
    | instruction _ hfirst =>
        obtain ⟨htake, hfirst⟩ := hfirst.replace tail
        apply construct_of_firstOffence hsizes hwritable htail hfirst
        rw [htake]
        intro j hj
        exact hquotable j (List.mem_of_mem_take hj)

/-- A shape that allows nothing but additions. -/
def additiveShape : Shape := ⟨4, some 3, some 2, some 2, some ["add"], 0.1, 0.5, 10.0, .single⟩

theorem additiveShape_writable : additiveShape.Writable ⟨3, 2, 2⟩ := by
  intro n hn
  apply Value.isWritable_small
  simp only [additiveShape, List.mem_cons, List.not_mem_nil, or_false] at hn
  omega

/-- The constant is accepted although its source is no register; the input after it is not there, and it does not matter
    that a product follows. -/
theorem construct_stops_at_missing_input :
    construct additiveShape
        [⟨"add", 0, 7, .constant, some 1.0⟩, ⟨"add", 0, 2, .external, none⟩, ⟨"mul", 9, 0, .internal, none⟩] none
        .empty =
      .error (.program 0 (.badInstruction 1 ⟨"add", 0, 2, .external, none⟩ (.sourceOutside 2))) ⟨#[none]⟩ ∧
    construct additiveShape
        [⟨"add", 0, 7, .constant, some 1.0⟩, ⟨"add", 0, 2, .external, none⟩, ⟨"add", 2, 1, .internal, none⟩] none
        .empty =
      .error (.program 0 (.badInstruction 1 ⟨"add", 0, 2, .external, none⟩ (.sourceOutside 2))) ⟨#[none]⟩ := by
  have hquotable : ∀ i ∈ ([⟨"add", 0, 7, .constant, some 1.0⟩, ⟨"add", 0, 2, .external, none⟩,
      ⟨"mul", 9, 0, .internal, none⟩] : List Instruction), i.Writable := by
    simp only [List.forall_mem_cons]
    exact ⟨.of_small (by decide) (by decide), .of_small (by decide) (by decide),
      .of_small (by decide) (by decide), List.forall_mem_nil _⟩
  have hsizes : additiveShape.sizes? = some ⟨3, 2, 2⟩ := rfl
  obtain ⟨-, -, hreplaced⟩ := construct_stops_at_first_offence hsizes (by decide) (by decide)
    additiveShape_writable _ hquotable none .empty
  have hoffence : additiveShape.FirstOffence ⟨3, 2, 2⟩
      [⟨"add", 0, 7, .constant, some 1.0⟩, ⟨"add", 0, 2, .external, none⟩, ⟨"mul", 9, 0, .internal, none⟩] 1
      ⟨"add", 0, 2, .external, none⟩ (.sourceOutside 2) := by
    refine ⟨rfl, List.forall_mem_singleton.mpr ?_, ?_⟩
    · exact ⟨⟨.add, ⟨rfl, rfl⟩, by decide, by decide⟩, ⟨1.0, rfl⟩⟩
    · have hnames : Instruction.Names additiveShape ⟨"add", 0, 2, .external, none⟩ .add := ⟨rfl, rfl⟩
      exact .operand hnames ⟨by decide, by decide⟩ (.input rfl (by decide))
  have hfirst := construct_of_refuses hsizes additiveShape_writable hquotable
    (.instruction ⟨by decide, by decide⟩ hoffence) none .empty
  obtain ⟨-, htail⟩ := hreplaced 1 _ (.sourceOutside 2) _ hfirst
  exact ⟨hfirst, htail [⟨"add", 2, 1, .internal, none⟩] ⟨by decide, by decide⟩⟩

/-- Not everything that keeps the rules becomes a program. An allowed operation does not help if the other operations on
    offer cannot be looked up, and neither does a constant whose source, which nothing is read from, is too long to be
    quoted. In the same way a destination that is too long is not reported as one outside the registers. -/
theorem construct_cannot_quote :
    ({ registerCount := .int 3, inputCount := .int 2, actionCount := .int 2, opcodes := .list [.text "add", .map []] } :
        ProgramSettings).shape.map (fun _ => ()) = .error ⟨.wrongType, "unhashable type: 'dict'"⟩ ∧
    Instruction.Conforms additiveShape ⟨3, 2, 2⟩ ⟨"add", 0, 10 ^ Decimal.integerDigitLimit, .constant, some 1.0⟩ ∧
    construct additiveShape [⟨"add", 0, 10 ^ Decimal.integerDigitLimit, .constant, some 1.0⟩] none .empty =
      .error (.fault Fault.integerTooLong) ⟨#[none]⟩ ∧
    construct additiveShape [⟨"add", 10 ^ Decimal.integerDigitLimit, 0, .internal, none⟩] none .empty =
      .error (.fault Fault.integerTooLong) ⟨#[none]⟩ ∧
    (Error.fault Fault.integerTooLong).name = "ValueError" := by
  have hlong := Value.isWritable_ten_pow
  refine ⟨rfl, ⟨⟨.add, ⟨rfl, rfl⟩, by decide, by decide⟩, ⟨1.0, rfl⟩⟩, ?_, ?_, rfl⟩
  · refine construct_of_unquotable [] rfl additiveShape_writable ⟨by decide, by decide⟩ (List.forall_mem_nil _)
      (fun h => ?_) none .empty
    simpa [hlong] using h.source
  · refine construct_of_unquotable [] rfl additiveShape_writable ⟨by decide, by decide⟩ (List.forall_mem_nil _)
      (fun h => ?_) none .empty
    simpa [hlong] using h.destination

end Store

end RegisterEvolution
