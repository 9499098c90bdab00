import RegisterEvolution.Proofs.Settings.Interval
import RegisterEvolution.Proofs.Variation.Building
import RegisterEvolution.Proofs.Variation.Random

/-!
# `Proofs.Variation.Support` — the programs that random generation may come to

Random generation is exact. What it draws is an instruction sequence of a length within the limits, of instructions with
an allowed operation, a destination in the bank of its kind and an operand from one of three ranges, and no sequence of
that kind is out of its reach: each choice may come to all of its range, and where the probabilities rule nothing out, a
choice between two ways may take either.

* `Operand.Shaped` — the operands that are drawn, and how they make up the instructions that are;
* `Shape.Diverse` — shapes whose choices rule nothing out;
* `randomOperand_spans`, `randomInstruction_spans`, `randomCode_spans` — what may be drawn;
* `Population.randomProgram_spans` — what programs may be built.
-/

namespace RegisterEvolution

variable {shape : Shape} {sizes : BankSizes}

/-! ## Operands and instructions by their shape -/

/-- An operand that is drawn: a constant of the interval, an input or a register. -/
inductive Operand.Shaped (shape : Shape) (sizes : BankSizes) : Operand → Prop where
  | constant {c : Float} (low : -shape.constantRange ≤ c) (high : c ≤ shape.constantRange) :
      Shaped shape sizes ⟨0, .constant, some c⟩
  | external {n : Int} (low : 0 ≤ n) (high : n < sizes.inputs) : Shaped shape sizes ⟨n, .external, none⟩
  | internal {n : Int} (low : 0 ≤ n) (high : n < sizes.registers) : Shaped shape sizes ⟨n, .internal, none⟩

/-- The operand of an instruction. -/
def Instruction.operandPart (i : Instruction) : Operand := ⟨i.source, i.mode, i.constant⟩

theorem generatorShapedOperand_iff {i : Instruction} :
    GeneratorShapedOperand shape sizes i ↔ i.operandPart.Shaped shape sizes := by
  obtain ⟨opcode, destination, source, mode, constant⟩ := i
  unfold GeneratorShapedOperand Instruction.operandPart
  cases mode with
  | constant =>
      constructor
      · rintro ⟨rfl, c, rfl, low, high⟩
        exact .constant low high
      · rintro ⟨low, high⟩
        exact ⟨rfl, _, rfl, low, high⟩
  | external =>
      constructor
      · rintro ⟨low, high, rfl⟩
        exact .external low high
      · rintro (_ | ⟨low, high⟩)
        exact ⟨low, high, rfl⟩
  | internal =>
      constructor
      · rintro ⟨low, high, rfl⟩
        exact .internal low high
      · rintro (_ | _ | ⟨low, high⟩)
        exact ⟨low, high, rfl⟩
  | other name =>
      constructor
      · exact False.elim
      · intro h
        cases h

/-- An operand that is drawn is there. -/
theorem Operand.Shaped.fits {o : Operand} (h : o.Shaped shape sizes) : o.Fits sizes := by
  intro i
  cases h with
  | constant low high => exact ⟨⟨_, rfl⟩, Value.isWritable_zero⟩
  | external low high => exact ⟨low, high⟩
  | internal low high => exact ⟨low, high⟩

namespace GeneratorShaped

variable {i : Instruction}

/-- An instruction that is drawn fits. -/
theorem fits (husable : shape.Usable sizes) (h : GeneratorShaped shape sizes i) : i.Fits shape sizes := by
  obtain ⟨op, hop, hallowed, hlow, hhigh, hoperand⟩ := h
  exact ⟨⟨op, hop, hlow, hhigh⟩, hallowed, .inl (husable.lt_registers hhigh),
    (generatorShapedOperand_iff.mp hoperand).fits i⟩

end GeneratorShaped

/-! ## What may be drawn -/

/-- A usable shape whose choices rule nothing out: constants have an interval, and either side of each choice between
    kinds of operand may be taken. -/
structure Shape.Diverse (shape : Shape) (sizes : BankSizes) : Prop extends shape.Usable sizes where
  interval : (-shape.constantRange).isFinite = true ∧ shape.constantRange.isFinite = true ∧
    -shape.constantRange ≤ shape.constantRange
  constants : Undecided shape.constantProbability
  inputs : Undecided shape.externalProbability

theorem randomOperand_spans (h : shape.Diverse sizes) :
    Spans (fun γ _ => (randomOperand shape : Draw γ Operand)) (Operand.Shaped shape sizes) := by
  obtain ⟨hregisters, hinputs, -⟩ := h.counts
  have hconstant := (Draw.uniform_spans h.interval.1 h.interval.2.1 h.interval.2.2).map
    fun c => (⟨0, .constant, some c⟩ : Operand)
  have hexternal := (Draw.belowKnown_spans h.inputs_pos).map fun n => (⟨n, .external, none⟩ : Operand)
  have hinternal := (Draw.belowKnown_spans h.registers_pos).map fun n => (⟨n, .internal, none⟩ : Operand)
  unfold randomOperand
  rw [hregisters, hinputs]
  refine (Draw.chance_spans h.constants hconstant (Draw.chance_spans h.inputs hexternal hinternal)).congr ?_
  intro o
  constructor
  · rintro (⟨c, ⟨low, high⟩, rfl⟩ | ⟨n, ⟨low, high⟩, rfl⟩ | ⟨n, ⟨low, high⟩, rfl⟩)
    · exact .constant low high
    · exact .external low high
    · exact .internal low high
  · intro ho
    cases ho with
    | constant low high => exact .inl ⟨_, ⟨low, high⟩, rfl⟩
    | external low high => exact .inr (.inl ⟨_, ⟨low, high⟩, rfl⟩)
    | internal low high => exact .inr (.inr ⟨_, ⟨low, high⟩, rfl⟩)

theorem kindOf_spans {name : String} {op : Opcode} (hop : Opcode.ofName? name = some op) :
    Spans (fun γ _ => (kindOf name : Draw γ OpKind)) (· = op.kind) := by
  unfold kindOf Shape.lookUp
  rw [hop]
  exact .pure op.kind

theorem randomDestination_spans (h : shape.Usable sizes) (kind : OpKind) :
    Spans (fun γ _ => (randomDestination shape kind : Draw γ Int)) fun n => 0 ≤ n ∧ n < sizes.destinations kind := by
  unfold randomDestination
  rw [h.destinationCount kind]
  exact Draw.belowKnown_spans (h.destinations_pos kind)

/-- The instructions of a given operation. -/
theorem randomInstructionOf_spans (h : shape.Diverse sizes) {name : String} {op : Opcode}
    (hop : Opcode.ofName? name = some op) :
    Spans (fun γ _ => (randomInstructionOf shape name : Draw γ Instruction)) fun i =>
      i.opcode = name ∧ (0 ≤ i.destination ∧ i.destination < sizes.destinations op.kind) ∧
        i.operandPart.Shaped shape sizes := by
  have hoperand : ∀ n : Int, Spans (fun γ _ => (do
      let operand ← randomOperand shape
      return ⟨name, n, operand.source, operand.mode, operand.constant⟩ : Draw γ Instruction)) fun i =>
        ∃ o : Operand, o.Shaped shape sizes ∧ i = ⟨name, n, o.source, o.mode, o.constant⟩ :=
    fun n => (randomOperand_spans h).map fun o => (⟨name, n, o.source, o.mode, o.constant⟩ : Instruction)
  have hkind : ∀ kind, kind = op.kind → Spans (fun γ _ => (do
      let destination ← randomDestination shape kind
      let operand ← randomOperand shape
      return ⟨name, destination, operand.source, operand.mode, operand.constant⟩ : Draw γ Instruction)) fun i =>
        ∃ n, (0 ≤ n ∧ n < sizes.destinations kind) ∧
          ∃ o : Operand, o.Shaped shape sizes ∧ i = ⟨name, n, o.source, o.mode, o.constant⟩ :=
    fun kind _ => (randomDestination_spans h.toUsable kind).bind fun n _ => hoperand n
  refine ((kindOf_spans hop).bind hkind).congr fun i => ⟨?_, ?_⟩
  · rintro ⟨_, rfl, n, hn, o, ho, rfl⟩
    exact ⟨rfl, hn, ho⟩
  · rintro ⟨rfl, hn, ho⟩
    exact ⟨op.kind, rfl, i.destination, hn, i.operandPart, ho, rfl⟩

/-- **The instructions that may be drawn** are those that are shaped like it. -/
theorem randomInstruction_spans (h : shape.Diverse sizes) :
    Spans (fun γ _ => (randomInstruction shape : Draw γ Instruction)) (GeneratorShaped shape sizes) := by
  have hname : ∀ name ∈ shape.opcodeNames, Spans (fun γ _ => (randomInstructionOf shape name : Draw γ Instruction))
      fun i => ∃ op, Opcode.ofName? name = some op ∧ i.opcode = name ∧
        (0 ≤ i.destination ∧ i.destination < sizes.destinations op.kind) ∧ i.operandPart.Shaped shape sizes := by
    intro name hmem
    obtain ⟨op, hop⟩ := h.known name hmem
    refine (randomInstructionOf_spans h hop).congr fun i => ⟨fun hi => ⟨op, hop, hi⟩, ?_⟩
    rintro ⟨op', hop', hi⟩
    obtain rfl : op = op' := Option.some.inj (hop.symm.trans hop')
    exact hi
  -- names that are allowed are exactly those on offer, once they are known
  refine ((Draw.element_spans h.names_ne_nil).bind hname).congr fun i => ⟨?_, ?_⟩
  · rintro ⟨_, hmem, op, hop, rfl, hdestination, hoperand⟩
    exact ⟨op, hop, (Shape.allows_iff hop).mpr hmem, hdestination.1, hdestination.2,
      generatorShapedOperand_iff.mpr hoperand⟩
  · rintro ⟨op, hop, hallowed, hlow, hhigh, hoperand⟩
    exact ⟨i.opcode, (Shape.allows_iff hop).mp hallowed, op, hop, rfl, ⟨hlow, hhigh⟩,
      generatorShapedOperand_iff.mp hoperand⟩

theorem randomInstructions_spans (h : shape.Diverse sizes) (count : Nat) :
    Spans (fun γ _ => (randomInstructions shape count : Draw γ (List Instruction))) fun code =>
      code.length = count ∧ ∀ i ∈ code, GeneratorShaped shape sizes i := by
  induction count with
  | zero =>
      refine (Spans.pure []).congr fun code => ⟨?_, fun hcode => List.length_eq_zero_iff.mp hcode.1⟩
      rintro rfl
      exact ⟨rfl, List.forall_mem_nil _⟩
  | succ count ih =>
      -- the first instruction is drawn before the others, as the constructors of a list have it
      have hrest : ∀ i, GeneratorShaped shape sizes i → Spans (fun γ _ => (do
          let rest ← randomInstructions shape count
          return i :: rest : Draw γ (List Instruction))) fun code =>
            ∃ rest : List Instruction, (rest.length = count ∧ ∀ j ∈ rest, GeneratorShaped shape sizes j) ∧
              code = i :: rest := fun i _ => ih.map (i :: ·)
      refine ((randomInstruction_spans h).bind hrest).congr fun code => ⟨?_, ?_⟩
      · rintro ⟨i, hi, rest, ⟨rfl, hall⟩, rfl⟩
        exact ⟨List.length_cons, List.forall_mem_cons.mpr ⟨hi, hall⟩⟩
      · rintro ⟨hlength, hall⟩
        obtain ⟨i, rest, rfl⟩ := List.exists_cons_of_length_eq_add_one hlength
        obtain ⟨hi, hrestAll⟩ := List.forall_mem_cons.mp hall
        exact ⟨i, hi, rest, ⟨Nat.succ.inj hlength, hrestAll⟩, rfl⟩

/-- An instruction sequence as random generation makes it. -/
structure Shape.Drawn (shape : Shape) (sizes : BankSizes) (code : List Instruction) : Prop where
  nonempty : 1 ≤ code.length
  length_le : (code.length : Int) ≤ shape.maxInstructions
  each : ∀ i ∈ code, GeneratorShaped shape sizes i

theorem Shape.Drawn.fits {code : List Instruction} (husable : shape.Usable sizes) (h : shape.Drawn sizes code) :
    shape.Fits sizes code := ⟨h.nonempty, h.length_le, fun i hi => (h.each i hi).fits husable⟩

/-- **The sequences that may be drawn**: every length within the limits, and at each place every instruction. -/
theorem randomCode_spans (h : shape.Diverse sizes) :
    Spans (fun γ _ => (randomCode shape : Draw γ (List Instruction))) (shape.Drawn sizes) := by
  have hlimit := h.limit_pos
  have hcount : Spans (fun γ _ => (Draw.integers 1 (shape.maxInstructions + 1) : Draw γ Int)) fun n =>
      1 ≤ n ∧ n < shape.maxInstructions + 1 := Draw.integers_spans (by omega)
  refine (hcount.bind fun n _ => randomInstructions_spans h n.toNat).congr fun code => ⟨?_, ?_⟩
  · rintro ⟨n, hn, hlength, hall⟩
    exact ⟨by omega, by omega, hall⟩
  · rintro ⟨hnonempty, hle, hall⟩
    exact ⟨code.length, by omega, by omega, hall⟩

/-! ## Random programs -/

/-- Accepted settings whose probabilities rule nothing out describe a diverse shape. -/
theorem ProgramSettings.diverse_of_shape {settings : ProgramSettings} (hvalid : settings.validate = .ok ())
    (hshape : settings.shape = .ok shape) (husable : shape.Usable sizes)
    (hconstants : Undecided shape.constantProbability) (hinputs : Undecided shape.externalProbability) :
    shape.Diverse sizes :=
  ⟨husable, settings.constantRange_of_shape hvalid hshape, hconstants, hinputs⟩

/-- Of a diverse shape there are sequences of every length within the limits. -/
theorem Shape.Diverse.exists_drawn (h : shape.Diverse sizes) {count : Nat} (hpos : 1 ≤ count)
    (hle : (count : Int) ≤ shape.maxInstructions) : ∃ code, code.length = count ∧ shape.Drawn sizes code := by
  -- there is a drawn instruction, because drawing one does not fail, and it may stand at every place
  obtain ⟨i, -, -, hi⟩ := ((randomInstruction_spans h).sound Script ⟨[]⟩).exists_ok
  refine ⟨List.replicate count i, List.length_replicate, ?_⟩
  refine ⟨by rw [List.length_replicate]; exact hpos, by rw [List.length_replicate]; exact hle, ?_⟩
  intro j hj
  rw [List.eq_of_mem_replicate hj]
  exact hi

namespace Population

/--
**Random generation is sound and complete.** Accepted settings with known counts describe a shape such that:

* under every generator that keeps its promise, wherever it begins, a program of that shape without a flaw is built,
  which has no fitness;
* where the probabilities rule nothing out, the instruction sequences of the programs that may be built are those of a
  length within the limits, with an allowed operation, a destination in the bank of its kind and a drawn operand at
  each place, and each length within the limits does occur.
-/
theorem randomProgram_spans {settings : ProgramSettings} (hvalid : settings.validate = .ok ())
    (hbound : settings.isBound = true) :
    ∃ shape sizes, settings.shape = .ok shape ∧ shape.Usable sizes ∧
      (∀ (γ σ : Type) [Generator γ] [Generator.Honest γ] (lab : Lab γ σ), ∃ q lab',
        randomProgram shape lab = .ok q lab' ∧ q.shape = shape ∧ shape.flaw? q.code = none ∧
          lab'.store.fitness q = none) ∧
      (Undecided shape.constantProbability → Undecided shape.externalProbability →
        (∀ code, Run.MayBuild (fun γ σ _ => (randomProgram shape : Run γ σ Program)) code ↔
          1 ≤ code.length ∧ (code.length : Int) ≤ shape.maxInstructions ∧
            ∀ i ∈ code, GeneratorShaped shape sizes i) ∧
        ∀ count : Nat, 1 ≤ count → (count : Int) ≤ shape.maxInstructions → ∃ code, code.length = count ∧
          Run.MayBuild (fun γ σ _ => (randomProgram shape : Run γ σ Program)) code) := by
  obtain ⟨shape, sizes, hshape, husable⟩ := (ProgramSettings.checked_of_validate hvalid).exists_shape_of_bound hbound
  refine ⟨shape, sizes, hshape, husable, ?_, ?_⟩
  · intro γ σ _ _ lab
    have hyields : Yields (randomCode shape : Draw γ (List Instruction)) fun code => shape.Fits sizes code ∧ True :=
      (randomCode_yields husable).imp fun code hcode => ⟨hcode, trivial⟩
    obtain ⟨q, lab', hbuild, hbuilt, hfits, -⟩ := Run.building_yields husable hyields lab
    exact ⟨q, lab', hbuild, by rw [hbuilt.eq], hfits.flaw?_eq_none husable.bound, hbuilt.fitness⟩
  · intro hconstants hinputs
    have hdiverse := ProgramSettings.diverse_of_shape hvalid hshape husable hconstants hinputs
    have hexactly : ∀ code, Run.MayBuild (fun γ σ _ => (randomProgram shape : Run γ σ Program)) code ↔
        shape.Drawn sizes code :=
      fun code => Run.mayBuild_building_iff husable (randomCode_spans hdiverse) fun _ hcode => hcode.fits husable
    refine ⟨fun code => (hexactly code).trans ⟨fun h => ⟨h.nonempty, h.length_le, h.each⟩, ?_⟩, ?_⟩
    · rintro ⟨hpos, hle, hall⟩
      exact ⟨hpos, hle, hall⟩
    · intro count hpos hle
      obtain ⟨code, hlength, hcode⟩ := hdiverse.exists_drawn hpos hle
      exact ⟨code, hlength, (hexactly code).mpr hcode⟩

/-- A shape for one or two instructions on two registers, the first of which is an action. -/
def narrow : Shape := ⟨2, some 2, some 1, some 1, none, 0.1, 0.5, 10.0, .single⟩

/-- In that shape a program of full length may be built that ends with the last operation, has the last register as a
    destination, and takes a constant from the end of the interval. A vote for what is no action is never built. -/
theorem randomProgram_spans_narrow :
    Run.MayBuild (fun γ σ _ => (randomProgram narrow : Run γ σ Program))
        [⟨"if_eq", 1, 1, .internal, none⟩, ⟨"vote", 0, 0, .constant, some 10.0⟩] ∧
      ¬ Run.MayBuild (fun γ σ _ => (randomProgram narrow : Run γ σ Program)) [⟨"vote", 1, 0, .external, none⟩] := by
  let settings : ProgramSettings :=
    { maxInstructions := .int 2, registerCount := .int 2, inputCount := .int 1, actionCount := .int 1 }
  have hvalid : settings.validate = .ok () := rfl
  obtain ⟨shape, sizes, hshape, husable, -, hspans⟩ := randomProgram_spans hvalid rfl
  have hbound := husable.bound
  obtain rfl : narrow = shape := Except.ok.inj hshape
  obtain rfl : (⟨2, 1, 1⟩ : BankSizes) = sizes := Option.some.inj hbound
  obtain ⟨hexactly, -⟩ := hspans (by decide) (by decide)
  constructor
  · refine (hexactly _).mpr ⟨by decide, by decide, ?_⟩
    rw [List.forall_mem_cons, List.forall_mem_singleton]
    exact ⟨⟨.ifEq, rfl, rfl, by decide, by decide, by decide, by decide, rfl⟩,
      ⟨.vote, rfl, rfl, by decide, by decide, rfl, 10.0, rfl, by decide, by decide⟩⟩
  · intro hbuilt
    obtain ⟨-, -, hall⟩ := (hexactly _).mp hbuilt
    obtain ⟨op, hop, -, -, hhigh, -⟩ := hall _ (List.mem_singleton_self _)
    obtain rfl : Opcode.vote = op := Option.some.inj hop
    exact absurd hhigh (by decide)

end Population

end RegisterEvolution
