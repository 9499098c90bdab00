import RegisterEvolution.Proofs.Variation.Random
import RegisterEvolution.Variation.Mutation

/-!
# `Proofs.Variation.Mutation` — edits keep a sequence fitting

Each kind of edit turns a fitting sequence into a fitting one: the instructions it keeps fit already, the ones it draws
fit by construction, and an edit is on offer only where the length limits leave room for it. Any number of edits
therefore keeps a sequence fitting.

* `Instruction.Exchangeable`, `Edit.runChangeOpcode_sets` — exchanging one part of an instruction;
* `Edit.run_yields` — one edit;
* `mutateCode_yields` — a mutation.
-/

namespace RegisterEvolution

variable {γ : Type} [Generator γ] [Generator.Honest γ] {shape : Shape} {sizes : BankSizes} {code : List Instruction}

/-! ## Replacing parts of a sequence -/

namespace Shape.Fits

/-- One instruction may be exchanged for another one that fits. -/
theorem set (h : shape.Fits sizes code) (i : Nat) {instruction : Instruction} (hi : instruction.Fits shape sizes) :
    shape.Fits sizes (code.set i instruction) := by
  refine ⟨by rw [List.length_set]; exact h.nonempty, by rw [List.length_set]; exact h.length_le, ?_⟩
  intro j hj
  rcases List.mem_or_eq_of_mem_set hj with hj | rfl
  · exact h.each j hj
  · exact hi

theorem insertIdx (h : shape.Fits sizes code) {i : Nat} (hle : i ≤ code.length)
    (hroom : (code.length : Int) < shape.maxInstructions) {instruction : Instruction}
    (hi : instruction.Fits shape sizes) : shape.Fits sizes (code.insertIdx i instruction) := by
  have hlength := List.length_insertIdx_of_le_length hle instruction
  refine ⟨by omega, by omega, ?_⟩
  intro j hj
  rcases (List.mem_insertIdx hle).mp hj with rfl | hj
  · exact hi
  · exact h.each j hj

theorem eraseIdx (h : shape.Fits sizes code) {i : Nat} (hi : i < code.length) (hlong : 1 < code.length) :
    shape.Fits sizes (code.eraseIdx i) := by
  have hlength := List.length_eraseIdx_of_lt hi
  have hle := h.length_le
  exact ⟨by omega, by omega, fun j hj => h.each j (List.mem_of_mem_eraseIdx hj)⟩

end Shape.Fits

namespace Instruction.Fits

variable {i : Instruction}

/-- The operation may be exchanged for an allowed one of the same kind. -/
theorem withOpcode (h : i.Fits shape sizes) {op op' : Opcode} (hop : i.operation? = some op) {name : String}
    (hname : name ∈ shape.opcodeNames) (hop' : Opcode.ofName? name = some op') (hkind : op'.kind = op.kind) :
    ({ i with opcode := name } : Instruction).Fits shape sizes := by
  obtain ⟨op'', hop'', hdestination⟩ := h.operation
  obtain rfl : op = op'' := Option.some.inj (hop.symm.trans hop'')
  exact ⟨⟨op', hop', by rw [hkind]; exact hdestination⟩, (Shape.allows_iff hop').mpr hname, h.short, h.operand⟩

theorem withDestination (husable : shape.Usable sizes) (h : i.Fits shape sizes) {op : Opcode}
    (hop : i.operation? = some op) {n : Int} (hn : 0 ≤ n ∧ n < sizes.destinations op.kind) :
    ({ i with destination := n } : Instruction).Fits shape sizes :=
  ⟨⟨op, hop, hn⟩, h.allowed, .inl (husable.lt_registers hn.2), h.operand⟩

theorem withOperand (h : i.Fits shape sizes) {o : Operand} (ho : o.Fits sizes) :
    (i.withOperand o).Fits shape sizes := ⟨h.operation, h.allowed, h.short, ho i⟩

end Instruction.Fits

/-- A property of instructions that stays when a part is exchanged: the operation for an allowed one of its kind, the
    destination for another one in its bank, or the operand for one with `O`. -/
structure Instruction.Exchangeable (shape : Shape) (sizes : BankSizes) (P : Instruction → Prop) (O : Operand → Prop) :
    Prop where
  operation : ∀ {i : Instruction}, P i → ∃ op, i.operation? = some op
  opcode : ∀ {i : Instruction}, P i → ∀ {op op' : Opcode}, i.operation? = some op → ∀ {name : String},
    name ∈ shape.opcodeNames → Opcode.ofName? name = some op' → op'.kind = op.kind → P { i with opcode := name }
  destination : ∀ {i : Instruction}, P i → ∀ {op : Opcode}, i.operation? = some op → ∀ {n : Int},
    0 ≤ n ∧ n < sizes.destinations op.kind → P { i with destination := n }
  operand : ∀ {i : Instruction}, P i → ∀ {o : Operand}, O o → P (i.withOperand o)

theorem Instruction.exchangeable_fits (h : shape.Usable sizes) :
    Instruction.Exchangeable shape sizes (Instruction.Fits shape sizes) (Operand.Fits sizes) :=
  ⟨Fits.exists_operation, Fits.withOpcode, Fits.withDestination h, Fits.withOperand⟩

/-! ## Single edits -/

namespace Edit

theorem pick_yields (hne : code ≠ []) :
    Yields (pick code : Draw γ (Nat × Instruction)) fun picked => picked.2 ∈ code := by
  apply (Draw.index_yields (List.length_pos_iff.mpr hne)).bind
  intro i hi
  rw [List.getElem?_eq_getElem hi]
  exact .pure (List.getElem_mem hi)

/-- Filtering by a test that does not fail is filtering. -/
theorem filterM_ok {ε α : Type} {f : α → Except ε Bool} {p : α → Bool} {xs : List α}
    (h : ∀ a ∈ xs, f a = .ok (p a)) : xs.filterM f = .ok (xs.filter p) := by
  -- the filter collects in reverse, in front of what it starts with
  have haux : ∀ acc, xs.filterAuxM f acc = .ok ((xs.filter p).reverse ++ acc) := by
    induction xs with
    | nil => exact fun acc => rfl
    | cons a rest ih =>
        intro acc
        have hrest := ih fun b hb => h b (List.mem_cons_of_mem a hb)
        rw [List.filterAuxM, h a (List.mem_cons_self ..)]
        show rest.filterAuxM f (bif p a then a :: acc else acc) = _
        rw [hrest]
        cases hp : p a with
        | true => simp [hp]
        | false => simp [hp]
  unfold List.filterM
  rw [haux]
  show Except.ok ((xs.filter p).reverse ++ []).reverse = _
  rw [List.append_nil, List.reverse_reverse]

/-- The names on offer for an operation are allowed names of its kind. -/
theorem alternatives_ok (h : shape.Usable sizes) {i : Instruction} {op : Opcode} (hop : i.operation? = some op) :
    ∃ names, alternatives shape i = .ok names ∧
      ∀ name ∈ names, name ∈ shape.opcodeNames ∧ ∃ op', Opcode.ofName? name = some op' ∧ op'.kind = op.kind := by
  have hoperation : i.operation = .ok op := by
    unfold Instruction.operation
    rw [hop]
  have hnames : shape.opcodesOf (some op.kind) =
      .ok (shape.opcodeNames.filter fun name => (Opcode.ofName? name).any (·.kind == op.kind)) := by
    apply filterM_ok
    intro name hname
    obtain ⟨op', hop'⟩ := h.known name hname
    unfold Shape.lookUp
    rw [hop']
    rfl
  unfold alternatives
  rw [hoperation]
  refine ⟨(shape.opcodeNames.filter fun name => (Opcode.ofName? name).any (·.kind == op.kind)).filter
    (· != i.opcode), ?_, ?_⟩
  · show (shape.opcodesOf (some op.kind)).bind _ = _
    rw [hnames]
    rfl
  · intro name hname
    obtain ⟨hmem, hkind⟩ := List.mem_filter.mp (List.mem_filter.mp hname).1
    obtain ⟨op', hop'⟩ := h.known name hmem
    refine ⟨hmem, op', hop', ?_⟩
    rw [hop'] at hkind
    simpa using hkind

section Exchanges

variable {P : Instruction → Prop} {O : Operand → Prop}

/-- Exchanging an operation overwrites an instruction by one with the same property, or it changes nothing. -/
theorem runChangeOpcode_sets (h : shape.Usable sizes) (hP : Instruction.Exchangeable shape sizes P O) (hne : code ≠ [])
    (hcode : ∀ i ∈ code, P i) : Yields (runChangeOpcode shape code : Draw γ (List Instruction)) fun edited =>
      edited = code ∨ ∃ k j, P j ∧ edited = code.set k j := by
  apply (pick_yields hne).bind
  rintro ⟨k, old⟩ hpicked
  have hold := hcode old hpicked
  obtain ⟨op, hop⟩ := hP.operation hold
  obtain ⟨names, hnames, hoffered⟩ := alternatives_ok h hop
  simp only [hnames]
  cases names with
  | nil =>
      -- no other operation of the kind: the sequence stays as it is
      exact .pure (.inl rfl)
  | cons first rest =>
      refine (Draw.element_yields (List.cons_ne_nil first rest)).bind fun name hname => .pure ?_
      obtain ⟨hallowed, op', hop', hkind⟩ := hoffered name hname
      exact .inr ⟨k, _, hP.opcode hold hop hallowed hop' hkind, rfl⟩

/-- Drawing a destination or an operand anew overwrites an instruction by one with the same property. -/
theorem runChangeOperand_sets (h : shape.Usable sizes) (hP : Instruction.Exchangeable shape sizes P O)
    (hO : Yields (randomOperand shape : Draw γ Operand) O) (hne : code ≠ []) (hcode : ∀ i ∈ code, P i) :
    Yields (runChangeOperand shape code : Draw γ (List Instruction)) fun edited =>
      ∃ k j, P j ∧ edited = code.set k j := by
  apply (pick_yields hne).bind
  rintro ⟨k, old⟩ hpicked
  have hold := hcode old hpicked
  obtain ⟨op, hop⟩ := hP.operation hold
  apply Draw.fraction_yields.bind
  intro x _
  -- either the destination is drawn anew or the operand, and each inside its bank
  split
  · apply (kindOf_yields hop).bind
    intro kind hkind
    subst hkind
    exact (randomDestination_yields h op.kind).bind fun n hn => .pure ⟨k, _, hP.destination hold hop hn, rfl⟩
  · exact hO.bind fun o ho => .pure ⟨k, _, hP.operand hold ho, rfl⟩

end Exchanges

theorem runChangeOpcode_yields (h : shape.Usable sizes) (hcode : shape.Fits sizes code) :
    Yields (runChangeOpcode shape code : Draw γ (List Instruction)) (shape.Fits sizes) := by
  have hne := List.ne_nil_of_length_pos hcode.nonempty
  apply (runChangeOpcode_sets h (Instruction.exchangeable_fits h) hne hcode.each).imp
  rintro _ (rfl | ⟨k, j, hj, rfl⟩)
  · exact hcode
  · exact hcode.set k hj

theorem runChangeOperand_yields (h : shape.Usable sizes) (hcode : shape.Fits sizes code) :
    Yields (runChangeOperand shape code : Draw γ (List Instruction)) (shape.Fits sizes) := by
  apply (runChangeOperand_sets h (Instruction.exchangeable_fits h) (randomOperand_yields h)
    (List.ne_nil_of_length_pos hcode.nonempty) hcode.each).imp
  rintro _ ⟨k, j, hj, rfl⟩
  exact hcode.set k hj

theorem runReplace_yields (h : shape.Usable sizes) (hcode : shape.Fits sizes code) :
    Yields (runReplace shape code : Draw γ (List Instruction)) (shape.Fits sizes) :=
  (Draw.index_yields hcode.nonempty).bind fun i _ =>
    (randomInstruction_yields h).bind fun _ hinstruction => .pure (hcode.set i hinstruction)

theorem runInsert_yields (h : shape.Usable sizes) (hcode : shape.Fits sizes code)
    (hroom : (code.length : Int) < shape.maxInstructions) :
    Yields (runInsert shape code : Draw γ (List Instruction)) (shape.Fits sizes) :=
  (Draw.index_yields (Nat.succ_pos code.length)).bind fun _ hi =>
    (randomInstruction_yields h).bind fun _ hinstruction =>
      .pure (hcode.insertIdx (Nat.le_of_lt_succ hi) hroom hinstruction)

theorem runDelete_yields (hcode : shape.Fits sizes code) :
    Yields (runDelete code : Draw γ (List Instruction)) (shape.Fits sizes) := by
  unfold runDelete
  split
  · exact .pure hcode
  · rename_i hlong
    exact (Draw.index_yields hcode.nonempty).bind fun i hi => .pure (hcode.eraseIdx hi (by omega))

/-- Inserting needs room, and deleting an instruction to spare; the other edits are always on offer. -/
theorem mem_offers_iff {edit : Edit} {length : Nat} : edit ∈ offers shape length ↔
    (edit = insert → (length : Int) < shape.maxInstructions) ∧ (edit = delete → 1 < length) := by
  unfold offers
  cases edit <;> simp

theorem replace_mem_offers (length : Nat) : replace ∈ offers shape length := mem_offers_iff.mpr ⟨nofun, nofun⟩

theorem offers_ne_nil (length : Nat) : offers shape length ≠ [] := List.ne_nil_of_mem (replace_mem_offers length)

/-- An edit on offer keeps a sequence fitting. -/
theorem run_yields (h : shape.Usable sizes) (hcode : shape.Fits sizes code) {edit : Edit}
    (hedit : edit ∈ offers shape code.length) :
    Yields (edit.run shape code : Draw γ (List Instruction)) (shape.Fits sizes) := by
  cases edit with
  | replace => exact runReplace_yields h hcode
  | changeOpcode => exact runChangeOpcode_yields h hcode
  | changeOperand => exact runChangeOperand_yields h hcode
  | insert => exact runInsert_yields h hcode ((mem_offers_iff.mp hedit).1 rfl)
  | delete => exact runDelete_yields hcode

theorem random_yields (h : shape.Usable sizes) (hcode : shape.Fits sizes code) :
    Yields (random shape code : Draw γ (List Instruction)) (shape.Fits sizes) :=
  (Draw.element_yields (offers_ne_nil code.length)).bind fun _ hedit => run_yields h hcode hedit

theorem randomly_yields (h : shape.Usable sizes) (count : Nat) (hcode : shape.Fits sizes code) :
    Yields (randomly shape count code : Draw γ (List Instruction)) (shape.Fits sizes) := by
  induction count generalizing code with
  | zero => exact .pure hcode
  | succ count ih => exact (random_yields h hcode).bind fun edited hedited => ih hedited

end Edit

/-- **A mutation keeps a sequence fitting**, whatever the number of edits. -/
theorem mutateCode_yields (h : shape.Usable sizes) (maxEdits : Int) (hcode : shape.Fits sizes code) :
    Yields (mutateCode shape maxEdits code : Draw γ (List Instruction)) (shape.Fits sizes) := by
  apply (Draw.integers_yields (by omega)).bind
  intro count _
  exact Edit.randomly_yields h count.toNat hcode

end RegisterEvolution
