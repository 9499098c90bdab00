import RegisterEvolution.Proofs.Variation.Mutation
import RegisterEvolution.Proofs.Variation.Support

/-!
# `Proofs.Variation.Neighbourhood` — the sequences that one edit may come to

A mutation of one edit is exact as well. From a sequence of drawn instructions it comes to the sequence itself or to one
with a drawn instruction more, with an instruction less, or with a drawn instruction in the place of another one, and to
all of these: exchanging an operation, a destination or an operand only replaces an instruction by another drawn one,
and replacing, inserting and deleting leave no place and no drawn instruction out.

* `Neighbour` — the sequences one edit away;
* `Edit.run_neighbours` — no edit leads elsewhere;
* `Edit.random_spans` — the edits that may be drawn lead to every neighbour;
* `Run.mutant_spans` — the mutants that may be built with one edit.
-/

namespace RegisterEvolution

/-! ## Parts of drawn instructions -/

namespace GeneratorShaped

variable {shape : Shape} {sizes : BankSizes} {i : Instruction}

/-- The operation may be exchanged for an allowed one of the same kind. -/
theorem withOpcode (h : GeneratorShaped shape sizes i) {op op' : Opcode} (hop : i.operation? = some op) {name : String}
    (hname : name ∈ shape.opcodeNames) (hop' : Opcode.ofName? name = some op') (hkind : op'.kind = op.kind) :
    GeneratorShaped shape sizes { i with opcode := name } := by
  obtain ⟨op'', hop'', -, hlow, hhigh, hoperand⟩ := h
  obtain rfl : op = op'' := Option.some.inj (hop.symm.trans hop'')
  exact ⟨op', hop', (Shape.allows_iff hop').mpr hname, hlow, by rw [hkind]; exact hhigh, hoperand⟩

theorem withDestination (h : GeneratorShaped shape sizes i) {op : Opcode} (hop : i.operation? = some op) {n : Int}
    (hn : 0 ≤ n ∧ n < sizes.destinations op.kind) : GeneratorShaped shape sizes { i with destination := n } := by
  obtain ⟨_, -, hallowed, -, -, hoperand⟩ := h
  exact ⟨op, hop, hallowed, hn.1, hn.2, hoperand⟩

theorem withOperand (h : GeneratorShaped shape sizes i) {o : Operand} (ho : o.Shaped shape sizes) :
    GeneratorShaped shape sizes (i.withOperand o) := by
  obtain ⟨op, hop, hallowed, hlow, hhigh, -⟩ := h
  exact ⟨op, hop, hallowed, hlow, hhigh, generatorShapedOperand_iff.mpr ho⟩

theorem exchangeable :
    Instruction.Exchangeable shape sizes (GeneratorShaped shape sizes) (Operand.Shaped shape sizes) :=
  ⟨fun ⟨op, hop, _⟩ => ⟨op, hop⟩, withOpcode, withDestination, withOperand⟩

end GeneratorShaped

/-! ## Neighbours -/

/-- A sequence that is one edit away: the same one, one with a drawn instruction more, which may also stand at either
    end, one with an instruction less, or one with a drawn instruction in the place of another one. -/
inductive Neighbour (shape : Shape) (sizes : BankSizes) (code : List Instruction) : List Instruction → Prop where
  | same : Neighbour shape sizes code code
  | insert {k : Nat} {i : Instruction} (place : k ≤ code.length) (room : (code.length : Int) < shape.maxInstructions)
      (drawn : GeneratorShaped shape sizes i) : Neighbour shape sizes code (code.insertIdx k i)
  | delete {k : Nat} (place : k < code.length) (spare : 1 < code.length) : Neighbour shape sizes code (code.eraseIdx k)
  | replace {k : Nat} {i : Instruction} (place : k < code.length) (drawn : GeneratorShaped shape sizes i) :
      Neighbour shape sizes code (code.set k i)

variable {shape : Shape} {sizes : BankSizes} {code edited : List Instruction}

namespace Neighbour

/-- Replacing where nothing is changes nothing. -/
theorem set (k : Nat) {i : Instruction} (hi : GeneratorShaped shape sizes i) :
    Neighbour shape sizes code (code.set k i) := by
  by_cases hk : k < code.length
  · exact .replace hk hi
  · rw [List.set_eq_of_length_le (Nat.le_of_not_lt hk)]
    exact .same

/-- Neighbours of a fitting sequence fit. -/
theorem fits (husable : shape.Usable sizes) (h : Neighbour shape sizes code edited) (hcode : shape.Fits sizes code) :
    shape.Fits sizes edited := by
  cases h with
  | same => exact hcode
  | insert place room drawn => exact hcode.insertIdx place room (drawn.fits husable)
  | delete place spare => exact hcode.eraseIdx place spare
  | replace place drawn => exact hcode.set _ (drawn.fits husable)

end Neighbour

/-! ## Single edits -/

namespace Edit

theorem runReplace_spans (h : shape.Diverse sizes) (hpos : 0 < code.length) :
    Spans (fun γ _ => (runReplace shape code : Draw γ (List Instruction))) fun edited =>
      ∃ k, k < code.length ∧ ∃ i, GeneratorShaped shape sizes i ∧ edited = code.set k i :=
  (Draw.index_spans hpos).bind fun k _ => (randomInstruction_spans h).map (code.set k)

theorem runInsert_spans (h : shape.Diverse sizes) :
    Spans (fun γ _ => (runInsert shape code : Draw γ (List Instruction))) fun edited =>
      ∃ k, k < code.length + 1 ∧ ∃ i, GeneratorShaped shape sizes i ∧ edited = code.insertIdx k i :=
  (Draw.index_spans (Nat.succ_pos code.length)).bind fun k _ => (randomInstruction_spans h).map (code.insertIdx k)

theorem runDelete_spans (hlong : 1 < code.length) :
    Spans (fun γ _ => (runDelete code : Draw γ (List Instruction))) fun edited =>
      ∃ k, k < code.length ∧ edited = code.eraseIdx k := by
  have hshort : ¬ code.length ≤ 1 := Nat.not_le_of_lt hlong
  unfold runDelete
  simp only [hshort, if_false]
  exact (Draw.index_spans (by omega)).map code.eraseIdx

/-- **No edit on offer leads elsewhere.** -/
theorem run_neighbours {γ : Type} [Generator γ] [Generator.Ranged γ] (h : shape.Diverse sizes)
    (hcode : shape.Drawn sizes code) {edit : Edit} (hedit : edit ∈ offers shape code.length) :
    Yields (edit.run shape code : Draw γ (List Instruction)) (Neighbour shape sizes code) := by
  obtain ⟨hroom, hspare⟩ := mem_offers_iff.mp hedit
  have hne := List.ne_nil_of_length_pos hcode.nonempty
  cases edit with
  | replace =>
      apply ((runReplace_spans h hcode.nonempty).sound γ).imp
      rintro _ ⟨k, hk, i, hi, rfl⟩
      exact .replace hk hi
  | changeOpcode =>
      apply (runChangeOpcode_sets h.toUsable GeneratorShaped.exchangeable hne hcode.each).imp
      rintro _ (rfl | ⟨k, i, hi, rfl⟩)
      · exact .same
      · exact .set k hi
  | changeOperand =>
      apply (runChangeOperand_sets h.toUsable GeneratorShaped.exchangeable ((randomOperand_spans h).sound γ) hne
        hcode.each).imp
      rintro _ ⟨k, i, hi, rfl⟩
      exact .set k hi
  | insert =>
      apply ((runInsert_spans h).sound γ).imp
      rintro _ ⟨k, hk, i, hi, rfl⟩
      exact .insert (Nat.le_of_lt_succ hk) (hroom rfl) hi
  | delete =>
      apply ((runDelete_spans (hspare rfl)).sound γ).imp
      rintro _ ⟨k, hk, rfl⟩
      exact .delete hk (hspare rfl)

/-- What an edit on offer may come to, a random edit may come to. -/
theorem random_leads {edit : Edit} (hedit : edit ∈ offers shape code.length)
    (h : Leads (edit.run shape code) edited) : Leads (random shape code) edited :=
  ((Draw.element_spans (offers_ne_nil code.length)).complete edit hedit).bind h

/-- **One edit may come to exactly the neighbours.** -/
theorem random_spans (h : shape.Diverse sizes) (hcode : shape.Drawn sizes code) :
    Spans (fun γ _ => (random shape code : Draw γ (List Instruction))) (Neighbour shape sizes code) := by
  have hpos : 0 < code.length := hcode.nonempty
  have hreplace : ∀ {k : Nat} {i : Instruction}, k < code.length → GeneratorShaped shape sizes i →
      Leads (random shape code) (code.set k i) := fun hk hi =>
    random_leads (replace_mem_offers code.length) ((runReplace_spans h hpos).complete _ ⟨_, hk, _, hi, rfl⟩)
  constructor
  · intro γ _ _
    exact (Draw.element_yields (offers_ne_nil code.length)).bind fun _ hedit => run_neighbours h hcode hedit
  · intro edited hedited
    cases hedited with
    | same =>
        -- the sequence itself: its first instruction is replaced by an equal one
        have hfirst := hreplace hpos (hcode.each _ (List.getElem_mem hpos))
        rw [List.set_getElem_self] at hfirst
        exact hfirst
    | insert place room drawn =>
        have hedit : insert ∈ offers shape code.length := mem_offers_iff.mpr ⟨fun _ => room, nofun⟩
        exact random_leads hedit ((runInsert_spans h).complete _ ⟨_, Nat.lt_succ_of_le place, _, drawn, rfl⟩)
    | delete place spare =>
        have hedit : delete ∈ offers shape code.length := mem_offers_iff.mpr ⟨nofun, fun _ => spare⟩
        exact random_leads hedit ((runDelete_spans spare).complete _ ⟨_, place, rfl⟩)
    | replace place drawn => exact hreplace place drawn

end Edit

/-- A mutation of at most one edit makes exactly one. -/
theorem mutateCode_spans (h : shape.Diverse sizes) (hcode : shape.Drawn sizes code) :
    Spans (fun γ _ => (mutateCode shape 1 code : Draw γ (List Instruction))) (Neighbour shape sizes code) := by
  have hcount : Spans (fun γ _ => (Draw.integers 1 (max 1 1 + 1) : Draw γ Int)) (· = 1) :=
    (Draw.integers_spans (by decide)).congr fun n => by omega
  have hedits : ∀ n : Int, n = 1 → Spans (fun γ _ => (Edit.randomly shape n.toNat code : Draw γ (List Instruction)))
      (Neighbour shape sizes code) := by
    rintro _ rfl
    refine ((Edit.random_spans h hcode).bind fun edited _ => .pure edited).congr fun edited => ⟨?_, ?_⟩
    · rintro ⟨_, hedited, rfl⟩
      exact hedited
    · exact fun hedited => ⟨edited, hedited, rfl⟩
  exact (hcount.bind hedits).congr fun edited => ⟨fun ⟨_, _, hedited⟩ => hedited, fun hedited => ⟨1, rfl, hedited⟩⟩

/-! ## Mutants -/

namespace Run

/--
**Mutation by one edit reaches exactly the neighbourhood.** Accepted settings with known counts describe a shape such
that, where its probabilities rule nothing out, the instruction sequences of the mutants that may be built with one edit
from a program of this shape without a flaw, of which all instructions are drawn ones, are those of the neighbours of
the program: the program itself, one drawn instruction more at any place where there is room, any one instruction less
unless it is the only one, and any drawn instruction in the place of any one.
-/
theorem mutant_spans {settings : ProgramSettings} (hvalid : settings.validate = .ok ())
    (hbound : settings.isBound = true) :
    ∃ shape sizes, settings.shape = .ok shape ∧ shape.Usable sizes ∧
      (Undecided shape.constantProbability → Undecided shape.externalProbability →
        ∀ p : Program, p.shape = shape → shape.flaw? p.code = none →
          (∀ i ∈ p.code, GeneratorShaped shape sizes i) → ∀ code,
            MayBuild (fun γ σ _ => (mutant 1 p : Run γ σ Program)) code ↔ Neighbour shape sizes p.code code) := by
  obtain ⟨shape, sizes, hshape, husable⟩ := (ProgramSettings.checked_of_validate hvalid).exists_shape_of_bound hbound
  refine ⟨shape, sizes, hshape, husable, ?_⟩
  rintro hconstants hinputs p rfl hflaw hdrawn code
  have hdiverse := ProgramSettings.diverse_of_shape hvalid hshape husable hconstants hinputs
  have hfits := Shape.fits_of_flaw?_eq_none husable.bound hflaw
  have hcode : p.shape.Drawn sizes p.code := ⟨hfits.nonempty, hfits.length_le, hdrawn⟩
  exact mayBuild_building_iff husable (mutateCode_spans hdiverse hcode) fun _ hneighbour =>
    hneighbour.fits husable hfits

/-- A program of one vote in the narrow shape. -/
def voter : Program := ⟨0, [⟨"vote", 0, 0, .external, none⟩], Population.narrow⟩

/-- The only instruction of that program may be followed by a branch on its last register, and is never deleted. -/
theorem mutant_spans_voter :
    MayBuild (fun γ σ _ => (mutant 1 voter : Run γ σ Program))
        [⟨"vote", 0, 0, .external, none⟩, ⟨"if_eq", 1, 1, .internal, none⟩] ∧
      ¬ MayBuild (fun γ σ _ => (mutant 1 voter : Run γ σ Program)) [] := by
  let settings : ProgramSettings :=
    { maxInstructions := .int 2, registerCount := .int 2, inputCount := .int 1, actionCount := .int 1 }
  have hvalid : settings.validate = .ok () := rfl
  obtain ⟨shape, sizes, hshape, husable, hspans⟩ := mutant_spans hvalid rfl
  have hbound := husable.bound
  obtain rfl : voter.shape = shape := Except.ok.inj hshape
  obtain rfl : (⟨2, 1, 1⟩ : BankSizes) = sizes := Option.some.inj hbound
  have hdrawn : ∀ i ∈ voter.code, GeneratorShaped voter.shape ⟨2, 1, 1⟩ i :=
    List.forall_mem_singleton.mpr ⟨.vote, rfl, rfl, by decide, by decide, by decide, by decide, rfl⟩
  have hexactly := hspans (by decide) (by decide) voter rfl (by decide) hdrawn
  constructor
  · have hbranch : GeneratorShaped voter.shape ⟨2, 1, 1⟩ ⟨"if_eq", 1, 1, .internal, none⟩ :=
      ⟨.ifEq, rfl, rfl, by decide, by decide, by decide, by decide, rfl⟩
    exact (hexactly _).mpr (.insert (k := 1) (by decide) (by decide) hbranch)
  · intro hbuilt
    have hfits := ((hexactly []).mp hbuilt).fits husable
      (Shape.fits_of_flaw?_eq_none hbound (by decide))
    exact absurd hfits.nonempty (by decide)

end Run

end RegisterEvolution
