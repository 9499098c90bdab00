import RegisterEvolution.Proofs.Program.Safety

/-!
# `Proofs.Program.Operands` — what an execution sees of its operands

An instruction sees nothing of its operands but what saturation leaves of them. Two executions whose operands differ in
nothing else are therefore kept in step: instruction by instruction they skip the same, decide the same and write the
same, whatever the arithmetic answers. This is why inputs and constants may as well be saturated beforehand, and why it
makes no difference that inputs are made finite first.

* `Instruction.Counterpart` — instructions that see the same on two input banks;
* `Point.Beside` — points of two executions in step, with `Turn.beside`, `Reaches.beside` and `Beside.run_alike`;
* `Program.Follows` — one execution decides and computes what another one does;
* `execute_saturated` — executions on saturated inputs and with saturated constants.
-/

namespace RegisterEvolution

variable {A : Arithmetic} {policy : BranchPolicy} {inputs inputs' : Array Float} {shape : Shape} {sizes : BankSizes}

/-! ## Instructions that see the same -/

/-- Operands that are saturated to the same number are the same to an operation. -/
theorem Opcode.evaluateWith_of_saturate_eq (op : Opcode) {a b b' : Float} (h : saturate b' = saturate b) :
    op.evaluateWith A a b' = op.evaluateWith A a b := by
  unfold evaluateWith
  rw [h]

/-- The input bank stays as it is. -/
theorem Registers.write_inputs {r r' : Registers} {index : Int} {x : Float} (h : r.write index x = .ok r') :
    r'.inputs = r.inputs := by
  unfold write at h
  split at h
  · obtain rfl := Except.ok.inj h
    rfl
  · exact nomatch h

namespace Instruction

variable {i j : Instruction} {r r' : Registers} {values : Array Float}

/-- Instructions with one operation and one destination whose operands are saturated to the same, when the one finds
    `inputs` in its input bank and the other one finds `inputs'`. -/
structure Counterpart (inputs inputs' : Array Float) (i j : Instruction) : Prop where
  opcode : j.opcode = i.opcode
  destination : j.destination = i.destination
  operand : ∀ values, (j.operand ⟨values, inputs'⟩).map saturate = (i.operand ⟨values, inputs⟩).map saturate

theorem applyWith_inputs {goesOn : Bool} (h : i.applyWith A r = .ok goesOn r') : r'.inputs = r.inputs := by
  rcases applyWith_ok h with rfl | ⟨x, hwrite⟩
  · rfl
  · exact Registers.write_inputs hwrite

namespace Counterpart

theorem symm (h : Counterpart inputs inputs' i j) : Counterpart inputs' inputs j i :=
  ⟨h.opcode.symm, h.destination.symm, fun values => (h.operand values).symm⟩

theorem isBranch_eq (h : Counterpart inputs inputs' i j) : j.isBranch = i.isBranch := by
  unfold isBranch operation?
  rw [h.opcode]

/-- Counterparts yield the same, or fail in the same way. -/
theorem resultWith_eq (h : Counterpart inputs inputs' i j) :
    j.resultWith A ⟨values, inputs'⟩ = i.resultWith A ⟨values, inputs⟩ := by
  have hoperation : j.operation = i.operation := by
    unfold operation operation? unknownOpcode
    rw [h.opcode]
  have hoperand := h.operand values
  unfold resultWith
  rw [hoperation, h.destination]
  cases hi : i.operand ⟨values, inputs⟩ with
  | error f =>
      cases hj : j.operand ⟨values, inputs'⟩ with
      | error f' =>
          rw [hi, hj] at hoperand
          rw [Except.error.inj hoperand]
      | ok b' =>
          rw [hi, hj] at hoperand
          exact nomatch hoperand
  | ok b =>
      cases hj : j.operand ⟨values, inputs'⟩ with
      | error f' =>
          rw [hi, hj] at hoperand
          exact nomatch hoperand
      | ok b' =>
          rw [hi, hj] at hoperand
          have hsame : saturate b' = saturate b := Except.ok.inj hoperand
          have hresult : ∀ op a, Opcode.evaluateWith A op a b' = Opcode.evaluateWith A op a b :=
            fun op _ => op.evaluateWith_of_saturate_eq hsame
          show (i.operation.bind fun op => (Registers.read values i.destination).bind fun a =>
            Except.ok (op.evaluateWith A a b')) = _
          simp only [hresult]
          rfl

/-- **One instruction in step**: the registers change in the same way, and the same is said about what follows. -/
theorem applyWith_eq (h : Counterpart inputs inputs' i j) :
    j.applyWith A ⟨values, inputs'⟩ =
      match i.applyWith A ⟨values, inputs⟩ with
      | .ok goesOn r => .ok goesOn ⟨r.values, inputs'⟩
      | .error e r => .error e ⟨r.values, inputs'⟩ := by
  rw [Instruction.applyWith_eq, Instruction.applyWith_eq]
  unfold stepWith
  rw [h.resultWith_eq, h.destination]
  cases i.resultWith A ⟨values, inputs⟩ with
  | error f => rfl
  | ok result =>
      cases result with
      | condition holds => rfl
      | number x =>
          simp only [Registers.write]
          cases position? values.size i.destination with
          | none => rfl
          | some place => rfl

end Counterpart

end Instruction

/-! ## Executions in step -/

/-- Outcomes that say the same and leave the same working registers. -/
structure SameWork (o o' : EStateM.Result Error Registers Unit) : Prop where
  answer_eq : answer o' = answer o
  values_eq : (finalState o').values = (finalState o).values

namespace Point

variable {point point' next : Point}

/-- Points of two executions in step. Each of them has its own input bank, which is the same all the time. -/
structure Beside (inputs inputs' : Array Float) (point point' : Point) : Prop where
  skip : point'.skip = point.skip
  rest : List.Forall₂ (Instruction.Counterpart inputs inputs') point.rest point'.rest
  values : point'.registers.values = point.registers.values
  bank : point.registers.inputs = inputs
  bank' : point'.registers.inputs = inputs'

theorem Beside.symm (h : Beside inputs inputs' point point') : Beside inputs' inputs point' point :=
  ⟨h.skip.symm, h.rest.flip.imp fun _ _ hij => hij.symm, h.values.symm, h.bank', h.bank⟩

/-- Where one execution takes a turn, the other one does as well, and they are in step again. -/
theorem Turn.beside (h : Turn A policy point next) (hbeside : Beside inputs inputs' point point') :
    ∃ next', Turn A policy point' next' ∧ Beside inputs inputs' next next' := by
  obtain ⟨skip', code', values', bank⟩ := point'
  obtain ⟨hskip, hrest, hvalues, hbank, hbank'⟩ := hbeside
  obtain rfl : bank = inputs' := hbank'
  cases h with
  | @skipped pending i rest r =>
      obtain rfl : skip' = pending + 1 := hskip
      cases hrest with
      | @cons _ j _ rest' hij hrest =>
          refine ⟨_, .skipped, ?_, hrest, hvalues, hbank, rfl⟩
          unfold skipPast
          rw [hij.isBranch_eq]
  | @executed i rest r goesOn r' happly =>
      obtain rfl : skip' = 0 := hskip
      obtain ⟨values, own⟩ := r
      obtain rfl : own = inputs := hbank
      obtain rfl : values' = values := hvalues
      cases hrest with
      | @cons _ j _ rest' hij hrest =>
          have happly' : j.applyWith A ⟨values', bank⟩ = _ := hij.applyWith_eq
          rw [happly] at happly'
          exact ⟨_, .executed happly', rfl, hrest, rfl, Instruction.applyWith_inputs happly, rfl⟩

theorem Reaches.beside (h : Reaches A policy point next) (hbeside : Beside inputs inputs' point point') :
    ∃ next', Reaches A policy point' next' ∧ Beside inputs inputs' next next' := by
  induction h with
  | refl => exact ⟨point', .refl, hbeside⟩
  | tail _ hturn ih =>
      obtain ⟨middle', hreaches, hmiddle⟩ := ih
      obtain ⟨next', hturn', hnext⟩ := hturn.beside hmiddle
      exact ⟨next', hreaches.tail hturn', hnext⟩

/-- **Executions in step end alike**, also where they fail: by induction on what is left of the first one. -/
theorem Beside.run_alike (h : Beside inputs inputs' point point') :
    SameWork (point.run A policy) (point'.run A policy) := by
  obtain ⟨skip, code, r⟩ := point
  induction code generalizing skip r point' with
  | nil =>
      obtain ⟨skip', code', r'⟩ := point'
      obtain rfl : code' = [] := List.forall₂_nil_left_iff.mp h.rest
      exact ⟨rfl, h.values⟩
  | cons i rest ih =>
      cases skip with
      | succ pending =>
          have hturn : Turn A policy ⟨pending + 1, i :: rest, r⟩ ⟨skipPast policy pending i, rest, r⟩ := .skipped
          obtain ⟨next', hturn', hnext⟩ := hturn.beside h
          rw [hturn.run_eq, hturn'.run_eq]
          exact ih _ _ hnext
      | zero =>
          cases happly : i.applyWith A r with
          | ok goesOn banks =>
              have hturn : Turn A policy ⟨0, i :: rest, r⟩ ⟨if goesOn then 0 else 1, rest, banks⟩ := .executed happly
              obtain ⟨next', hturn', hnext⟩ := hturn.beside h
              rw [hturn.run_eq, hturn'.run_eq]
              exact ih _ _ hnext
          | error e banks =>
              obtain ⟨skip', code', values', bank'⟩ := point'
              obtain ⟨values, bank⟩ := r
              obtain ⟨hskip, hrest, hvalues, hbank, hbank'⟩ := h
              obtain rfl : skip' = 0 := hskip
              obtain rfl : values' = values := hvalues
              obtain rfl : bank = inputs := hbank
              obtain rfl : bank' = inputs' := hbank'
              cases hrest with
              | @cons _ j _ rest' hij hrest =>
                  have happly' : j.applyWith A ⟨values', bank'⟩ = _ := hij.applyWith_eq
                  rw [happly] at happly'
                  rw [run_of_error happly, run_of_error happly']
                  exact ⟨rfl, rfl⟩

/-- On the way from `start` a branch with `left` instructions after it is executed, and it lets them run or not. -/
def Decides (A : Arithmetic) (policy : BranchPolicy) (start : Point) (left : Nat) (goesOn : Bool) : Prop :=
  ∃ i rest r r', Reaches A policy start ⟨0, i :: rest, r⟩ ∧ i.isBranch = true ∧ rest.length = left ∧
    i.applyWith A r = .ok goesOn r'

/-- Executions in step come through the same branches and decide them in the same way. -/
theorem Beside.decides {left : Nat} {goesOn : Bool} (h : Beside inputs inputs' point point')
    (hdecides : Decides A policy point left goesOn) : Decides A policy point' left goesOn := by
  obtain ⟨i, rest, ⟨values, bank⟩, r', hreaches, hbranch, hleft, happly⟩ := hdecides
  obtain ⟨⟨skip', code', values', bank'⟩, hreaches', hskip, hrest, hvalues, hbank, hbank'⟩ := hreaches.beside h
  obtain rfl : skip' = 0 := hskip
  obtain rfl : values' = values := hvalues
  obtain rfl : bank = inputs := hbank
  obtain rfl : bank' = inputs' := hbank'
  cases hrest with
  | @cons _ j _ rest' hij hrest =>
      have happly' : j.applyWith A ⟨values', bank'⟩ = _ := hij.applyWith_eq
      rw [happly] at happly'
      exact ⟨j, rest', _, _, hreaches', by rw [hij.isBranch_eq, hbranch], hrest.length_eq ▸ hleft, happly'⟩

theorem Beside.decides_iff {left : Nat} {goesOn : Bool} (h : Beside inputs inputs' point point') :
    Decides A policy point' left goesOn ↔ Decides A policy point left goesOn :=
  ⟨h.symm.decides, h.decides⟩

end Point

/-! ## Saturated inputs and constants -/

namespace Instruction

variable {i : Instruction}

/-- The instruction with its constant saturated. -/
def saturated (i : Instruction) : Instruction := { i with constant := i.constant.map saturate }

theorem Fits.saturated (h : i.Fits shape sizes) : i.saturated.Fits shape sizes := by
  refine ⟨h.operation, h.allowed, h.short, ?_⟩
  have hoperand := h.operand
  unfold OperandFits at hoperand ⊢
  simp only [Instruction.saturated]
  cases hmode : i.mode with
  | constant =>
      rw [hmode] at hoperand
      obtain ⟨⟨c, hc⟩, hwritable⟩ := hoperand
      exact ⟨⟨saturate c, by rw [hc]; rfl⟩, hwritable⟩
  | internal | external | other name =>
      rw [hmode] at hoperand
      exact hoperand

/-- Two versions of an instruction see the same if their constants are saturated to the same, and so is whatever they
    may read from the two input banks. -/
theorem counterpart_of_constant {c : Option Float} (hc : c.map saturate = i.constant.map saturate)
    (hbanks : ∀ index, (Registers.read inputs' index).map saturate = (Registers.read inputs index).map saturate) :
    Counterpart inputs inputs' i { i with constant := c } := by
  have hconstants : (c = none ∧ i.constant = none) ∨
      ∃ x y, c = some y ∧ i.constant = some x ∧ saturate y = saturate x := by
    cases hi : i.constant with
    | none =>
        rw [hi, Option.map_none, Option.map_eq_none_iff] at hc
        exact .inl ⟨hc, rfl⟩
    | some x =>
        rw [hi] at hc
        obtain ⟨y, hy, heq⟩ := Option.map_eq_some_iff.mp hc
        exact .inr ⟨x, y, hy, rfl, heq⟩
  refine ⟨rfl, rfl, ?_⟩
  intro values
  unfold operand
  cases i.mode with
  | internal => rfl
  | external => exact hbanks i.source
  | constant | other name =>
      rcases hconstants with ⟨hnone, hi⟩ | ⟨x, y, hy, hi, heq⟩
      · simp only [hnone, hi]
      · simp only [hy, hi, Except.map, heq]

theorem saturated_counterpart (i : Instruction) : Counterpart inputs inputs i i.saturated := by
  refine counterpart_of_constant ?_ fun _ => rfl
  cases i.constant with
  | none => rfl
  | some c => exact congrArg some (saturate_saturate c)

end Instruction

namespace Registers

/-- Numbers that are saturated to the same as others can be read in their place. -/
theorem read_map_saturate {f g : Float → Float} (h : ∀ x, saturate (f x) = saturate (g x)) (xs : List Float)
    (index : Int) :
    (read (xs.map f).toArray index).map saturate = (read (xs.map g).toArray index).map saturate := by
  unfold read
  rw [List.size_toArray, List.size_toArray, List.length_map, List.length_map]
  cases position? xs.length index with
  | none => rfl
  | some place =>
      simp only [Except.map]
      congr 1
      cases hx : xs[place]? with
      | none => simp [hx]
      | some x => simpa [hx] using h x

end Registers

namespace Program

variable {p q : Program} {r : Registers} {xs ys : List Float}

/-- Executing `q` on `ys` decides and computes what executing `p` on `xs` does: it comes through the same branches and
    decides them in the same way, and at the end it says the same and leaves the same working registers. -/
structure Follows (A : Arithmetic) (r : Registers) (p : Program) (xs : List Float) (q : Program) (ys : List Float) :
    Prop where
  outcome : SameWork (p.executeWith A (some xs) r) (q.executeWith A (some ys) r)
  decides_iff : ∀ left goesOn, (q.start ys r).Decides A q.shape.branchPolicy left goesOn ↔
    (p.start xs r).Decides A p.shape.branchPolicy left goesOn

/-- Programs whose instructions see the same on two inputs follow each other. -/
theorem follows_of_counterparts (hshape : q.shape = p.shape) (hxs : xs.length = r.inputs.size)
    (hys : ys.length = r.inputs.size)
    (hcode : List.Forall₂ (Instruction.Counterpart (xs.map finiteInput).toArray (ys.map finiteInput).toArray)
      p.code q.code) : Follows A r p xs q ys := by
  have hbeside : Point.Beside (xs.map finiteInput).toArray (ys.map finiteInput).toArray (p.start xs r) (q.start ys r) :=
    ⟨rfl, hcode, rfl, rfl, rfl⟩
  constructor
  · rw [executeWith_eq_start A hxs, executeWith_eq_start A hys, hshape]
    exact hbeside.run_alike
  · intro left goesOn
    rw [hshape]
    exact hbeside.decides_iff

/-- The program with all its constants saturated. -/
def saturated (p : Program) : Program := { p with code := p.code.map Instruction.saturated }

/--
**Saturation at the edges does not show.** For a program without a flaw under either branch policy, all inputs of the
right number, fitting banks and any arithmetic, the execution on the inputs saturated, and the execution of the program
with its constants saturated, which is without a flaw as well, come through the same branches, decide them in the same
way and end with the same working registers. With as many registers as actions they all run to the end.
-/
theorem execute_saturated (A : Arithmetic) (hsizes : p.shape.sizes? = some sizes)
    (hflaw : p.shape.flaw? p.code = none) (hr : r.Fits sizes) (hxs : (xs.length : Int) = sizes.inputs) :
    p.shape.flaw? p.saturated.code = none ∧
      (sizes.actions ≤ sizes.registers → ∃ r', p.executeWith A (some xs) r = .ok () r') ∧
      Follows A r p xs p (xs.map saturate) ∧ Follows A r p xs p.saturated xs := by
  have hfits := Shape.fits_of_flaw?_eq_none hsizes hflaw
  have hlength : xs.length = r.inputs.size := hr.length_eq hxs
  refine ⟨?_, fun hroom => executeWith_ok A hroom hfits hr hxs, ?_, ?_⟩
  · refine Shape.Fits.flaw?_eq_none hsizes ⟨?_, ?_, ?_⟩
    · simpa [saturated] using hfits.nonempty
    · simpa [saturated] using hfits.length_le
    · intro j hj
      obtain ⟨i, hi, rfl⟩ := List.mem_map.mp hj
      exact (hfits.each i hi).saturated
  · refine follows_of_counterparts rfl hlength (by rw [List.length_map, hlength]) (List.forall₂_same.mpr ?_)
    intro i _
    -- an input is saturated again when it is read, and before that it is finite or makes no difference
    have hnumbers : ∀ x, saturate (finiteInput (saturate x)) = saturate (finiteInput x) := by
      intro x
      rw [saturate_finiteInput, saturate_finiteInput, saturate_saturate]
    refine Instruction.counterpart_of_constant rfl fun index => ?_
    rw [List.map_map]
    exact Registers.read_map_saturate hnumbers xs index
  · refine follows_of_counterparts rfl hlength hlength ?_
    refine List.forall₂_map_right_iff.mpr (List.forall₂_same.mpr ?_)
    intro i _
    exact i.saturated_counterpart

/-- A program whose constants are infinite and no number, under the nested policy. -/
def unbridled : Program :=
  ⟨0, [⟨"if_lt", 0, 0, .constant, some (1.0 / 0.0)⟩, ⟨"if_gt", 1, 0, .constant, some (0.0 / 0.0)⟩,
      ⟨"sub", 1, 0, .external, none⟩, ⟨"vote", 0, 1, .internal, some (0.0 / 0.0)⟩],
    ⟨4, some 2, some 1, some 1, none, 0.1, 0.5, 10.0, .nested⟩⟩

/-- On an infinite input that program does what it does on the greatest number that a register may hold. -/
theorem execute_saturated_unbridled :
    (∃ r', unbridled.executeWith .binary64 (some [1.0 / 0.0]) (Registers.zeros 2 1) = .ok () r') ∧
      Follows .binary64 (Registers.zeros 2 1) unbridled [1.0 / 0.0] unbridled [saturationBound] := by
  have hsaturated : ([1.0 / 0.0] : List Float).map saturate = [saturationBound] := by decide
  have hsizes : unbridled.shape.sizes? = some ⟨2, 1, 1⟩ := rfl
  have hfits : (Registers.zeros 2 1).Fits ⟨2, 1, 1⟩ := ⟨rfl, rfl⟩
  have hlength : (([1.0 / 0.0] : List Float).length : Int) = 1 := rfl
  obtain ⟨-, hruns, hfollows, -⟩ := execute_saturated .binary64 hsizes (by decide +kernel) hfits hlength
  rw [hsaturated] at hfollows
  exact ⟨hruns (by decide), hfollows⟩

end Program

end RegisterEvolution
