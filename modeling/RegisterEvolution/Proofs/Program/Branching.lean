import RegisterEvolution.Program.Store
import RegisterEvolution.Proofs.Outcome
import RegisterEvolution.Proofs.Program.Validity

/-!
# `Proofs.Program.Branching` — the skip counter and structured branches

The machine's loop walks over the instructions once and counts how many are still to be skipped. Read structurally, a
branch whose condition fails cuts a piece off what is left to run, and the branch policy says how much. The two readings
agree on every program, and on a program that fits its shape neither of them can fail.

* `runFrom_zero` — the loop is structured execution, for any instructions and banks, errors included;
* `Structured.final` — the banks after structured execution, for instructions that cannot fail;
* `execute_refines_structured` — running a valid program on inputs of the right number ends in these banks.
-/

namespace RegisterEvolution

open Structured

/-! ## The loop -/

/-- Skipping one instruction runs what a failed branch leaves. Under the nested policy every branch that is passed over
    keeps the counter at one, so the induction is on the leading block of branches. -/
theorem runFrom_one (A : Arithmetic) (policy : BranchPolicy) (code : List Instruction) :
    runFrom A policy 1 code = runFrom A policy 0 (afterFailure policy code) := by
  cases policy with
  | single =>
      cases code with
      | nil => rfl
      | cons i rest => simp [runFrom, skipPast, afterFailure]
  | nested =>
      induction code with
      | nil => rfl
      | cons i rest ih =>
          cases hi : i.isBranch with
          | true => simpa [runFrom, skipPast, afterFailure, hi] using ih
          | false => simp [runFrom, skipPast, afterFailure, hi]

/-- **The loop is structured execution.** -/
theorem runFrom_zero (A : Arithmetic) (policy : BranchPolicy) (code : List Instruction) :
    runFrom A policy 0 code = Structured.run A policy code := by
  fun_induction Structured.run A policy code with
  | case1 => rfl
  | case2 i rest ihHolds ihFails =>
      rw [runFrom]
      apply bind_congr
      intro goesOn
      cases goesOn with
      | true => simpa using ihHolds
      | false => simpa [runFrom_one] using ihFails

/-! ## One instruction -/

/-- The banks have the sizes that a shape gives them. -/
structure Registers.Fits (sizes : BankSizes) (r : Registers) : Prop where
  values : (r.values.size : Int) = sizes.registers
  inputs : (r.inputs.size : Int) = sizes.inputs

namespace Registers

theorem position?_of_lt {size : Nat} {index : Int} (h0 : 0 ≤ index) (h : index < size) :
    position? size index = some index.toNat := by
  unfold position?
  rw [if_pos h0, if_pos h]

theorem read_of_lt {bank : Array Float} {index : Int} (h0 : 0 ≤ index) (h : index < bank.size) :
    read bank index = .ok (bank.getD index.toNat 0.0) := by
  unfold read
  rw [position?_of_lt h0 h]

theorem write_of_lt {r : Registers} {index : Int} {x : Float} (h0 : 0 ≤ index) (h : index < r.values.size) :
    r.write index x = .ok { r with values := r.values.setIfInBounds index.toNat x } := by
  unfold write
  rw [position?_of_lt h0 h]

end Registers

namespace Instruction

variable {A : Arithmetic} {i : Instruction} {r r' : Registers} {shape : Shape} {sizes : BankSizes}

/-- Whether the instruction lets what follows it run. -/
def holds (A : Arithmetic) (i : Instruction) (r : Registers) : Bool :=
  match i.stepWith A r with
  | .ok (goesOn, _) => goesOn
  | .error _ => false

/-- The banks after the instruction. -/
def applied (A : Arithmetic) (i : Instruction) (r : Registers) : Registers :=
  match i.stepWith A r with
  | .ok (_, r') => r'
  | .error _ => r

theorem resultWith_eq {op : Opcode} {a b : Float} (hop : i.operation? = some op)
    (ha : Registers.read r.values i.destination = .ok a) (hb : i.operand r = .ok b) :
    i.resultWith A r = .ok (op.evaluateWith A a b) := by
  unfold resultWith operation
  rw [hop, ha, hb]
  rfl

theorem isBranch_eq {op : Opcode} (hop : i.operation? = some op) : i.isBranch = op.isBranch := by
  unfold isBranch
  rw [hop]
  rfl

/-- A branch yields a condition, every other operation a number. -/
theorem resultWith_ok {res : OpResult} (h : i.resultWith A r = .ok res) :
    (i.isBranch = true ∧ ∃ b, res = .condition b) ∨ (i.isBranch = false ∧ ∃ x, res = .number x) := by
  cases hop : i.operation? with
  | none => simp [resultWith, operation, hop, bind, Except.bind] at h
  | some op =>
      cases ha : Registers.read r.values i.destination with
      | error f => simp [resultWith, operation, hop, ha, bind, Except.bind] at h
      | ok a =>
          cases hb : i.operand r with
          | error f => simp [resultWith, operation, hop, ha, hb, bind, Except.bind] at h
          | ok b =>
              rw [resultWith_eq hop ha hb] at h
              obtain rfl := Except.ok.inj h
              rw [isBranch_eq hop]
              unfold Opcode.evaluateWith
              cases op.isBranch with
              | true => exact .inl ⟨rfl, _, rfl⟩
              | false => exact .inr ⟨rfl, _, rfl⟩

/-- **A branch changes no register**, and everything else lets what follows it run. -/
theorem stepWith_ok {goesOn : Bool} (h : i.stepWith A r = .ok (goesOn, r')) :
    (i.isBranch = true → r' = r) ∧ (i.isBranch = false → goesOn = true) := by
  unfold stepWith at h
  cases hres : i.resultWith A r with
  | error f => simp [hres, bind, Except.bind] at h
  | ok res =>
      rcases resultWith_ok hres with ⟨hbranch, b, rfl⟩ | ⟨hbranch, x, rfl⟩
      · simp only [hres, bind, Except.bind, pure, Except.pure, Except.ok.injEq, Prod.mk.injEq] at h
        exact ⟨fun _ => h.2.symm, fun hb => by simp [hbranch] at hb⟩
      · refine ⟨fun hb => by simp [hbranch] at hb, ?_⟩
        intro _
        cases hwrite : r.write i.destination (saturate x) with
        | error f => simp [hres, hwrite, bind, Except.bind] at h
        | ok r'' =>
            simp only [hres, hwrite, bind, Except.bind, pure, Except.pure, Except.ok.injEq, Prod.mk.injEq] at h
            exact h.1.symm

/-- Executing an instruction is one step; a step that fails leaves the banks as they are. -/
theorem applyWith_eq : i.applyWith A r =
    match i.stepWith A r with
    | .ok (goesOn, r') => .ok goesOn r'
    | .error f => .error (.fault f) r := by
  have hbind : i.applyWith A r = (match i.stepWith A r with
      | .ok (goesOn, r') => (do set r'; return goesOn)
      | .error f => throw (.fault f) : Machine Bool) r := rfl
  rw [hbind]
  cases i.stepWith A r with
  | ok out => rfl
  | error f => rfl

/-- Everything that the instruction uses is there: its operation, its destination in the register bank, and its second
    operand in the bank that the mode names or in the instruction itself. -/
structure Served (i : Instruction) (r : Registers) : Prop where
  operation : ∃ op, i.operation? = some op
  destination : 0 ≤ i.destination ∧ i.destination < r.values.size
  operand : match i.mode with
    | .internal => 0 ≤ i.source ∧ i.source < r.values.size
    | .external => 0 ≤ i.source ∧ i.source < r.inputs.size
    | .constant => ∃ c, i.constant = some c
    | .other _ => False

/-- An instruction that fits is served if its destination is a register; for an action it need not be one. -/
theorem Fits.served (hi : i.Fits shape sizes) (hr : r.Fits sizes) (hinside : i.destination < sizes.registers) :
    i.Served r := by
  obtain ⟨op, hop, h0, -⟩ := hi.operation
  refine ⟨⟨op, hop⟩, ⟨h0, by rw [hr.values]; exact hinside⟩, ?_⟩
  have hoperand := hi.operand
  unfold OperandFits at hoperand
  rw [hr.values, hr.inputs]
  cases hmode : i.mode with
  | constant =>
      rw [hmode] at hoperand
      exact hoperand.1
  | _ =>
      rw [hmode] at hoperand
      exact hoperand

/-- What an instruction that is served reads is there. -/
theorem Served.operand_ok (h : i.Served r) : ∃ b, i.operand r = .ok b := by
  have hoperand := h.operand
  unfold Instruction.operand
  split at hoperand <;> rename_i hmode <;> rw [hmode]
  · exact ⟨_, Registers.read_of_lt hoperand.1 hoperand.2⟩
  · exact ⟨_, Registers.read_of_lt hoperand.1 hoperand.2⟩
  · obtain ⟨c, hc⟩ := hoperand
    exact ⟨c, by simp [hc]⟩
  · exact hoperand.elim

/-- An instruction that is served cannot fail, and keeps the sizes of the banks. -/
theorem stepWith_of_served (h : i.Served r) :
    ∃ b r', i.stepWith A r = .ok (b, r') ∧ r'.values.size = r.values.size ∧ r'.inputs.size = r.inputs.size := by
  obtain ⟨op, hop⟩ := h.operation
  obtain ⟨h0, hlt⟩ := h.destination
  obtain ⟨b, hb⟩ := h.operand_ok
  have hres := resultWith_eq (A := A) hop (Registers.read_of_lt h0 hlt) hb
  unfold stepWith
  rw [hres]
  cases Opcode.evaluateWith A op _ b with
  | condition holds => exact ⟨holds, r, rfl, rfl, rfl⟩
  | number x =>
      refine ⟨true, { r with values := r.values.setIfInBounds i.destination.toNat (saturate x) }, ?_, ?_, rfl⟩
      · show ((r.write i.destination (saturate x)).bind fun r' => .ok (true, r')) = _
        rw [Registers.write_of_lt h0 hlt]
        rfl
      · simp

/-- An instruction that fits cannot fail, and keeps the sizes of the banks. -/
theorem stepWith_of_fits (hroom : sizes.actions ≤ sizes.registers) (hi : i.Fits shape sizes) (hr : r.Fits sizes) :
    ∃ b r', i.stepWith A r = .ok (b, r') ∧ r'.Fits sizes := by
  obtain ⟨op, -, -, hlt⟩ := hi.operation
  have hinside := Int.lt_of_lt_of_le hlt (BankSizes.destinations_le hroom op.kind)
  obtain ⟨b, r', hstep, hvalues, hinputs⟩ := stepWith_of_served (A := A) (hi.served hr hinside)
  exact ⟨b, r', hstep, by rw [hvalues]; exact hr.values, by rw [hinputs]; exact hr.inputs⟩

end Instruction

/-! ## A program -/

namespace Structured

theorem sublist_afterFailure (policy : BranchPolicy) (rest : List Instruction) :
    (afterFailure policy rest).Sublist rest := by
  cases policy with
  | single => exact List.drop_sublist 1 rest
  | nested => exact (List.drop_sublist 1 _).trans (List.dropWhile_sublist _)

/--
The banks after structured execution. A failed branch goes on with what the policy leaves of the rest: `single` leaves
out the next instruction, whatever it is, and `nested` the branches right after it and the instruction after those.
-/
def final (A : Arithmetic) (policy : BranchPolicy) (code : List Instruction) (r : Registers) : Registers :=
  match code with
  | [] => r
  | i :: rest =>
    if i.isBranch then
      if i.holds A r then final A policy rest r else final A policy (afterFailure policy rest) r
    else final A policy rest (i.applied A r)
termination_by code.length
decreasing_by
  · simp
  · have := length_afterFailure_le policy rest
    simp only [List.length_cons]
    omega
  · simp

variable {A : Arithmetic} {policy : BranchPolicy} {shape : Shape} {sizes : BankSizes}

theorem run_cons {i : Instruction} {rest : List Instruction} {r r' : Registers} {goesOn : Bool}
    (h : i.stepWith A r = .ok (goesOn, r')) :
    Structured.run A policy (i :: rest) r =
      Structured.run A policy (if goesOn then rest else afterFailure policy rest) r' := by
  rw [Structured.run]
  show EStateM.bind (i.applyWith A) _ r = _
  rw [EStateM.bind, Instruction.applyWith_eq, h]
  cases goesOn with
  | true => rfl
  | false => rfl

/-- Instructions that fit do not fail, whichever of them the branches leave out. -/
theorem run_of_fits (hroom : sizes.actions ≤ sizes.registers) {code : List Instruction} {r : Registers}
    (hcode : ∀ i ∈ code, i.Fits shape sizes) (hr : r.Fits sizes) :
    Structured.run A policy code r = .ok () (final A policy code r) := by
  fun_induction final A policy code r with
  | case1 r =>
      rw [Structured.run]
      rfl
  | case2 r i rest hbranch hholds ih =>
      obtain ⟨b, r', hstep, -⟩ := Instruction.stepWith_of_fits (A := A) hroom (hcode i (List.mem_cons_self ..)) hr
      obtain rfl := (Instruction.stepWith_ok hstep).1 hbranch
      obtain rfl : b = true := by simpa [Instruction.holds, hstep] using hholds
      rw [run_cons hstep]
      exact ih (fun j hj => hcode j (List.mem_cons_of_mem i hj)) hr
  | case3 r i rest hbranch hfails ih =>
      obtain ⟨b, r', hstep, -⟩ := Instruction.stepWith_of_fits (A := A) hroom (hcode i (List.mem_cons_self ..)) hr
      obtain rfl := (Instruction.stepWith_ok hstep).1 hbranch
      obtain rfl : b = false := by simpa [Instruction.holds, hstep] using hfails
      rw [run_cons hstep]
      -- what a failed branch leaves are still instructions of the program
      refine ih (fun j hj => hcode j (List.mem_cons_of_mem i ?_)) hr
      exact (sublist_afterFailure policy rest).mem hj
  | case4 r i rest hbranch ih =>
      obtain ⟨b, r', hstep, hr'⟩ := Instruction.stepWith_of_fits (A := A) hroom (hcode i (List.mem_cons_self ..)) hr
      obtain rfl := (Instruction.stepWith_ok hstep).2 (by simpa using hbranch)
      have happlied : i.applied A r = r' := by simp [Instruction.applied, hstep]
      rw [happlied] at ih ⊢
      rw [run_cons hstep]
      exact ih (fun j hj => hcode j (List.mem_cons_of_mem i hj)) hr'

end Structured

namespace Registers

/-- Banks as a run finds them: registers at zero, and the inputs as the input bank holds them. -/
def loaded (registers : Nat) (xs : List Float) : Registers :=
  ⟨Array.replicate registers 0.0, (xs.map finiteInput).toArray⟩

theorem reset_some {r : Registers} {xs : List Float} (h : xs.length = r.inputs.size) :
    reset (some xs) r = .ok () (loaded r.values.size xs) := by
  have hcleared : (cleared r).inputs.size = r.inputs.size := by simp [cleared, zeros]
  have hreset : reset (some xs) r = (if xs.length = (cleared r).inputs.size then
        set { cleared r with inputs := (xs.map finiteInput).toArray }
      else throw (.task (.wrongInputCount (cleared r).inputs.size xs.length)) : Machine Unit) (cleared r) := rfl
  rw [hreset, hcleared, if_pos h]
  rfl

end Registers

namespace Program

theorem executeWith_eq_run (A : Arithmetic) (p : Program) (inputs : Option (List Float)) :
    p.executeWith A inputs =
      (do Registers.reset inputs; Structured.run A p.shape.branchPolicy p.code) := by
  unfold executeWith RegisterEvolution.executeWith
  apply bind_congr
  intro _
  exact runFrom_zero A p.shape.branchPolicy p.code

/--
**The skip counter refines structured branches.** Under any arithmetic, running a program is loading the inputs and
structured execution, errors and the banks that they leave included. A program without a flaw, on banks and inputs of
the sizes that its shape names, ends in the banks that the structured reading gives, and a branch that is executed
leaves the banks as they are.
-/
theorem execute_refines_structured (A : Arithmetic) (p : Program) (xs : List Float) (r : Registers) :
    p.executeWith A (some xs) r =
        (do Registers.reset (some xs); Structured.run A p.shape.branchPolicy p.code : Machine Unit) r ∧
      (∀ sizes, p.shape.sizes? = some sizes → sizes.actions ≤ sizes.registers → p.shape.flaw? p.code = none →
        r.Fits sizes → (xs.length : Int) = sizes.inputs →
        p.executeWith A (some xs) r =
          .ok () (Structured.final A p.shape.branchPolicy p.code (Registers.loaded r.values.size xs))) ∧
      ∀ i : Instruction, i.isBranch = true → ∀ banks banks' goesOn,
        i.applyWith A banks = .ok goesOn banks' → banks' = banks := by
  refine ⟨by rw [executeWith_eq_run], ?_, ?_⟩
  · intro sizes hsizes hroom hflaw hr hxs
    have hfits := Shape.fits_of_flaw?_eq_none hsizes hflaw
    have hlength : xs.length = r.inputs.size := by
      have := hr.inputs
      omega
    have hloaded : (Registers.loaded r.values.size xs).Fits sizes :=
      ⟨by simpa [Registers.loaded] using hr.values, by simpa [Registers.loaded] using hxs⟩
    rw [executeWith_eq_run]
    show EStateM.bind (Registers.reset (some xs)) _ r = _
    rw [EStateM.bind, Registers.reset_some hlength]
    exact Structured.run_of_fits hroom hfits.each hloaded
  · intro i hbranch banks banks' goesOn h
    rw [Instruction.applyWith_eq] at h
    cases hstep : i.stepWith A banks with
    | error f => simp [hstep] at h
    | ok out =>
        obtain ⟨b, r'⟩ := out
        obtain ⟨rfl, rfl⟩ : b = goesOn ∧ r' = banks' := by simpa [hstep] using h
        exact (Instruction.stepWith_ok hstep).1 hbranch

/-- A failed branch in front of a block of two: under the nested policy the loop skips the branch and the addition that
    the branch guards, and goes on with the second addition. -/
theorem execute_refines_structured_block :
    Structured.final .binary64 .nested
        [⟨"if_gt", 0, 0, .external, none⟩, ⟨"if_lt", 0, 0, .external, none⟩, ⟨"add", 0, 0, .external, none⟩,
          ⟨"add", 1, 0, .external, none⟩]
        (Registers.loaded 2 [2.0]) = ⟨#[0.0, 2.0], #[2.0]⟩ := by
  let p : Program :=
    { id := 0
      code := [⟨"if_gt", 0, 0, .external, none⟩, ⟨"if_lt", 0, 0, .external, none⟩,
        ⟨"add", 0, 0, .external, none⟩, ⟨"add", 1, 0, .external, none⟩]
      shape :=
        { maxInstructions := 4, registerCount := some 2, inputCount := some 1, actionCount := some 1, opcodes := none,
          constantProbability := 0.5, externalProbability := 0.5, constantRange := 1.0, branchPolicy := .nested } }
  have hrefines := (execute_refines_structured .binary64 p [2.0] (Registers.zeros 2 1)).2.1 ⟨2, 1, 1⟩ rfl (by decide)
    (by decide) ⟨rfl, rfl⟩ rfl
  have hrun : p.executeWith .binary64 (some [2.0]) (Registers.zeros 2 1) = .ok () ⟨#[0.0, 2.0], #[2.0]⟩ := by rfl
  rw [hrefines] at hrun
  injection hrun

end Program

end RegisterEvolution
