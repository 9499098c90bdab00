import RegisterEvolution.Proofs.Program.Acceptance
import RegisterEvolution.Tasks.Classification

/-!
# `Proofs.Program.Memory` — executions that leave no trace

A program keeps its banks from one execution to the next, and an execution that fails leaves them as they are at that
point. Nothing of it shows later: the first thing that an execution does is to clear the banks, so that their sizes are
all that it finds, and no execution changes these.

* `Registers.blank`, `Registers.reset_of_fits` — banks full of zeros, and what is loaded into them;
* `Program.executeFrom_congr` — the outcome of an execution is determined by the sizes of the banks;
* `Program.executeFrom_eq_task_iff` — the only task error is a wrong number of inputs;
* `Store.afterCalls`, `Store.Equips` — any number of executions, and what they keep;
* `execute_forgets` — a program that has been executed and a fresh one cannot be told apart.
-/

namespace RegisterEvolution

variable {shape : Shape} {sizes : BankSizes} {code : List Instruction} {A : Arithmetic} {policy : BranchPolicy}

/-! ## Cleared banks -/

namespace Registers

/-- Banks of the given sizes full of zeros. -/
def blank (sizes : BankSizes) : Registers := zeros sizes.registers.toNat sizes.inputs.toNat

variable {r r' : Registers} {v : Value} {xs : List Float}

/-- Clearing banks leaves nothing of them but their sizes. -/
theorem Fits.cleared_eq (hr : r.Fits sizes) : r.cleared = blank sizes := by
  have hvalues : r.values.size = sizes.registers.toNat := by
    have := hr.values
    omega
  have hinputs : r.inputs.size = sizes.inputs.toNat := by
    have := hr.inputs
    omega
  simp [cleared, blank, hvalues, hinputs]

theorem Fits.blank (hr : r.Fits sizes) : (blank sizes).Fits sizes := by
  rw [← hr.cleared_eq]
  exact ⟨by simpa [cleared, zeros] using hr.values, by simpa [cleared, zeros] using hr.inputs⟩

/-- Inputs of the right number are loaded into banks that fit. -/
theorem Fits.loaded_of_length (hr : r.Fits sizes) (h : (xs.length : Int) = sizes.inputs) :
    (Registers.loaded sizes.registers.toNat xs).Fits sizes := by
  have hvalues : r.values.size = sizes.registers.toNat := by
    have := hr.values
    omega
  rw [← hvalues]
  exact hr.loaded h

/-- The banks after `xs` have been offered to banks that fit. -/
theorem reset_of_fits (hr : r.Fits sizes) :
    reset (some xs) r =
      if (xs.length : Int) = sizes.inputs then .ok () (loaded sizes.registers.toNat xs)
      else .error (.task (.wrongInputCount sizes.inputs.toNat xs.length)) (blank sizes) := by
  have hsize : (blank sizes).inputs.size = sizes.inputs.toNat := by simp [Registers.blank, zeros]
  have hreset : reset (some xs) r = (if xs.length = (cleared r).inputs.size then
        set { cleared r with inputs := (xs.map finiteInput).toArray }
      else throw (.task (.wrongInputCount (cleared r).inputs.size xs.length)) : Machine Unit) (cleared r) := rfl
  rw [hreset, hr.cleared_eq, hsize]
  have hinputs := hr.inputs
  by_cases hlength : (xs.length : Int) = sizes.inputs
  · rw [if_pos hlength, if_pos (by omega)]
    rfl
  · rw [if_neg hlength, if_neg (by omega)]
    rfl

theorem resetFrom_null (hr : r.Fits sizes) : resetFrom .null r = .ok () (blank sizes) := by
  rw [← hr.cleared_eq]
  rfl

/-- Anything but null is read as numbers before it is loaded. -/
theorem resetFrom_of_ne_null (hv : v ≠ .null) :
    resetFrom v r =
      match v.toVector with
      | .ok xs => reset (some xs) r
      | .error f => .error (.fault f) (cleared r) := by
  unfold resetFrom
  split
  · exact absurd rfl hv
  · cases v.toVector with
    | ok xs => rfl
    | error f => rfl

/-- What is loaded does not depend on what the banks held. -/
theorem resetFrom_congr (hr : r.Fits sizes) (hr' : r'.Fits sizes) : resetFrom v r = resetFrom v r' := by
  by_cases hv : v = .null
  · rw [hv, resetFrom_null hr, resetFrom_null hr']
  · rw [resetFrom_of_ne_null hv, resetFrom_of_ne_null hv, hr.cleared_eq, hr'.cleared_eq]
    cases v.toVector with
    | ok xs =>
        simp only
        rw [reset_of_fits hr, reset_of_fits hr']
    | error f => rfl

/-- Zeros are loaded as zeros, which is what banks hold once they are cleared. -/
theorem loaded_zeros : loaded sizes.registers.toNat (List.replicate sizes.inputs.toNat 0.0) = blank sizes := by
  have hzero : finiteInput 0.0 = 0.0 := by decide
  simp [loaded, blank, zeros, hzero]

end Registers

/-! ## One execution -/

section Keeping

variable {r : Registers}

/-- An instruction keeps the sizes of the banks, and fails by nothing but a fault. -/
theorem Instruction.applyWith_ends (i : Instruction) (hr : r.Fits sizes) :
    Ends (fun _ r' => r'.Fits sizes) (fun e r' => (∃ f, e = .fault f) ∧ r'.Fits sizes) (i.applyWith A r) := by
  cases happly : i.applyWith A r with
  | ok goesOn r' =>
      rcases applyWith_ok happly with rfl | ⟨x, hwrite⟩
      · exact hr
      · exact hr.write hwrite
  | error e r' =>
      rw [applyWith_eq] at happly
      split at happly
      · exact nomatch happly
      · obtain ⟨rfl, rfl⟩ := EStateM.Result.error.inj happly
        exact ⟨⟨_, rfl⟩, hr⟩

/-- So does the loop: by induction on what is left of the program. -/
theorem runFrom_ends (skip : Nat) (hr : r.Fits sizes) :
    Ends (fun _ r' => r'.Fits sizes) (fun e r' => (∃ f, e = .fault f) ∧ r'.Fits sizes)
      (runFrom A policy skip code r) := by
  induction code generalizing skip r with
  | nil => exact hr
  | cons i rest ih =>
      cases skip with
      | succ pending => exact ih _ hr
      | zero => exact (i.applyWith_ends hr).bind (fun goesOn r' hr' => ih _ hr') fun _ _ h => h

end Keeping

namespace Program

variable {p q : Program} {r r' banks : Registers} {v : Value} {xs : List Float}

/-- Executing a program is loading the inputs and running the loop. -/
theorem executeFrom_eq (p : Program) (v : Value) :
    p.executeFrom v = (do Registers.resetFrom v; runFrom .binary64 p.shape.branchPolicy 0 p.code) := rfl

/-- An execution from where the inputs have been loaded. -/
theorem executeFrom_of_resetFrom (h : Registers.resetFrom v r = .ok () banks) :
    p.executeFrom v r = runFrom .binary64 p.shape.branchPolicy 0 p.code banks := by
  rw [executeFrom_eq]
  show EStateM.bind _ _ r = _
  rw [EStateM.bind, h]

/-- An execution whose inputs have been refused. -/
theorem executeFrom_of_refusal {e : Error} (h : Registers.resetFrom v r = .error e banks) :
    p.executeFrom v r = .error e banks := by
  rw [executeFrom_eq]
  show EStateM.bind _ _ r = _
  rw [EStateM.bind, h]

/-- The number of a program plays no part in its execution. -/
theorem executeFrom_eq_of_code (hcode : p.code = q.code) (hshape : p.shape = q.shape) :
    p.executeFrom v = q.executeFrom v := by
  rw [executeFrom_eq, executeFrom_eq, hcode, hshape]

/-- **Nor do the banks, but for their sizes.** -/
theorem executeFrom_congr (hr : r.Fits sizes) (hr' : r'.Fits sizes) : p.executeFrom v r = p.executeFrom v r' := by
  have hload : Registers.resetFrom v r = Registers.resetFrom v r' := Registers.resetFrom_congr hr hr'
  cases hreset : Registers.resetFrom v r' with
  | ok _ banks =>
      rw [hreset] at hload
      rw [executeFrom_of_resetFrom hload, executeFrom_of_resetFrom hreset]
  | error e banks =>
      rw [hreset] at hload
      rw [executeFrom_of_refusal hload, executeFrom_of_refusal hreset]

/-- **No inputs are as many zeros.** -/
theorem executeFrom_null (hr : r.Fits sizes) :
    p.executeFrom .null r = p.executeFrom (.list ((List.replicate sizes.inputs.toNat 0.0).map .float)) r := by
  have hinputs := hr.inputs
  have hlength : ((List.replicate sizes.inputs.toNat 0.0).length : Int) = sizes.inputs := by
    rw [List.length_replicate]
    omega
  have hlist : Value.list ((List.replicate sizes.inputs.toNat 0.0).map .float) ≠ .null := by
    intro h
    cases h
  have hload : Registers.resetFrom (.list ((List.replicate sizes.inputs.toNat 0.0).map .float)) r =
      .ok () (Registers.blank sizes) := by
    rw [Registers.resetFrom_of_ne_null hlist, Value.toVector_floats]
    simp only
    rw [Registers.reset_of_fits hr, if_pos hlength, Registers.loaded_zeros]
  rw [executeFrom_of_resetFrom (Registers.resetFrom_null hr), executeFrom_of_resetFrom hload]

/-- Loading keeps the sizes of the banks, whether it succeeds or not. -/
theorem resetFrom_ends (hr : r.Fits sizes) :
    Ends (fun _ r' => r'.Fits sizes) (fun _ r' => r'.Fits sizes) (Registers.resetFrom v r) := by
  by_cases hv : v = .null
  · rw [hv, Registers.resetFrom_null hr]
    exact hr.blank
  · rw [Registers.resetFrom_of_ne_null hv]
    cases v.toVector with
    | error f =>
        simp only
        rw [hr.cleared_eq]
        exact hr.blank
    | ok xs =>
        simp only
        rw [Registers.reset_of_fits hr]
        by_cases hlength : (xs.length : Int) = sizes.inputs
        · rw [if_pos hlength]
          exact hr.loaded_of_length hlength
        · rw [if_neg hlength]
          exact hr.blank

/-- So does a whole execution. -/
theorem executeFrom_fits (hr : r.Fits sizes) : (finalState (p.executeFrom v r)).Fits sizes := by
  rw [executeFrom_eq]
  have hload : Ends (fun _ r' => r'.Fits sizes) (fun _ r' => r'.Fits sizes) (Registers.resetFrom v r) :=
    resetFrom_ends hr
  refine (hload.bind (fun _ banks hbanks => ?_) fun _ _ h => h).final
  exact (runFrom_ends 0 hbanks).imp (fun _ _ h => h) fun _ _ h => h.2

/-- Inputs are refused as a task error exactly if they are numbers, but not as many as the input bank holds. What the
    banks held is gone by then. -/
theorem executeFrom_eq_task_iff {e : TaskError} (hr : r.Fits sizes) :
    p.executeFrom v r = .error (.task e) banks ↔
      v ≠ .null ∧ ∃ xs, v.toVector = .ok xs ∧ (xs.length : Int) ≠ sizes.inputs ∧
        e = .wrongInputCount sizes.inputs.toNat xs.length ∧ banks = Registers.blank sizes := by
  -- the loop itself has no task error to offer
  have hrun : ∀ loaded : Registers, loaded.Fits sizes →
      runFrom .binary64 p.shape.branchPolicy 0 p.code loaded ≠ .error (.task e) banks := by
    intro loaded hloaded hfails
    have hends : Ends (fun _ r' => r'.Fits sizes) (fun e r' => (∃ f, e = .fault f) ∧ r'.Fits sizes)
        (runFrom .binary64 p.shape.branchPolicy 0 p.code loaded) := runFrom_ends 0 hloaded
    rw [hfails] at hends
    obtain ⟨⟨f, hf⟩, -⟩ := hends
    exact nomatch hf
  by_cases hv : v = .null
  · rw [hv, executeFrom_of_resetFrom (Registers.resetFrom_null hr)]
    exact ⟨fun h => absurd h (hrun _ hr.blank), fun h => absurd rfl h.1⟩
  · have hload := Registers.resetFrom_of_ne_null (r := r) hv
    cases hread : v.toVector with
    | error f =>
        rw [hread] at hload
        rw [executeFrom_of_refusal hload]
        exact ⟨nofun, fun ⟨_, xs, hxs, _⟩ => nomatch hxs⟩
    | ok xs =>
        rw [hread] at hload
        simp only [Registers.reset_of_fits hr] at hload
        by_cases hlength : (xs.length : Int) = sizes.inputs
        · rw [if_pos hlength] at hload
          rw [executeFrom_of_resetFrom hload]
          refine ⟨fun h => absurd h (hrun _ (hr.loaded_of_length hlength)), ?_⟩
          rintro ⟨-, xs', hxs', hother, -⟩
          obtain rfl := Except.ok.inj hxs'
          exact absurd hlength hother
        · rw [if_neg hlength] at hload
          rw [executeFrom_of_refusal hload]
          constructor
          · intro h
            obtain ⟨he, rfl⟩ := EStateM.Result.error.inj h
            obtain rfl := Error.task.inj he
            exact ⟨hv, xs, rfl, hlength, rfl, rfl⟩
          · rintro ⟨-, xs', hxs', -, rfl, rfl⟩
            obtain rfl := Except.ok.inj hxs'
            rfl

/-- With as many registers as actions, inputs of the right number are run to the end. -/
theorem executeFrom_ok (hroom : sizes.actions ≤ sizes.registers) (hfits : p.shape.Fits sizes p.code)
    (hr : r.Fits sizes) (hv : v ≠ .null) (hread : v.toVector = .ok xs) (hxs : (xs.length : Int) = sizes.inputs) :
    ∃ r', p.executeFrom v r = .ok () r' := by
  have hload : Registers.resetFrom v r = .ok () (Registers.loaded sizes.registers.toNat xs) := by
    rw [Registers.resetFrom_of_ne_null hv, hread]
    simp only
    rw [Registers.reset_of_fits hr, if_pos hxs]
  rw [executeFrom_of_resetFrom hload, runFrom_zero]
  exact ⟨_, Structured.run_of_fits hroom hfits.each (hr.loaded_of_length hxs)⟩

end Program

/-! ## Executions on a store -/

namespace Store

variable {s : Store} {p q : Program} {r : Registers} {v : Value}

/-- The store has banks of these sizes for the program. -/
def Equips (s : Store) (p : Program) (sizes : BankSizes) : Prop :=
  ∃ c, s.cell? p.id = some c ∧ c.registers.Fits sizes

theorem Equips.fits (h : s.Equips p sizes) : (s.registers p).Fits sizes := by
  obtain ⟨c, hcell, hbanks⟩ := h
  rw [registers_eq hcell]
  exact hbanks

/-- A program that has just been built has its banks. -/
theorem construct_equips {fitness : Option Float} {s' : Store} (hsizes : shape.sizes? = some sizes)
    (h : construct shape code fitness s = .ok p s') : s'.Equips p sizes := by
  have hconstruct := construct_ends shape code fitness s
  rw [h] at hconstruct
  obtain ⟨-, -, -, -, banks, hfresh, hcell⟩ := hconstruct
  exact ⟨_, hcell, freshRegisters_fits hsizes hfresh⟩

/-- Banks may be overwritten by others of the same sizes, and those of other programs by any. -/
theorem Equips.setRegisters (h : s.Equips p sizes) (hr : q.id = p.id → r.Fits sizes) :
    (s.setRegisters q r).Equips p sizes := by
  obtain ⟨c, hcell, hbanks⟩ := h
  unfold Equips
  rw [cell?_setRegisters, hcell]
  by_cases hid : q.id = p.id
  · rw [if_pos hid]
    exact ⟨_, rfl, hr hid⟩
  · rw [if_neg hid]
    exact ⟨c, rfl, hbanks⟩

theorem Equips.registers_setRegisters (h : s.Equips p sizes) : (s.setRegisters p r).registers p = r := by
  obtain ⟨c, hcell, -⟩ := h
  have hwritten : (s.setRegisters p r).cell? p.id = some { c with registers := r } := by
    rw [cell?_setRegisters, if_pos rfl, hcell]
    rfl
  rw [registers_eq hwritten]

/-- What an execution leaves in the store are the banks that the program has ended on. -/
theorem finalState_execute (s : Store) (q : Program) (v : Value) :
    finalState (execute q v s) = s.setRegisters q (finalState (q.executeFrom v (s.registers q))) := by
  unfold execute withRegisters
  cases q.executeFrom v (s.registers q) with
  | ok _ r => rfl
  | error e r => rfl

/-- Executing a program keeps the sizes of all banks, its own included. -/
theorem Equips.execute (h : s.Equips p sizes) (q : Program) (v : Value) :
    (finalState (Store.execute q v s)).Equips p sizes := by
  rw [finalState_execute]
  apply h.setRegisters
  intro hid
  have hbanks : s.registers q = s.registers p := by
    unfold registers
    rw [hid]
  rw [hbanks]
  exact Program.executeFrom_fits h.fits

/-- The store after executions one after the other, each on its own inputs and whatever it has come to. -/
def afterCalls (s : Store) (calls : List (Program × Value)) : Store :=
  calls.foldl (fun s (q, v) => finalState (execute q v s)) s

/-- So do any number of executions: by induction on them. -/
theorem Equips.afterCalls (h : s.Equips p sizes) (calls : List (Program × Value)) :
    (s.afterCalls calls).Equips p sizes := by
  induction calls generalizing s with
  | nil => exact h
  | cons call calls ih => exact ih (h.execute call.1 call.2)

/-- What an execution comes to, together with the banks that are found in the store after it. -/
def executed (s : Store) (p : Program) (v : Value) : EStateM.Result Error Registers Unit :=
  match execute p v s with
  | .ok _ s' => .ok () (s'.registers p)
  | .error e s' => .error e (s'.registers p)

/-- The store adds nothing to an execution on the banks. -/
theorem Equips.executed_eq (h : s.Equips p sizes) : s.executed p v = p.executeFrom v (s.registers p) := by
  unfold executed Store.execute withRegisters
  cases p.executeFrom v (s.registers p) with
  | ok _ r => simp only [h.registers_setRegisters]
  | error e r => simp only [h.registers_setRegisters]

end Store

/-! ## Predictions -/

namespace Classification

variable {σ : Type} {p q : Program} {r r' : Registers} {w : σ} {features : Value} {samples : List LabelledSample}

/-- The number of a program plays no part in what it predicts. -/
theorem predict_eq_of_code (c : Classification) (hcode : p.code = q.code) (hshape : p.shape = q.shape) :
    c.predict (σ := σ) p features = c.predict q features := by
  have hexecute : Scoring.execute (σ := σ) p features = Scoring.execute q features := by
    unfold Scoring.execute
    rw [Program.executeFrom_eq_of_code hcode hshape]
  unfold predict
  rw [hexecute]

/-- Nor in its score: by induction on the samples. -/
theorem observeAll_eq_of_code (c : Classification) (hcode : p.code = q.code) (hshape : p.shape = q.shape)
    (a : Accuracy) : c.observeAll (σ := σ) p samples a = c.observeAll q samples a := by
  induction samples generalizing a with
  | nil => rfl
  | cons s rest ih =>
      unfold observeAll
      rw [c.predict_eq_of_code hcode hshape]
      apply bind_congr
      intro predicted
      exact ih _

/-- The only item of a list, where there is just one. -/
def sole : List Nat → Option Int
  | [winner] => some winner
  | _ => none

/-- A prediction, read off the banks after an execution. -/
theorem predict_eq (c : Classification) (p : Program) (features : Value) (b : Bench σ) :
    c.predict p features b =
      match p.executeFrom features b.registers with
      | .ok _ r => .ok (sole (r.argmax c.actionCount)) { b with registers := r }
      | .error e r => .error e { b with registers := r } := by
  unfold predict
  show EStateM.bind (Scoring.execute p features) _ b = _
  rw [EStateM.bind, Scoring.execute_eq]
  cases p.executeFrom features b.registers with
  | error e r => rfl
  | ok u r =>
      simp only
      rcases r.argmax c.actionCount with _ | ⟨winner, _ | ⟨other, rest⟩⟩ <;> rfl

/-- A prediction does not depend on what the banks held. -/
theorem predict_congr (c : Classification) (hr : r.Fits sizes) (hr' : r'.Fits sizes) :
    c.predict p features ⟨r, w⟩ = c.predict p features ⟨r', w⟩ := by
  rw [predict_eq, predict_eq]
  simp only [Program.executeFrom_congr hr hr']

/-- Nor does a score. Where there are no samples the banks stay as they are, so that it is only the answer that is the
    same. -/
theorem answer_evaluate_congr (c : Classification) (hr : r.Fits sizes) (hr' : r'.Fits sizes) :
    answer (c.evaluate p ⟨r, w⟩) = answer (c.evaluate p ⟨r', w⟩) := by
  cases hsamples : c.samples with
  | nil =>
      unfold evaluate
      rw [hsamples]
      rfl
  | cons s rest =>
      have hobserve : c.observeAll p c.samples .none ⟨r, w⟩ = c.observeAll p c.samples .none ⟨r', w⟩ := by
        rw [hsamples]
        unfold observeAll
        show EStateM.bind _ _ _ = EStateM.bind _ _ _
        unfold EStateM.bind
        rw [c.predict_congr hr hr']
      have hevaluate : c.evaluate p ⟨r, w⟩ = c.evaluate p ⟨r', w⟩ := by
        unfold evaluate
        show EStateM.bind _ _ _ = EStateM.bind _ _ _
        unfold EStateM.bind
        rw [hobserve]
      rw [hevaluate]

end Classification

/-! ## Programs that have been executed, and fresh ones -/

/--
**An execution has no memory.** A program that has been built and then executed any number of times, in between the
executions of other programs and whatever came of them, cannot be told apart from a fresh one of the same instructions
and shape:

* every later execution comes to the same, and leaves the same banks;
* an execution without inputs is one on as many zeros as there are inputs;
* inputs are refused with a task error exactly if the numbers in them are not as many as there are inputs, and then both
  banks are full of zeros; otherwise, with as many registers as actions, the program is run to its end;
* classifications predict and score the same by it.
-/
theorem execute_forgets {fitness fitness' : Option Float} {s s₁ t t₁ : Store} {p q : Program}
    (hp : Store.construct shape code fitness s = .ok p s₁) (hq : Store.construct shape code fitness' t = .ok q t₁)
    (calls : List (Program × Value)) :
    ∃ sizes, shape.sizes? = some sizes ∧
      (∀ v, (s₁.afterCalls calls).executed p v = t₁.executed q v) ∧
      (s₁.afterCalls calls).executed p .null =
        (s₁.afterCalls calls).executed p (.list ((List.replicate sizes.inputs.toNat 0.0).map .float)) ∧
      (∀ v e banks, (s₁.afterCalls calls).executed p v = .error (.task e) banks ↔
        v ≠ .null ∧ ∃ xs, v.toVector = .ok xs ∧ (xs.length : Int) ≠ sizes.inputs ∧
          e = .wrongInputCount sizes.inputs.toNat xs.length ∧ banks = Registers.blank sizes) ∧
      (sizes.actions ≤ sizes.registers → ∀ v xs, v ≠ .null → v.toVector = .ok xs → (xs.length : Int) = sizes.inputs →
        ∃ banks, (s₁.afterCalls calls).executed p v = .ok () banks) ∧
      ∀ (σ : Type) (c : Classification) (w : σ),
        (∀ features, c.predict p features ⟨(s₁.afterCalls calls).registers p, w⟩ =
          c.predict q features ⟨t₁.registers q, w⟩) ∧
        answer (c.evaluate p ⟨(s₁.afterCalls calls).registers p, w⟩) =
          answer (c.evaluate q ⟨t₁.registers q, w⟩) := by
  obtain ⟨hpcode, hpshape, sizes, hsizes, hfits, -⟩ := Store.construct_ok hp
  obtain ⟨hqcode, hqshape, -⟩ := Store.construct_ok hq
  have hcode : p.code = q.code := hpcode.trans hqcode.symm
  have hshape : p.shape = q.shape := hpshape.trans hqshape.symm
  have hlater : (s₁.afterCalls calls).Equips p sizes := (Store.construct_equips hsizes hp).afterCalls calls
  have hfresh : t₁.Equips q sizes := Store.construct_equips hsizes hq
  refine ⟨sizes, hsizes, ?_, ?_, ?_, ?_, ?_⟩
  · intro v
    rw [hlater.executed_eq, hfresh.executed_eq, Program.executeFrom_eq_of_code hcode hshape,
      Program.executeFrom_congr hlater.fits hfresh.fits]
  · rw [hlater.executed_eq, hlater.executed_eq, Program.executeFrom_null hlater.fits]
  · intro v e banks
    rw [hlater.executed_eq, Program.executeFrom_eq_task_iff hlater.fits]
  · intro hroom v xs hv hread hxs
    rw [hlater.executed_eq]
    have hpfits : p.shape.Fits sizes p.code := by
      rw [hpshape, hpcode]
      exact hfits
    exact Program.executeFrom_ok hroom hpfits hlater.fits hv hread hxs
  · intro σ c w
    constructor
    · intro features
      rw [c.predict_eq_of_code hcode hshape, c.predict_congr hlater.fits hfresh.fits]
    · rw [c.answer_evaluate_congr hlater.fits hfresh.fits]
      unfold Classification.evaluate
      rw [c.observeAll_eq_of_code hcode hshape]

/-- A shape of two registers, one input and one action under the nested policy. -/
def tallyShape : Shape := ⟨3, some 2, some 1, some 1, none, 0.1, 0.5, 10.0, .nested⟩

/-- Instructions that add to both registers, to the first one only for small inputs. -/
def tallyCode : List Instruction :=
  [⟨"add", 1, 0, .external, none⟩, ⟨"if_lt", 1, 0, .constant, some 5.0⟩, ⟨"vote", 0, 1, .internal, none⟩]

/-- After two inputs in place of one, none at all and a large one, an input of two is run to the end as by a copy, and
    two inputs are refused again. -/
theorem execute_forgets_tally :
    ∃ p s₁ q t₁, Store.construct tallyShape tallyCode none .empty = .ok p s₁ ∧
      Store.construct tallyShape tallyCode (some 1.0) s₁ = .ok q t₁ ∧
      let later := s₁.afterCalls [(p, .list [.float 2.0, .float 3.0]), (p, .null), (p, .list [.float 7.0])]
      (∃ banks, later.executed p (.list [.float 2.0]) = .ok () banks ∧
        t₁.executed q (.list [.float 2.0]) = .ok () banks) ∧
      later.executed p (.list [.float 2.0, .float 3.0]) =
        .error (.task (.wrongInputCount 1 2)) ⟨#[0.0, 0.0], #[0.0]⟩ := by
  have hflaw : tallyShape.flaw? tallyCode = none := by decide +kernel
  obtain ⟨p, s₁, hp⟩ : ∃ p s₁, Store.construct tallyShape tallyCode none .empty = .ok p s₁ := by
    obtain ⟨s₁, hp, -⟩ := Store.construct_of_flawless hflaw ⟨_, rfl⟩ none .empty
    exact ⟨_, s₁, hp⟩
  obtain ⟨q, t₁, hq⟩ : ∃ q t₁, Store.construct tallyShape tallyCode (some 1.0) s₁ = .ok q t₁ := by
    obtain ⟨t₁, hq, -⟩ := Store.construct_of_flawless hflaw ⟨_, rfl⟩ (some 1.0) s₁
    exact ⟨_, t₁, hq⟩
  refine ⟨p, s₁, q, t₁, hp, hq, ?_⟩
  intro later
  obtain ⟨sizes, hsizes, hsame, -, hrefused, hruns, -⟩ :=
    execute_forgets hp hq [(p, .list [.float 2.0, .float 3.0]), (p, .null), (p, .list [.float 7.0])]
  obtain rfl : (⟨2, 1, 1⟩ : BankSizes) = sizes := Option.some.inj hsizes
  constructor
  · obtain ⟨banks, hbanks⟩ := hruns (by decide) (.list [.float 2.0]) [2.0] nofun rfl rfl
    exact ⟨banks, hbanks, (hsame _).symm.trans hbanks⟩
  · exact (hrefused _ _ _).mpr ⟨nofun, [2.0, 3.0], rfl, by decide, rfl, rfl⟩

end RegisterEvolution
