import Mathlib.Logic.Relation
import RegisterEvolution.Proofs.Machine.Saturation
import RegisterEvolution.Proofs.Machine.Vector
import RegisterEvolution.Proofs.Program.Branching
import RegisterEvolution.Proofs.Settings.Accepted
import RegisterEvolution.Tasks.Control

/-!
# `Proofs.Program.Safety` — numbers that stay in range

The loop comes through a sequence of points, and a turn of it skips an instruction or executes one. Whatever the
arithmetic answers, an executed instruction writes a saturated number, so that the registers are in range at every
point; a bank in range has a greatest action, and so a decision can be read off it.

* `Point.Turn`, `Point.Reaches` — the turns of the loop and the points that it comes through;
* `Point.Reaches.inRange` — registers stay in range;
* `Arithmetic.Alike`, `executeWith_congr` — a run asks the arithmetic only about numbers in range, and never divides by
  what is within the tolerance;
* `execute_safe` — these together with the decision, for settings that have been accepted.
-/

namespace RegisterEvolution

/-! ## What an instruction may change -/

namespace Registers

theorem Fits.write {sizes : BankSizes} {r r' : Registers} {index : Int} {x : Float} (hr : r.Fits sizes)
    (h : r.write index x = .ok r') : r'.Fits sizes := by
  unfold Registers.write at h
  split at h
  · obtain rfl := Except.ok.inj h
    exact ⟨by simpa using hr.values, hr.inputs⟩
  · exact nomatch h

section Loaded

variable {sizes : BankSizes} {r : Registers} {xs : List Float}

theorem Fits.length_eq (hr : r.Fits sizes) (hxs : (xs.length : Int) = sizes.inputs) : xs.length = r.inputs.size := by
  have := hr.inputs
  omega

theorem Fits.loaded (hr : r.Fits sizes) (hxs : (xs.length : Int) = sizes.inputs) :
    (Registers.loaded r.values.size xs).Fits sizes :=
  ⟨by simpa [Registers.loaded] using hr.values, by simpa [Registers.loaded] using hxs⟩

end Loaded

end Registers

namespace Instruction

variable {A : Arithmetic} {i : Instruction} {r r' : Registers}

/-- An executed instruction leaves the banks as they are or writes a saturated number. -/
theorem applyWith_ok {goesOn : Bool} (h : i.applyWith A r = .ok goesOn r') :
    r' = r ∨ ∃ x, r.write i.destination (saturate x) = .ok r' := by
  rw [applyWith_eq] at h
  cases hstep : i.stepWith A r with
  | error f => simp [hstep] at h
  | ok out =>
      obtain ⟨b, banks⟩ := out
      obtain ⟨rfl, rfl⟩ : b = goesOn ∧ banks = r' := by simpa [hstep] using h
      obtain ⟨result, -, hresult⟩ := except_bind_eq_ok.mp hstep
      cases result with
      | condition holds =>
          obtain ⟨-, rfl⟩ := Prod.mk.inj (Except.ok.inj hresult)
          exact .inl rfl
      | number x =>
          obtain ⟨written, hwrite, hpair⟩ := except_bind_eq_ok.mp hresult
          obtain ⟨-, rfl⟩ := Prod.mk.inj (Except.ok.inj hpair)
          exact .inr ⟨x, hwrite⟩

end Instruction

/-! ## The points of a run -/

/-- A point of a run: how many instructions are still to be skipped, what is left of the program, and the banks. -/
structure Point where
  skip : Nat
  rest : List Instruction
  registers : Registers

namespace Point

/-- How the loop goes on from here. -/
def run (A : Arithmetic) (policy : BranchPolicy) (point : Point) : EStateM.Result Error Registers Unit :=
  runFrom A policy point.skip point.rest point.registers

/-- One turn of the loop: an instruction is skipped, or it is executed. -/
inductive Turn (A : Arithmetic) (policy : BranchPolicy) : Point → Point → Prop where
  | skipped {pending i rest r} : Turn A policy ⟨pending + 1, i :: rest, r⟩ ⟨skipPast policy pending i, rest, r⟩
  | executed {i rest r goesOn r'} (h : i.applyWith A r = .ok goesOn r') :
      Turn A policy ⟨0, i :: rest, r⟩ ⟨if goesOn then 0 else 1, rest, r'⟩

/-- The points that the loop comes through. -/
abbrev Reaches (A : Arithmetic) (policy : BranchPolicy) : Point → Point → Prop :=
  Relation.ReflTransGen (Turn A policy)

variable {A : Arithmetic} {policy : BranchPolicy} {sizes : BankSizes} {point next : Point}

/-- A turn is a part of the run: the loop goes on with what is left. -/
theorem Turn.run_eq (h : Turn A policy point next) : point.run A policy = next.run A policy := by
  cases h with
  | skipped => simp [run, runFrom]
  | executed happly =>
      show EStateM.bind _ _ _ = _
      rw [EStateM.bind, happly]
      rfl

theorem Turn.inRange (h : Turn A policy point next) (hr : point.registers.InRange) : next.registers.InRange := by
  cases h with
  | skipped => exact hr
  | executed happly =>
      rcases Instruction.applyWith_ok happly with rfl | ⟨x, hwrite⟩
      · exact hr
      · exact hr.write hwrite

theorem Turn.fits (h : Turn A policy point next) (hr : point.registers.Fits sizes) : next.registers.Fits sizes := by
  cases h with
  | skipped => exact hr
  | executed happly =>
      rcases Instruction.applyWith_ok happly with rfl | ⟨x, hwrite⟩
      · exact hr
      · exact hr.write hwrite

theorem Reaches.run_eq (h : Reaches A policy point next) : point.run A policy = next.run A policy := by
  induction h with
  | refl => rfl
  | tail _ hturn ih => exact ih.trans hturn.run_eq

/-- **Registers stay in range** at every point that the loop comes through. -/
theorem Reaches.inRange (h : Reaches A policy point next) (hr : point.registers.InRange) :
    next.registers.InRange := by
  induction h with
  | refl => exact hr
  | tail _ hturn ih => exact hturn.inRange ih

theorem Reaches.fits (h : Reaches A policy point next) (hr : point.registers.Fits sizes) :
    next.registers.Fits sizes := by
  induction h with
  | refl => exact hr
  | tail _ hturn ih => exact hturn.fits ih

/-- The loop ends where an instruction fails. -/
theorem run_of_error {i : Instruction} {rest : List Instruction} {r banks : Registers} {e : Error}
    (h : i.applyWith A r = .error e banks) : run A policy ⟨0, i :: rest, r⟩ = .error e banks := by
  show EStateM.bind _ _ _ = _
  rw [EStateM.bind, h]

/-- A run that ends comes through every piece of its code. -/
theorem reaches_piece {before rest : List Instruction} {skip : Nat} {r r' : Registers}
    (h : run A policy ⟨skip, before ++ rest, r⟩ = .ok () r') :
    ∃ pending banks, Reaches A policy ⟨skip, before ++ rest, r⟩ ⟨pending, rest, banks⟩ := by
  induction before generalizing skip r with
  | nil => exact ⟨skip, r, .refl⟩
  | cons i before ih =>
      obtain ⟨next, hrest, hturn⟩ : ∃ next : Point, next.rest = before ++ rest ∧
          Turn A policy ⟨skip, i :: (before ++ rest), r⟩ next := by
        cases skip with
        | succ pending => exact ⟨_, rfl, .skipped⟩
        | zero =>
            cases happly : i.applyWith A r with
            | ok goesOn banks => exact ⟨_, rfl, .executed happly⟩
            | error e banks =>
                have hfails : run A policy ⟨0, i :: before ++ rest, r⟩ = .error e banks := run_of_error happly
                rw [hfails] at h
                exact nomatch h
      have hrun : run A policy next = .ok () r' := hturn.run_eq.symm.trans h
      obtain ⟨skip', left, banks⟩ := next
      obtain rfl : left = before ++ rest := hrest
      obtain ⟨pending, last, hreaches⟩ := ih hrun
      exact ⟨pending, last, .head hturn hreaches⟩

/-- So it comes through its points to one at which nothing is left. -/
theorem reaches_end {code : List Instruction} {skip : Nat} {r r' : Registers}
    (h : run A policy ⟨skip, code, r⟩ = .ok () r') : ∃ skip', Reaches A policy ⟨skip, code, r⟩ ⟨skip', [], r'⟩ := by
  rw [← List.append_nil code] at h
  obtain ⟨skip', banks, hreaches⟩ := reaches_piece h
  rw [hreaches.run_eq] at h
  obtain rfl : banks = r' := (EStateM.Result.ok.inj h).2
  rw [List.append_nil] at hreaches
  exact ⟨skip', hreaches⟩

end Point

/-! ## What a run asks the arithmetic -/

/-- Arithmetics that agree on numbers in range, where divisions by what is within the tolerance do not count. -/
structure Arithmetic.Alike (A A' : Arithmetic) : Prop where
  add : ∀ a b, Saturated a → Saturated b → A.add a b = A'.add a b
  sub : ∀ a b, Saturated a → Saturated b → A.sub a b = A'.sub a b
  mul : ∀ a b, Saturated a → Saturated b → A.mul a b = A'.mul a b
  div : ∀ a b, Saturated a → Saturated b → tolerance < b.abs → A.div a b = A'.div a b

section Alike

variable {A A' : Arithmetic}

theorem Opcode.combine_congr (h : A.Alike A') (op : Opcode) {a b : Float} (ha : Saturated a) (hb : Saturated b) :
    op.combine A a b = op.combine A' a b := by
  cases op with
  | add => exact h.add a b ha hb
  | sub => exact h.sub a b ha hb
  | mul => exact h.mul a b ha hb
  | vote => exact h.add a b ha hb
  | div =>
      unfold combine
      by_cases hsmall : b.abs ≤ tolerance
      · rw [if_pos hsmall, if_pos hsmall]
      · rw [if_neg hsmall, if_neg hsmall]
        exact h.div a b ha hb ((Binary64.not_le_iff_lt (Binary64.isFinite_abs hb.isFinite) (by decide)).mp hsmall)
  | mov | max | min | lt | gt | ifLt | ifGt | ifEq => rfl

theorem Opcode.holds_congr (h : A.Alike A') (op : Opcode) {a b : Float} (ha : Saturated a) (hb : Saturated b) :
    op.holds A a b = op.holds A' a b := by
  cases op with
  | ifEq =>
      unfold holds
      rw [h.sub a b ha hb]
  | _ => rfl

/-- Operands are saturated before they are combined, so any two numbers will do. -/
theorem Opcode.evaluateWith_congr (h : A.Alike A') (op : Opcode) (a b : Float) :
    op.evaluateWith A a b = op.evaluateWith A' a b := by
  unfold evaluateWith
  rw [op.holds_congr h (saturated_saturate a) (saturated_saturate b),
    op.combine_congr h (saturated_saturate a) (saturated_saturate b)]

theorem Instruction.applyWith_congr (h : A.Alike A') (i : Instruction) : i.applyWith A = i.applyWith A' := by
  unfold applyWith stepWith resultWith
  simp only [Opcode.evaluateWith_congr h]

theorem runFrom_congr (h : A.Alike A') (policy : BranchPolicy) (skip : Nat) (code : List Instruction) :
    runFrom A policy skip code = runFrom A' policy skip code := by
  induction code generalizing skip with
  | nil => rfl
  | cons i rest ih =>
      cases skip with
      | zero => simp only [runFrom, Instruction.applyWith_congr h, ih]
      | succ pending => simp only [runFrom, ih]

/-- **A run never divides by what is within the tolerance**, nor combines numbers out of range: what an arithmetic
    answers there does not matter to it. -/
theorem Program.executeWith_congr (h : A.Alike A') (p : Program) (inputs : Option (List Float)) :
    p.executeWith A inputs = p.executeWith A' inputs := by
  unfold executeWith RegisterEvolution.executeWith
  rw [runFrom_congr h]

end Alike

/-! ## A program -/

/-- An execution of a program on a bench. -/
theorem Scoring.execute_eq {σ : Type} (p : Program) (v : Value) (b : Bench σ) :
    execute p v b =
      match p.executeFrom v b.registers with
      | .ok _ r => .ok r { b with registers := r }
      | .error e r => .error e { b with registers := r } := by
  unfold execute onRegisters
  have hget : (do p.executeFrom v; get : Machine Registers) b.registers =
      match p.executeFrom v b.registers with
      | .ok _ r => .ok r r
      | .error e r => .error e r := by
    show EStateM.bind _ _ _ = _
    unfold EStateM.bind
    cases p.executeFrom v b.registers with
    | ok u r => rfl
    | error e r => rfl
  rw [hget]
  cases p.executeFrom v b.registers with
  | ok u r => rfl
  | error e r => rfl

namespace Program

variable {shape : Shape} {sizes : BankSizes} {p : Program} {r : Registers} {xs : List Float}

/-- The point at which a run on the given inputs starts, on banks like `r`. -/
def start (p : Program) (xs : List Float) (r : Registers) : Point :=
  ⟨0, p.code, Registers.loaded r.values.size xs⟩

/-- Running a program is loading the inputs and the loop from there. -/
theorem executeWith_eq_start (A : Arithmetic) (h : xs.length = r.inputs.size) :
    p.executeWith A (some xs) r = (p.start xs r).run A p.shape.branchPolicy := by
  show EStateM.bind (Registers.reset (some xs)) _ r = _
  rw [EStateM.bind, Registers.reset_some h]
  rfl

/-- A program without a flaw runs to its end. -/
theorem executeWith_ok (A : Arithmetic) (hroom : sizes.actions ≤ sizes.registers)
    (hfits : p.shape.Fits sizes p.code) (hr : r.Fits sizes) (hxs : (xs.length : Int) = sizes.inputs) :
    ∃ r', p.executeWith A (some xs) r = .ok () r' := by
  have hrun : Structured.run A p.shape.branchPolicy p.code _ = .ok () _ :=
    Structured.run_of_fits hroom hfits.each (hr.loaded hxs)
  rw [← runFrom_zero] at hrun
  rw [executeWith_eq_start A (hr.length_eq hxs)]
  exact ⟨_, hrun⟩

/-- Where a run ends, the banks have their sizes, the registers are in range and the greatest actions can be read. -/
theorem ends_in_range {A : Arithmetic} (husable : p.shape.Usable sizes) (hr : r.Fits sizes)
    (hxs : (xs.length : Int) = sizes.inputs) {r' : Registers} (h : p.executeWith A (some xs) r = .ok () r') :
    r'.Fits sizes ∧ r'.InRange ∧ r'.Greatest sizes.actions (r'.argmax sizes.actions) := by
  rw [executeWith_eq_start A (hr.length_eq hxs)] at h
  obtain ⟨skip, hreaches⟩ := Point.reaches_end h
  have hfits : r'.Fits sizes := hreaches.fits (hr.loaded hxs)
  have hrange : r'.InRange := hreaches.inRange Registers.inRange_loaded
  refine ⟨hfits, hrange, Registers.greatest_argmax hrange husable.actions_pos ?_⟩
  rw [hfits.values]
  exact husable.room

/-- Numbers are loaded as they are. -/
theorem executeFrom_floats (p : Program) (xs : List Float) :
    p.executeFrom (.list (xs.map .float)) = p.execute (some xs) := by
  have hreset : Registers.resetFrom (.list (xs.map .float)) = Registers.reset (some xs) := by
    unfold Registers.resetFrom
    simp only
    rw [Value.toVector_floats]
  unfold executeFrom
  rw [hreset]
  rfl

/-- **A decision can always be made**, and is one of the actions. -/
theorem chooseAction_ok {σ : Type} (c : Control σ) (husable : p.shape.Usable sizes)
    (hfits : p.shape.Fits sizes p.code) (hc : c.actionCount = sizes.actions) {state : Value} {b : Bench σ}
    (hb : b.registers.Fits sizes) (hstate : (Control.stateVector state).toVector = .ok xs)
    (hxs : (xs.length : Int) = sizes.inputs) :
    ∃ action b', c.chooseAction p state b = .ok action b' ∧ (action : Int) < c.actionCount := by
  obtain ⟨r', hexecute⟩ := executeWith_ok .binary64 husable.room hfits hb hxs
  obtain ⟨-, -, hgreatest⟩ := ends_in_range husable hb hxs hexecute
  rw [← hc] at hgreatest
  obtain ⟨action, others, hargmax⟩ := List.ne_nil_iff_exists_cons.mp hgreatest.nonempty
  have hruns : Scoring.execute p (.list (xs.map .float)) b = .ok r' { b with registers := r' } := by
    rw [Scoring.execute_eq, executeFrom_floats, show p.execute (some xs) b.registers = .ok () r' from hexecute]
  have hfirst : action ∈ r'.argmax c.actionCount := by
    rw [hargmax]
    exact List.mem_cons_self ..
  refine ⟨action, { b with registers := r' }, ?_, ((hgreatest.mem_iff action).mp hfirst).1⟩
  unfold Control.chooseAction
  rw [hstate]
  show EStateM.bind (Scoring.execute p (.list (xs.map .float))) _ _ = _
  rw [EStateM.bind, hruns]
  simp only [hargmax]
  rfl

/--
**Execution is numerically safe.** Accepted settings with known counts describe a shape such that, for every program
without a flaw, all inputs of the right number, fitting banks and any arithmetic:

* the registers are in range at every point that the loop comes through, and the run comes through to its end;
* the greatest actions at the end are a list of indices that is not empty;
* the run is the same under an arithmetic that differs out of range or on divisions by what is within the tolerance;
* in a control task with these actions, a state of these numbers is answered with one of the actions.
-/
theorem execute_safe {settings : ProgramSettings} (hvalid : settings.validate = .ok ())
    (hbound : settings.isBound = true) :
    ∃ shape sizes, settings.shape = .ok shape ∧ shape.Usable sizes ∧
      ∀ (p : Program) (xs : List Float), p.shape = shape → p.shape.flaw? p.code = none →
        (xs.length : Int) = sizes.inputs →
        (∀ (A : Arithmetic) (r : Registers), r.Fits sizes →
          (∀ point, Point.Reaches A shape.branchPolicy (p.start xs r) point → point.registers.InRange) ∧
          (∃ r' skip, p.executeWith A (some xs) r = .ok () r' ∧
            Point.Reaches A shape.branchPolicy (p.start xs r) ⟨skip, [], r'⟩ ∧
            r'.Greatest sizes.actions (r'.argmax sizes.actions)) ∧
          ∀ A', A.Alike A' → p.executeWith A (some xs) r = p.executeWith A' (some xs) r) ∧
        ∀ (σ : Type) (c : Control σ) (state : Value) (b : Bench σ), c.actionCount = sizes.actions →
          b.registers.Fits sizes → (Control.stateVector state).toVector = .ok xs →
          ∃ action b', c.chooseAction p state b = .ok action b' ∧ (action : Int) < c.actionCount := by
  obtain ⟨shape, sizes, hshape, husable⟩ := (ProgramSettings.checked_of_validate hvalid).exists_shape_of_bound hbound
  refine ⟨shape, sizes, hshape, husable, ?_⟩
  rintro p xs rfl hflaw hxs
  have hfits := Shape.fits_of_flaw?_eq_none husable.bound hflaw
  refine ⟨?_, fun σ c state b hc hb hstate => chooseAction_ok c husable hfits hc hb hstate hxs⟩
  intro A r hr
  obtain ⟨r', hexecute⟩ := executeWith_ok A husable.room hfits hr hxs
  have hrun := hexecute
  rw [executeWith_eq_start A (hr.length_eq hxs)] at hrun
  obtain ⟨skip, hreaches⟩ := Point.reaches_end hrun
  refine ⟨fun point h => h.inRange Registers.inRange_loaded, ⟨r', skip, hexecute, hreaches, ?_⟩, ?_⟩
  · exact (ends_in_range husable hr hxs hexecute).2.2
  · intro A' halike
    rw [executeWith_congr halike]

/-- A program that divides by a constant which is not a number, in the default shape of one input and one action. -/
def quotient : Program :=
  ⟨0, [⟨"div", 0, 0, .constant, some (0.0 / 0.0)⟩, ⟨"vote", 0, 0, .external, none⟩],
    ⟨32, some 2, some 1, some 1, none, 0.1, 0.5, 10.0, .single⟩⟩

/-- That program has a greatest action also on an input that is not a number. -/
theorem execute_safe_quotient :
    ∃ r', quotient.executeWith .binary64 (some [0.0 / 0.0]) (Registers.zeros 2 1) = .ok () r' ∧
      r'.Greatest 1 (r'.argmax 1) := by
  let settings : ProgramSettings := { registerCount := .int 2, inputCount := .int 1, actionCount := .int 1 }
  have hvalid : settings.validate = .ok () := rfl
  obtain ⟨shape, sizes, hshape, husable, hsafe⟩ := execute_safe hvalid rfl
  have hbound := husable.bound
  obtain rfl : quotient.shape = shape := Except.ok.inj hshape
  obtain rfl : (⟨2, 1, 1⟩ : BankSizes) = sizes := Option.some.inj hbound
  obtain ⟨-, ⟨r', -, hexecute, -, hgreatest⟩, -⟩ :=
    (hsafe quotient [0.0 / 0.0] rfl (by decide +kernel) rfl).1 .binary64 (Registers.zeros 2 1) ⟨rfl, rfl⟩
  exact ⟨r', hexecute, hgreatest⟩

end Program

end RegisterEvolution
