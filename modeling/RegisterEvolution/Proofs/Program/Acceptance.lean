import RegisterEvolution.Proofs.Program.Safety
import RegisterEvolution.Proofs.Program.Store

/-!
# `Proofs.Program.Acceptance` — what acceptance promises to a run

The constructor looks at every instruction by itself, before anything runs. An accepted program finds its operations,
its operands and its constants wherever the branches lead it. With destinations it is different: an action is held to
the number of actions and not to the number of registers, so in a shape with more actions than registers an accepted
program may write where there is no register. This is the only way for an accepted program to fail.

* `Store.construct_ok` — what a construction that succeeds has established;
* `Point.run_of_served` — instructions that find what they use run to their end;
* `accepted_runs` — accepted programs whose destinations are registers;
* `accepted_action_fails` — an accepted action without a register.
-/

namespace RegisterEvolution

variable {shape : Shape} {sizes : BankSizes} {code : List Instruction} {A : Arithmetic} {policy : BranchPolicy}

/-! ## Constructions -/

/-- Banks that a program starts with have the sizes that its shape names. -/
theorem Store.freshRegisters_fits {r : Registers} (hsizes : shape.sizes? = some sizes)
    (h : freshRegisters shape = .ok r) : r.Fits sizes := by
  unfold freshRegisters at h
  rw [hsizes] at h
  simp only [Registers.zeros?] at h
  split at h
  · cases h
  · rename_i hsigns
    obtain rfl := Except.ok.inj h
    constructor
    · simp only [Registers.zeros, Array.size_replicate]
      omega
    · simp only [Registers.zeros, Array.size_replicate]
      omega

/-- A construction that succeeds makes a program of these instructions, which fit, on banks which fit. -/
theorem Store.construct_ok {fitness : Option Float} {s s' : Store} {p : Program}
    (h : construct shape code fitness s = .ok p s') :
    p.code = code ∧ p.shape = shape ∧
      ∃ sizes, shape.sizes? = some sizes ∧ shape.Fits sizes code ∧ (s'.registers p).Fits sizes := by
  have hconstruct := construct_ends shape code fitness s
  rw [h] at hconstruct
  obtain ⟨-, -, rfl, hflaw, r, hfresh, hcell⟩ := hconstruct
  obtain ⟨sizes, hsizes, hfits⟩ := Shape.flaw?_eq_none_iff.mp hflaw
  refine ⟨rfl, rfl, sizes, hsizes, hfits, ?_⟩
  rw [registers_eq hcell]
  exact freshRegisters_fits hsizes hfresh

/-! ## Runs -/

namespace Point

variable {point next : Point}

/-- What is left of a program is its end. -/
theorem Turn.rest_suffix (h : Turn A policy point next) : next.rest <:+ point.rest := by
  cases h with
  | skipped => exact List.suffix_cons _ _
  | executed _ => exact List.suffix_cons _ _

theorem Reaches.rest_suffix (h : Reaches A policy point next) : next.rest <:+ point.rest := by
  induction h with
  | refl => exact List.suffix_rfl
  | tail _ hturn ih => exact hturn.rest_suffix.trans ih

/-- **Instructions that find what they use run to their end**, whichever of them the branches leave out. -/
theorem run_of_served (hcode : ∀ i ∈ code, ∀ r : Registers, r.Fits sizes → i.Served r) {skip : Nat} {r : Registers}
    (hr : r.Fits sizes) : ∃ r', run A policy ⟨skip, code, r⟩ = .ok () r' ∧ r'.Fits sizes := by
  induction code generalizing skip r with
  | nil => exact ⟨r, rfl, hr⟩
  | cons i rest ih =>
      have hrest : ∀ j ∈ rest, ∀ r : Registers, r.Fits sizes → j.Served r :=
        fun j hj => hcode j (List.mem_cons_of_mem i hj)
      cases skip with
      | succ pending =>
          obtain ⟨r', hrun, hr'⟩ : ∃ r', run A policy ⟨skipPast policy pending i, rest, r⟩ = .ok () r' ∧
              r'.Fits sizes := ih hrest hr
          exact ⟨r', Turn.skipped.run_eq.trans hrun, hr'⟩
      | zero =>
          have hserved := hcode i (List.mem_cons_self ..) r hr
          obtain ⟨goesOn, banks, hstep, hvalues, hinputs⟩ := Instruction.stepWith_of_served (A := A) hserved
          have happly : i.applyWith A r = .ok goesOn banks := by
            rw [Instruction.applyWith_eq, hstep]
          have hbanks : banks.Fits sizes := ⟨by rw [hvalues]; exact hr.values, by rw [hinputs]; exact hr.inputs⟩
          obtain ⟨r', hrun, hr'⟩ : ∃ r', run A policy ⟨if goesOn then 0 else 1, rest, banks⟩ = .ok () r' ∧
              r'.Fits sizes := ih hrest hbanks
          exact ⟨r', (Turn.executed happly).run_eq.trans hrun, hr'⟩

end Point

/-! ## Accepted programs -/

/--
**An accepted program runs to its end** on all inputs of the right number and whatever the arithmetic answers, provided
that its destinations are registers. At every instruction that is executed the operation resolves, the destination and
the operand lie inside their banks, and a constant is there. The proviso only concerns actions, and it is no restriction
for shapes with at least as many registers as actions. The banks keep their sizes, so that the program may be run again.
-/
theorem accepted_runs {fitness : Option Float} {s s' : Store} {p : Program}
    (h : Store.construct shape code fitness s = .ok p s')
    (hregisters : ∀ registers, shape.registerCount = some registers → ∀ i ∈ code, i.destination < registers) :
    ∃ sizes, shape.sizes? = some sizes ∧ (s'.registers p).Fits sizes ∧
      ∀ (A : Arithmetic) (xs : List Float) (r : Registers), r.Fits sizes → (xs.length : Int) = sizes.inputs →
        (∃ r', p.executeWith A (some xs) r = .ok () r' ∧ r'.Fits sizes) ∧
        ∀ i rest banks, Point.Reaches A shape.branchPolicy (p.start xs r) ⟨0, i :: rest, banks⟩ → i.Served banks := by
  obtain ⟨rfl, rfl, sizes, hsizes, hfits, hbanks⟩ := Store.construct_ok h
  have hcount : p.shape.registerCount = some sizes.registers := by
    unfold Shape.sizes? at hsizes
    split at hsizes
    · rename_i hr _ _
      obtain rfl := Option.some.inj hsizes
      exact hr
    · exact nomatch hsizes
  have hserved : ∀ i ∈ p.code, ∀ r : Registers, r.Fits sizes → i.Served r :=
    fun i hi r hr => (hfits.each i hi).served hr (hregisters _ hcount i hi)
  refine ⟨sizes, hsizes, hbanks, ?_⟩
  intro A xs r hr hxs
  have hloaded := hr.loaded hxs
  constructor
  · rw [Program.executeWith_eq_start A (hr.length_eq hxs)]
    exact Point.run_of_served hserved hloaded
  · intro i rest banks hreaches
    have hi : i ∈ p.code := hreaches.rest_suffix.mem (List.mem_cons_self ..)
    exact hserved i hi banks (hreaches.fits hloaded)

/-- A shape of two actions with a single register to decide by. -/
def crampedShape : Shape := ⟨2, some 1, some 1, some 2, none, 0.1, 0.5, 10.0, .single⟩

/-- Also in that shape a program runs if its votes go to the register. -/
theorem accepted_runs_cramped :
    ∃ p s', Store.construct crampedShape [⟨"if_lt", 0, 0, .constant, some 1.0⟩, ⟨"vote", 0, 0, .external, none⟩] none
        .empty = .ok p s' ∧
      ∃ r', p.executeWith .binary64 (some [0.0 / 0.0]) (s'.registers p) = .ok () r' ∧ r'.Fits ⟨1, 1, 2⟩ := by
  have hregisters : ∀ registers, crampedShape.registerCount = some registers →
      ∀ i ∈ ([⟨"if_lt", 0, 0, .constant, some 1.0⟩, ⟨"vote", 0, 0, .external, none⟩] : List Instruction),
        i.destination < registers := by
    intro registers hcount i hi
    obtain rfl := Option.some.inj hcount
    rcases List.mem_pair.mp hi with rfl | rfl
    · decide
    · decide
  have hflaw : crampedShape.flaw? [⟨"if_lt", 0, 0, .constant, some 1.0⟩, ⟨"vote", 0, 0, .external, none⟩] = none := by
    decide +kernel
  obtain ⟨s', hconstruct, -⟩ := Store.construct_of_flawless hflaw ⟨_, rfl⟩ none .empty
  refine ⟨_, s', hconstruct, ?_⟩
  obtain ⟨sizes, hsizes, hbanks, hruns⟩ := accepted_runs hconstruct hregisters
  obtain rfl : (⟨1, 1, 2⟩ : BankSizes) = sizes := Option.some.inj hsizes
  exact (hruns .binary64 [0.0 / 0.0] _ hbanks rfl).1

/-- A vote for the second action is accepted as well, and then there is no register for it. -/
theorem accepted_action_fails :
    ∃ p s', Store.construct crampedShape [⟨"vote", 1, 0, .external, none⟩] none .empty = .ok p s' ∧
      p.execute (some [1.0]) (s'.registers p) = .error (.fault Fault.indexOutOfRange) ⟨#[0.0], #[1.0]⟩ := by
  have hflaw : crampedShape.flaw? [⟨"vote", 1, 0, .external, none⟩] = none := by decide +kernel
  have hconstruct : Store.construct crampedShape [⟨"vote", 1, 0, .external, none⟩] none .empty =
      .ok ⟨0, [⟨"vote", 1, 0, .external, none⟩], crampedShape⟩ ⟨#[some ⟨none, .zeros 1 1⟩]⟩ := by
    unfold Store.construct
    rw [hflaw]
    rfl
  exact ⟨_, _, hconstruct, rfl⟩

end RegisterEvolution
