import RegisterEvolution.Proofs.Program.Acceptance
import RegisterEvolution.Proofs.Program.Operands

/-!
# `Proofs.Program.Footprint` — what an execution reads and writes

The inputs that a program depends on and the registers that it may change can be read off its instructions. An input
that no instruction names as an external operand is not looked at: an index that a constant instruction carries along is
no such name. A register that is the destination of branches only keeps the zero that it is given at the beginning.

* `Program.Reads`, `Program.Writes` — inputs and registers that the instructions name;
* `Registers.SameBut`, `Instruction.applyWith_sameBut` — one instruction changes at most its destination;
* `runFrom_keeps` — what each instruction keeps, the loop keeps, also when it fails;
* `execute_within_footprint` — these together for a whole execution.
-/

namespace RegisterEvolution

variable {A : Arithmetic} {policy : BranchPolicy} {sizes : BankSizes} {code : List Instruction}

/-! ## One instruction -/

namespace Registers

/-- Banks that differ in no register but the one with the given index. -/
structure SameBut (index : Int) (r r' : Registers) : Prop where
  inputs : r'.inputs = r.inputs
  size : r'.values.size = r.values.size
  values : ∀ k : Nat, (k : Int) ≠ index → r'.values[k]? = r.values[k]?

theorem SameBut.refl (index : Int) (r : Registers) : SameBut index r r := ⟨rfl, rfl, fun _ _ => rfl⟩

theorem write_sameBut {r r' : Registers} {index : Int} {x : Float} (h0 : 0 ≤ index) (h : r.write index x = .ok r') :
    SameBut index r r' := by
  unfold write position? at h
  rw [if_pos h0] at h
  split at h
  · rename_i place hplace
    obtain rfl := Except.ok.inj h
    obtain rfl : index.toNat = place := by
      split at hplace
      · exact Option.some.inj hplace
      · exact nomatch hplace
    refine ⟨rfl, Array.size_setIfInBounds, ?_⟩
    intro k hk
    exact Array.getElem?_setIfInBounds_ne (by omega)
  · exact nomatch h

end Registers

/-- **An instruction changes at most its destination**, and a branch does not even change that. One that fails leaves
    the banks as they are. -/
theorem Instruction.applyWith_sameBut {i : Instruction} (h0 : 0 ≤ i.destination) (r : Registers) :
    Registers.SameBut i.destination r (finalState (i.applyWith A r)) ∧
      (i.isBranch = true → finalState (i.applyWith A r) = r) := by
  rw [applyWith_eq]
  cases hstep : i.stepWith A r with
  | error f => exact ⟨.refl _ r, fun _ => rfl⟩
  | ok out =>
      obtain ⟨goesOn, r'⟩ := out
      refine ⟨?_, (stepWith_ok hstep).1⟩
      have happly : i.applyWith A r = .ok goesOn r' := by
        rw [applyWith_eq, hstep]
      rcases applyWith_ok happly with rfl | ⟨x, hwrite⟩
      · exact .refl _ r'
      · exact Registers.write_sameBut h0 hwrite

/-! ## The loop -/

/-- What every instruction keeps, the loop keeps, whether it comes to its end or not: by induction on what is left of
    the program. -/
theorem runFrom_keeps {P : Registers → Prop} (hkeeps : ∀ i ∈ code, ∀ r, P r → P (finalState (i.applyWith A r)))
    (skip : Nat) {r : Registers} (hr : P r) : P (finalState (runFrom A policy skip code r)) := by
  induction code generalizing skip r with
  | nil => exact hr
  | cons i rest ih =>
      rw [List.forall_mem_cons] at hkeeps
      cases skip with
      | succ pending => exact ih hkeeps.2 _ hr
      | zero =>
          have hnext := hkeeps.1 r hr
          show P (finalState (EStateM.bind _ _ r))
          unfold EStateM.bind
          cases happly : i.applyWith A r with
          | error e banks =>
              rw [happly] at hnext
              exact hnext
          | ok goesOn banks =>
              rw [happly] at hnext
              exact ih hkeeps.2 (if goesOn then 0 else 1) hnext

/-! ## Inputs that are read -/

/-- Banks of inputs that hold the same at an index are read alike there. -/
theorem Registers.read_of_agree {xs ys : List Float} (hlength : xs.length = ys.length) {index : Int} (h0 : 0 ≤ index)
    (h : (xs[index.toNat]?).map finiteInput = (ys[index.toNat]?).map finiteInput) :
    read (ys.map finiteInput).toArray index = read (xs.map finiteInput).toArray index := by
  have hsize : (ys.map finiteInput).toArray.size = (xs.map finiteInput).toArray.size := by simp [hlength]
  unfold read
  rw [hsize]
  cases hplace : position? (xs.map finiteInput).toArray.size index with
  | none => rfl
  | some place =>
      obtain rfl : index.toNat = place := by
        unfold position? at hplace
        rw [if_pos h0] at hplace
        split at hplace
        · exact Option.some.inj hplace
        · exact nomatch hplace
      simp only [Array.getD_eq_getD_getElem?, List.getElem?_toArray, List.getElem?_map, h]

namespace Program

variable {p : Program} {r : Registers} {xs ys : List Float}

/-- Some instruction has the input numbered `k` as its operand. -/
def Reads (p : Program) (k : Nat) : Prop := ∃ i ∈ p.code, i.mode = .external ∧ i.source = k

/-- Some instruction that is not a branch has the register numbered `k` as its destination. -/
def Writes (p : Program) (k : Nat) : Prop := ∃ i ∈ p.code, i.isBranch = false ∧ i.destination = k

/-- The input bank holds the same number for both inputs wherever the program reads it. -/
def AgreeOnReads (p : Program) (xs ys : List Float) : Prop :=
  ∀ k, p.Reads k → (xs[k]?).map finiteInput = (ys[k]?).map finiteInput

/-- An instruction that fits sees the same on inputs that agree wherever its program reads them. -/
theorem AgreeOnReads.counterpart (h : p.AgreeOnReads xs ys) (hlength : xs.length = ys.length) {i : Instruction}
    (hi : i ∈ p.code) (hfits : i.OperandFits sizes) :
    Instruction.Counterpart (xs.map finiteInput).toArray (ys.map finiteInput).toArray i i := by
  refine ⟨rfl, rfl, ?_⟩
  intro values
  unfold Instruction.OperandFits at hfits
  unfold Instruction.operand
  cases hmode : i.mode with
  | internal => rfl
  | external =>
      rw [hmode] at hfits
      have hreads : p.Reads i.source.toNat := ⟨i, hi, hmode, (Int.toNat_of_nonneg hfits.1).symm⟩
      simp only [Registers.read_of_agree hlength hfits.1 (h _ hreads)]
  | constant => rfl
  | other name => rfl

/-! ## Whole executions -/

section Ends

variable (A : Arithmetic) (hfits : p.shape.Fits sizes p.code) (hr : r.Fits sizes)
  (hxs : (xs.length : Int) = sizes.inputs)

include hfits hr hxs

/-- What an execution does to its banks, it does to them once the inputs have been loaded. -/
theorem executeWith_keeps {P : Registers → Prop} (hloaded : P (Registers.loaded r.values.size xs))
    (hkeeps : ∀ i ∈ p.code, 0 ≤ i.destination → ∀ r, P r → P (finalState (i.applyWith A r))) :
    P (finalState (p.executeWith A (some xs) r)) := by
  rw [executeWith_eq_start A (hr.length_eq hxs)]
  refine runFrom_keeps (fun i hi => hkeeps i hi ?_) 0 hloaded
  obtain ⟨op, -, h0, -⟩ := (hfits.each i hi).operation
  exact h0

/-- The input bank holds the inputs made finite, whatever the execution comes to. -/
theorem executeWith_inputs : (finalState (p.executeWith A (some xs) r)).inputs = (xs.map finiteInput).toArray := by
  refine executeWith_keeps A hfits hr hxs (P := fun r => r.inputs = (xs.map finiteInput).toArray) rfl ?_
  intro i _ h0 r hinputs
  exact (i.applyWith_sameBut h0 r).1.inputs.trans hinputs

/-- A register that the program does not write is zero, whatever the execution comes to. -/
theorem executeWith_unwritten {k : Nat} (hlt : (k : Int) < sizes.registers) (hk : ¬ p.Writes k) :
    (finalState (p.executeWith A (some xs) r)).values[k]? = some 0.0 := by
  have hvalues := hr.values
  refine executeWith_keeps A hfits hr hxs (P := fun r => r.values[k]? = some 0.0) ?_ ?_
  · show (Array.replicate r.values.size 0.0)[k]? = some 0.0
    rw [Array.getElem?_replicate, if_pos (by omega)]
  · intro i hi h0 r hzero
    obtain ⟨hsame, hbranch⟩ := i.applyWith_sameBut (A := A) h0 r
    cases hi' : i.isBranch with
    | true =>
        rw [hbranch hi']
        exact hzero
    | false =>
        -- a destination of another instruction than a branch is a register that the program writes
        rw [hsame.values k fun hdestination => hk ⟨i, hi, hi', hdestination.symm⟩]
        exact hzero

end Ends

/--
**An execution stays within the footprint of its program.** For a program without a flaw, all inputs of the right
number, fitting banks and any arithmetic:

* with as many registers as actions the program is run to its end;
* on inputs that agree wherever the program reads them it comes through the same branches, decides them in the same way
  and ends with the same working registers;
* whatever it comes to, the input bank holds the inputs made finite, and every register that is not the destination of
  an instruction other than a branch is zero;
* each instruction that is executed on the way changes no bank but the working registers, and no register but its
  destination; a branch changes nothing at all.
-/
theorem execute_within_footprint (A : Arithmetic) (hsizes : p.shape.sizes? = some sizes)
    (hflaw : p.shape.flaw? p.code = none) (hr : r.Fits sizes) (hxs : (xs.length : Int) = sizes.inputs) :
    (sizes.actions ≤ sizes.registers → ∃ r', p.executeWith A (some xs) r = .ok () r') ∧
      (∀ ys : List Float, (ys.length : Int) = sizes.inputs → p.AgreeOnReads xs ys → Follows A r p xs p ys) ∧
      (finalState (p.executeWith A (some xs) r)).inputs = (xs.map finiteInput).toArray ∧
      (∀ k : Nat, (k : Int) < sizes.registers → ¬ p.Writes k →
        (finalState (p.executeWith A (some xs) r)).values[k]? = some 0.0) ∧
      ∀ i rest banks, Point.Reaches A p.shape.branchPolicy (p.start xs r) ⟨0, i :: rest, banks⟩ →
        Registers.SameBut i.destination banks (finalState (i.applyWith A banks)) ∧
          (i.isBranch = true → finalState (i.applyWith A banks) = banks) := by
  have hfits := Shape.fits_of_flaw?_eq_none hsizes hflaw
  have hlength : xs.length = r.inputs.size := hr.length_eq hxs
  refine ⟨fun hroom => executeWith_ok A hroom hfits hr hxs, ?_, executeWith_inputs A hfits hr hxs,
    fun k => executeWith_unwritten A hfits hr hxs, ?_⟩
  · intro ys hys hagree
    have hlength' : ys.length = r.inputs.size := hr.length_eq hys
    refine follows_of_counterparts rfl hlength hlength' (List.forall₂_same.mpr ?_)
    exact fun i hi => hagree.counterpart (hlength.trans hlength'.symm) hi (hfits.each i hi).operand
  · intro i rest banks hreaches
    have hi : i ∈ p.code := hreaches.rest_suffix.mem (List.mem_cons_self ..)
    obtain ⟨op, -, h0, -⟩ := (hfits.each i hi).operation
    exact i.applyWith_sameBut h0 banks

/-- A program of three inputs that reads the second one only, although a constant carries the index of the third one
    along, and that has its last register as the destination of a branch. -/
def attentive : Program :=
  ⟨0, [⟨"if_lt", 2, 1, .external, none⟩, ⟨"add", 0, 1, .external, none⟩, ⟨"mov", 1, 2, .constant, some 2.5⟩,
      ⟨"vote", 0, 1, .internal, none⟩],
    ⟨4, some 3, some 3, some 1, none, 0.1, 0.5, 10.0, .nested⟩⟩

/-- Its first and third inputs may be anything, and its last register stays at zero. -/
theorem execute_within_footprint_attentive :
    attentive.AgreeOnReads [0.0 / 0.0, 4.0, 9.0] [1.0, 4.0, -3.0] ∧
      (∃ r', attentive.executeWith .binary64 (some [0.0 / 0.0, 4.0, 9.0]) (Registers.zeros 3 3) = .ok () r' ∧
        r'.inputs = #[0.0, 4.0, 9.0] ∧ r'.values[2]? = some 0.0) ∧
      Follows .binary64 (Registers.zeros 3 3) attentive [0.0 / 0.0, 4.0, 9.0] attentive [1.0, 4.0, -3.0] := by
  have hagree : attentive.AgreeOnReads [0.0 / 0.0, 4.0, 9.0] [1.0, 4.0, -3.0] := by
    rintro k ⟨i, hi, hmode, hsource⟩
    obtain rfl : k = 1 := by
      simp only [attentive, List.mem_cons, List.not_mem_nil, or_false] at hi
      rcases hi with rfl | rfl | rfl | rfl
      · exact (Int.ofNat.inj hsource).symm
      · exact (Int.ofNat.inj hsource).symm
      · exact nomatch hmode
      · exact nomatch hmode
    rfl
  have hspared : ¬ attentive.Writes 2 := by
    rintro ⟨i, hi, hbranch, hdestination⟩
    simp only [attentive, List.mem_cons, List.not_mem_nil, or_false] at hi
    rcases hi with rfl | rfl | rfl | rfl
    · exact nomatch hbranch
    · exact nomatch hdestination
    · exact nomatch hdestination
    · exact nomatch hdestination
  have hsizes : attentive.shape.sizes? = some ⟨3, 3, 1⟩ := rfl
  have hfits : (Registers.zeros 3 3).Fits ⟨3, 3, 1⟩ := ⟨rfl, rfl⟩
  have hlength : (([0.0 / 0.0, 4.0, 9.0] : List Float).length : Int) = 3 := rfl
  obtain ⟨hruns, hfollows, hinputs, hzero, -⟩ :=
    execute_within_footprint .binary64 hsizes (by decide +kernel) hfits hlength
  obtain ⟨r', hexecute⟩ := hruns (by decide)
  have hlast := hzero 2 (by decide) hspared
  rw [hexecute] at hinputs hlast
  have hfinite : ([0.0 / 0.0, 4.0, 9.0] : List Float).map finiteInput = [0.0, 4.0, 9.0] := by decide
  rw [hfinite] at hinputs
  exact ⟨hagree, ⟨r', hexecute, hinputs, hlast⟩, hfollows [1.0, 4.0, -3.0] rfl hagree⟩

end Program

end RegisterEvolution
