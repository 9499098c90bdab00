import Mathlib.Data.List.Basic
import RegisterEvolution.Proofs.Settings.Accepted
import RegisterEvolution.Proofs.Variation.Building
import RegisterEvolution.Proofs.Variation.Mutation

/-!
# `Proofs.Variation.Locality` — a mutation does not lead far away

An edit changes one place of an instruction sequence: it inserts, deletes or substitutes one instruction, or it changes
nothing. A mutation is a path of such steps inside the length limits, so the distance of a mutant from its parent is at
most the number of its edits.

* `EditStep`, `EditPath` — one change at one place, and several with all lengths in between inside the limits;
* `editDistance` — the least cost of turning one list into another, which a step changes by at most one;
* `Edit.run_gives`, `mutateCode_paths` — edits are steps, under any generator, and mutations are paths;
* `Run.mutant_local` — mutants of programs.
-/

namespace RegisterEvolution

/-! ## Steps and distances -/

section Lists

variable {α : Type}

/-- At most one element is inserted, deleted or substituted. -/
inductive EditStep : List α → List α → Prop where
  | keep (xs : List α) : EditStep xs xs
  | insert (front back : List α) (x : α) : EditStep (front ++ back) (front ++ x :: back)
  | delete (front back : List α) (x : α) : EditStep (front ++ x :: back) (front ++ back)
  | substitute (front back : List α) (x y : α) : EditStep (front ++ x :: back) (front ++ y :: back)

/-- A number of steps from one list to another, of which all that are come through have between one element and
    `limit`. -/
inductive EditPath (limit : Int) : Nat → List α → List α → Prop where
  | done (xs : List α) : EditPath limit 0 xs xs
  | step {n : Nat} {xs ys zs : List α} (first : EditStep xs ys) (nonempty : 1 ≤ ys.length)
      (length_le : (ys.length : Int) ≤ limit) (rest : EditPath limit n ys zs) : EditPath limit (n + 1) xs zs

namespace EditStep

variable {xs ys : List α}

/-- A step behind an element is a step. -/
theorem cons (h : EditStep xs ys) (x : α) : EditStep (x :: xs) (x :: ys) := by
  cases h with
  | keep => exact .keep (x :: xs)
  | insert front back y => exact .insert (x :: front) back y
  | delete front back y => exact .delete (x :: front) back y
  | substitute front back y z => exact .substitute (x :: front) back y z

/-- Overwriting at a position is a step; at a position that is not there it changes nothing. -/
theorem set (xs : List α) (i : Nat) (y : α) : EditStep xs (xs.set i y) := by
  induction xs generalizing i with
  | nil => exact .keep []
  | cons x xs ih =>
      cases i with
      | zero => exact .substitute [] xs x y
      | succ i => exact (ih i).cons x

theorem insertIdx (xs : List α) (i : Nat) (y : α) : EditStep xs (xs.insertIdx i y) := by
  induction xs generalizing i with
  | nil =>
      cases i with
      | zero => exact .insert [] [] y
      | succ i => exact .keep []
  | cons x xs ih =>
      cases i with
      | zero => exact .insert [] (x :: xs) y
      | succ i => exact (ih i).cons x

theorem eraseIdx (xs : List α) (i : Nat) : EditStep xs (xs.eraseIdx i) := by
  induction xs generalizing i with
  | nil => exact .keep []
  | cons x xs ih =>
      cases i with
      | zero => exact .delete [] xs x
      | succ i => exact (ih i).cons x

end EditStep

variable [DecidableEq α]

/-- The least number of insertions, deletions and substitutions that turn one list into another. -/
def editDistance : List α → List α → Nat
  | [], ys => ys.length
  | _ :: xs, [] => xs.length + 1
  | x :: xs, y :: ys =>
    min ((if x = y then 0 else 1) + editDistance xs ys)
      (1 + min (editDistance xs (y :: ys)) (editDistance (x :: xs) ys))
termination_by xs ys => xs.length + ys.length

namespace editDistance

variable {x y z : α} {xs ys zs : List α}

theorem nil_left (ys : List α) : editDistance [] ys = ys.length := by
  rw [editDistance]

theorem nil_right (xs : List α) : editDistance xs [] = xs.length := by
  cases xs with
  | nil => exact nil_left []
  | cons x xs =>
      rw [editDistance]
      rfl

theorem cons_cons (x y : α) (xs ys : List α) : editDistance (x :: xs) (y :: ys) =
    min ((if x = y then 0 else 1) + editDistance xs ys)
      (1 + min (editDistance xs (y :: ys)) (editDistance (x :: xs) ys)) := by
  rw [editDistance]

theorem self (xs : List α) : editDistance xs xs = 0 := by
  induction xs with
  | nil => exact nil_left []
  | cons x xs ih =>
      rw [cons_cons, if_pos rfl, ih]
      omega

theorem cons_left_le : editDistance (x :: xs) ys ≤ editDistance xs ys + 1 := by
  cases ys with
  | nil =>
      rw [nil_right, nil_right]
      exact Nat.le_refl _
  | cons y ys =>
      rw [cons_cons]
      omega

theorem cons_right_le : editDistance xs (y :: ys) ≤ editDistance xs ys + 1 := by
  cases xs with
  | nil =>
      rw [nil_left, nil_left]
      exact Nat.le_refl _
  | cons x xs =>
      rw [cons_cons]
      omega

theorem cons_cons_le : editDistance (x :: xs) (y :: ys) ≤ editDistance xs ys + 1 := by
  rw [cons_cons]
  split <;> omega

/-- One element less at the front of the second list. -/
theorem le_cons_right : editDistance xs ys ≤ editDistance xs (y :: ys) + 1 := by
  induction xs with
  | nil =>
      rw [nil_left, nil_left, List.length_cons]
      omega
  | cons x xs ih =>
      -- whichever way the longer list is reached, the first element of the other one costs at most one
      have hless : editDistance (x :: xs) ys ≤ editDistance xs ys + 1 := cons_left_le
      rw [cons_cons x y xs ys]
      omega

/-- Another element at the front of the second list. -/
theorem cons_right_le_cons_right : editDistance xs (z :: ys) ≤ editDistance xs (y :: ys) + 1 := by
  induction xs with
  | nil =>
      rw [nil_left, nil_left]
      exact Nat.le_succ _
  | cons x xs ih =>
      have hboth : editDistance (x :: xs) (z :: ys) ≤ editDistance xs ys + 1 := cons_cons_le
      have hskip : editDistance (x :: xs) (z :: ys) ≤ editDistance xs (z :: ys) + 1 := cons_left_le
      have hnew : editDistance (x :: xs) (z :: ys) ≤ editDistance (x :: xs) ys + 1 := cons_right_le
      rw [cons_cons x y xs ys]
      omega

/-- What changes a distance by at most one does so behind an element as well. -/
theorem under_cons (h : ∀ xs, editDistance xs zs ≤ editDistance xs ys + 1) (y : α) (xs : List α) :
    editDistance xs (y :: zs) ≤ editDistance xs (y :: ys) + 1 := by
  have hlength := h []
  rw [nil_left, nil_left] at hlength
  induction xs with
  | nil =>
      rw [nil_left, nil_left, List.length_cons, List.length_cons]
      omega
  | cons x xs ih =>
      have hboth := h xs
      have hskip := h (x :: xs)
      rw [cons_cons x y xs zs, cons_cons x y xs ys]
      omega

/-- **A step changes the distance by at most one.** -/
theorem of_step (h : EditStep ys zs) : ∀ xs, editDistance xs zs ≤ editDistance xs ys + 1 := by
  -- the place of the step is reached by leaving out the elements in front of it one by one
  have hfront : ∀ {ys zs : List α}, (∀ xs, editDistance xs zs ≤ editDistance xs ys + 1) →
      ∀ (front xs : List α), editDistance xs (front ++ zs) ≤ editDistance xs (front ++ ys) + 1 := by
    intro ys zs hstep front
    induction front with
    | nil => exact hstep
    | cons y front ih => exact under_cons ih y
  cases h with
  | keep => exact fun xs => Nat.le_succ _
  | insert front back x => exact hfront (fun xs => cons_right_le) front
  | delete front back x => exact hfront (fun xs => le_cons_right) front
  | substitute front back x y => exact hfront (fun xs => cons_right_le_cons_right) front

/-- As many steps as a path has lead at most as far. -/
theorem of_path {limit : Int} {n : Nat} (h : EditPath limit n ys zs) (xs : List α) :
    editDistance xs zs ≤ editDistance xs ys + n := by
  induction h with
  | done ys => exact Nat.le_add_right _ _
  | step first nonempty length_le rest ih =>
      have hfirst := of_step first xs
      omega

end editDistance

theorem EditPath.editDistance_le {limit : Int} {n : Nat} {xs ys : List α} (h : EditPath limit n xs ys) :
    editDistance xs ys ≤ n := by
  have hpath := editDistance.of_path h xs
  rw [editDistance.self] at hpath
  omega

end Lists

deriving instance DecidableEq for Instruction

/-! ## Edits are steps -/

variable {γ : Type} [Generator γ] {shape : Shape} {sizes : BankSizes} {code : List Instruction}

namespace Edit

/-- **An edit is a step**, whatever is drawn and by whatever generator. -/
theorem run_gives (edit : Edit) : Gives (edit.run shape code : Draw γ (List Instruction)) (EditStep code) := by
  cases edit with
  | replace => exact (Gives.any _).bind fun i _ => (Gives.any _).bind fun instruction _ => .pure (.set code i _)
  | insert => exact (Gives.any _).bind fun i _ => (Gives.any _).bind fun instruction _ => .pure (.insertIdx code i _)
  | delete =>
      show Gives (runDelete code) (EditStep code)
      unfold runDelete
      split
      · exact .pure (.keep code)
      · exact (Gives.any _).bind fun i _ => .pure (.eraseIdx code i)
  | changeOpcode =>
      refine (Gives.any _).bind fun picked _ => ?_
      dsimp only
      -- an operation that is unknown fails, and one without an alternative is left as it is
      split
      · exact .throw
      · exact .pure (.keep code)
      · exact (Gives.any _).bind fun name _ => .pure (.set code _ _)
  | changeOperand =>
      refine (Gives.any _).bind fun picked _ => (Gives.any _).bind fun x _ => ?_
      split
      · exact (Gives.any _).bind fun kind _ => (Gives.any _).bind fun n _ => .pure (.set code _ _)
      · exact (Gives.any _).bind fun operand _ => .pure (.set code _ _)

theorem random_gives : Gives (random shape code : Draw γ (List Instruction)) (EditStep code) :=
  (Gives.any _).bind fun edit _ => run_gives edit

variable [Generator.Honest γ]

/-- Several edits are a path inside the length limits. -/
theorem randomly_paths (h : shape.Usable sizes) (count : Nat) (hcode : shape.Fits sizes code) :
    Yields (randomly shape count code : Draw γ (List Instruction)) fun edited =>
      shape.Fits sizes edited ∧ EditPath shape.maxInstructions count code edited := by
  induction count generalizing code with
  | zero => exact .pure ⟨hcode, .done code⟩
  | succ count ih =>
      refine ((random_yields h hcode).and_gives random_gives).bind fun next hnext => ?_
      exact (ih hnext.1).imp fun edited hedited =>
        ⟨hedited.1, .step hnext.2 hnext.1.nonempty hnext.1.length_le hedited.2⟩

end Edit

/-- **A mutation is a path** of at least one edit and of at most as many as are allowed. -/
theorem mutateCode_paths [Generator.Honest γ] (h : shape.Usable sizes) (maxEdits : Int)
    (hcode : shape.Fits sizes code) :
    Yields (mutateCode shape maxEdits code : Draw γ (List Instruction)) fun edited => shape.Fits sizes edited ∧
      ∃ n : Nat, 1 ≤ n ∧ (n : Int) ≤ max 1 maxEdits ∧ EditPath shape.maxInstructions n code edited := by
  apply (Draw.integers_yields (by omega)).bind
  intro count hcount
  apply (Edit.randomly_paths h count.toNat hcode).imp
  intro edited hedited
  exact ⟨hedited.1, count.toNat, by omega, by omega, hedited.2⟩

/-! ## Mutants -/

namespace Run

/--
**Mutation is closed and local.** Accepted settings with known counts describe a shape such that, for every program of
this shape without a flaw, every generator that keeps its promise, any limit of edits and wherever it begins, a mutant
is built:

* it is a new program of the same shape without a flaw, and has no fitness;
* it is reached from its parent by at least one edit and by no more than allowed, each of them an insertion, a deletion
  or a substitution of one instruction or no change, and no length in between leaves the limits;
* its distance from the parent is at most the number of edits;
* whatever was built before is as it was, its fitness included.
-/
theorem mutant_local {settings : ProgramSettings} (hvalid : settings.validate = .ok ())
    (hbound : settings.isBound = true) :
    ∃ shape sizes, settings.shape = .ok shape ∧ shape.Usable sizes ∧
      ∀ (γ σ : Type) [Generator γ] [Generator.Honest γ] (p : Program) (maxEdits : Int) (lab : Lab γ σ),
        p.shape = shape → shape.flaw? p.code = none →
        ∃ q lab', mutant maxEdits p lab = .ok q lab' ∧ q.id = lab.store.nextId ∧ q.shape = shape ∧
          shape.flaw? q.code = none ∧ lab'.store.fitness q = none ∧
          (∃ n : Nat, 1 ≤ n ∧ (n : Int) ≤ max 1 maxEdits ∧ EditPath shape.maxInstructions n p.code q.code ∧
            editDistance p.code q.code ≤ n) ∧
          lab.store.Extends lab'.store ∧
          ∀ r : Program, r.id < lab.store.nextId → lab'.store.fitness r = lab.store.fitness r := by
  obtain ⟨shape, sizes, hshape, husable⟩ := (ProgramSettings.checked_of_validate hvalid).exists_shape_of_bound hbound
  refine ⟨shape, sizes, hshape, husable, ?_⟩
  rintro γ σ _ _ p maxEdits lab rfl hflaw
  have hfits := Shape.fits_of_flaw?_eq_none husable.bound hflaw
  obtain ⟨q, lab', hbuild, hbuilt, hqfits, n, hpos, hle, hpath⟩ :=
    building_yields husable (mutateCode_paths husable maxEdits hfits) lab
  refine ⟨q, lab', hbuild, by rw [hbuilt.eq], by rw [hbuilt.eq], hqfits.flaw?_eq_none husable.bound, hbuilt.fitness,
    ⟨n, hpos, hle, hpath, hpath.editDistance_le⟩, hbuilt.grown, ?_⟩
  intro r hr
  exact hbuilt.grown.fitnessAt_eq hr

/-- A program that generation does not come up with: its constant has the source of an input that is not there, and its
    register has a constant besides. -/
def patched : Program :=
  ⟨0, [⟨"mov", 1, 99, .constant, some (0.0 / 0.0)⟩, ⟨"vote", 0, 1, .internal, some 2.0⟩],
    ⟨32, some 2, some 1, some 1, none, 0.1, 0.5, 10.0, .single⟩⟩

/-- Also where the limit of edits is negative, that program is edited once. -/
theorem mutant_local_patched : ∃ q lab', mutant (-3) patched (Lab.start Least.least () : Lab Least Unit) = .ok q lab' ∧
    patched.shape.flaw? q.code = none ∧ lab'.store.fitness q = none ∧ editDistance patched.code q.code ≤ 1 := by
  let settings : ProgramSettings := { registerCount := .int 2, inputCount := .int 1, actionCount := .int 1 }
  have hvalid : settings.validate = .ok () := rfl
  obtain ⟨shape, sizes, hshape, husable, hlocal⟩ := mutant_local hvalid rfl
  obtain rfl : patched.shape = shape := Except.ok.inj hshape
  obtain ⟨q, lab', hmutant, -, -, hflaw, hfitness, ⟨n, -, hle, -, hdistance⟩, -⟩ :=
    hlocal Least Unit patched (-3) (Lab.start Least.least ()) rfl (by decide +kernel)
  exact ⟨q, lab', hmutant, hflaw, hfitness, by omega⟩

end Run

end RegisterEvolution
