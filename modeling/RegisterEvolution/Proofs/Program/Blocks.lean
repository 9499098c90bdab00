import RegisterEvolution.Proofs.Program.Acceptance

/-!
# `Proofs.Program.Blocks` — blocks of branches

Under the nested policy a branch that fails skips the branches right after it as well, so that a block of branches acts
as one: what follows it runs if all of them hold, and as branches write nothing they are all tested on the same banks.
It does not matter then in which order they stand or how often, a block at the end tests for nothing, and the policies
only differ where one branch follows another.

* `Point.reaches_past_block` — the loop on a block of branches;
* `Point.Reaches.unique`, `Point.Reaches.skip_eq_zero` — the one point at which a block is reached;
* `runFrom_append_congr`, `runFrom_single_eq_nested` — code and policies that may be exchanged for others;
* `execute_blocks` — the conjunction that a block is, and what may be rewritten for this reason.
-/

namespace RegisterEvolution

variable {A : Arithmetic} {policy : BranchPolicy} {shape : Shape} {sizes : BankSizes} {r r' : Registers}
  {i b : Instruction} {code block rest : List Instruction}

/-! ## Branches that fit -/

/-- A branch writes to no register, so it is held to the number of registers and always served. -/
theorem Instruction.Fits.applyWith_branch (hfits : b.Fits shape sizes) (hbranch : b.isBranch = true)
    (hr : r.Fits sizes) : b.applyWith A r = .ok (b.holds A r) r := by
  obtain ⟨op, hop, -, hlt⟩ := hfits.operation
  have hkind : op.kind ≠ .action := by
    rw [Instruction.isBranch_eq hop] at hbranch
    intro haction
    simp [Opcode.isBranch, haction] at hbranch
  have hinside : b.destination < sizes.registers := by
    unfold BankSizes.destinations at hlt
    rwa [if_neg hkind] at hlt
  obtain ⟨holds, banks, hstep, -⟩ := Instruction.stepWith_of_served (A := A) (hfits.served hr hinside)
  obtain rfl := (Instruction.stepWith_ok hstep).1 hbranch
  rw [Instruction.applyWith_eq, hstep]
  simp [Instruction.holds, hstep]

/-- Everything else lets what follows it run. -/
theorem Instruction.goesOn_of_not_branch {goesOn : Bool} (hbranch : i.isBranch = false)
    (h : i.applyWith A r = .ok goesOn r') : goesOn = true ∧ i.applied A r = r' := by
  rw [Instruction.applyWith_eq] at h
  cases hstep : i.stepWith A r with
  | error f => simp [hstep] at h
  | ok out =>
      obtain ⟨continues, banks⟩ := out
      obtain ⟨rfl, rfl⟩ : continues = goesOn ∧ banks = r' := by simpa [hstep] using h
      exact ⟨(Instruction.stepWith_ok hstep).2 hbranch, by simp [Instruction.applied, hstep]⟩

namespace Point

/-! ## The loop on a block -/

/-- While the guarded instruction has not come, skipping goes on. -/
theorem reaches_past_skipped (hblock : ∀ b ∈ block, b.isBranch = true) (pending : Nat) :
    Reaches A .nested ⟨pending + 1, block ++ rest, r⟩ ⟨pending + 1, rest, r⟩ := by
  induction block with
  | nil => exact .refl
  | cons b block ih =>
      obtain ⟨hb, hblock⟩ := List.forall_mem_cons.mp hblock
      have hturn : Turn A .nested ⟨pending + 1, b :: (block ++ rest), r⟩
          ⟨skipPast .nested pending b, block ++ rest, r⟩ := .skipped
      have hskip : skipPast .nested pending b = pending + 1 := by simp [skipPast, hb]
      rw [hskip] at hturn
      exact (ih hblock).head hturn

/-- **A block of branches is their conjunction**: by induction on the block, of which the banks do not change. -/
theorem reaches_past_block (hfits : ∀ b ∈ block, b.Fits shape sizes) (hblock : ∀ b ∈ block, b.isBranch = true)
    (hr : r.Fits sizes) :
    Reaches A .nested ⟨0, block ++ rest, r⟩ ⟨if block.all (·.holds A r) then 0 else 1, rest, r⟩ := by
  induction block with
  | nil => exact .refl
  | cons b block ih =>
      obtain ⟨hb, hblock⟩ := List.forall_mem_cons.mp hblock
      obtain ⟨hbfits, hfits⟩ := List.forall_mem_cons.mp hfits
      have hturn : Turn A .nested ⟨0, b :: (block ++ rest), r⟩ ⟨if b.holds A r then 0 else 1, block ++ rest, r⟩ :=
        .executed (hbfits.applyWith_branch hb hr)
      cases hholds : b.holds A r with
      | true =>
          rw [hholds] at hturn
          simpa [hholds] using (ih hfits hblock).head hturn
      | false =>
          rw [hholds] at hturn
          simpa [hholds] using (reaches_past_skipped hblock 0).head hturn

/-! ## Where the loop comes through -/

variable {start point point' next : Point} {skip : Nat} {before : List Instruction}

theorem Turn.unique (h : Turn A policy point next) {next' : Point} (h' : Turn A policy point next') :
    next = next' := by
  cases h with
  | skipped =>
      cases h' with
      | skipped => rfl
  | executed happly =>
      cases h' with
      | executed happly' =>
          obtain ⟨rfl, rfl⟩ := EStateM.Result.ok.inj (happly.symm.trans happly')
          rfl

/-- A turn goes past one instruction. -/
theorem Turn.exists_passed (h : Turn A policy point next) : ∃ i, point.rest = i :: next.rest := by
  cases h with
  | skipped => exact ⟨_, rfl⟩
  | executed _ => exact ⟨_, rfl⟩

theorem Reaches.length_le (h : Reaches A policy point next) : next.rest.length ≤ point.rest.length :=
  h.rest_suffix.length_le

/-- From one point on, the loop comes through each piece of the code once. -/
theorem Reaches.unique (h : Reaches A policy start point) (h' : Reaches A policy start point')
    (hrest : point.rest.length = point'.rest.length) : point = point' := by
  have hstay : ∀ {a b : Point}, Reaches A policy a b → a.rest.length = b.rest.length → a = b := by
    intro a b hab hlength
    rcases Relation.ReflTransGen.cases_head hab with rfl | ⟨c, hturn, hcb⟩
    · rfl
    · obtain ⟨i, hpassed⟩ := hturn.exists_passed
      have hle := Reaches.length_le hcb
      rw [hpassed, List.length_cons] at hlength
      omega
  have hunique : Relator.RightUnique (Turn A policy) := fun _ _ _ ha hb => ha.unique hb
  rcases Relation.ReflTransGen.total_of_right_unique hunique h h' with hab | hba
  · exact hstay hab hrest
  · exact (hstay hba hrest.symm).symm

/-- Under the nested policy one instruction is skipped, or none, and none after an instruction that is no branch. -/
theorem Turn.skip_le_one (h : Turn A .nested point next) (hskip : point.skip ≤ 1) :
    next.skip ≤ 1 ∧ ∀ i ∈ point.rest.head?, i.isBranch = false → next.skip = 0 := by
  cases h with
  | @skipped pending i rest r =>
      have hpending : pending = 0 := by
        have : pending + 1 ≤ 1 := hskip
        omega
      subst hpending
      cases hi : i.isBranch with
      | true => simp [skipPast, hi]
      | false => simp [skipPast, hi]
  | @executed i rest r goesOn r' happly =>
      constructor
      · show (if goesOn then 0 else 1) ≤ 1
        split <;> omega
      · intro j hj hbranch
        obtain rfl : i = j := Option.some.inj hj
        rw [(Instruction.goesOn_of_not_branch hbranch happly).1]
        rfl

theorem Reaches.skip_le_one (h : Reaches A .nested point next) (hskip : point.skip ≤ 1) : next.skip ≤ 1 := by
  induction h with
  | refl => exact hskip
  | tail _ hturn ih => exact (hturn.skip_le_one ih).1

/-- After an instruction that is no branch, and at the beginning, there is nothing to skip. -/
theorem Reaches.skip_eq_zero (h : Reaches A .nested ⟨0, before ++ rest, r⟩ ⟨skip, rest, r'⟩)
    (hlast : ∀ j ∈ before.getLast?, j.isBranch = false) : skip = 0 := by
  rcases Relation.ReflTransGen.cases_tail h with heq | ⟨middle, hreaches, hturn⟩
  · exact congrArg Point.skip heq
  · obtain ⟨i, hpassed⟩ := hturn.exists_passed
    obtain ⟨passed, hsuffix⟩ := Reaches.rest_suffix hreaches
    have hbefore : before = passed ++ [i] := by
      rw [hpassed] at hsuffix
      have hcode : passed ++ [i] ++ rest = before ++ rest := by simpa using hsuffix
      exact (List.append_cancel_right hcode).symm
    have hi : i.isBranch = false := hlast i (by simp [hbefore])
    exact (hturn.skip_le_one (Reaches.skip_le_one hreaches (Nat.zero_le 1))).2 i (by simp [hpassed]) hi

/-- What comes of a block of branches that is reached on `banks`: the instruction after it is executed exactly if all of
    them hold, and the loop goes on behind that instruction in either case, with nothing to skip. -/
structure Conjoins (A : Arithmetic) (start : Point) (block : List Instruction) (i : Instruction)
    (after : List Instruction) (banks : Registers) : Prop where
  guarded : (∃ banks', Reaches A .nested start ⟨0, i :: after, banks'⟩) ↔ ∀ b ∈ block, b.holds A banks = true
  passed : (∃ b ∈ block, b.holds A banks = false) → Reaches A .nested start ⟨0, after, banks⟩
  applied : (∀ b ∈ block, b.holds A banks = true) → ∀ goesOn banks', i.applyWith A banks = .ok goesOn banks' →
    Reaches A .nested start ⟨0, after, banks'⟩

theorem Reaches.conjoins {after : List Instruction} (h : Reaches A .nested start ⟨0, block ++ i :: after, r⟩)
    (hfits : ∀ b ∈ block, b.Fits shape sizes) (hblock : ∀ b ∈ block, b.isBranch = true) (hi : i.isBranch = false)
    (hr : r.Fits sizes) : Conjoins A start block i after r := by
  have hpast : Reaches A .nested start ⟨if block.all (·.holds A r) then 0 else 1, i :: after, r⟩ :=
    h.trans (reaches_past_block hfits hblock hr)
  refine ⟨?_, ?_, ?_⟩
  · constructor
    · rintro ⟨banks', hreached⟩
      have hskip := congrArg Point.skip (hreached.unique hpast rfl)
      by_cases hall : block.all (·.holds A r) = true
      · exact List.all_eq_true.mp hall
      · simp [hall] at hskip
    · intro hall
      rw [if_pos (List.all_eq_true.mpr hall)] at hpast
      exact ⟨r, hpast⟩
  · rintro ⟨b, hb, hfails⟩
    have hsome : ¬ block.all (·.holds A r) = true := by
      intro hall
      have hholds : b.holds A r = true := List.all_eq_true.mp hall b hb
      exact nomatch hfails.symm.trans hholds
    have hturn : Turn A .nested ⟨0 + 1, i :: after, r⟩ ⟨skipPast .nested 0 i, after, r⟩ := .skipped
    have hskip : skipPast .nested 0 i = 0 := by simp [skipPast, hi]
    rw [if_neg hsome] at hpast
    rw [hskip] at hturn
    exact hpast.tail hturn
  · intro hall goesOn banks' happly
    have hturn : Turn A .nested ⟨0, i :: after, r⟩ ⟨if goesOn then 0 else 1, after, banks'⟩ := .executed happly
    rw [if_pos (List.all_eq_true.mpr hall)] at hpast
    rw [(Instruction.goesOn_of_not_branch hi happly).1] at hturn
    exact hpast.tail hturn

end Point

/-! ## Code that may be exchanged -/

/-- Code may be exchanged for code that runs the same, whatever stands before it. -/
theorem runFrom_append_congr {code' : List Instruction}
    (h : ∀ (skip : Nat) (r : Registers), r.Fits sizes → runFrom A policy skip code r = runFrom A policy skip code' r)
    (before : List Instruction) (skip : Nat) (hr : r.Fits sizes) :
    runFrom A policy skip (before ++ code) r = runFrom A policy skip (before ++ code') r := by
  induction before generalizing skip r with
  | nil => exact h skip r hr
  | cons i before ih =>
      cases skip with
      | succ pending => exact ih _ hr
      | zero =>
          show EStateM.bind _ _ r = EStateM.bind _ _ r
          unfold EStateM.bind
          cases happly : i.applyWith A r with
          | error e banks => rfl
          | ok goesOn banks =>
              have hturn : Point.Turn A policy ⟨0, [i], r⟩ ⟨if goesOn then 0 else 1, [], banks⟩ := .executed happly
              exact ih _ (hturn.fits hr)

/-- Blocks of the same branches run the same: they are the same conjunction. -/
theorem runFrom_block_congr {block' : List Instruction} (hfits : ∀ b ∈ block, b.Fits shape sizes)
    (hblock : ∀ b ∈ block, b.isBranch = true) (hsame : ∀ b, b ∈ block' ↔ b ∈ block) (skip : Nat) (hr : r.Fits sizes) :
    runFrom A .nested skip (block' ++ rest) r = runFrom A .nested skip (block ++ rest) r := by
  have hfits' : ∀ b ∈ block', b.Fits shape sizes := fun b hb => hfits b ((hsame b).mp hb)
  have hblock' : ∀ b ∈ block', b.isBranch = true := fun b hb => hblock b ((hsame b).mp hb)
  cases skip with
  | succ pending =>
      have hpast : Point.run A .nested ⟨pending + 1, block ++ rest, r⟩ = Point.run A .nested ⟨pending + 1, rest, r⟩ :=
        (Point.reaches_past_skipped hblock pending).run_eq
      have hpast' : Point.run A .nested ⟨pending + 1, block' ++ rest, r⟩ =
          Point.run A .nested ⟨pending + 1, rest, r⟩ := (Point.reaches_past_skipped hblock' pending).run_eq
      exact hpast'.trans hpast.symm
  | zero =>
      have hpast : Point.run A .nested ⟨0, block ++ rest, r⟩ =
          Point.run A .nested ⟨if block.all (·.holds A r) then 0 else 1, rest, r⟩ :=
        (Point.reaches_past_block hfits hblock hr).run_eq
      have hpast' : Point.run A .nested ⟨0, block' ++ rest, r⟩ =
          Point.run A .nested ⟨if block'.all (·.holds A r) then 0 else 1, rest, r⟩ :=
        (Point.reaches_past_block hfits' hblock' hr).run_eq
      have hall : block'.all (·.holds A r) = block.all (·.holds A r) := by
        rw [Bool.eq_iff_iff, List.all_eq_true, List.all_eq_true]
        simp only [hsame]
      rw [hall] at hpast'
      exact hpast'.trans hpast.symm

/-- A block with nothing after it comes to nothing. -/
theorem runFrom_block_nil (hfits : ∀ b ∈ block, b.Fits shape sizes) (hblock : ∀ b ∈ block, b.isBranch = true)
    (skip : Nat) (hr : r.Fits sizes) : runFrom A .nested skip block r = .ok () r := by
  obtain ⟨pending, hreaches⟩ : ∃ pending, Point.Reaches A .nested ⟨skip, block ++ [], r⟩ ⟨pending, [], r⟩ := by
    cases skip with
    | succ pending => exact ⟨_, Point.reaches_past_skipped hblock pending⟩
    | zero => exact ⟨_, Point.reaches_past_block hfits hblock hr⟩
  rw [List.append_nil] at hreaches
  exact hreaches.run_eq

/-- Nowhere does a branch stand right after a branch. -/
def Scattered (code : List Instruction) : Prop := code.IsChain fun i j => ¬ (i.isBranch = true ∧ j.isBranch = true)

/-- **Between scattered branches the policies do not differ**: what a branch skips is no branch. -/
theorem runFrom_single_eq_nested (hcode : Scattered code) (skip : Nat) (hskip : skip ≤ 1)
    (hfirst : skip = 1 → ∀ i ∈ code.head?, i.isBranch = false) :
    runFrom A .single skip code r = runFrom A .nested skip code r := by
  induction code generalizing skip r with
  | nil => rfl
  | cons i rest ih =>
      have hrest : Scattered rest := hcode.tail
      cases skip with
      | succ pending =>
          have hpending : pending = 0 := by omega
          subst hpending
          have hi : i.isBranch = false := hfirst rfl i rfl
          have hsingle : skipPast .single 0 i = 0 := by simp [skipPast]
          have hnested : skipPast .nested 0 i = 0 := by simp [skipPast, hi]
          rw [runFrom, runFrom, hsingle, hnested]
          exact ih hrest 0 (Nat.zero_le 1) fun h => absurd h Nat.zero_ne_one
      | zero =>
          show EStateM.bind _ _ r = EStateM.bind _ _ r
          unfold EStateM.bind
          cases happly : i.applyWith A r with
          | error e banks => rfl
          | ok goesOn banks =>
              refine ih hrest _ (by split <;> omega) ?_
              intro hskipped j hj
              cases hi : i.isBranch with
              | false =>
                  rw [(Instruction.goesOn_of_not_branch hi happly).1] at hskipped
                  simp at hskipped
              | true =>
                  have hapart : ¬ (i.isBranch = true ∧ j.isBranch = true) := by
                    cases rest with
                    | nil => simp at hj
                    | cons k rest =>
                        obtain rfl : k = j := Option.some.inj hj
                        exact (List.isChain_cons_cons.mp hcode).1
                  simpa [hi] using hapart

/-! ## Programs -/

namespace Program

variable {p q : Program} {xs : List Float}

/-- A program without a flaw that may take the place of another one: it comes to the same on the given inputs. -/
structure Replaces (A : Arithmetic) (xs : List Float) (r : Registers) (q p : Program) : Prop where
  flaw?_eq : q.shape.flaw? q.code = none
  outcome_eq : q.executeWith A (some xs) r = p.executeWith A (some xs) r

/-- Programs may be compared from where the inputs have been loaded. -/
theorem replaces_of_run (hsizes : q.shape.sizes? = some sizes) (hfits : q.shape.Fits sizes q.code)
    (hlength : xs.length = r.inputs.size)
    (h : runFrom A q.shape.branchPolicy 0 q.code (Registers.loaded r.values.size xs) =
      runFrom A p.shape.branchPolicy 0 p.code (Registers.loaded r.values.size xs)) : q.Replaces A xs r p := by
  refine ⟨hfits.flaw?_eq_none hsizes, ?_⟩
  rw [executeWith_eq_start A hlength, executeWith_eq_start A hlength]
  exact h

/--
**A block of branches is a conjunction.** Let a program without a flaw under the nested policy be run on inputs of the
right number and fitting banks. Where a block of branches begins that stands at the beginning or after an instruction
that is no branch, the loop has nothing to skip, the instruction after the block is executed exactly if all the branches
hold there, and what follows it is reached in either case. With as many registers as actions every block is reached, no
instruction fails and the program runs to its end. In place of the program there may be one

* with the branches of a block in another order, or some of them more or less often, if it is not too long;
* without a block at its end, if anything else is left;
* under the other policy, if nowhere a branch stands right after a branch.
-/
theorem execute_blocks (A : Arithmetic) (hpolicy : p.shape.branchPolicy = .nested)
    (hsizes : p.shape.sizes? = some sizes) (hflaw : p.shape.flaw? p.code = none) (hr : r.Fits sizes)
    (hxs : (xs.length : Int) = sizes.inputs) :
    (∀ before block i after, p.code = before ++ (block ++ i :: after) → (∀ b ∈ block, b.isBranch = true) →
      i.isBranch = false → (∀ j ∈ before.getLast?, j.isBranch = false) →
      (∀ skip banks, Point.Reaches A .nested (p.start xs r) ⟨skip, block ++ i :: after, banks⟩ →
        skip = 0 ∧ Point.Conjoins A (p.start xs r) block i after banks) ∧
      (sizes.actions ≤ sizes.registers → ∃ banks,
        Point.Reaches A .nested (p.start xs r) ⟨0, block ++ i :: after, banks⟩ ∧
        i.applyWith A banks = .ok true (i.applied A banks))) ∧
    (sizes.actions ≤ sizes.registers → ∃ r', p.executeWith A (some xs) r = .ok () r') ∧
    (∀ before block block' after, p.code = before ++ (block ++ after) → (∀ b ∈ block, b.isBranch = true) →
      (∀ b, b ∈ block' ↔ b ∈ block) → ((before ++ (block' ++ after)).length : Int) ≤ p.shape.maxInstructions →
      Replaces A xs r { p with code := before ++ (block' ++ after) } p) ∧
    (∀ before block, p.code = before ++ block → before ≠ [] → (∀ b ∈ block, b.isBranch = true) →
      Replaces A xs r { p with code := before } p) ∧
    (Scattered p.code → Replaces A xs r { p with shape := { p.shape with branchPolicy := .single } } p) := by
  have hfits := Shape.fits_of_flaw?_eq_none hsizes hflaw
  have hlength : xs.length = r.inputs.size := hr.length_eq hxs
  have hloaded : (Registers.loaded r.values.size xs).Fits sizes := hr.loaded hxs
  refine ⟨?_, fun hroom => executeWith_ok A hroom hfits hr hxs, ?_, ?_, ?_⟩
  · intro before block i after hcode hblock hi hlast
    have hblockFits : ∀ b ∈ block, b.Fits p.shape sizes := fun b hb => hfits.each b (by simp [hcode, hb])
    have hstart : p.start xs r = ⟨0, before ++ (block ++ i :: after), Registers.loaded r.values.size xs⟩ := by
      unfold start
      rw [hcode]
    have hskip : ∀ skip banks, Point.Reaches A .nested (p.start xs r) ⟨skip, block ++ i :: after, banks⟩ →
        skip = 0 := by
      intro skip banks hreaches
      rw [hstart] at hreaches
      exact hreaches.skip_eq_zero hlast
    constructor
    · intro skip banks hreaches
      obtain rfl := hskip skip banks hreaches
      exact ⟨rfl, hreaches.conjoins hblockFits hblock hi (hreaches.fits hloaded)⟩
    · intro hroom
      obtain ⟨r', hexecute⟩ := executeWith_ok A hroom hfits hr hxs
      rw [executeWith_eq_start A hlength, hstart, hpolicy] at hexecute
      obtain ⟨skip, banks, hreaches⟩ := Point.reaches_piece hexecute
      rw [← hstart] at hreaches
      obtain rfl := hskip skip banks hreaches
      refine ⟨banks, hreaches, ?_⟩
      obtain ⟨goesOn, banks', hstep, -⟩ := Instruction.stepWith_of_fits (A := A) hroom
        (hfits.each i (by simp [hcode])) (hreaches.fits hloaded)
      have happly : i.applyWith A banks = .ok goesOn banks' := by rw [Instruction.applyWith_eq, hstep]
      obtain ⟨rfl, happlied⟩ := Instruction.goesOn_of_not_branch hi happly
      rw [happly, happlied]
  · intro before block block' after hcode hblock hsame hshort
    have hblockFits : ∀ b ∈ block, b.Fits p.shape sizes := fun b hb => hfits.each b (by simp [hcode, hb])
    have hmem : ∀ j, j ∈ before ++ (block' ++ after) ↔ j ∈ p.code := by
      intro j
      simp [hcode, hsame]
    refine replaces_of_run hsizes ⟨?_, hshort, fun j hj => hfits.each j ((hmem j).mp hj)⟩ hlength ?_
    · obtain ⟨j, hj⟩ := List.exists_mem_of_length_pos hfits.nonempty
      exact List.length_pos_of_mem ((hmem j).mpr hj)
    · simp only [hpolicy, hcode]
      exact runFrom_append_congr (fun skip r hr => runFrom_block_congr hblockFits hblock hsame skip hr) before 0 hloaded
  · intro before block hcode hbefore hblock
    have hblockFits : ∀ b ∈ block, b.Fits p.shape sizes := fun b hb => hfits.each b (by simp [hcode, hb])
    refine replaces_of_run hsizes ⟨List.length_pos_iff.mpr hbefore, ?_, ?_⟩ hlength ?_
    · have hlimit := hfits.length_le
      rw [hcode, List.length_append] at hlimit
      show (before.length : Int) ≤ p.shape.maxInstructions
      omega
    · exact fun j hj => hfits.each j (by simp only [hcode, List.mem_append]; exact .inl hj)
    · have hidle : ∀ (skip : Nat) (r : Registers), r.Fits sizes →
          runFrom A .nested skip [] r = runFrom A .nested skip block r := by
        intro skip r hr
        rw [runFrom_block_nil hblockFits hblock skip hr]
        rfl
      have hnil := runFrom_append_congr hidle before 0 hloaded
      rw [List.append_nil] at hnil
      simp only [hpolicy, hcode]
      exact hnil
  · intro hscattered
    refine replaces_of_run hsizes ⟨hfits.nonempty, hfits.length_le, ?_⟩ hlength ?_
    · intro j hj
      have hj' := hfits.each j hj
      exact ⟨hj'.operation, hj'.allowed, hj'.short, hj'.operand⟩
    · simp only [hpolicy]
      exact runFrom_single_eq_nested hscattered 0 (Nat.zero_le 1) fun h => absurd h Nat.zero_ne_one

/-- A program under the nested policy with a block of two branches in it and another one at its end. -/
def hedged : Program :=
  ⟨0, [⟨"add", 0, 0, .external, none⟩, ⟨"if_gt", 0, 0, .constant, some 1.0⟩, ⟨"if_lt", 0, 0, .constant, some 9.0⟩,
      ⟨"vote", 0, 0, .internal, none⟩, ⟨"if_eq", 0, 0, .external, none⟩],
    ⟨6, some 2, some 1, some 1, none, 0.1, 0.5, 10.0, .nested⟩⟩

/-- The first block of that program may be turned round with one of its branches written twice, and the last one may
    be left out. -/
theorem execute_blocks_hedged :
    Replaces .binary64 [2.0] (Registers.zeros 2 1) { hedged with code :=
        [⟨"add", 0, 0, .external, none⟩, ⟨"if_lt", 0, 0, .constant, some 9.0⟩, ⟨"if_gt", 0, 0, .constant, some 1.0⟩,
          ⟨"if_lt", 0, 0, .constant, some 9.0⟩, ⟨"vote", 0, 0, .internal, none⟩,
          ⟨"if_eq", 0, 0, .external, none⟩] } hedged ∧
      Replaces .binary64 [2.0] (Registers.zeros 2 1) { hedged with code := hedged.code.take 4 } hedged := by
  have hsizes : hedged.shape.sizes? = some ⟨2, 1, 1⟩ := rfl
  have hfits : (Registers.zeros 2 1).Fits ⟨2, 1, 1⟩ := ⟨rfl, rfl⟩
  have hlength : (([2.0] : List Float).length : Int) = 1 := rfl
  obtain ⟨-, -, hrewrite, hdelete, -⟩ := execute_blocks .binary64 rfl hsizes (by decide +kernel) hfits hlength
  constructor
  · exact hrewrite [⟨"add", 0, 0, .external, none⟩]
      [⟨"if_gt", 0, 0, .constant, some 1.0⟩, ⟨"if_lt", 0, 0, .constant, some 9.0⟩]
      [⟨"if_lt", 0, 0, .constant, some 9.0⟩, ⟨"if_gt", 0, 0, .constant, some 1.0⟩,
        ⟨"if_lt", 0, 0, .constant, some 9.0⟩]
      [⟨"vote", 0, 0, .internal, none⟩, ⟨"if_eq", 0, 0, .external, none⟩] rfl (by decide)
      (by simp [or_comm]) (by decide)
  · exact hdelete (hedged.code.take 4) [⟨"if_eq", 0, 0, .external, none⟩] rfl (by decide) (by decide)

end Program

end RegisterEvolution
