import RegisterEvolution.Proofs.Variation.Children

/-!
# `Proofs.Evolution.Brood` — what the steps of a reproduction bring

A reproduction is made of steps that add programs to the store: mutants, children and clones, one by one and in rows.
Each step is described by what it brings. That says where the instructions of a program have been drawn from and what
is known about its fitness, and it stays true while the store grows.

* `Run.Brings` — a computation that always succeeds and only adds to the store;
* `Bred`, `Copied`, `Brood` — an unscored program, a clone, and several programs of one kind;
* `MutantOf`, `CrossedFrom` — instructions that mutation and crossover may come up with;
* `crossoverSlots_brings`, `clones_brings` — the rows of programs that fill the slots.
-/

namespace RegisterEvolution

/-! ## Computations that add programs -/

section Brings

variable {γ σ α β : Type}

/-- A computation that succeeds whenever it begins after `past`, only adds to the store, and answers with `P`, which is
    about the answer and the store that is left. -/
def Run.Brings (past : Store) (m : Run γ σ α) (P : α → Store → Prop) : Prop :=
  ∀ lab, past.Extends lab.store →
    Ends (fun a lab' => lab.store.Extends lab'.store ∧ P a lab'.store) Never (m lab)

namespace Run.Brings

variable {past : Store} {m : Run γ σ α} {P P' : α → Store → Prop} {Q : β → Store → Prop}

theorem pure {a : α} (h : ∀ s, past.Extends s → P a s) : Brings past (Pure.pure a : Run γ σ α) P :=
  fun lab hlab => ⟨.refl _, h lab.store hlab⟩

theorem bind {k : α → Run γ σ β} (hm : Brings past m P)
    (hk : ∀ a s, past.Extends s → P a s → Brings s (k a) Q) : Brings past (m >>= k) Q := by
  intro lab hlab
  refine (hm lab hlab).bind ?_ fun _ _ h => h
  rintro a lab' ⟨hgrown, ha⟩
  refine (hk a lab'.store (hlab.trans hgrown) ha lab' (.refl _)).imp ?_ fun _ _ h => h
  exact fun b lab'' hb => ⟨hgrown.trans hb.1, hb.2⟩

theorem imp (h : Brings past m P) (hP : ∀ a s, past.Extends s → P a s → P' a s) : Brings past m P' :=
  fun lab hlab => (h lab hlab).imp (fun a lab' ha => ⟨ha.1, hP a lab'.store (hlab.trans ha.1) ha.2⟩) fun _ _ h => h

theorem draw {d : Draw γ α} {P : α → Prop} (h : Yields d P) :
    Brings past (Run.draw d : Run γ σ α) fun a _ => P a := by
  refine fun lab _ => (draw_yields_still h lab).imp (fun a lab' ha => ⟨?_, ha.2⟩) fun _ _ h => h
  rw [ha.1.store]
  exact .refl _

theorem ofFault {r : Except Fault α} {a : α} (h : r = .ok a) :
    Brings past (Run.ofFault r : Run γ σ α) fun x _ => x = a := by
  rw [h]
  exact .pure fun _ _ => rfl

/-- What always has a result and does not concern the store. -/
theorem of_settles {P : α → Prop} (hm : Yields m P) (hstill : m.Settles fun _ => True) :
    Brings past m fun a _ => P a := by
  refine fun lab _ => ((hm lab).and (hstill lab)).imp (fun a lab' ha => ⟨?_, ha.1⟩) fun _ _ h => h.1
  rw [ha.2.1.store]
  exact .refl _

end Run.Brings

end Brings

/-! ## Programs that are brought -/

/-- What is true of a program stays true while the store grows. -/
def Lasts (P : Program → Store → Prop) : Prop := ∀ q s s', s.Extends s' → P q s → P q s'

/-- An unscored program that fits a shape and whose instructions satisfy `R`. -/
structure Bred (shape : Shape) (sizes : BankSizes) (R : List Instruction → Prop) (q : Program) (s : Store) :
    Prop where
  sound : q.Sound shape sizes
  known : q.id < s.nextId
  unscored : s.fitness q = none
  code : R q.code

/-- A program that fits a shape and has the instructions and the fitness that a program of the pool had in `past`. -/
structure Copied (shape : Shape) (sizes : BankSizes) (pool : List Program) (past : Store) (q : Program) (s : Store) :
    Prop where
  sound : q.Sound shape sizes
  origin : ∃ p ∈ pool, q.code = p.code ∧ ∃ x, past.fitness p = some x ∧ s.fitness q = some x

section Programs

variable {shape : Shape} {sizes : BankSizes} {R R' : List Instruction → Prop} {pool : List Program} {past : Store}

theorem Bred.lasts : Lasts (Bred shape sizes R) := by
  intro q s s' hgrown h
  refine ⟨h.sound, Nat.lt_of_lt_of_le h.known hgrown.nextId_le, ?_, h.code⟩
  rw [Store.fitness_eq, hgrown.fitnessAt_eq h.known]
  exact h.unscored

theorem Bred.imp {q : Program} {s : Store} (h : Bred shape sizes R q s) (hR : ∀ code, R code → R' code) :
    Bred shape sizes R' q s := ⟨h.sound, h.known, h.unscored, hR _ h.code⟩

theorem Bred.of_builtSince {q : Program} {s s' : Store} (h : q.BuiltSince shape s s') (hcode : shape.Fits sizes q.code)
    (hR : R q.code) : Bred shape sizes R q s' := ⟨⟨h.shape_eq, hcode⟩, h.new.2, h.unscored, hR⟩

theorem Copied.lasts : Lasts (Copied shape sizes pool past) := by
  rintro q s s' hgrown ⟨hsound, p, hp, hcode, x, hpast, hx⟩
  exact ⟨hsound, p, hp, hcode, x, hpast, hgrown.fitnessAt_some hx⟩

/-- Several programs of one kind. -/
structure Brood (P : Program → Store → Prop) (count : Nat) (qs : List Program) (s : Store) : Prop where
  length_eq : qs.length = count
  each : ∀ q ∈ qs, P q s

namespace Brood

variable {P : Program → Store → Prop} {count : Nat} {q : Program} {qs : List Program} {s : Store}

theorem nil : Brood P 0 [] s := ⟨rfl, List.forall_mem_nil _⟩

theorem cons (hq : P q s) (h : Brood P count qs s) : Brood P (count + 1) (q :: qs) s :=
  ⟨congrArg (· + 1) h.length_eq, List.forall_mem_cons.mpr ⟨hq, h.each⟩⟩

theorem grow {s' : Store} (hP : Lasts P) (hgrown : s.Extends s') (h : Brood P count qs s) : Brood P count qs s' :=
  ⟨h.length_eq, fun q hq => hP q s s' hgrown (h.each q hq)⟩

/-- A program in front of others which are brought after it. -/
theorem cons_brings {γ σ : Type} {m : Run γ σ Program} {ms : Run γ σ (List Program)} (hP : Lasts P)
    (hm : m.Brings past P) (hms : ∀ s, past.Extends s → ms.Brings s (Brood P count)) :
    Run.Brings past (do let first ← m; let rest ← ms; return first :: rest) (Brood P (count + 1)) := by
  refine hm.bind fun first s hs hfirst => (hms s hs).bind fun rest s' hs' hrest => .pure fun s'' hs'' => ?_
  exact .cons (hP first s s'' (hs'.trans hs'') hfirst) (hrest.grow hP hs'')

end Brood

end Programs

/-! ## Instructions that are drawn -/

/-- Somewhere, a computation answers `a`. -/
def MayAnswer {ε σ α : Type} (m : EStateM ε σ α) (a : α) : Prop := ∃ s s', m s = .ok a s'

theorem gives_mayAnswer {ε σ α : Type} (m : EStateM ε σ α) : Gives m (MayAnswer m) := by
  intro s
  cases hout : m s with
  | ok a s' => exact ⟨s, s', hout⟩
  | error e s' => exact trivial

section Drawn

variable (γ : Type) [Generator γ]

/-- Instructions that a mutation of `parent` may come up with. -/
def MutantOf (shape : Shape) (maxEdits : Int) (parent : List Instruction) : List Instruction → Prop :=
  MayAnswer (mutateCode shape maxEdits parent : Draw γ (List Instruction))

/-- Instructions that a crossover may come up with: those of a child of programs at two positions of the pool, or those
    of a mutant where the pool holds one program only. -/
inductive CrossedFrom (shape : Shape) (b : Breeding) (pool : List Program) : List Instruction → Prop where
  | first {i j : Nat} {p q : Program} {codes : List Instruction × List Instruction} (hne : i ≠ j)
      (hp : pool[i]? = some p) (hq : pool[j]? = some q)
      (hcodes : MayAnswer (recombine b.crossover shape.maxInstructions p.code q.code : Draw γ _) codes) :
      CrossedFrom shape b pool codes.1
  | second {i j : Nat} {p q : Program} {codes : List Instruction × List Instruction} (hne : i ≠ j)
      (hp : pool[i]? = some p) (hq : pool[j]? = some q)
      (hcodes : MayAnswer (recombine b.crossover shape.maxInstructions p.code q.code : Draw γ _) codes) :
      CrossedFrom shape b pool codes.2
  | alone {p : Program} {code : List Instruction} (hpool : pool = [p])
      (hcode : MutantOf γ shape b.maxMutationEdits p.code code) : CrossedFrom shape b pool code

end Drawn

/-! ## Steps -/

namespace Run

variable {γ σ : Type} {shape : Shape} {sizes : BankSizes} {past : Store}

theorem construct_brings (h : shape.Usable sizes) {code : List Instruction} {R : List Instruction → Prop}
    (hcode : shape.Fits sizes code) (hR : R code) :
    Brings past (construct shape code : Run γ σ Program) (Bred shape sizes R) := by
  intro lab _
  refine (construct_built (hcode.flaw?_eq_none h.bound) (Store.freshRegisters_ok h) lab).imp ?_ fun _ _ h => h
  rintro q lab' ⟨hbuilt, hnext⟩
  refine ⟨hbuilt.grown, ⟨by rw [hbuilt.eq], ?_⟩, ?_, hbuilt.fitness, ?_⟩
  · rw [hbuilt.eq]
    exact hcode
  · rw [hbuilt.eq, hnext]
    exact Nat.lt_succ_self _
  · rw [hbuilt.eq]
    exact hR

theorem clone_brings (h : shape.Usable sizes) {pool : List Program} {p : Program} {x : Float} {now : Store}
    (hgrown : past.Extends now) (hmem : p ∈ pool) (hp : p.Sound shape sizes) (hx : past.fitness p = some x) :
    Brings now (clone p : Run γ σ Program) (Copied shape sizes pool past) := by
  intro lab hlab
  obtain ⟨rfl, hcode⟩ := hp
  have hfitness : lab.store.fitness p = some x := (hgrown.trans hlab).fitnessAt_some hx
  obtain ⟨s', hconstruct, hgrown', hs'⟩ := Store.construct_of_fits h hcode (lab.store.fitness p) lab.store
  unfold clone onStore Store.copy
  rw [hconstruct]
  exact ⟨hgrown', ⟨rfl, hcode⟩, p, hmem, rfl, x, hx, by rw [Store.fitness_eq, hs', hfitness]⟩

variable [Generator γ] [Generator.Honest γ]

theorem mutant_brings (h : shape.Usable sizes) (maxEdits : Int) {p : Program} (hp : p.Sound shape sizes) :
    Brings past (mutant maxEdits p : Run γ σ Program) (Bred shape sizes (MutantOf γ shape maxEdits p.code)) := by
  obtain ⟨rfl, hcode⟩ := hp
  refine (Brings.draw ((mutateCode_yields h maxEdits hcode).and_gives (gives_mayAnswer _))).bind ?_
  exact fun code s _ hcode => construct_brings h hcode.1 hcode.2

/-- Both children of programs at two positions. -/
theorem children_brings (h : shape.Usable sizes) {b : Breeding}
    (hkind : b.crossover = .onePoint ∨ b.crossover = .twoPoint) {pool : List Program} {i j : Nat} {p q : Program}
    (hne : i ≠ j) (hi : pool[i]? = some p) (hj : pool[j]? = some q) (hp : p.Sound shape sizes)
    (hq : q.Sound shape sizes) :
    Brings past (children b.crossover p q : Run γ σ (Program × Program)) fun c s =>
      Bred shape sizes (CrossedFrom γ shape b pool) c.1 s ∧ Bred shape sizes (CrossedFrom γ shape b pool) c.2 s := by
  intro lab _
  obtain ⟨rfl, hcode⟩ := hp
  have hdraw := (recombine_yields hkind hcode hq.fits).and_gives
    (gives_mayAnswer (recombine b.crossover p.shape.maxInstructions p.code q.code : Draw γ _))
  have hchildren := children_ends (Store.freshRegisters_ok h) hdraw
    (fun codes hcodes => ⟨hcodes.1.1.flaw?_eq_none h.bound, hcodes.1.2.flaw?_eq_none h.bound⟩) lab
  refine hchildren.imp ?_ fun _ _ h => h
  rintro ⟨c, d⟩ lab' ⟨hc, hd, -, hgrown, ⟨hfitsC, hfitsD⟩, hcodes⟩
  refine ⟨hgrown, ?_, ?_⟩
  · exact .of_builtSince hc hfitsC (.first hne hi hj hcodes)
  · exact .of_builtSince hd hfitsD (.second hne hi hj hcodes)

/-- Two different survivors stand at two different positions. -/
theorem survivorPair_brings {pool : List Program} (h2 : 2 ≤ pool.length) :
    Brings past (survivorPair pool : Run γ σ (Program × Program)) fun pair _ =>
      ∃ i j : Nat, i ≠ j ∧ pool[i]? = some pair.1 ∧ pool[j]? = some pair.2 := by
  refine (Brings.draw (Draw.sample_yields h2)).bind ?_
  rintro picked s - ⟨hlength, hnodup, hlt⟩
  obtain ⟨i, j, rfl⟩ := List.length_eq_two.mp hlength
  have hi := hlt i (by simp)
  have hj := hlt j (by simp)
  simp only [List.getElem?_eq_getElem hi, List.getElem?_eq_getElem hj]
  exact .pure fun _ _ => ⟨i, j, by simpa using hnodup, List.getElem?_eq_getElem hi, List.getElem?_eq_getElem hj⟩

end Run

/-! ## Rows of programs -/

section Rows

variable {γ σ : Type} [Generator γ] [Generator.Honest γ] {shape : Shape} {sizes : BankSizes} {past : Store}
  {b : Breeding} {pool : List Program}

theorem mutants_brings (h : shape.Usable sizes) {p : Program} (hpool : pool = [p]) (hp : p.Sound shape sizes)
    (count : Nat) : Run.Brings past (mutants pool b.maxMutationEdits count : Run γ σ (List Program))
      (Brood (Bred shape sizes (CrossedFrom γ shape b pool)) count) := by
  have hne : pool ≠ [] := by simp [hpool]
  induction count generalizing past with
  | zero => exact .pure fun _ _ => .nil
  | succ count ih =>
      refine (Run.Brings.draw (Draw.element_yields hne)).bind ?_
      intro q s _ hq
      obtain rfl : q = p := by simpa [hpool] using hq
      refine Brood.cons_brings Bred.lasts ?_ fun s' _ => ih
      exact (Run.mutant_brings h _ hp).imp fun c s' _ hc => hc.imp fun code hcode => .alone hpool hcode

theorem clones_brings (h : shape.Usable sizes) (hne : pool ≠ []) (hpool : ∀ p ∈ pool, p.Sound shape sizes)
    (hscored : ∀ p ∈ pool, ∃ x, past.fitness p = some x) (count : Nat) {now : Store} (hgrown : past.Extends now) :
    Run.Brings now (clones pool count : Run γ σ (List Program)) (Brood (Copied shape sizes pool past) count) := by
  induction count generalizing now with
  | zero => exact .pure fun _ _ => .nil
  | succ count ih =>
      refine (Run.Brings.draw (Draw.element_yields hne)).bind ?_
      intro p s hs hp
      obtain ⟨x, hx⟩ := hscored p hp
      refine Brood.cons_brings Copied.lasts ?_ fun s' hs' => ih ((hgrown.trans hs).trans hs')
      exact Run.clone_brings h (hgrown.trans hs) hp (hpool p hp) hx

theorem crossed_brings (h : shape.Usable sizes) (h2 : 2 ≤ pool.length) (hpool : ∀ p ∈ pool, p.Sound shape sizes)
    (hkind : b.crossover = .onePoint ∨ b.crossover = .twoPoint) :
    ∀ (count : Nat) {past : Store}, Run.Brings past (crossed pool b.crossover count : Run γ σ (List Program))
      (Brood (Bred shape sizes (CrossedFrom γ shape b pool)) count)
  | 0, _ => .pure fun _ _ => .nil
  | 1, _ => by
      refine (Run.survivorPair_brings h2).bind ?_
      rintro ⟨p, q⟩ s - ⟨i, j, hne, hi, hj⟩
      refine (Run.children_brings h hkind hne hi hj (hpool p (List.mem_of_getElem? hi))
        (hpool q (List.mem_of_getElem? hj))).bind ?_
      -- the second child exists, but it has no slot
      exact fun c s' _ hc => .pure fun s'' hs'' => .cons (Bred.lasts _ _ _ hs'' hc.1) .nil
  | count + 2, _ => by
      refine (Run.survivorPair_brings h2).bind ?_
      rintro ⟨p, q⟩ s - ⟨i, j, hne, hi, hj⟩
      refine (Run.children_brings h hkind hne hi hj (hpool p (List.mem_of_getElem? hi))
        (hpool q (List.mem_of_getElem? hj))).bind ?_
      intro c s' _ hc
      refine (crossed_brings h h2 hpool hkind count).bind fun rest s'' hs'' hrest => .pure fun s₃ hs₃ => ?_
      have hgrown := hs''.trans hs₃
      exact .cons (Bred.lasts _ _ _ hgrown hc.1) (.cons (Bred.lasts _ _ _ hgrown hc.2) (hrest.grow Bred.lasts hs₃))

/-- The crossover slots, of whatever pool that is not empty. -/
theorem crossoverSlots_brings (h : shape.Usable sizes) (hkind : b.crossover = .onePoint ∨ b.crossover = .twoPoint)
    (hne : pool ≠ []) (hpool : ∀ p ∈ pool, p.Sound shape sizes) (count : Nat) :
    Run.Brings past (crossoverSlots b pool count : Run γ σ (List Program))
      (Brood (Bred shape sizes (CrossedFrom γ shape b pool)) count) := by
  unfold crossoverSlots
  rw [Int.toNat_natCast]
  split
  · rename_i hsmall
    have hlength := List.length_pos_iff.mpr hne
    obtain ⟨p, rfl⟩ := List.length_eq_one_iff.mp (show pool.length = 1 by omega)
    refine (Run.Brings.of_settles (warnOfSmallPool_yields _) (warnOfSmallPool_settles _)).bind ?_
    exact fun _ _ _ _ => mutants_brings h rfl (hpool p (List.mem_singleton_self p)) count
  · rename_i hpairs
    -- without slots no pair is drawn, so only a pool for some slot has to have two programs
    rcases Nat.eq_zero_or_pos count with rfl | hpos
    · exact .pure fun _ _ => .nil
    · exact crossed_brings h (by omega) hpool hkind count

end Rows

end RegisterEvolution
