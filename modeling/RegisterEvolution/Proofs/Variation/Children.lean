import RegisterEvolution.Proofs.Evolution.Breeding
import RegisterEvolution.Proofs.Evolution.Offspring
import RegisterEvolution.Proofs.Variation.Building
import RegisterEvolution.Proofs.Variation.Exchange

/-!
# `Proofs.Variation.Children` — two programs have two children

The constructor accepts the children of whatever two programs it has accepted, wherever they are cut. Which pieces of
the parents a child consists of is said twice here: as it is, and as it would be if programs could be of any length.

* `Program.Accepted`, `Program.BuiltSince` — a program that the constructor accepts, and a new one;
* `Recombined` — the pieces that children of either kind consist of, with the whole children and the actual ones;
* `Recombined.length_eq` — a child is as long as the whole one or as the limit;
* `recombine_yields_recombined` — children at random places;
* `Run.children_closed` — the children of two programs.
-/

namespace RegisterEvolution

/-! ## Accepted programs -/

/-- A program without a flaw, whose banks can be set up. -/
structure Program.Accepted (p : Program) : Prop where
  flawless : p.shape.flaw? p.code = none
  banks : ∃ r, Store.freshRegisters p.shape = .ok r

/-- A program of the given shape that has been built since `s` and has not been scored. -/
structure Program.BuiltSince (shape : Shape) (s s' : Store) (p : Program) : Prop where
  accepted : p.Accepted
  shape_eq : p.shape = shape
  unscored : s'.fitness p = none
  new : s.nextId ≤ p.id ∧ p.id < s'.nextId

/-! ## Pieces of children -/

section Pieces

variable {α : Type}

/-- The children of two sequences of at most `limit` elements: first both as they would be at any length, then both as
    they are. A child of one cut ends where the limit is reached; into a child of two cuts the segment of the other
    parent comes as far as there is room for it beside all that is left of the own one. -/
inductive Recombined (limit : Int) (a b : List α) : Crossover → List α × List α → List α × List α → Prop where
  | onePoint {i j : Nat} (hi : 1 ≤ i ∧ i ≤ a.length) (hj : 1 ≤ j ∧ j ≤ b.length) :
      Recombined limit a b .onePoint (a.take i ++ b.drop j, b.take j ++ a.drop i)
        ((a.take i ++ b.drop j).take limit.toNat, (b.take j ++ a.drop i).take limit.toNat)
  | twoPoint {i j k l m n : Nat} (hij : i < j ∧ j ≤ a.length) (hkl : k < l ∧ l ≤ b.length)
      (hm : (m : Int) = min ((l : Int) - k) (limit - (a.length - ((j : Int) - i)))) (hm1 : 1 ≤ m)
      (hn : (n : Int) = min ((j : Int) - i) (limit - (b.length - ((l : Int) - k)))) (hn1 : 1 ≤ n) :
      Recombined limit a b .twoPoint
        (a.take i ++ (b.drop k).take (l - k) ++ a.drop j, b.take k ++ (a.drop i).take (j - i) ++ b.drop l)
        (a.take i ++ (b.drop k).take m ++ a.drop j, b.take k ++ (a.drop i).take n ++ b.drop l)

/-- A sequence with its segment replaced by `m` elements of another one. -/
theorem length_replaced {a b : List α} {i j k l m : Nat} (hij : i < j ∧ j ≤ a.length) (hkl : k < l ∧ l ≤ b.length)
    (hm : m ≤ l - k) : (a.take i ++ (b.drop k).take m ++ a.drop j).length = a.length - (j - i) + m := by
  simp only [List.length_append, List.length_take, List.length_drop]
  omega

/-- **A child is as long as the whole one or as the limit**, whichever is less, and has an element. -/
theorem Recombined.length_eq {limit : Int} {a b : List α} {kind : Crossover} {whole child : List α × List α}
    (ha : (a.length : Int) ≤ limit) (hb : (b.length : Int) ≤ limit) (h : Recombined limit a b kind whole child) :
    ((child.1.length : Int) = min limit whole.1.length ∧ 1 ≤ child.1.length) ∧
      (child.2.length : Int) = min limit whole.2.length ∧ 1 ≤ child.2.length := by
  cases h with
  | onePoint hi hj =>
      simp only [List.length_append, List.length_take, List.length_drop]
      omega
  | twoPoint hij hkl hm hm1 hn hn1 =>
      rw [length_replaced hij hkl (by omega), length_replaced hij hkl (Nat.le_refl _),
        length_replaced hkl hij (by omega), length_replaced hkl hij (Nat.le_refl _)]
      omega

variable {γ : Type} [Generator γ] [Generator.Honest γ]

theorem randomSegment_bounds {length : Nat} (h : 1 ≤ length) :
    Yields (randomSegment length : Draw γ Segment) fun s => ∃ i j : Nat, s = (↑i, ↑j) ∧ i < j ∧ j ≤ length := by
  apply (randomSegment_yields (by omega)).imp
  rintro ⟨start, stop⟩ ⟨h0, hlt, hle⟩
  simp only at h0 hlt hle
  lift start to Nat using h0
  lift stop to Nat using (by omega)
  exact ⟨start, stop, rfl, by omega, by omega⟩

theorem cut_bounds {length : Nat} (h : 1 ≤ length) :
    Yields (Draw.integers 1 (length + 1) : Draw γ Int) fun cut => ∃ i : Nat, cut = i ∧ 1 ≤ i ∧ i ≤ length := by
  apply (Draw.integers_yields (by omega)).imp
  intro cut hcut
  lift cut to Nat using (by omega)
  exact ⟨cut, rfl, by omega, by omega⟩

/-- **Random places give children of pieces**, wherever they are. -/
theorem recombine_yields_recombined {kind : Crossover} (hkind : kind = .onePoint ∨ kind = .twoPoint) {a b : List α}
    {limit : Int} (ha : 1 ≤ a.length) (hb : 1 ≤ b.length) (ha' : (a.length : Int) ≤ limit)
    (hb' : (b.length : Int) ≤ limit) :
    Yields (recombine kind limit a b : Draw γ (List α × List α)) fun child =>
      ∃ whole, Recombined limit a b kind whole child := by
  rcases hkind with rfl | rfl
  · apply (cut_bounds ha).bind
    rintro _ ⟨i, rfl, hi⟩
    refine (cut_bounds hb).bind ?_
    rintro _ ⟨j, rfl, hj⟩
    apply Yields.pure
    lift limit to Nat using (by omega)
    rw [onePointChildren_natCast]
    exact ⟨_, .onePoint hi hj⟩
  · apply (randomSegment_bounds ha).bind
    rintro _ ⟨i, j, rfl, hij⟩
    refine (randomSegment_bounds hb).bind ?_
    rintro _ ⟨k, l, rfl, hkl⟩
    apply Yields.pure
    -- a segment that is given away leaves room for one element at least
    obtain ⟨m, hm⟩ : ∃ m : Nat, (m : Int) = min ((l : Int) - k) (limit - (a.length - ((j : Int) - i))) :=
      ⟨_, Int.toNat_of_nonneg (by omega)⟩
    obtain ⟨n, hn⟩ : ∃ n : Nat, (n : Int) = min ((j : Int) - i) (limit - (b.length - ((l : Int) - k))) :=
      ⟨_, Int.toNat_of_nonneg (by omega)⟩
    rw [twoPointChildren, spliced_natCast a b i j k l hm, spliced_natCast b a k l i j hn]
    exact ⟨_, .twoPoint hij hkl hm (by omega) hn (by omega)⟩

end Pieces

/-! ## Children of programs -/

namespace Run

variable {γ σ : Type} {shape : Shape}

/-- What is drawn leaves everything that has been built as it was. -/
theorem draw_yields_still {α : Type} {d : Draw γ α} {P : α → Prop} (h : Yields d P) (lab : Lab γ σ) :
    Ends (fun a lab' => lab.Still lab' ∧ P a) Never (draw d lab) :=
  (draw_yields h lab).and (draw_still d lab) |>.imp (fun _ _ h => ⟨h.2.1, h.1⟩) fun _ _ h => h.1

/-- Instructions without a flaw are built. -/
theorem construct_built {code : List Instruction} (hflaw : shape.flaw? code = none)
    (hbanks : ∃ r, Store.freshRegisters shape = .ok r) (lab : Lab γ σ) :
    Ends (fun q lab' => Built shape code lab lab' q ∧ lab'.store.nextId = lab.store.nextId + 1) Never
      (construct shape code lab) := by
  obtain ⟨s', hconstruct, hgrown, hnext, hfitness⟩ := Store.construct_of_flawless hflaw hbanks none lab.store
  unfold construct onStore
  rw [hconstruct]
  exact ⟨⟨rfl, hfitness, hgrown⟩, hnext⟩

/-- Children are built of whatever flawless instructions are drawn. -/
theorem children_ends [Generator γ] {kind : Crossover} {a b : Program} {P : List Instruction × List Instruction → Prop}
    (hbanks : ∃ r, Store.freshRegisters a.shape = .ok r)
    (hdraw : Yields (recombine kind a.shape.maxInstructions a.code b.code : Draw γ _) P)
    (hflawless : ∀ codes, P codes → a.shape.flaw? codes.1 = none ∧ a.shape.flaw? codes.2 = none) (lab : Lab γ σ) :
    Ends (fun q lab' => q.1.BuiltSince a.shape lab.store lab'.store ∧ q.2.BuiltSince a.shape lab.store lab'.store ∧
        q.1.id ≠ q.2.id ∧ lab.store.Extends lab'.store ∧ P (q.1.code, q.2.code)) Never (children kind a b lab) := by
  refine (draw_yields_still hdraw lab).bind ?_ fun _ _ h => h
  rintro ⟨codeA, codeB⟩ drawn ⟨hstill, hcodes⟩
  obtain ⟨hflawA, hflawB⟩ := hflawless _ hcodes
  refine (construct_built hflawA hbanks drawn).bind ?_ fun _ _ h => h
  rintro childA first ⟨hA, hnextA⟩
  refine (construct_built hflawB hbanks first).bind ?_ fun _ _ h => h
  rintro childB second ⟨hB, hnextB⟩
  have hgrown : lab.store.Extends second.store := by
    rw [← hstill.store]
    exact hA.grown.trans hB.grown
  have hidA : childA.id = lab.store.nextId := by rw [hA.eq, hstill.store]
  have hidB : childB.id = lab.store.nextId + 1 := by rw [hB.eq, hnextA, hstill.store]
  have hend : second.store.nextId = lab.store.nextId + 2 := by rw [hnextB, hnextA, hstill.store]
  -- the second construction leaves the entry of the first child alone
  have hfitnessA : second.store.fitness childA = none := by
    rw [Store.fitness_eq, hB.grown.fitnessAt_eq (by rw [hidA, hnextA, hstill.store]; omega), ← Store.fitness_eq,
      hA.fitness]
  have hne : childA.id ≠ childB.id := by omega
  refine ⟨⟨?_, by rw [hA.eq], hfitnessA, by rw [hidA, hend]; omega⟩,
    ⟨?_, by rw [hB.eq], hB.fitness, by rw [hidB, hend]; omega⟩, hne, hgrown, ?_⟩
  · rw [hA.eq]
    exact ⟨hflawA, hbanks⟩
  · rw [hB.eq]
    exact ⟨hflawB, hbanks⟩
  · rw [hA.eq, hB.eq]
    exact hcodes

variable [Generator γ] [Generator.Honest γ]

/--
**Crossover is closed, and it is known which pieces a child consists of.** For both kinds of crossover, every generator
that keeps its promise, any two accepted programs of one shape and wherever it begins, two children are built:

* both are accepted programs of that shape with numbers of their own, and they have no fitness;
* whatever was built before is as it was, the parents and their fitness included;
* the instructions of the children are pieces of the parents, put together as `Recombined` says;
* a child has as many instructions as the whole one would have, or as many as are allowed, and one at least.
-/
theorem children_closed {kind : Crossover} (hkind : kind = .onePoint ∨ kind = .twoPoint) {a b : Program}
    (ha : a.Accepted) (hb : b.Accepted) (hshape : a.shape = b.shape) (lab : Lab γ σ) :
    ∃ c d lab', children kind a b lab = .ok (c, d) lab' ∧
      c.BuiltSince a.shape lab.store lab'.store ∧ d.BuiltSince a.shape lab.store lab'.store ∧ c.id ≠ d.id ∧
      lab.store.Extends lab'.store ∧
      (∀ p : Program, p.id < lab.store.nextId → lab'.store.cell? p.id = lab.store.cell? p.id ∧
        lab'.store.fitness p = lab.store.fitness p) ∧
      ∃ whole, Recombined a.shape.maxInstructions a.code b.code kind whole (c.code, d.code) ∧
        ((c.size : Int) = min a.shape.maxInstructions whole.1.length ∧ 1 ≤ c.size) ∧
        (d.size : Int) = min a.shape.maxInstructions whole.2.length ∧ 1 ≤ d.size := by
  obtain ⟨sizes, hsizes, hfitsA⟩ := Shape.flaw?_eq_none_iff.mp ha.flawless
  have hfitsB : a.shape.Fits sizes b.code := by
    rw [hshape] at hsizes ⊢
    exact Shape.fits_of_flaw?_eq_none hsizes hb.flawless
  have hdraw : Yields (recombine kind a.shape.maxInstructions a.code b.code : Draw γ _) _ :=
    (recombine_yields hkind hfitsA hfitsB).and
      (recombine_yields_recombined hkind hfitsA.nonempty hfitsB.nonempty hfitsA.length_le hfitsB.length_le)
  have hends := children_ends ha.banks hdraw
    (fun codes h => ⟨h.1.1.flaw?_eq_none hsizes, h.1.2.flaw?_eq_none hsizes⟩) lab
  obtain ⟨⟨c, d⟩, lab', hchildren, hc, hd, hne, hgrown, -, whole, hrecombined⟩ := hends.exists_ok
  refine ⟨c, d, lab', hchildren, hc, hd, hne, hgrown, ?_, whole, hrecombined, ?_⟩
  · intro p hp
    exact ⟨hgrown.cell?_eq p.id hp, hgrown.fitnessAt_eq hp⟩
  · exact hrecombined.length_eq hfitsA.length_le hfitsB.length_le

/-- Room for three instructions, and one bank of two registers. -/
def narrowShape : Shape := ⟨3, some 2, some 1, some 1, none, 0.1, 0.5, 10.0, .single⟩

/-- A parent of one instruction and one that is as long as may be. -/
theorem children_closed_narrow :
    let a : Program := ⟨0, [⟨"mov", 1, 0, .external, none⟩], narrowShape⟩
    let b : Program := ⟨1, [⟨"add", 0, 1, .internal, none⟩, ⟨"vote", 0, 1, .internal, none⟩,
      ⟨"vote", 0, 0, .constant, some (0.0 / 0.0)⟩], narrowShape⟩
    ∃ c d lab', children .onePoint a b (Lab.start Least.least () : Lab Least Unit) = .ok (c, d) lab' ∧
      c.Accepted ∧ d.Accepted ∧ c.id ≠ d.id ∧ lab'.store.fitness c = none ∧ lab'.store.fitness d = none := by
  intro a b
  have ha : a.Accepted := ⟨by decide, _, rfl⟩
  have hb : b.Accepted := ⟨by decide +kernel, _, rfl⟩
  obtain ⟨c, d, lab', hchildren, hc, hd, hne, -⟩ :=
    children_closed (.inl rfl) ha hb rfl (Lab.start Least.least () : Lab Least Unit)
  exact ⟨c, d, lab', hchildren, hc.accepted, hd.accepted, hne, hc.unscored, hd.unscored⟩

end Run

end RegisterEvolution
