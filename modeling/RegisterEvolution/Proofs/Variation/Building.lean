import RegisterEvolution.Evolution.Population
import RegisterEvolution.Evolution.Breeding
import RegisterEvolution.Proofs.Draw.Script
import RegisterEvolution.Proofs.Program.Store

/-!
# `Proofs.Variation.Building` — programs of instructions that are drawn

A random program and a mutant are both built of instructions that have been drawn. The drawing leaves the store alone,
and the building appends one entry without a fitness, so that nothing that was known before is touched.

* `Run.building` — draws instructions and builds a program of them;
* `Run.building_ok` — what it comes to where the instructions that are drawn fit;
* `Run.MayBuild`, `Run.mayBuild_building_iff` — the programs that may be built, over all generators.
-/

namespace RegisterEvolution

variable {shape : Shape} {sizes : BankSizes} {code : List Instruction}

namespace Run

variable {γ σ : Type}

/-- Draws instructions and builds a program of them. -/
def building (shape : Shape) (d : Draw γ (List Instruction)) : Run γ σ Program := do
  let code ← draw d
  construct shape code

/-- A program in a lab where it has been built of certain instructions: it is new and has not been scored, and what was
    in the store before is there unchanged. -/
structure Built (shape : Shape) (code : List Instruction) (lab lab' : Lab γ σ) (q : Program) : Prop where
  eq : q = ⟨lab.store.nextId, code, shape⟩
  fitness : lab'.store.fitness q = none
  grown : lab.store.Extends lab'.store

/-- **Instructions that are drawn and fit are built.** -/
theorem building_ok (h : shape.Usable sizes) {d : Draw γ (List Instruction)} {lab : Lab γ σ} {g : γ}
    (hdraw : d lab.source = .ok code g) (hcode : shape.Fits sizes code) :
    ∃ q lab', building shape d lab = .ok q lab' ∧ Built shape code lab lab' q := by
  obtain ⟨s', hconstruct, hgrown, hfitness⟩ := Store.construct_of_fits h hcode none lab.store
  refine ⟨_, { lab with source := g, store := s' }, ?_, rfl, hfitness, hgrown⟩
  show EStateM.bind (draw d) _ lab = _
  have hdrawn : draw d lab = .ok code { lab with source := g } := by
    unfold draw
    rw [hdraw]
  rw [EStateM.bind, hdrawn]
  show onStore (Store.construct shape code none) { lab with source := g } = _
  unfold onStore
  simp only [hconstruct]

/-- Under a generator whose instructions always fit, a program is built wherever that begins. -/
theorem building_yields (h : shape.Usable sizes) {d : Draw γ (List Instruction)} {P : List Instruction → Prop}
    (hd : Yields d fun code => shape.Fits sizes code ∧ P code) (lab : Lab γ σ) :
    ∃ q lab', building shape d lab = .ok q lab' ∧ Built shape q.code lab lab' q ∧ shape.Fits sizes q.code ∧
      P q.code := by
  obtain ⟨code, g, hdraw, hfits, hcode⟩ := (hd lab.source).exists_ok
  obtain ⟨q, lab', hbuild, hbuilt⟩ := building_ok h hdraw hfits
  obtain rfl : q.code = code := by rw [hbuilt.eq]
  exact ⟨q, lab', hbuild, hbuilt, hfits, hcode⟩

/-- A program of these instructions may be built: there is a generator that keeps its promise, and a state of affairs
    in which the building ends in such a program. -/
def MayBuild (build : ∀ (γ σ : Type) [Generator γ], Run γ σ Program) (code : List Instruction) : Prop :=
  ∃ (γ σ : Type) (_ : Generator γ) (_ : Generator.Ranged γ) (lab lab' : Lab γ σ) (q : Program),
    build γ σ lab = .ok q lab' ∧ q.code = code

/-- **The programs that may be built** are those of the instructions that may be drawn. -/
theorem mayBuild_building_iff (h : shape.Usable sizes) {d : ∀ (γ : Type) [Generator γ], Draw γ (List Instruction)}
    {P : List Instruction → Prop} (hd : Spans d P) (hfits : ∀ code, P code → shape.Fits sizes code) :
    MayBuild (fun γ σ _ => (building shape (d γ) : Run γ σ Program)) code ↔ P code := by
  constructor
  · rintro ⟨γ, σ, _, _, lab, lab', q, hbuild, rfl⟩
    have hyields : Yields (d γ) fun code => shape.Fits sizes code ∧ P code :=
      (hd.sound γ).imp fun code hcode => ⟨hfits code hcode, hcode⟩
    obtain ⟨q', lab'', hbuild', -, -, hcode⟩ := building_yields h hyields lab
    obtain ⟨rfl, -⟩ := EStateM.Result.ok.inj (hbuild.symm.trans hbuild')
    exact hcode
  · intro hcode
    obtain ⟨answers, hanswers⟩ := hd.complete code hcode
    have hdraw : d Script (Lab.start ⟨answers ++ []⟩ () : Lab Script Unit).source = .ok code ⟨[]⟩ := hanswers []
    obtain ⟨q, lab', hbuild, hbuilt⟩ := building_ok h hdraw (hfits code hcode)
    exact ⟨Script, Unit, inferInstance, inferInstance, _, lab', q, hbuild, by rw [hbuilt.eq]⟩

end Run

end RegisterEvolution
