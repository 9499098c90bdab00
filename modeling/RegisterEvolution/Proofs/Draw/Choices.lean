import RegisterEvolution.Proofs.Outcome
import RegisterEvolution.Draw.Generator

/-!
# `Proofs.Draw.Choices` — what random choices come to

Under a generator that keeps its promise, a draw from a range that is not empty has a result inside the range. `Yields`
states that a computation has a result of some kind wherever it starts, and the lemmas here do so for each choice.

* `Yields` — a result of some kind from every state, and never an error;
* `Gives` — a result of some kind, if there is one;
* `integers_yields`, `element_yields`, `sample_yields` — the single choices;
* `Least` — a source of which every choice is the least one keeps the promise of a generator.
-/

namespace RegisterEvolution

/-- A computation that has a result satisfying `P` from every state. -/
def Yields {ε σ α : Type} (m : EStateM ε σ α) (P : α → Prop) : Prop := ∀ s, Ends (fun a _ => P a) Never (m s)

namespace Yields

variable {ε σ α β : Type} {m : EStateM ε σ α} {P : α → Prop} {Q : β → Prop}

theorem pure {a : α} (h : P a) : Yields (Pure.pure a : EStateM ε σ α) P := fun _ => h

theorem imp {P' : α → Prop} (h : Yields m P) (hP : ∀ a, P a → P' a) : Yields m P' :=
  fun s => (h s).imp (fun a _ => hP a) fun _ _ => id

theorem and {P' : α → Prop} (h : Yields m P) (h' : Yields m P') : Yields m fun a => P a ∧ P' a :=
  fun s => ((h s).and (h' s)).imp (fun _ _ => id) fun _ _ => And.left

theorem bind {f : α → EStateM ε σ β} (h : Yields m P) (hf : ∀ a, P a → Yields (f a) Q) : Yields (m >>= f) Q :=
  fun s => (h s).bind (fun a t ha => hf a ha t) fun _ _ => id

end Yields

/-- Whenever a computation answers, the answer satisfies `P`. -/
def Gives {ε σ α : Type} (m : EStateM ε σ α) (P : α → Prop) : Prop := ∀ s, Ends (fun a _ => P a) (fun _ _ => True) (m s)

namespace Gives

variable {ε σ α β : Type} {m : EStateM ε σ α} {P : α → Prop} {Q : β → Prop}

theorem pure {a : α} (h : P a) : Gives (Pure.pure a : EStateM ε σ α) P := fun _ => h

theorem throw {e : ε} : Gives (MonadExcept.throw e : EStateM ε σ α) P := fun _ => trivial

theorem any (m : EStateM ε σ α) : Gives m fun _ => True := fun _ => .of_final (P := fun _ => True) trivial

theorem bind {f : α → EStateM ε σ β} (h : Gives m P) (hf : ∀ a, P a → Gives (f a) Q) : Gives (m >>= f) Q :=
  fun s => (h s).bind (fun a t ha => hf a ha t) fun _ _ => id

end Gives

/-- A computation that has a result of one kind, and of another one whenever it has any, has one of both kinds. -/
theorem Yields.and_gives {ε σ α : Type} {m : EStateM ε σ α} {P P' : α → Prop} (h : Yields m P) (h' : Gives m P') :
    Yields m fun a => P a ∧ P' a := fun s => ((h s).and (h' s)).imp (fun _ _ => id) fun _ _ => And.left

namespace Draw

variable {γ : Type} [Generator γ] [Generator.Honest γ]

theorem integers_yields {low high : Int} (h : low < high) :
    Yields (integers low high : Draw γ Int) fun n => low ≤ n ∧ n < high := by
  intro g
  obtain ⟨n, g', hdraw, hrange⟩ := Generator.Honest.integers_mem low high g h
  unfold integers
  rw [hdraw]
  exact hrange

theorem belowKnown_yields {limit : Int} (h : 1 ≤ limit) :
    Yields (belowKnown (some limit) : Draw γ Int) fun n => 0 ≤ n ∧ n < limit := integers_yields (by omega)

theorem index_yields {size : Nat} (h : 0 < size) : Yields (index size : Draw γ Nat) (· < size) := by
  have hrange : Yields (integers 0 (size : Int) : Draw γ Int) fun n => 0 ≤ n ∧ n < size := integers_yields (by omega)
  apply hrange.bind
  intro n hn
  exact .pure (by omega)

omit [Generator.Honest γ] in
theorem fraction_yields : Yields (fraction : Draw γ Float) fun _ => True := fun _ => trivial

omit [Generator.Honest γ] in
theorem uniform_yields {low high : Float} : Yields (uniform low high : Draw γ Float) fun _ => True := fun _ => trivial

theorem element_yields {α : Type} {items : List α} (h : items ≠ []) :
    Yields (element items : Draw γ α) (· ∈ items) := by
  apply (index_yields (List.length_pos_iff.mpr h)).bind
  intro i hi
  rw [List.getElem?_eq_getElem hi]
  exact .pure (List.getElem_mem hi)

theorem sample_yields {population size : Nat} (h : size ≤ population) :
    Yields (sample population size : Draw γ (List Nat)) fun picked =>
      picked.length = size ∧ picked.Nodup ∧ ∀ i ∈ picked, i < population := by
  intro g
  obtain ⟨picked, g', hdraw, hpicked⟩ := Generator.Honest.sample_mem population size g h
  unfold sample
  rw [hdraw]
  exact hpicked

end Draw

/-! ## The least choices -/

/-- A source without a state, of which every choice is the least one. -/
inductive Least where
  | least

namespace Least

instance : Generator Least where
  integers low high g := if low < high then some (low, g) else none
  fraction g := (0.0, g)
  uniform low _ g := (low, g)
  sample population size g := if size ≤ population then some (List.range size.toNat, g) else none

/-- The promise of a generator can be kept. -/
instance : Generator.Honest Least where
  integers_mem low high g h := ⟨low, g, if_pos h, Int.le_refl low, h⟩
  fraction_mem _ := by
    show (0.0 : Float) ≤ 0.0 ∧ (0.0 : Float) < 1.0
    decide
  sample_mem population size g h := by
    refine ⟨List.range size, g, if_pos (Int.ofNat_le.mpr h), List.length_range, List.nodup_range, ?_⟩
    intro i hi
    exact Nat.lt_of_lt_of_le (List.mem_range.mp hi) h

end Least

end RegisterEvolution
