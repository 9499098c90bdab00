import RegisterEvolution.Proofs.Binary64.Order
import RegisterEvolution.Proofs.Draw.Choices

/-!
# `Proofs.Draw.Script` — everything that random choices may come to

What a generator promises says that a choice lies in its range, and nothing in the range is ruled out: a source that
answers by a script makes any choice that is wanted. A computation that draws is therefore described exactly by the
results that it may have, those that it has under every generator and those that some script leads to.

* `Generator.Ranged` — generators whose numbers of an interval lie in it;
* `Script` — a source that gives prepared answers, as long as they keep the promise;
* `Leads`, `Spans` — a result that may be come to, and a computation that has exactly the results of some kind, with
  their rules for steps one after the other;
* `Draw.integers_spans`, `Draw.element_spans`, `Draw.uniform_spans` — the single choices;
* `Draw.chance_spans` — a choice between two computations.
-/

namespace RegisterEvolution

/-- What a generator promises about numbers of an interval besides: they lie in it. -/
class Generator.Ranged (γ : Type) [Generator γ] : Prop extends Generator.Honest γ where
  uniform_mem : ∀ (low high : Float) (g : γ), low.isFinite = true → high.isFinite = true → low ≤ high →
    low ≤ (Generator.uniform low high g).1 ∧ (Generator.uniform low high g).1 ≤ high

/-! ## Prepared answers -/

/-- A prepared answer to a draw. -/
inductive Answer where
  | integer (n : Int)
  | number (x : Float)

/-- A source that answers what has been prepared. An answer that the draw does not admit is replaced by the least one,
    and so is one that is missing. -/
structure Script where
  answers : List Answer

namespace Script

/-- An integer in `[low, high)`. -/
def integers (low high : Int) (s : Script) : Option (Int × Script) :=
  if low < high then
    match s.answers with
    | .integer n :: rest => some (if low ≤ n ∧ n < high then n else low, ⟨rest⟩)
    | _ => some (low, s)
  else none

/-- A number in `[0, 1)`. -/
def fraction (s : Script) : Float × Script :=
  match s.answers with
  | .number x :: rest => (if 0.0 ≤ x ∧ x < 1.0 then x else 0.0, ⟨rest⟩)
  | _ => (0.0, s)

/-- A number between two bounds. -/
def uniform (low high : Float) (s : Script) : Float × Script :=
  match s.answers with
  | .number x :: rest => (if low ≤ x ∧ x ≤ high then x else low, ⟨rest⟩)
  | _ => (low, s)

/-- The first indices below `population`, in their order. -/
def sample (population : Nat) (size : Int) (s : Script) : Option (List Nat × Script) :=
  if size ≤ population then some (List.range size.toNat, s) else none

instance : Generator Script := ⟨integers, fraction, uniform, sample⟩

/-- Whatever has been prepared, a script keeps the promise of a generator. -/
instance : Generator.Ranged Script where
  integers_mem low high s h := by
    show ∃ n s', integers low high s = some (n, s') ∧ low ≤ n ∧ n < high
    unfold integers
    rw [if_pos h]
    split
    · split
      · rename_i hmem
        exact ⟨_, _, rfl, hmem⟩
      · exact ⟨_, _, rfl, Int.le_refl low, h⟩
    · exact ⟨_, _, rfl, Int.le_refl low, h⟩
  fraction_mem s := by
    have hzero : (0.0 : Float) ≤ 0.0 ∧ (0.0 : Float) < 1.0 := by decide
    show 0.0 ≤ (fraction s).1 ∧ (fraction s).1 < 1.0
    unfold fraction
    split
    · simp only
      split
      · rename_i hmem
        exact hmem
      · exact hzero
    · exact hzero
  sample_mem population size s h :=
    ⟨List.range size, s, if_pos (Int.ofNat_le.mpr h), List.length_range, List.nodup_range,
      fun _ hi => Nat.lt_of_lt_of_le (List.mem_range.mp hi) h⟩
  uniform_mem low high s hlow _ h := by
    have hleast : low ≤ low ∧ low ≤ high := ⟨Binary64.le_refl_of_finite hlow, h⟩
    show low ≤ (uniform low high s).1 ∧ (uniform low high s).1 ≤ high
    unfold uniform
    split
    · simp only
      split
      · rename_i hmem
        exact hmem
      · exact hleast
    · exact hleast

end Script

/-! ## What a computation may come to -/

/-- A computation may come to a result: some script leads to it, whatever the script goes on with. -/
def Leads {α : Type} (d : Draw Script α) (a : α) : Prop := ∃ answers, ∀ rest, d ⟨answers ++ rest⟩ = .ok a ⟨rest⟩

/-- The scripts of one step after the other are put one after the other. -/
theorem Leads.bind {α β : Type} {d : Draw Script α} {f : α → Draw Script β} {a : α} {b : β} (h : Leads d a)
    (hf : Leads (f a) b) : Leads (d >>= f) b := by
  obtain ⟨first, hfirst⟩ := h
  obtain ⟨second, hsecond⟩ := hf
  refine ⟨first ++ second, ?_⟩
  intro rest
  show EStateM.bind _ _ _ = _
  rw [List.append_assoc, EStateM.bind, hfirst]
  exact hsecond rest

/-- A computation that may come to exactly the results with `P`: under every generator that keeps its promise it comes
    to one of them, and some script leads to each of them. -/
structure Spans {α : Type} (d : ∀ (γ : Type) [Generator γ], Draw γ α) (P : α → Prop) : Prop where
  sound : ∀ (γ : Type) [Generator γ] [Generator.Ranged γ], Yields (d γ) P
  complete : ∀ a, P a → Leads (d Script) a

namespace Spans

variable {α β : Type} {d : ∀ (γ : Type) [Generator γ], Draw γ α} {P P' : α → Prop}

theorem pure (a : α) : Spans (fun γ _ => (Pure.pure a : Draw γ α)) (· = a) := by
  refine ⟨fun γ _ _ => .pure rfl, ?_⟩
  rintro _ rfl
  exact ⟨[], fun rest => rfl⟩

/-- The results may be described in other words. -/
theorem congr (h : Spans d P) (hP : ∀ a, P a ↔ P' a) : Spans d P' :=
  ⟨fun γ _ _ => (h.sound γ).imp fun a => (hP a).mp, fun a ha => h.complete a ((hP a).mpr ha)⟩

/-- **One step after the other.** -/
theorem bind {f : ∀ (γ : Type) [Generator γ], α → Draw γ β} {Q : α → β → Prop} (h : Spans d P)
    (hf : ∀ a, P a → Spans (fun γ _ => f γ a) (Q a)) :
    Spans (fun γ _ => d γ >>= f γ) fun b => ∃ a, P a ∧ Q a b := by
  constructor
  · intro γ _ _
    exact (h.sound γ).bind fun a ha => ((hf a ha).sound γ).imp fun b hb => ⟨a, ha, hb⟩
  · rintro b ⟨a, ha, hb⟩
    exact (h.complete a ha).bind ((hf a ha).complete b hb)

/-- A step after which a result is made of what has been drawn. -/
theorem map (h : Spans d P) (f : α → β) :
    Spans (fun γ _ => (do return f (← d γ) : Draw γ β)) fun b => ∃ a, P a ∧ b = f a := h.bind fun a _ => .pure (f a)

end Spans

/-- A probability that rules out neither side of a choice. -/
def Undecided (p : Float) : Prop := 0.0 < p ∧ p < 1.0

instance (p : Float) : Decidable (Undecided p) := inferInstanceAs (Decidable (0.0 < p ∧ p < 1.0))

namespace Draw

theorem integers_spans {low high : Int} (h : low < high) :
    Spans (fun γ _ => (integers low high : Draw γ Int)) fun n => low ≤ n ∧ n < high := by
  refine ⟨fun γ _ _ => integers_yields h, ?_⟩
  intro n hn
  refine ⟨[.integer n], fun rest => ?_⟩
  have hdraw : Generator.integers low high (⟨.integer n :: rest⟩ : Script) = some (n, ⟨rest⟩) := by
    show Script.integers low high _ = _
    unfold Script.integers
    rw [if_pos h]
    simp only [if_pos hn]
  show integers low high (⟨.integer n :: rest⟩ : Script) = _
  unfold integers
  rw [hdraw]

theorem index_spans {size : Nat} (h : 0 < size) : Spans (fun γ _ => (index size : Draw γ Nat)) (· < size) := by
  have hrange : Spans (fun γ _ => (below size : Draw γ Int)) fun n => 0 ≤ n ∧ n < size := integers_spans (by omega)
  refine (hrange.map Int.toNat).congr fun i => ⟨?_, fun hi => ⟨i, by omega, by omega⟩⟩
  rintro ⟨n, hn, rfl⟩
  omega

theorem belowKnown_spans {limit : Int} (h : 1 ≤ limit) :
    Spans (fun γ _ => (belowKnown (some limit) : Draw γ Int)) fun n => 0 ≤ n ∧ n < limit := integers_spans (by omega)

theorem fraction_spans : Spans (fun γ _ => (fraction : Draw γ Float)) fun x => 0.0 ≤ x ∧ x < 1.0 := by
  refine ⟨fun γ _ _ g => Generator.Honest.fraction_mem g, ?_⟩
  intro x hx
  refine ⟨[.number x], fun rest => ?_⟩
  have hdraw : Generator.fraction (⟨.number x :: rest⟩ : Script) = (x, ⟨rest⟩) := by
    show Script.fraction _ = _
    unfold Script.fraction
    simp only [if_pos hx]
  show fraction (⟨.number x :: rest⟩ : Script) = _
  unfold fraction
  rw [hdraw]

/-- **A choice by a fraction may go either way** where its probability rules out neither: the fraction zero lies below
    the probability, and the probability itself is a fraction that does not. -/
theorem chance_spans {α : Type} {p : Float} (hp : Undecided p) {d e : ∀ (γ : Type) [Generator γ], Draw γ α}
    {P Q : α → Prop} (hd : Spans d P) (he : Spans e Q) :
    Spans (fun γ _ => (do if (← fraction) < p then d γ else e γ : Draw γ α)) fun a => P a ∨ Q a := by
  have hbranch : ∀ x : Float, Spans (fun γ _ => (if x < p then d γ else e γ : Draw γ α)) fun a =>
      (x < p ∧ P a) ∨ (¬ x < p ∧ Q a) := by
    intro x
    by_cases hx : x < p
    · simpa only [hx, if_true, true_and, not_true_eq_false, false_and, or_false] using hd
    · simpa only [hx, if_false, false_and, not_false_eq_true, true_and, false_or] using he
  refine (fraction_spans.bind fun x _ => hbranch x).congr fun a => ⟨?_, ?_⟩
  · rintro ⟨x, -, ⟨-, ha⟩ | ⟨-, ha⟩⟩
    · exact .inl ha
    · exact .inr ha
  · rintro (ha | ha)
    · exact ⟨0.0, by decide, .inl ⟨hp.1, ha⟩⟩
    · have hfinite : p.isFinite = true :=
        Binary64.isFinite_of_between (b := 0.0) (c := 1.0) (by decide) (by decide) (Binary64.le_of_lt_float hp.1)
          (Binary64.le_of_lt_float hp.2)
      have hself : ¬ p < p := (Binary64.not_lt_iff_le hfinite hfinite).mpr (Binary64.le_refl_of_finite hfinite)
      exact ⟨p, ⟨Binary64.le_of_lt_float hp.1, hp.2⟩, .inr ⟨hself, ha⟩⟩

theorem uniform_spans {low high : Float} (hlow : low.isFinite = true) (hhigh : high.isFinite = true) (h : low ≤ high) :
    Spans (fun γ _ => (uniform low high : Draw γ Float)) fun x => low ≤ x ∧ x ≤ high := by
  refine ⟨fun γ _ _ g => Generator.Ranged.uniform_mem low high g hlow hhigh h, ?_⟩
  intro x hx
  refine ⟨[.number x], fun rest => ?_⟩
  have hdraw : Generator.uniform low high (⟨.number x :: rest⟩ : Script) = (x, ⟨rest⟩) := by
    show Script.uniform low high _ = _
    unfold Script.uniform
    simp only [if_pos hx]
  show uniform low high (⟨.number x :: rest⟩ : Script) = _
  unfold uniform
  rw [hdraw]

/-- Every element of a list may be drawn, also its first and its last one. -/
theorem element_spans {α : Type} {items : List α} (h : items ≠ []) :
    Spans (fun γ _ => (element items : Draw γ α)) (· ∈ items) := by
  have hindex : Spans (fun γ _ => (index items.length : Draw γ Nat)) (· < items.length) :=
    index_spans (List.length_pos_iff.mpr h)
  refine (hindex.bind (Q := fun i item => items[i]? = some item) fun i hi => ?_).congr fun item =>
    ⟨fun ⟨i, _, hi⟩ => List.mem_of_getElem? hi, fun hitem => ?_⟩
  · simp only [List.getElem?_eq_getElem hi, Option.some.injEq]
    exact (Spans.pure items[i]).congr fun item => eq_comm
  · obtain ⟨i, hi, hget⟩ := List.getElem_of_mem hitem
    exact ⟨i, hi, by rw [List.getElem?_eq_getElem hi, hget]⟩

end Draw

end RegisterEvolution
