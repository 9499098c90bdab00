import Mathlib.Algebra.Order.Group.Multiset
import Mathlib.Tactic.Abel
import RegisterEvolution.Proofs.Variation.Recombination

/-!
# `Proofs.Variation.Exchange` — what two sequences exchange

Sequences are written here as their pieces. A cut leaves a head and a tail, a segment stands between a head and a tail,
and a way of recombining puts the same pieces together otherwise. As long as nothing is cut short, the pieces of the
children are those of the parents, and exchanging them a second time puts everything back.

* `upTo_natCast`, `since_natCast`, `between_natCast` — bounds that count from the front;
* `Cut.exists_pieces`, `Segment.In.exists_pieces` — cuts and segments as pieces;
* `onePointChildren_natCast`, `spliced_natCast` — the children of two sequences, by the bounds of their pieces;
* `crossover_exchanges` — nothing is lost, the exchange undoes itself, and parents in the other order have their
  children in the other order.
-/

namespace RegisterEvolution

variable {α : Type}

/-! ## Pieces -/

theorem boundIn_natCast (length n : Nat) : boundIn length n = min n length := by
  unfold boundIn
  rw [if_neg (by omega), Int.toNat_natCast]

@[simp] theorem upTo_natCast (xs : List α) (n : Nat) : upTo xs n = xs.take n := by
  rw [upTo, boundIn_natCast, ← List.take_eq_take_min]

@[simp] theorem since_natCast (xs : List α) (n : Nat) : since xs n = xs.drop n := by
  unfold since
  rw [boundIn_natCast, Nat.min_def]
  split
  · rfl
  · rw [List.drop_length, List.drop_eq_nil_of_le (by omega)]

@[simp] theorem between_natCast (xs : List α) (m n : Nat) : between xs m n = (xs.take n).drop m := by
  have hfront : xs.take (boundIn xs.length n) = xs.take n := upTo_natCast xs n
  unfold between
  rw [hfront, boundIn_natCast, Nat.min_def]
  split
  · rfl
  · rw [List.drop_eq_nil_of_le (List.length_take_le' n xs), List.drop_eq_nil_of_le (by simp; omega)]

/-- A cut behind an element at least. -/
def Cut (cut : Int) (length : Nat) : Prop := 1 ≤ cut ∧ cut ≤ length

theorem Cut.exists_pieces {cut : Int} {xs : List α} (h : Cut cut xs.length) :
    ∃ head tail, xs = head ++ tail ∧ cut = head.length ∧ 1 ≤ head.length := by
  obtain ⟨hpos, hle⟩ := h
  lift cut to Nat using (by omega)
  have hlength : (xs.take cut).length = cut := List.length_take_of_le (by omega)
  exact ⟨xs.take cut, xs.drop cut, (List.take_append_drop cut xs).symm, by rw [hlength], by omega⟩

/-- A segment is a piece between two others. -/
theorem Segment.In.exists_pieces {s : Segment} {xs : List α} (h : s.In xs.length) :
    ∃ head middle tail, xs = head ++ middle ++ tail ∧ 1 ≤ middle.length ∧
      s = ((head.length : Int), ((head.length + middle.length : Nat) : Int)) := by
  obtain ⟨start, stop⟩ := s
  obtain ⟨h0, hlt, hle⟩ := h
  simp only at h0 hlt hle
  lift start to Nat using h0
  lift stop to Nat using (by omega)
  have hhead : (xs.take start).length = start := List.length_take_of_le (by omega)
  have hmiddle : ((xs.take stop).drop start).length = stop - start := by
    rw [List.length_drop, List.length_take_of_le (by omega)]
  refine ⟨xs.take start, (xs.take stop).drop start, xs.drop stop, ?_, by omega, ?_⟩
  · have hfront : xs.take start = (xs.take stop).take start := by rw [List.take_take, Nat.min_eq_left (by omega)]
    rw [hfront, List.take_append_drop, List.take_append_drop]
  · rw [hhead, hmiddle, Nat.add_sub_cancel' (by omega)]

/-! ## Children -/

/-- The head of a sequence before its cut with the tail of another one behind its own, of any length. -/
def crossing (a b : List α) (cutA cutB : Int) : List α := upTo a cutA ++ since b cutB

/-- A sequence with its segment replaced by the whole of another one's. -/
def replaced (a b : List α) (own other : Segment) : List α :=
  upTo a own.1 ++ between b other.1 other.2 ++ since a own.2

theorem onePointChildren_natCast (a b : List α) (i j limit : Nat) : onePointChildren a b i j limit =
    ((a.take i ++ b.drop j).take limit, (b.take j ++ a.drop i).take limit) := by
  simp [onePointChildren]

theorem replaced_natCast (a b : List α) (i j k l : Nat) :
    replaced a b (i, j) (k, l) = a.take i ++ (b.drop k).take (l - k) ++ a.drop j := by
  simp [replaced, List.drop_take]

/-- As much of the segment that comes in is taken as there is room for. -/
theorem spliced_natCast (a b : List α) (i j k l : Nat) {m : Nat} {limit : Int}
    (hm : (m : Int) = min ((l : Int) - k) (limit - (a.length - ((j : Int) - i)))) :
    spliced a b (i, j) (k, l) limit = a.take i ++ (b.drop k).take m ++ a.drop j := by
  have hstop : min (l : Int) (k + (limit - (a.length - ((j : Int) - i)))) = (k + m : Nat) := by omega
  show upTo a i ++ between b k (min (l : Int) (k + (limit - (a.length - ((j : Int) - i))))) ++ since a j = _
  rw [hstop, upTo_natCast, between_natCast, since_natCast, List.drop_take, Nat.add_sub_cancel_left]

section Pieces

variable (a₁ a₂ a₃ b₁ b₂ b₃ : List α)

theorem crossing_append : crossing (a₁ ++ a₂) (b₁ ++ b₂) a₁.length b₁.length = a₁ ++ b₂ := by
  simp [crossing]

theorem onePointChildren_append {limit : Nat} (hA : (a₁ ++ b₂).length ≤ limit) (hB : (b₁ ++ a₂).length ≤ limit) :
    onePointChildren (a₁ ++ a₂) (b₁ ++ b₂) a₁.length b₁.length limit = (a₁ ++ b₂, b₁ ++ a₂) := by
  rw [onePointChildren_natCast, List.take_left, List.take_left, List.drop_left, List.drop_left,
    List.take_of_length_le hA, List.take_of_length_le hB]

theorem take_drop_append :
    (a₁ ++ a₂ ++ a₃).take a₁.length = a₁ ∧ ((a₁ ++ a₂ ++ a₃).drop a₁.length).take a₂.length = a₂ ∧
      (a₁ ++ a₂ ++ a₃).drop (a₁.length + a₂.length) = a₃ := by
  refine ⟨by simp, by simp, ?_⟩
  rw [← List.length_append, List.drop_left]

theorem replaced_append : replaced (a₁ ++ a₂ ++ a₃) (b₁ ++ b₂ ++ b₃) (a₁.length, (a₁.length + a₂.length : Nat))
    (b₁.length, (b₁.length + b₂.length : Nat)) = a₁ ++ b₂ ++ a₃ := by
  obtain ⟨hhead, -, htail⟩ := take_drop_append a₁ a₂ a₃
  rw [replaced_natCast, hhead, htail, Nat.add_sub_cancel_left, (take_drop_append b₁ b₂ b₃).2.1]

theorem spliced_append {limit : Nat} (h : (a₁ ++ b₂ ++ a₃).length ≤ limit) :
    spliced (a₁ ++ a₂ ++ a₃) (b₁ ++ b₂ ++ b₃) (a₁.length, (a₁.length + a₂.length : Nat))
      (b₁.length, (b₁.length + b₂.length : Nat)) limit = a₁ ++ b₂ ++ a₃ := by
  obtain ⟨hhead, -, htail⟩ := take_drop_append a₁ a₂ a₃
  simp only [List.length_append] at h
  -- there is room for the whole of the other segment
  have hall : (b₂.length : Int) = min (((b₁.length + b₂.length : Nat) : Int) - b₁.length)
      (limit - ((a₁ ++ a₂ ++ a₃).length - (((a₁.length + a₂.length : Nat) : Int) - a₁.length))) := by
    simp only [List.length_append]
    omega
  rw [spliced_natCast _ _ _ _ _ _ hall, hhead, htail, (take_drop_append b₁ b₂ b₃).2.1]

end Pieces

/-! ## The exchange -/

section Exchange

variable {a b : List α} {limit : Int}

theorem onePointChildren_exchange {cutA cutB : Int} (ha : (a.length : Int) ≤ limit) (hb : (b.length : Int) ≤ limit)
    (hA : Cut cutA a.length) (hB : Cut cutB b.length) (hfitA : ((crossing a b cutA cutB).length : Int) ≤ limit)
    (hfitB : ((crossing b a cutB cutA).length : Int) ≤ limit) :
    let children := onePointChildren a b cutA cutB limit
    (children.1 : Multiset α) + children.2 = a + b ∧
      onePointChildren children.1 children.2 cutA cutB limit = (a, b) := by
  lift limit to Nat using (by omega)
  obtain ⟨a₁, a₂, rfl, rfl, -⟩ := hA.exists_pieces
  obtain ⟨b₁, b₂, rfl, rfl, -⟩ := hB.exists_pieces
  rw [crossing_append, Int.ofNat_le] at hfitA hfitB
  rw [onePointChildren_append a₁ a₂ b₁ b₂ hfitA hfitB]
  refine ⟨?_, onePointChildren_append a₁ b₂ b₁ a₂ (by omega) (by omega)⟩
  simp only [← Multiset.coe_add]
  abel

theorem twoPointChildren_exchange {i j k l : Int} (ha : (a.length : Int) ≤ limit) (hb : (b.length : Int) ≤ limit)
    (hA : Segment.In (i, j) a.length) (hB : Segment.In (k, l) b.length)
    (hfitA : ((replaced a b (i, j) (k, l)).length : Int) ≤ limit)
    (hfitB : ((replaced b a (k, l) (i, j)).length : Int) ≤ limit) :
    let children := twoPointChildren a b (i, j) (k, l) limit
    (children.1 : Multiset α) + children.2 = a + b ∧
      twoPointChildren children.1 children.2 (i, i + (l - k)) (k, k + (j - i)) limit = (a, b) := by
  lift limit to Nat using (by omega)
  obtain ⟨a₁, a₂, a₃, rfl, -, hsegmentA⟩ := hA.exists_pieces
  obtain ⟨b₁, b₂, b₃, rfl, -, hsegmentB⟩ := hB.exists_pieces
  rw [hsegmentA, hsegmentB, replaced_append, Int.ofNat_le] at hfitA hfitB
  obtain ⟨rfl, rfl⟩ := Prod.mk.inj hsegmentA
  obtain ⟨rfl, rfl⟩ := Prod.mk.inj hsegmentB
  have hchildren : twoPointChildren (a₁ ++ a₂ ++ a₃) (b₁ ++ b₂ ++ b₃) (a₁.length, (a₁.length + a₂.length : Nat))
      (b₁.length, (b₁.length + b₂.length : Nat)) limit = (a₁ ++ b₂ ++ a₃, b₁ ++ a₂ ++ b₃) := by
    rw [twoPointChildren, spliced_append _ _ _ _ _ _ hfitA, spliced_append _ _ _ _ _ _ hfitB]
  -- the segments that were exchanged stand where they came to
  have hback : twoPointChildren (a₁ ++ b₂ ++ a₃) (b₁ ++ a₂ ++ b₃) (a₁.length, (a₁.length + b₂.length : Nat))
      (b₁.length, (b₁.length + a₂.length : Nat)) limit = (a₁ ++ a₂ ++ a₃, b₁ ++ b₂ ++ b₃) := by
    rw [twoPointChildren, spliced_append _ _ _ _ _ _ (by omega), spliced_append _ _ _ _ _ _ (by omega)]
  have hsizeA : (a₁.length : Int) + ((b₁.length + b₂.length : Nat) - b₁.length) = (a₁.length + b₂.length : Nat) := by
    omega
  have hsizeB : (b₁.length : Int) + ((a₁.length + a₂.length : Nat) - a₁.length) = (b₁.length + a₂.length : Nat) := by
    omega
  rw [hchildren, hsizeA, hsizeB]
  refine ⟨?_, hback⟩
  simp only [← Multiset.coe_add]
  abel

/--
**Crossover exchanges.** Whatever two sequences of at least one and at most `limit` elements are given, both ways of
recombining them at cuts or segments inside them, as long as no child is cut short:

* leave the elements of the children together the elements of the parents together, each as often as before;
* put the parents back when the children are recombined at the same cuts, or at the segments that they received.

Cut short or not, wherever the cuts or segments are, parents in the other order have the same children in the other
order.
-/
theorem crossover_exchanges (a b : List α) (limit : Int) :
    (1 ≤ a.length → (a.length : Int) ≤ limit → 1 ≤ b.length → (b.length : Int) ≤ limit →
      (∀ cutA cutB, Cut cutA a.length → Cut cutB b.length →
        ((crossing a b cutA cutB).length : Int) ≤ limit → ((crossing b a cutB cutA).length : Int) ≤ limit →
        let children := onePointChildren a b cutA cutB limit
        (children.1 : Multiset α) + children.2 = a + b ∧
          onePointChildren children.1 children.2 cutA cutB limit = (a, b)) ∧
      (∀ i j k l, Segment.In (i, j) a.length → Segment.In (k, l) b.length →
        ((replaced a b (i, j) (k, l)).length : Int) ≤ limit → ((replaced b a (k, l) (i, j)).length : Int) ≤ limit →
        let children := twoPointChildren a b (i, j) (k, l) limit
        (children.1 : Multiset α) + children.2 = a + b ∧
          twoPointChildren children.1 children.2 (i, i + (l - k)) (k, k + (j - i)) limit = (a, b))) ∧
    (∀ cutA cutB, onePointChildren b a cutB cutA limit = (onePointChildren a b cutA cutB limit).swap) ∧
    ∀ segmentA segmentB,
      twoPointChildren b a segmentB segmentA limit = (twoPointChildren a b segmentA segmentB limit).swap := by
  refine ⟨fun _ ha _ hb => ⟨?_, ?_⟩, fun _ _ => rfl, fun _ _ => rfl⟩
  · intro cutA cutB hA hB hfitA hfitB
    exact onePointChildren_exchange ha hb hA hB hfitA hfitB
  · intro i j k l hA hB hfitA hfitB
    exact twoPointChildren_exchange ha hb hA hB hfitA hfitB

/-- The first segment ends its list, the second one begins its list, and one child is as long as it may be. -/
theorem crossover_exchanges_at_ends :
    twoPointChildren [1, 2, 3] [4, 5] (2, 3) (0, 2) 4 = ([1, 2, 4, 5], [3]) ∧
      twoPointChildren [1, 2, 4, 5] [3] (2, 4) (0, 1) 4 = ([1, 2, 3], [4, 5]) ∧
      onePointChildren [1, 2, 3] [4, 5] 3 1 4 = ([1, 2, 3, 5], [4]) ∧
      onePointChildren [1, 2, 3, 5] [4] 3 1 4 = ([1, 2, 3], [4, 5]) := by
  obtain ⟨hexchange, -⟩ := crossover_exchanges [1, 2, 3] [4, 5] 4
  obtain ⟨hone, htwo⟩ := hexchange (by decide) (by decide) (by decide) (by decide)
  exact ⟨rfl, (htwo 2 3 0 2 ⟨by decide, by decide, by decide⟩ ⟨by decide, by decide, by decide⟩ (by decide)
    (by decide)).2, rfl, (hone 3 1 ⟨by decide, by decide⟩ ⟨by decide, by decide⟩ (by decide) (by decide)).2⟩

end Exchange

end RegisterEvolution
