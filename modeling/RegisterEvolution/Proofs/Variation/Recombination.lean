import RegisterEvolution.Proofs.Draw.Choices
import RegisterEvolution.Proofs.Program.Validity
import RegisterEvolution.Variation.Recombination

/-!
# `Proofs.Variation.Recombination` — children of fitting sequences fit

Both ways of recombining put pieces of the parents together, so the instructions of a child are instructions of its
parents. What is left to be shown is that a child is not empty and not too long.

* `Inherits` — a list that is not empty, not longer than a limit, and has no elements of its own;
* `onePointChildren_inherit`, `spliced_inherits` — the children of the two ways;
* `recombine_yields` — the children at random places.
-/

namespace RegisterEvolution

section Pieces

variable {α : Type} {xs a b : List α}

theorem boundIn_of_mem {length : Nat} {bound : Int} (h0 : 0 ≤ bound) (h : bound ≤ length) :
    boundIn length bound = bound.toNat := by
  unfold boundIn
  rw [if_neg (by omega)]
  omega

theorem length_upTo {bound : Int} (h0 : 0 ≤ bound) (h : bound ≤ xs.length) : (upTo xs bound).length = bound.toNat := by
  unfold upTo
  rw [boundIn_of_mem h0 h, List.length_take]
  omega

theorem length_since {bound : Int} (h0 : 0 ≤ bound) (h : bound ≤ xs.length) :
    (since xs bound).length = xs.length - bound.toNat := by
  unfold since
  rw [boundIn_of_mem h0 h, List.length_drop]

theorem length_between {low high : Int} (h0 : 0 ≤ low) (hle : low ≤ high) (h : high ≤ xs.length) :
    (between xs low high).length = high.toNat - low.toNat := by
  unfold between
  rw [boundIn_of_mem h0 (by omega), boundIn_of_mem (by omega) h, List.length_drop, List.length_take]
  omega

theorem mem_of_mem_upTo {bound : Int} {x : α} (h : x ∈ upTo xs bound) : x ∈ xs := List.mem_of_mem_take h

theorem mem_of_mem_since {bound : Int} {x : α} (h : x ∈ since xs bound) : x ∈ xs := List.mem_of_mem_drop h

theorem mem_of_mem_between {low high : Int} {x : α} (h : x ∈ between xs low high) : x ∈ xs :=
  List.mem_of_mem_take (List.mem_of_mem_drop h)

/-- A child of one cut consists of elements of its parents, wherever the cuts are. -/
theorem mem_of_mem_crossing {cutA cutB limit : Int} {x : α} (h : x ∈ upTo (upTo a cutA ++ since b cutB) limit) :
    x ∈ a ∨ x ∈ b :=
  (List.mem_append.mp (mem_of_mem_upTo h)).imp mem_of_mem_upTo mem_of_mem_since

/-- A child of two cuts does, wherever the segments are. -/
theorem mem_of_mem_spliced {own other : Segment} {limit : Int} {x : α} (h : x ∈ spliced a b own other limit) :
    x ∈ a ∨ x ∈ b := by
  unfold spliced at h
  rcases List.mem_append.mp h with h | h
  · exact (List.mem_append.mp h).imp mem_of_mem_upTo mem_of_mem_between
  · exact .inl (mem_of_mem_since h)

/-- A list of between one and `limit` elements, all of which are elements of the parents. -/
structure Inherits (a b child : List α) (limit : Int) : Prop where
  nonempty : 1 ≤ child.length
  length_le : (child.length : Int) ≤ limit
  mem : ∀ x ∈ child, x ∈ a ∨ x ∈ b

theorem Inherits.symm {child : List α} {limit : Int} (h : Inherits a b child limit) : Inherits b a child limit :=
  ⟨h.nonempty, h.length_le, fun x hx => (h.mem x hx).symm⟩

/-! ## One cut -/

theorem crossing_inherits {cutA cutB limit : Int} (hlimit : 1 ≤ limit) (hA : 1 ≤ cutA) (hA' : cutA ≤ a.length)
    (hB : 0 ≤ cutB) (hB' : cutB ≤ b.length) : Inherits a b (upTo (upTo a cutA ++ since b cutB) limit) limit := by
  have hlength : (upTo a cutA ++ since b cutB).length = cutA.toNat + (b.length - cutB.toNat) := by
    rw [List.length_append, length_upTo (by omega) hA', length_since hB hB']
  have htake : (upTo (upTo a cutA ++ since b cutB) limit).length =
      min limit.toNat (upTo a cutA ++ since b cutB).length := by
    unfold upTo boundIn
    rw [List.length_take, if_neg (by omega)]
    omega
  -- the first piece has an element, and the limit leaves room for it
  exact ⟨by omega, by omega, fun x hx => mem_of_mem_crossing hx⟩

theorem onePointChildren_inherit {cutA cutB limit : Int} (hlimit : 1 ≤ limit) (hA : 1 ≤ cutA ∧ cutA < a.length + 1)
    (hB : 1 ≤ cutB ∧ cutB < b.length + 1) :
    Inherits a b (onePointChildren a b cutA cutB limit).1 limit ∧
      Inherits a b (onePointChildren a b cutA cutB limit).2 limit :=
  ⟨crossing_inherits hlimit hA.1 (by omega) (by omega) (by omega),
    (crossing_inherits hlimit hB.1 (by omega) (by omega) (by omega)).symm⟩

/-! ## Two cuts -/

/-- A segment of a list that is not empty. -/
def Segment.In (s : Segment) (length : Int) : Prop := 0 ≤ s.1 ∧ s.1 < s.2 ∧ s.2 ≤ length

theorem spliced_inherits {own other : Segment} {limit : Int} (hown : own.In a.length) (hother : other.In b.length)
    (hlimit : (a.length : Int) ≤ limit) : Inherits a b (spliced a b own other limit) limit := by
  obtain ⟨start, stop⟩ := own
  obtain ⟨start', stop'⟩ := other
  obtain ⟨h0, hlt, hle⟩ := hown
  obtain ⟨h0', hlt', hle'⟩ := hother
  simp only at h0 hlt hle h0' hlt' hle'
  -- there is room for one element at least, because the own segment is not empty
  obtain ⟨room, hroom⟩ : ∃ room : Int, limit - (a.length - (stop - start)) = room := ⟨_, rfl⟩
  have hspliced : spliced a b (start, stop) (start', stop') limit =
      upTo a start ++ between b start' (min stop' (start' + room)) ++ since a stop := by rw [← hroom]; rfl
  have hlength : (spliced a b (start, stop) (start', stop') limit).length =
      start.toNat + ((min stop' (start' + room)).toNat - start'.toNat) + (a.length - stop.toNat) := by
    rw [hspliced, List.length_append, List.length_append, length_upTo h0 (by omega),
      length_between h0' (by omega) (by omega), length_since (by omega) hle]
  exact ⟨by omega, by omega, fun x hx => mem_of_mem_spliced hx⟩

end Pieces

/-! ## Random places -/

variable {γ : Type} [Generator γ] [Generator.Honest γ]

theorem randomSegment_yields {length : Int} (h : 1 ≤ length) :
    Yields (randomSegment length : Draw γ Segment) (Segment.In · length) := by
  apply (Draw.integers_yields (by omega)).bind
  intro start hstart
  refine (Draw.integers_yields (by omega)).bind fun stop hstop => .pure ?_
  exact ⟨hstart.1, by show start < stop; omega, by show stop ≤ length; omega⟩

/-- Random places give children that inherit. -/
theorem recombine_inherits {α : Type} {kind : Crossover} (hkind : kind = .onePoint ∨ kind = .twoPoint) {a b : List α}
    {limit : Int} (ha : 1 ≤ a.length) (hb : 1 ≤ b.length) (ha' : (a.length : Int) ≤ limit)
    (hb' : (b.length : Int) ≤ limit) :
    Yields (recombine kind limit a b : Draw γ (List α × List α)) fun children =>
      Inherits a b children.1 limit ∧ Inherits a b children.2 limit := by
  rcases hkind with rfl | rfl
  · apply (Draw.integers_yields (by omega)).bind
    intro cutA hA
    refine (Draw.integers_yields (by omega)).bind fun cutB hB => .pure ?_
    exact onePointChildren_inherit (by omega) hA hB
  · apply (randomSegment_yields (by omega)).bind
    intro segmentA hA
    refine (randomSegment_yields (by omega)).bind fun segmentB hB => .pure ?_
    exact ⟨spliced_inherits hA hB ha', (spliced_inherits hB hA hb').symm⟩

theorem Shape.Fits.of_inherits {shape : Shape} {sizes : BankSizes} {a b child : List Instruction}
    (ha : shape.Fits sizes a) (hb : shape.Fits sizes b) (h : Inherits a b child shape.maxInstructions) :
    shape.Fits sizes child :=
  ⟨h.nonempty, h.length_le, fun i hi => (h.mem i hi).elim (ha.each i) (hb.each i)⟩

/-- **The children of fitting sequences fit**, whatever the way and the places. -/
theorem recombine_yields {shape : Shape} {sizes : BankSizes} {kind : Crossover}
    (hkind : kind = .onePoint ∨ kind = .twoPoint) {a b : List Instruction} (ha : shape.Fits sizes a)
    (hb : shape.Fits sizes b) :
    Yields (recombine kind shape.maxInstructions a b : Draw γ (List Instruction × List Instruction)) fun children =>
      shape.Fits sizes children.1 ∧ shape.Fits sizes children.2 :=
  (recombine_inherits hkind ha.nonempty hb.nonempty ha.length_le hb.length_le).imp fun _ h =>
    ⟨ha.of_inherits hb h.1, ha.of_inherits hb h.2⟩

end RegisterEvolution
