import Mathlib.Data.List.Nodup
import RegisterEvolution.Proofs.Program.Store

/-!
# `Proofs.Evolution.Lineage` — new programs and where their fitness comes from

A store with additions keeps the entries that it has, and a fitness that a new entry has is that of a program of the
pool. New programs have an entry each: unscored, or a clone that carries instructions, shape and fitness of a program
of the pool together.

* `Lineage`, `Newborn`, `Litter` — additions to the store, and the new programs among them;
* `Litter.append`, `Litter.set` — litters put together, and with a member replaced.
-/

namespace RegisterEvolution

/-- Additions to a store, of which every fitness is inherited from the pool. -/
structure Lineage (pool : List Program) (s s' : Store) : Prop where
  grown : s.Extends s'
  inherited : ∀ id x, s.nextId ≤ id → s'.fitnessAt id = some x → ∃ p ∈ pool, s.fitnessAt p.id = some x

/-- A program that has been added: unscored, or a clone of a program of the pool. -/
structure Newborn (shapes : Shape → Prop) (pool : List Program) (s s' : Store) (q : Program) : Prop where
  fresh : s.nextId ≤ q.id
  shape : shapes q.shape
  flawless : q.shape.flaw? q.code = none
  entry : ∃ fitness r, s'.cell? q.id = some ⟨fitness, r⟩ ∧ Store.freshRegisters q.shape = .ok r ∧
    (fitness = none ∨ ∃ p ∈ pool, q.code = p.code ∧ q.shape = p.shape ∧ fitness = s.fitnessAt p.id)

/-- Programs that have been added under different numbers. -/
structure Litter (shapes : Shape → Prop) (pool : List Program) (s s' : Store) (qs : List Program) : Prop where
  newborn : ∀ q ∈ qs, Newborn shapes pool s s' q
  nodup : (qs.map (·.id)).Nodup

/-- Programs of certain shapes whose numbers have been used up. -/
structure Store.Knows (s : Store) (shapes : Shape → Prop) (pool : List Program) : Prop where
  lt_nextId : ∀ p ∈ pool, p.id < s.nextId
  shape : ∀ p ∈ pool, shapes p.shape

variable {shapes : Shape → Prop} {pool qs : List Program} {s s' s'' : Store}

/-- Programs whose numbers had been used up, and others whose numbers had not been, have different numbers together. -/
theorem nodup_ids_append {ps : List Program} {limit : Nat} (h : (ps.map (·.id)).Nodup) (h' : (qs.map (·.id)).Nodup)
    (hlt : ∀ p ∈ ps, p.id < limit) (hge : ∀ q ∈ qs, limit ≤ q.id) : ((ps ++ qs).map (·.id)).Nodup := by
  rw [List.map_append]
  refine List.nodup_append.mpr ⟨h, h', ?_⟩
  rintro id hid _ hid' rfl
  obtain ⟨p, hp, rfl⟩ := List.mem_map.mp hid
  obtain ⟨q, hq, heq⟩ := List.mem_map.mp hid'
  have hbelow := hlt p hp
  have habove := hge q hq
  omega

namespace Lineage

theorem refl (pool : List Program) (s : Store) : Lineage pool s s := by
  refine ⟨.refl s, ?_⟩
  intro id x hid hx
  obtain ⟨c, hc, -⟩ := Store.exists_cell_of_fitnessAt hx
  exact absurd (Store.lt_nextId hc) (Nat.not_lt.mpr hid)

theorem trans (h : Lineage pool s s') (h' : Lineage pool s' s'') : Lineage pool s s'' := by
  refine ⟨h.grown.trans h'.grown, ?_⟩
  intro id x hid hx
  -- a fitness is inherited in the second part, or it was there before, where the first part accounts for it
  have hfirst : ∀ id, s'.fitnessAt id = some x → s.fitnessAt id = some x ∨ ∃ p ∈ pool, s.fitnessAt p.id = some x := by
    intro id hx
    rcases Nat.lt_or_ge id s.nextId with hlt | hge
    · exact .inl (by rw [← h.grown.fitnessAt_eq hlt, hx])
    · exact .inr (h.inherited id x hge hx)
  rcases Nat.lt_or_ge id s'.nextId with hlt | hge
  · rw [h'.grown.fitnessAt_eq hlt] at hx
    exact h.inherited id x hid hx
  · obtain ⟨p, hp, hpx⟩ := h'.inherited id x hge hx
    rcases hfirst p.id hpx with hpx | hex
    · exact ⟨p, hp, hpx⟩
    · exact hex

end Lineage

namespace Newborn

variable {q : Program}

/-- A newborn stays one while the store grows. -/
theorem later (h : Newborn shapes pool s s' q) (hle : s'.Extends s'') : Newborn shapes pool s s'' q := by
  obtain ⟨fitness, r, hcell, hrest⟩ := h.entry
  exact ⟨h.fresh, h.shape, h.flawless, fitness, r, hle.cell?_some hcell, hrest⟩

/-- A newborn of a later store is one of an earlier store. -/
theorem earlier (h : Newborn shapes pool s' s'' q) (hle : s.Extends s') (hpool : s.Knows shapes pool) :
    Newborn shapes pool s s'' q := by
  obtain ⟨fitness, r, hcell, hfresh, hfitness⟩ := h.entry
  refine ⟨Nat.le_trans hle.nextId_le h.fresh, h.shape, h.flawless, fitness, r, hcell, hfresh, ?_⟩
  rcases hfitness with hnone | ⟨p, hp, hcode, hshape, heq⟩
  · exact .inl hnone
  · exact .inr ⟨p, hp, hcode, hshape, by rw [heq, hle.fitnessAt_eq (hpool.lt_nextId p hp)]⟩

theorem lt_nextId (h : Newborn shapes pool s s' q) : q.id < s'.nextId := by
  obtain ⟨_, _, hcell, -⟩ := h.entry
  exact Store.lt_nextId hcell

end Newborn

namespace Litter

theorem nil : Litter shapes pool s s' [] := ⟨List.forall_mem_nil _, List.nodup_nil⟩

theorem singleton {q : Program} (h : Newborn shapes pool s s' q) : Litter shapes pool s s' [q] :=
  ⟨fun p hp => by rw [List.mem_singleton.mp hp]; exact h, List.nodup_singleton q.id⟩

theorem sublist {ps : List Program} (h : Litter shapes pool s s' qs) (hsub : ps.Sublist qs) :
    Litter shapes pool s s' ps :=
  ⟨fun q hq => h.newborn q (hsub.mem hq), h.nodup.sublist (hsub.map _)⟩

/-- A litter and a later one together. -/
theorem append {ps : List Program} (h : Litter shapes pool s s' ps) (h' : Litter shapes pool s' s'' qs)
    (hle : s.Extends s') (hle' : s'.Extends s'') (hpool : s.Knows shapes pool) :
    Litter shapes pool s s'' (ps ++ qs) := by
  constructor
  · intro q hq
    rcases List.mem_append.mp hq with hq | hq
    · exact (h.newborn q hq).later hle'
    · exact (h'.newborn q hq).earlier hle hpool
  · -- the numbers of the first litter had been used up when the second one began
    exact nodup_ids_append h.nodup h'.nodup (fun p hp => (h.newborn p hp).lt_nextId) fun q hq => (h'.newborn q hq).fresh

/-- One member may be replaced by a later newborn. -/
theorem set {q : Program} (h : Litter shapes pool s s' qs) (hq : Newborn shapes pool s' s'' q) (hle : s.Extends s')
    (hle' : s'.Extends s'') (hpool : s.Knows shapes pool) (slot : Nat) : Litter shapes pool s s'' (qs.set slot q) := by
  constructor
  · intro p hp
    rcases List.mem_or_eq_of_mem_set hp with hp | rfl
    · exact (h.newborn p hp).later hle'
    · exact hq.earlier hle hpool
  · -- the newborn has a number that none of the others can have
    rw [List.map_set]
    apply h.nodup.set
    intro hmem
    obtain ⟨p, hp, heq⟩ := List.mem_map.mp hmem
    have hlt := (h.newborn p hp).lt_nextId
    have hge := hq.fresh
    omega

end Litter

end RegisterEvolution
