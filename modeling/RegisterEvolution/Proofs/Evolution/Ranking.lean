import RegisterEvolution.Evolution.Summary
import RegisterEvolution.Proofs.Evolution.Standing
import RegisterEvolution.Proofs.Program.Store

/-!
# `Proofs.Evolution.Ranking` — the best programs come first

When every program has a finite fitness, ranking sorts by descending fitness, and the fitness at a place of a ranked
population is the fitness that so many programs reach at least. So populations are compared place by place by counting
how many of their programs reach a level.

* `Population.Ranked`, `rank_ranked` — ranked populations, and that ranking makes one;
* `levels`, `Covers` — the fitness of the scored programs as integers, and comparison by counting;
* `Covers.fitness_le` — a population that covers another one is at least as good at every place;
* `Ranked.best?_eq`, `Ranked.summary_best` — the best program is the first one, and its fitness the best one.
-/

namespace RegisterEvolution

open Binary64

/-! ## Lists in descending order -/

section Descending

variable {l : List Int} {v : Int} {k : Nat}

/-- In a descending list, more than `k` members reach a level if and only if the one at place `k` does. -/
theorem lt_countP_iff (h : l.Pairwise (· ≥ ·)) :
    k < l.countP (fun x => decide (v ≤ x)) ↔ ∃ x, l[k]? = some x ∧ v ≤ x := by
  induction l generalizing k with
  | nil => simp
  | cons a rest ih =>
      obtain ⟨ha, hrest⟩ := List.pairwise_cons.mp h
      by_cases hv : v ≤ a
      · rw [List.countP_cons_of_pos (by simpa using hv)]
        cases k with
        | zero => simpa using hv
        | succ k =>
            rw [Nat.succ_lt_succ_iff, ih hrest]
            rfl
      · -- nothing after `a` reaches the level either
        have hbelow : ∀ x ∈ a :: rest, ¬ v ≤ x := by
          intro x hx
          rcases List.mem_cons.mp hx with rfl | hx
          · exact hv
          · have := ha x hx
            omega
        have hzero : (a :: rest).countP (fun x => decide (v ≤ x)) = 0 :=
          List.countP_eq_zero.mpr fun x hx => by simpa using hbelow x hx
        rw [hzero]
        refine ⟨fun hlt => absurd hlt (Nat.not_lt_zero k), ?_⟩
        rintro ⟨x, hx, hvx⟩
        exact absurd hvx (hbelow x (List.mem_of_getElem? hx))

/-- The first `n` of a descending list are those that reach a level, as far as they go. -/
theorem countP_take (h : l.Pairwise (· ≥ ·)) (n : Nat) :
    (l.take n).countP (fun x => decide (v ≤ x)) = min n (l.countP fun x => decide (v ≤ x)) := by
  -- both sides are above the same numbers, by what it means for a list in descending order to have so many
  have hiff : ∀ k, k < (l.take n).countP (fun x => decide (v ≤ x)) ↔
      k < min n (l.countP fun x => decide (v ≤ x)) := by
    intro k
    rw [lt_countP_iff (h.sublist (List.take_sublist n l)), Nat.lt_min, lt_countP_iff h, List.getElem?_take]
    by_cases hk : k < n
    · simp [hk]
    · simp [hk]
  refine Nat.le_antisymm (Nat.not_lt.mp ?_) (Nat.not_lt.mp ?_)
  · intro hlt
    exact absurd ((hiff _).mp hlt) (Nat.lt_irrefl _)
  · intro hlt
    exact absurd ((hiff _).mpr hlt) (Nat.lt_irrefl _)

end Descending

/-! ## Levels -/

/-- The places in the order of numbers of the fitness of the scored programs. -/
def levels (s : Store) (ps : List Program) : List Int := ps.filterMap fun p => (s.fitnessAt p.id).map levelOf

/-- The level of a program, zero for one without a fitness. -/
def levelIn (s : Store) (p : Program) : Int := (s.fitnessAt p.id).elim 0 levelOf

/-- How many programs reach a level. -/
def reaching (s : Store) (ps : List Program) (v : Int) : Nat := (levels s ps).countP fun x => decide (v ≤ x)

/-- Every program has a finite fitness. -/
def Rated (s : Store) (ps : List Program) : Prop := ∀ p ∈ ps, ∃ x, s.fitnessAt p.id = some x ∧ x.isFinite = true

variable {s s' : Store} {ps qs : List Program}

theorem Rated.perm (h : Rated s ps) (hperm : ps.Perm qs) : Rated s qs := fun p hp => h p (hperm.mem_iff.mpr hp)

theorem Rated.sublist (h : Rated s ps) (hsub : qs.Sublist ps) : Rated s qs := fun p hp => h p (hsub.mem hp)

theorem Rated.finiteScores (h : Rated s ps) : FiniteScores s ps := by
  intro q hq x hx
  obtain ⟨y, hy, hfinite⟩ := h q hq
  obtain rfl := Option.some.inj (hx.symm.trans hy)
  exact hfinite

/-- Rated programs have one level each. -/
theorem Rated.levels_eq (h : Rated s ps) : levels s ps = ps.map (levelIn s) := by
  induction ps with
  | nil => rfl
  | cons p rest ih =>
      obtain ⟨x, hx, -⟩ := h p (List.mem_cons_self ..)
      unfold levels at ih ⊢
      rw [List.filterMap_cons, hx, List.map_cons, ← ih (h.sublist (List.sublist_cons_self ..))]
      unfold levelIn
      rw [hx]
      rfl

theorem Rated.getElem?_levels (h : Rated s ps) (k : Nat) :
    (levels s ps)[k]? = (ps[k]?.bind fun p => s.fitnessAt p.id).map levelOf := by
  rw [h.levels_eq, List.getElem?_map]
  cases hp : ps[k]? with
  | none => rfl
  | some p =>
      obtain ⟨x, hx, -⟩ := h p (List.mem_of_getElem? hp)
      simp [levelIn, hx]

theorem Rated.levels_take (h : Rated s ps) (n : Nat) : levels s (ps.take n) = (levels s ps).take n := by
  rw [(h.sublist (List.take_sublist n ps)).levels_eq, h.levels_eq, List.map_take]

theorem reaching_perm (hperm : ps.Perm qs) (v : Int) : reaching s ps v = reaching s qs v :=
  (hperm.filterMap _).countP_eq _

/-- Nothing is lost while no fitness is. -/
theorem reaching_mono (h : s.Retains s') (v : Int) : reaching s ps v ≤ reaching s' ps v := by
  unfold reaching levels
  refine List.Sublist.countP_le ?_
  induction ps with
  | nil => exact .slnil
  | cons p rest ih =>
      rw [List.filterMap_cons, List.filterMap_cons]
      cases hx : s.fitnessAt p.id with
      | some x =>
          rw [h p.id x hx]
          exact ih.cons_cons _
      | none =>
          cases s'.fitnessAt p.id with
          | none => exact ih
          | some y => exact ih.cons _

theorem reaching_le_length (v : Int) : reaching s ps v ≤ ps.length :=
  Nat.le_trans List.countP_le_length (List.length_filterMap_le ..)

/-! ## Ranked populations -/

namespace Population

/-- Every program has a finite fitness, and no program has a better one than a program in front of it. -/
structure Ranked (s : Store) (p : Population) : Prop where
  scored : ∀ q ∈ p.programs, ∃ x, s.fitness q = some x ∧ x.isFinite = true
  sorted : p.programs.Pairwise fun a b => ∀ x y, s.fitness a = some x → s.fitness b = some y → y ≤ x

/-- The fitness at a place of a population, counted from zero. -/
def fitnessAtPlace (s : Store) (p : Population) (k : Nat) : Option Float := p.programs[k]?.bind s.fitness

theorem Ranked.rated {p : Population} (h : p.Ranked s) : Rated s p.programs := h.scored

/-- The order of the levels is the order of the fitness. -/
theorem pairwise_levels_iff (h : Rated s ps) : (levels s ps).Pairwise (· ≥ ·) ↔
    ps.Pairwise fun a b => ∀ x y, s.fitness a = some x → s.fitness b = some y → y ≤ x := by
  rw [h.levels_eq, List.pairwise_map]
  apply List.Pairwise.iff_of_mem
  intro a b ha hb
  obtain ⟨x, hx, hfx⟩ := h a ha
  obtain ⟨y, hy, hfy⟩ := h b hb
  unfold levelIn
  rw [Store.fitness_eq, Store.fitness_eq, hx, hy]
  constructor
  · intro hle x' y' hx' hy'
    obtain rfl := Option.some.inj hx'
    obtain rfl := Option.some.inj hy'
    exact (le_iff_level hfy hfx).mpr hle
  · intro hle
    exact (le_iff_level hfy hfx).mp (hle x y rfl rfl)

theorem Ranked.levels_descend {p : Population} (h : p.Ranked s) : (levels s p.programs).Pairwise (· ≥ ·) :=
  (pairwise_levels_iff h.rated).mpr h.sorted

/-- The standings of a ranked population ascend. -/
theorem Ranked.standings {p : Population} (h : p.Ranked s) :
    p.programs.Pairwise fun a b => standing s a ≤ standing s b := by
  refine h.sorted.imp_of_mem ?_
  intro a b ha hb hle
  apply (standing_le_iff h.rated.finiteScores ha hb).mpr
  intro y hy
  obtain ⟨x, hx, -⟩ := h.scored a ha
  exact ⟨x, hx, hle x y hx hy⟩

/-- **Ranking sorts by descending fitness.** -/
theorem rank_ranked (p : Population) (h : Rated s p.programs) : (p.rank s).Ranked s := by
  have hrated : Rated s (p.rank s).programs := h.perm (rank_perm s p).symm
  refine ⟨hrated, (rank_standings h.finiteScores).imp_of_mem ?_⟩
  intro a b ha hb hle x y hx hy
  obtain ⟨z, hz, hyz⟩ := (standing_le_iff hrated.finiteScores ha hb).mp hle y hy
  obtain rfl := Option.some.inj (hx.symm.trans hz)
  exact hyz

/-- A population stays ranked while no fitness changes. -/
theorem Ranked.later {p : Population} (h : p.Ranked s) (hle : s.Retains s') : p.Ranked s' := by
  have heq : ∀ q ∈ p.programs, s'.fitness q = s.fitness q := by
    intro q hq
    obtain ⟨x, hx, -⟩ := h.scored q hq
    rw [hx]
    exact hle q.id x hx
  refine ⟨?_, List.Pairwise.imp_of_mem ?_ h.sorted⟩
  · intro q hq
    rw [heq q hq]
    exact h.scored q hq
  · intro a b ha hb hle
    rw [heq a ha, heq b hb]
    exact hle

/-- The fitness at a place of a ranked population does not change while no fitness is lost. -/
theorem Ranked.fitnessAtPlace_eq {p : Population} (h : p.Ranked s) (hle : s.Retains s') (k : Nat) :
    p.fitnessAtPlace s' k = p.fitnessAtPlace s k := by
  unfold fitnessAtPlace
  cases hq : p.programs[k]? with
  | none => rfl
  | some q =>
      obtain ⟨x, hx, -⟩ := h.scored q (List.mem_of_getElem? hq)
      show s'.fitness q = s.fitness q
      rw [hx]
      exact hle q.id x hx

/-! ## Selection -/

/-- Selection takes the first programs and keeps the rest of the population. -/
theorem select_ok {gap : Float} {p pool : Population} (h : p.select gap = .ok pool) :
    ∃ kept, keptCount p.capacity gap = .ok kept ∧ pool = { p with programs := p.programs.take kept } := by
  unfold select at h
  cases hkept : keptCount p.capacity gap with
  | error f =>
      rw [hkept] at h
      exact nomatch h
  | ok kept =>
      rw [hkept] at h
      exact ⟨kept, rfl, (Except.ok.inj h).symm⟩

/-- At least one place is kept. -/
theorem keptCount_pos {capacity : Int} {gap : Float} {kept : Nat} (h : keptCount capacity gap = .ok kept) :
    1 ≤ kept := by
  unfold keptCount at h
  split at h
  · exact nomatch h
  · split at h
    · obtain rfl := Except.ok.inj h
      omega
    · exact nomatch h
    · exact nomatch h

/-- Of a ranked population, the selected programs are those that reach a level, as far as they go. -/
theorem Ranked.reaching_take {p : Population} (h : p.Ranked s) (n : Nat) (v : Int) :
    reaching s (p.programs.take n) v = min n (reaching s p.programs v) := by
  unfold reaching
  rw [h.rated.levels_take, countP_take h.levels_descend]

end Population

/-! ## Comparison by counting -/

/-- For every level, at least as many of `qs` reach it as of `ps`. -/
def Covers (s : Store) (ps qs : List Program) : Prop := ∀ v, reaching s ps v ≤ reaching s qs v

namespace Covers

theorem trans {rs : List Program} (h : Covers s ps qs) (h' : Covers s qs rs) : Covers s ps rs :=
  fun v => Nat.le_trans (h v) (h' v)

/-- More programs cover fewer of them. -/
theorem of_sublist (h : ps.Sublist qs) : Covers s ps qs := fun _ => (h.filterMap _).countP_le

/-- Covering is kept up while no fitness is lost. -/
theorem later (h : Covers s ps qs) (hrated : Rated s ps) (hle : s.Retains s') : Covers s' ps qs := by
  intro v
  -- the covered programs have a fitness already, so that their levels stay, and those of the others only get more
  have heq : levels s' ps = levels s ps := by
    have hrated' : Rated s' ps := fun p hp => by
      obtain ⟨x, hx, hfinite⟩ := hrated p hp
      exact ⟨x, hle _ _ hx, hfinite⟩
    rw [hrated'.levels_eq, hrated.levels_eq]
    apply List.map_congr_left
    intro p hp
    obtain ⟨x, hx, -⟩ := hrated p hp
    unfold levelIn
    rw [hx, hle _ _ hx]
  calc reaching s' ps v = reaching s ps v := by unfold reaching; rw [heq]
    _ ≤ reaching s qs v := h v
    _ ≤ reaching s' qs v := reaching_mono hle v

/-- Selection from a ranked population keeps covering what is not larger than the selection. -/
theorem take {p : Population} (hp : p.Ranked s) (h : Covers s ps p.programs) {n : Nat} (hle : ps.length ≤ n) :
    Covers s ps (p.programs.take n) := by
  intro v
  rw [hp.reaching_take]
  exact Nat.le_min.mpr ⟨Nat.le_trans (reaching_le_length v) hle, h v⟩

/-- **A population that covers the first programs of another one is at least as good at each of their places.** -/
theorem fitness_le {p r : Population} (hp : p.Ranked s) (hr : r.Ranked s) {n k : Nat}
    (h : Covers s (p.programs.take n) r.programs) (hk : k < (p.programs.take n).length) :
    ∃ x y, p.fitnessAtPlace s k = some x ∧ r.fitnessAtPlace s k = some y ∧ x ≤ y := by
  have hlt : k < n ∧ k < p.programs.length := by
    rw [List.length_take] at hk
    omega
  obtain ⟨x, hx, hfx⟩ := hp.scored _ (List.getElem_mem hlt.2)
  have hxk : p.fitnessAtPlace s k = some x := by
    unfold Population.fitnessAtPlace
    rw [List.getElem?_eq_getElem hlt.2]
    exact hx
  -- more than `k` of the first programs reach the level of the one at place `k`
  have hreach : k < reaching s (p.programs.take n) (levelOf x) := by
    unfold reaching
    rw [hp.rated.levels_take, countP_take hp.levels_descend]
    refine Nat.lt_min.mpr ⟨hlt.1, (lt_countP_iff hp.levels_descend).mpr ⟨levelOf x, ?_, Int.le_refl _⟩⟩
    rw [hp.rated.getElem?_levels]
    exact congrArg (Option.map levelOf) hxk
  obtain ⟨v, hv, hle⟩ := (lt_countP_iff hr.levels_descend).mp (Nat.lt_of_lt_of_le hreach (h (levelOf x)))
  rw [hr.rated.getElem?_levels] at hv
  obtain ⟨y, hy, rfl⟩ := Option.map_eq_some_iff.mp hv
  obtain ⟨q, hq, hqy⟩ := Option.bind_eq_some_iff.mp hy
  obtain ⟨y', hy', hfy⟩ := hr.scored q (List.mem_of_getElem? hq)
  obtain rfl := Option.some.inj (hy'.symm.trans hqy)
  exact ⟨x, y', hxk, hy, (le_iff_level hfx hfy).mpr hle⟩

end Covers

/-! ## The best program -/

namespace Population

variable {p : Population}

/-- Nobody is better than the first program of a ranked population. -/
theorem Ranked.le_first (h : p.Ranked s) {first q : Program} (hfirst : p.programs.head? = some first)
    (hq : q ∈ p.programs) {x y : Float} (hx : s.fitness first = some x) (hy : s.fitness q = some y) : y ≤ x := by
  obtain ⟨rest, hrest⟩ := List.head?_eq_some_iff.mp hfirst
  have hsorted := h.sorted
  rw [hrest] at hq hsorted
  rcases List.mem_cons.mp hq with rfl | hq
  · obtain rfl := Option.some.inj (hx.symm.trans hy)
    obtain ⟨z, hz, hfz⟩ := h.scored q (by rw [hrest]; exact List.mem_cons_self ..)
    obtain rfl := Option.some.inj (hx.symm.trans hz)
    exact le_refl_of_finite hfz
  · exact (List.pairwise_cons.mp hsorted).1 q hq x y hx hy

/-- **The best program of a ranked population is its first one.** -/
theorem Ranked.best?_eq (h : p.Ranked s) : p.best? s = p.programs.head? := by
  cases hps : p.programs with
  | nil =>
      rw [List.head?_nil, best?_eq_none, hps]
      exact List.forall_mem_nil _
  | cons first rest =>
      have hfirst : first ∈ p.programs := by
        rw [hps]
        exact List.mem_cons_self ..
      obtain ⟨x, hx, -⟩ := h.scored first hfirst
      rw [best?_eq_head? h.rated.finiteScores h.standings ⟨first, hfirst, hx ▸ Option.some_ne_none x⟩, hps]

/-- All scores of a ranked population are numbers, so that none of them is left out. -/
theorem Ranked.scores_eq (h : p.Ranked s) : p.scores s = p.fitnessValues s := by
  unfold scores
  rw [List.filter_eq_self]
  intro y hy
  obtain ⟨q, hq, rfl⟩ := List.mem_map.mp hy
  obtain ⟨z, hz, hfinite⟩ := h.scored q hq
  rw [hz]
  show (!z.isNaN) = true
  rw [isNaN_of_finite hfinite]
  rfl

/-- A number that no other one exceeds is the maximum. -/
theorem maximum_eq {x : Float} {ys : List Float} (h : ∀ y ∈ ys, ¬ x < y) : Statistics.maximum x ys = x := by
  induction ys with
  | nil => rfl
  | cons y ys ih =>
      unfold Statistics.maximum at ih ⊢
      rw [List.foldl_cons]
      unfold Statistics.greater at ih ⊢
      rw [if_neg (h y (List.mem_cons_self ..))]
      exact ih fun z hz => h z (List.mem_cons_of_mem y hz)

/-- **The best score of a ranked population is that of its first program.** -/
theorem Ranked.summary_best (h : p.Ranked s) {sum : Summary} (hsum : p.summarize s = .ok sum) {x : Float}
    (hx : p.fitnessAtPlace s 0 = some x) : sum.best = x := by
  obtain ⟨first, hfirst, hfx⟩ := Option.bind_eq_some_iff.mp hx
  have hhead : p.programs.head? = some first := by
    rw [List.head?_eq_getElem?]
    exact hfirst
  obtain ⟨rest, hrest⟩ := List.head?_eq_some_iff.mp hhead
  have hscores : p.scores s = x :: rest.map fun q => (s.fitness q).getD (0.0 / 0.0) := by
    rw [h.scores_eq]
    unfold fitnessValues
    rw [hrest, List.map_cons, hfx]
    rfl
  have hbest : Statistics.maximum x (rest.map fun q => (s.fitness q).getD (0.0 / 0.0)) = x := by
    apply maximum_eq
    intro y hy
    obtain ⟨q, hq, rfl⟩ := List.mem_map.mp hy
    have hmem : q ∈ p.programs := by
      rw [hrest]
      exact List.mem_cons_of_mem first hq
    obtain ⟨z, hz, hfz⟩ := h.scored q hmem
    obtain ⟨x', hx', hfx'⟩ := h.scored first (List.mem_of_mem_head? hhead)
    obtain rfl := Option.some.inj (hx'.symm.trans hfx)
    rw [hz]
    exact (not_lt_iff_le hfx' hfz).mpr (h.le_first hhead hmem hfx hz)
  unfold summarize at hsum
  rw [hscores, h.best?_eq, hhead] at hsum
  simp only at hsum
  cases hdescribe : describe first with
  | error f =>
      rw [hdescribe] at hsum
      exact nomatch hsum
  | ok best =>
      rw [hdescribe] at hsum
      rw [← Except.ok.inj hsum]
      exact hbest

end Population

end RegisterEvolution
