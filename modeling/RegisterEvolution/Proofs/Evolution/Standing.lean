import Mathlib.Data.Int.Order.Basic
import Mathlib.Order.WithBot
import RegisterEvolution.Evolution.Population
import RegisterEvolution.Proofs.Binary64.Order

/-!
# `Proofs.Evolution.Standing` — ranking when scores are missing

A program that has no fitness comes after all that have one. So programs have a standing in a linear order: that of the
descending fitness, with one more standing at the end. Ranking is sorting by the standing, the programs of one standing
keep their order, and the best program is the first one of the least standing, before and after ranking.

* `standing`, `rankKey_lt_iff` — the order that programs are ranked in;
* `Population.rank_standings`, `rank_filter`, `rank_rank` — sortedness, stability, and ranking once more;
* `Foremost`, `Foremost.unique` — the first program of the least standing;
* `Population.best?_rank`, `best?_eq_head?_rank` — ranking puts the best program first and does not replace it.
-/

namespace RegisterEvolution

open Binary64

variable {s : Store} {ps qs : List Program} {a b m n : Program}

/-- All scores that there are, are finite numbers. -/
def FiniteScores (s : Store) (ps : List Program) : Prop := ∀ q ∈ ps, ∀ x, s.fitness q = some x → x.isFinite = true

theorem FiniteScores.perm (h : FiniteScores s ps) (hperm : ps.Perm qs) : FiniteScores s qs := fun q hq =>
  h q (hperm.mem_iff.mpr hq)

theorem FiniteScores.sublist (h : FiniteScores s ps) (hsub : qs.Sublist ps) : FiniteScores s qs := fun q hq =>
  h q (hsub.mem hq)

/-! ## Standings -/

/-- Where a program stands in a ranking: the better its fitness, the lower, and last of all without one. -/
def standing (s : Store) (q : Program) : WithTop ℤ := (s.fitness q).elim ⊤ fun x => ((-levelOf x : ℤ) : WithTop ℤ)

theorem standing_some {x : Float} (h : s.fitness a = some x) : standing s a = ((-levelOf x : ℤ) : WithTop ℤ) := by
  simp [standing, h]

theorem standing_none (h : s.fitness a = none) : standing s a = ⊤ := by
  simp [standing, h]

/-- Only programs without a fitness stand last. -/
theorem standing_eq_top : standing s a = ⊤ ↔ s.fitness a = none := by
  cases hx : s.fitness a with
  | none => simp [standing_none hx]
  | some x => simp [standing_some hx]

section Pair

variable (h : FiniteScores s ps) (ha : a ∈ ps) (hb : b ∈ ps)

include h ha hb

/-- What a program has to have in order to stand in front of another one. -/
theorem standing_le_iff : standing s a ≤ standing s b ↔
    ∀ y, s.fitness b = some y → ∃ x, s.fitness a = some x ∧ y ≤ x := by
  cases hy : s.fitness b with
  | none => simp [standing_none hy]
  | some y =>
      cases hx : s.fitness a with
      | none => simp [standing_some hy, standing_none hx]
      | some x =>
          rw [standing_some hy, standing_some hx, WithTop.coe_le_coe, Int.neg_le_neg_iff,
            ← le_iff_level (h b hb y hy) (h a ha x hx)]
          simp

/-- Programs stand at the same place if and only if they have the same fitness, or none. -/
theorem standing_eq_iff : standing s a = standing s b ↔ (s.fitness a == s.fitness b) = true := by
  cases hx : s.fitness a with
  | none =>
      rw [standing_none hx, eq_comm, standing_eq_top]
      cases s.fitness b <;> simp
  | some x =>
      cases hy : s.fitness b with
      | none => simp [standing_some hx, standing_none hy]
      | some y =>
          rw [standing_some hx, standing_some hy, WithTop.coe_eq_coe, Int.neg_inj,
            ← beq_iff_level (h a ha x hx) (h b hb y hy)]
          simp

/-- **The keys of a ranking are compared as the standings are.** -/
theorem rankKey_lt_iff : Population.rankKey s b < Population.rankKey s a ↔ standing s b < standing s a := by
  unfold Population.rankKey
  cases hy : s.fitness b with
  | none =>
      rw [standing_none hy]
      exact iff_of_false (not_infinity_lt _) not_top_lt
  | some y =>
      rw [standing_some hy]
      cases hx : s.fitness a with
      | none =>
          rw [standing_none hx]
          exact iff_of_true (lt_infinity (isFinite_neg (h b hb y hy))) (WithTop.coe_lt_top _)
      | some x =>
          rw [standing_some hx, WithTop.coe_lt_coe, Int.neg_lt_neg_iff, ← lt_iff_level (h a ha x hx) (h b hb y hy)]
          exact neg_lt_neg_iff (h b hb y hy) (h a ha x hx)

end Pair

/-! ## Ranking -/

namespace Population

variable {p : Population}

theorem rank_perm (s : Store) (p : Population) : (p.rank s).programs.Perm p.programs := List.mergeSort_perm ..

/-- Ranking is sorting by the standing. -/
theorem rank_eq_mergeSort (h : FiniteScores s p.programs) :
    (p.rank s).programs = p.programs.mergeSort fun a b => decide (standing s a ≤ standing s b) := by
  have hle : ∀ a ∈ p.programs, ∀ b ∈ p.programs, rankLe s a b = decide (standing s a ≤ standing s b) := by
    intro a ha b hb
    unfold rankLe
    rw [decide_eq_decide.mpr (rankKey_lt_iff h ha hb), ← decide_not, decide_eq_decide]
    exact not_lt
  -- the two orders agree on the programs only, so that the lists are compared through the identity
  have hsort : (p.programs.mergeSort (rankLe s)).map id =
      (p.programs.map id).mergeSort fun a b => decide (standing s a ≤ standing s b) := List.map_mergeSort hle
  rwa [List.map_id, List.map_id] at hsort

theorem standing_le_trans (a b c : Program) (hab : decide (standing s a ≤ standing s b) = true)
    (hbc : decide (standing s b ≤ standing s c) = true) : decide (standing s a ≤ standing s c) = true :=
  decide_eq_true ((of_decide_eq_true hab).trans (of_decide_eq_true hbc))

theorem standing_le_total (a b : Program) :
    (decide (standing s a ≤ standing s b) || decide (standing s b ≤ standing s a)) = true := by
  simp [le_total]

/-- **The standings of a ranked population ascend.** -/
theorem rank_standings (h : FiniteScores s p.programs) :
    (p.rank s).programs.Pairwise fun a b => standing s a ≤ standing s b := by
  rw [rank_eq_mergeSort h]
  exact (List.pairwise_mergeSort standing_le_trans standing_le_total _).imp of_decide_eq_true

/-- **Programs of one standing keep their order.** -/
theorem rank_filter (h : FiniteScores s p.programs) (v : WithTop ℤ) :
    (p.rank s).programs.filter (fun a => decide (standing s a = v)) =
      p.programs.filter fun a => decide (standing s a = v) := by
  -- a stable sort has the programs of one standing in the order that they had, and no others
  have hsorted : (p.programs.filter fun a => decide (standing s a = v)).Pairwise fun a b =>
      decide (standing s a ≤ standing s b) = true := by
    apply List.pairwise_of_forall_mem_list
    intro a ha b hb
    have ha := of_decide_eq_true (List.mem_filter.mp ha).2
    have hb := of_decide_eq_true (List.mem_filter.mp hb).2
    exact decide_eq_true (ha.trans hb.symm).le
  have hsub := (List.sublist_mergeSort standing_le_trans standing_le_total hsorted List.filter_sublist).filter
    fun a => decide (standing s a = v)
  rw [← rank_eq_mergeSort h, List.filter_filter] at hsub
  simp only [Bool.and_self] at hsub
  exact (hsub.eq_of_length ((rank_perm s p).filter _).length_eq.symm).symm

/-- **A ranked population stays as it is when it is ranked again.** -/
theorem rank_rank (p : Population) (h : FiniteScores s p.programs) : (p.rank s).rank s = p.rank s := by
  have hsame : ((p.rank s).rank s).programs = (p.rank s).programs := by
    rw [rank_eq_mergeSort (h.perm (rank_perm s p).symm)]
    exact List.mergeSort_of_pairwise ((rank_standings h).imp fun hle => decide_eq_true hle)
  exact congrArg (fun ps => { p with programs := ps }) hsame

end Population

/-! ## The best program -/

/-- No program has a lower standing than `m`, and `m` is the first one of its standing. -/
structure Foremost (s : Store) (ps : List Program) (m : Program) : Prop where
  least : ∀ a ∈ ps, standing s m ≤ standing s a
  first : ps.find? (fun a => decide (standing s a = standing s m)) = some m

namespace Foremost

theorem mem (h : Foremost s ps m) : m ∈ ps := List.mem_of_find?_eq_some h.first

theorem unique (hm : Foremost s ps m) (hn : Foremost s ps n) : m = n := by
  have hstanding : standing s m = standing s n := le_antisymm (hm.least n hn.mem) (hn.least m hm.mem)
  have hfirst := hm.first
  rw [hstanding] at hfirst
  exact Option.some.inj (hfirst.symm.trans hn.first)

/-- The first of the programs in ascending order. -/
theorem head (h : (m :: ps).Pairwise fun a b => standing s a ≤ standing s b) : Foremost s (m :: ps) m where
  least := List.forall_mem_cons.mpr ⟨le_refl _, (List.pairwise_cons.mp h).1⟩
  first := List.find?_cons_of_pos (decide_eq_true rfl)

theorem rank {p : Population} (h : FiniteScores s p.programs) (hm : Foremost s p.programs m) :
    Foremost s (p.rank s).programs m where
  least a ha := hm.least a ((Population.rank_perm s p).mem_iff.mp ha)
  first := by rw [← List.head?_filter, Population.rank_filter h, List.head?_filter, hm.first]

/-- One more program is compared with the foremost one so far. -/
theorem better (h : FiniteScores s (ps ++ [b])) (hm : Foremost s ps m) :
    Foremost s (ps ++ [b]) (Population.better s m b) := by
  have hb : b ∈ ps ++ [b] := List.mem_append_right ps (List.mem_singleton_self b)
  have hiff := rankKey_lt_iff h (List.mem_append_left [b] hm.mem) hb
  unfold Population.better
  split
  · rename_i hlt
    have hlt := hiff.mp hlt
    constructor
    · intro a ha
      rcases List.mem_append.mp ha with ha | ha
      · exact hlt.le.trans (hm.least a ha)
      · rw [List.mem_singleton.mp ha]
    · have hnone : ps.find? (fun a => decide (standing s a = standing s b)) = none := by
        rw [List.find?_eq_none]
        intro a ha heq
        exact absurd (of_decide_eq_true heq) (hlt.trans_le (hm.least a ha)).ne'
      rw [List.find?_append, hnone, Option.none_or]
      exact List.find?_cons_of_pos (decide_eq_true rfl)
  · rename_i hlt
    constructor
    · intro a ha
      rcases List.mem_append.mp ha with ha | ha
      · exact hm.least a ha
      · rw [List.mem_singleton.mp ha]
        exact not_lt.mp fun hlt' => hlt (hiff.mpr hlt')
    · rw [List.find?_append, hm.first, Option.some_or]

/-- The scan finds the foremost program. -/
theorem foldl {first : Program} {rest : List Program} (h : FiniteScores s (first :: rest)) :
    Foremost s (first :: rest) (rest.foldl (Population.better s) first) := by
  induction rest using List.reverseRecOn with
  | nil => exact .head (List.pairwise_singleton _ _)
  | append_singleton rest b ih =>
      rw [List.foldl_append]
      exact (ih (h.sublist ((List.sublist_append_left rest [b]).cons_cons first))).better h

/-- A scored program that is foremost among the scored ones is so among all. -/
theorem of_scored (hm : Foremost s (ps.filter fun q => (s.fitness q).isSome) m) : Foremost s ps m where
  least := by
    intro a ha
    cases hx : s.fitness a with
    | none =>
        rw [standing_none hx]
        exact le_top
    | some x => exact hm.least a (List.mem_filter.mpr ⟨ha, by rw [hx]; rfl⟩)
  first := by
    have hscored := (List.mem_filter.mp hm.mem).2
    rw [← hm.first, List.find?_filter]
    congr 1
    funext a
    apply decide_eq_decide.mpr
    refine ⟨fun heq => ⟨?_, decide_eq_true heq⟩, fun hand => of_decide_eq_true hand.2⟩
    -- what stands where `m` does has a fitness, as `m` has
    rw [← Option.ne_none_iff_isSome, ne_eq, ← standing_eq_top] at hscored ⊢
    rwa [heq]

end Foremost

namespace Population

variable {p : Population}

theorem best?_eq_none : p.best? s = none ↔ ∀ q ∈ p.programs, s.fitness q = none := by
  have hnil : (p.programs.filter fun q => (s.fitness q).isSome) = [] ↔ ∀ q ∈ p.programs, s.fitness q = none := by
    simp [List.filter_eq_nil_iff]
  rw [← hnil]
  unfold best?
  cases p.programs.filter fun q => (s.fitness q).isSome with
  | nil => exact iff_of_true rfl rfl
  | cons first rest => exact iff_of_false (Option.some_ne_none _) (List.cons_ne_nil first rest)

/-- **The best program is the foremost one.** -/
theorem best?_foremost (h : FiniteScores s p.programs) (hm : p.best? s = some m) : Foremost s p.programs m := by
  apply Foremost.of_scored
  unfold best? at hm
  cases hscored : p.programs.filter fun q => (s.fitness q).isSome with
  | nil =>
      rw [hscored] at hm
      exact nomatch hm
  | cons first rest =>
      rw [hscored] at hm
      obtain rfl := Option.some.inj hm
      exact .foldl (h.sublist (hscored ▸ List.filter_sublist))

/-- **Ranking does not replace the best program.** -/
theorem best?_rank (h : FiniteScores s p.programs) : (p.rank s).best? s = p.best? s := by
  have hnone : (p.rank s).best? s = none ↔ p.best? s = none := by
    rw [best?_eq_none, best?_eq_none]
    exact forall_congr' fun q => by rw [(rank_perm s p).mem_iff]
  cases hm : p.best? s with
  | none => exact hnone.mpr hm
  | some m =>
      obtain ⟨n, hn⟩ := Option.ne_none_iff_exists'.mp fun hempty => nomatch hm.symm.trans (hnone.mp hempty)
      rw [hn, (best?_foremost (h.perm (rank_perm s p).symm) hn).unique ((best?_foremost h hm).rank h)]

/-- The best program of a population that is sorted already. -/
theorem best?_eq_head? (h : FiniteScores s p.programs)
    (hsorted : p.programs.Pairwise fun a b => standing s a ≤ standing s b)
    (hscored : ∃ q ∈ p.programs, s.fitness q ≠ none) : p.best? s = p.programs.head? := by
  obtain ⟨q, hq, hx⟩ := hscored
  obtain ⟨m, hm⟩ := Option.ne_none_iff_exists'.mp fun hempty => hx (best?_eq_none.mp hempty q hq)
  have hforemost := best?_foremost h hm
  rw [hm]
  cases hps : p.programs with
  | nil =>
      rw [hps] at hq
      exact absurd hq List.not_mem_nil
  | cons first rest =>
      rw [hps] at hforemost hsorted
      rw [hforemost.unique (.head hsorted)]
      rfl

/-- **When anything is scored, the best program is ranked first.** -/
theorem best?_eq_head?_rank (h : FiniteScores s p.programs) (hscored : ∃ q ∈ p.programs, s.fitness q ≠ none) :
    p.best? s = (p.rank s).programs.head? := by
  obtain ⟨q, hq, hx⟩ := hscored
  rw [← best?_rank h]
  exact best?_eq_head? (h.perm (rank_perm s p).symm) (rank_standings h) ⟨q, (rank_perm s p).mem_iff.mpr hq, hx⟩

end Population

end RegisterEvolution
