import Mathlib.Algebra.Order.Floor.Ring
import RegisterEvolution.Proofs.Binary64.Arithmetic
import RegisterEvolution.Proofs.Evolution.Ranking

/-!
# `Proofs.Evolution.Selection` — selection keeps what ranking puts first

Selection keeps a first part of a ranked population, so nothing that it drops is better than what it keeps. How much it
keeps is computed with rounding. Rounding does not swap numbers, so that a larger fraction never keeps less; and nothing
overflows, as long as the capacity has a finite number nearest to it.

* `Population.quota`, `quotaCount_mono`, `keptCount_eq` — how many programs a fraction keeps;
* `Population.SelectedFrom`, `select_selected` — a first part that no dropped program belongs in;
* `Population.rank_then_select` — ranking and selection together;
* `Population.select_overflows` — a capacity that is too large.
-/

namespace RegisterEvolution.Population

open Binary64

variable {s : Store} {p r : Population} {capacity : Int} {gap gap' : Float}

/-! ## How many programs are kept -/

/-- What is rounded up to the number of programs that are kept. -/
def quota (capacity : Int) (gap : Float) : Float := gap * Decimal.ofInt capacity - roundingSlack

/-- The number of programs that are kept of a finite quota. -/
def quotaCount (capacity : Int) (gap : Float) : Nat := (max 1 ⌈valueOf (quota capacity gap)⌉).toNat

theorem slack_fraction : roundingSlack.isFinite = true ∧ 0 ≤ valueOf roundingSlack ∧ valueOf roundingSlack ≤ 1 :=
  valueOf_fraction (by decide) (by decide)

theorem abs_valueOf_le (x : Float) : |valueOf x| ≤ greatest := abs_value_le (canonical_toModel x)

/-- A fraction of a number is what the exact product is rounded to. -/
theorem fraction_mul_rounds {x : Float} (h0 : 0.0 ≤ gap) (h1 : gap ≤ 1.0) (hx : x.isFinite = true) :
    (gap * x).isFinite = true ∧ Rounds (valueOf gap * valueOf x) (valueOf (gap * x)) := by
  obtain ⟨hgap, hlow, hhigh⟩ := valueOf_fraction h0 h1
  apply mul_rounds hgap hx
  calc |valueOf gap * valueOf x| = valueOf gap * |valueOf x| := by rw [abs_mul, abs_of_nonneg hlow]
    _ ≤ 1 * |valueOf x| := mul_le_mul_of_nonneg_right hhigh (abs_nonneg _)
    _ ≤ greatest := by rw [one_mul]; exact abs_valueOf_le x
    _ < overflow := by linarith [greatest_add_one_lt]

/-- So is what is left of a number without the slack. -/
theorem sub_slack_rounds {x : Float} (hx : x.isFinite = true) : (x - roundingSlack).isFinite = true ∧
    Rounds (valueOf x - valueOf roundingSlack) (valueOf (x - roundingSlack)) := by
  obtain ⟨hslack, hlow, hhigh⟩ := slack_fraction
  apply sub_rounds hx hslack
  calc |valueOf x - valueOf roundingSlack| ≤ |valueOf x| + |valueOf roundingSlack| := abs_sub _ _
    _ ≤ greatest + 1 := add_le_add (abs_valueOf_le x) (by rwa [abs_of_nonneg hlow])
    _ < overflow := greatest_add_one_lt

section Quota

variable (hcapacity : capacity.natAbs < (2 ^ 54 - 1) * 2 ^ 970) (h0 : 0.0 ≤ gap) (h1 : gap ≤ 1.0)

include hcapacity h0 h1

theorem isFinite_quota : (quota capacity gap).isFinite = true :=
  (sub_slack_rounds (fraction_mul_rounds h0 h1 (isFinite_ofInt hcapacity)).1).1

/-- **A fraction of a capacity keeps at least one program, and as many as its quota rounded up.** -/
theorem keptCount_eq : keptCount capacity gap = .ok (quotaCount capacity gap) := by
  obtain ⟨d, hd⟩ := shape_of_finite (isFinite_quota hcapacity h0 h1)
  unfold quotaCount
  rw [← ceil_eq hd]
  unfold quota at hd
  unfold keptCount
  simp only [ofInt?_eq hcapacity, hd]

/-- **A larger fraction does not keep fewer programs.** -/
theorem quotaCount_mono (h0' : 0.0 ≤ gap') (h1' : gap' ≤ 1.0) (hle : gap ≤ gap') :
    quotaCount capacity gap ≤ quotaCount capacity gap' := by
  have hx := isFinite_ofInt hcapacity
  obtain ⟨hgap, hlow, -⟩ := valueOf_fraction h0 h1
  obtain ⟨hgap', -, -⟩ := valueOf_fraction h0' h1'
  obtain ⟨hproduct, hrounds⟩ := fraction_mul_rounds h0 h1 hx
  obtain ⟨hproduct', hrounds'⟩ := fraction_mul_rounds h0' h1' hx
  obtain ⟨-, hquota⟩ := sub_slack_rounds hproduct
  obtain ⟨-, hquota'⟩ := sub_slack_rounds hproduct'
  unfold quotaCount quota
  rcases le_total 0 (valueOf (Decimal.ofInt capacity)) with hpos | hneg
  · -- neither rounding swaps the two quotas
    have hexact := mul_le_mul_of_nonneg_right (valueOf_le hgap hgap' hle) hpos
    have hvalue := hquota.mono hquota' (sub_le_sub_right (hrounds.mono hrounds' hexact) _)
    exact Int.toNat_le_toNat (max_le_max_left 1 (Int.ceil_le_ceil hvalue))
  · -- a negative capacity has no positive quota
    have hvalue := hrounds.mono .zero (mul_nonpos_of_nonneg_of_nonpos hlow hneg)
    have hleast := hquota.mono .zero (sub_nonpos.mpr (hvalue.trans slack_fraction.2.1))
    rw [max_eq_left ((Int.ceil_le.mpr (by exact_mod_cast hleast)).trans Int.one_nonneg)]
    exact Int.toNat_le_toNat (le_max_left 1 _)

end Quota

/-! ## Ranking and selection -/

/-- A ranking `r` of a population `p`: the best programs come first and the unscored ones last, and programs of the same
    fitness, or of none, are in the order that they had. -/
structure RankingOf (s : Store) (r p : Population) : Prop where
  perm : r.programs.Perm p.programs
  capacity_eq : r.capacity = p.capacity
  generation_eq : r.generation = p.generation
  sorted : r.programs.Pairwise fun a b => ∀ y, s.fitness b = some y → ∃ x, s.fitness a = some x ∧ y ≤ x
  stable : ∀ q ∈ p.programs, r.programs.filter (fun a => s.fitness a == s.fitness q) =
    p.programs.filter fun a => s.fitness a == s.fitness q

/-- A selection from a ranked population `r`: a first part of it. Where a scored program is left out, every selected one
    is scored, too, and at least as good. -/
structure SelectedFrom (s : Store) (pool r : Population) : Prop where
  front : pool.programs <+: r.programs
  capacity_eq : pool.capacity = r.capacity
  generation_eq : pool.generation = r.generation
  unsurpassed : ∀ a ∈ pool.programs, ∀ b ∈ r.programs.drop pool.size, ∀ y, s.fitness b = some y →
    ∃ x, s.fitness a = some x ∧ y ≤ x

theorem rank_rankingOf (h : FiniteScores s p.programs) : (p.rank s).RankingOf s p where
  perm := rank_perm s p
  capacity_eq := rfl
  generation_eq := rfl
  sorted := by
    refine (rank_standings h).imp_of_mem ?_
    intro a b ha hb hle
    exact (standing_le_iff (h.perm (rank_perm s p).symm) ha hb).mp hle
  stable := by
    intro q hq
    -- the programs of the same fitness are those of the same standing
    have hsame : ∀ ps : List Program, (∀ a ∈ ps, a ∈ p.programs) →
        ps.filter (fun a => s.fitness a == s.fitness q) = ps.filter fun a => decide (standing s a = standing s q) := by
      intro ps hps
      apply List.filter_congr
      intro a ha
      rw [eq_comm, Bool.eq_iff_iff, decide_eq_true_iff]
      exact standing_eq_iff h (hps a ha) hq
    rw [hsame _ fun a ha => (rank_perm s p).mem_iff.mp ha, hsame _ fun a ha => ha, rank_filter h]

/-- **Nothing that selection drops belongs in front of what it keeps.** -/
theorem select_selected (h : FiniteScores s r.programs)
    (hsorted : r.programs.Pairwise fun a b => standing s a ≤ standing s b) {kept : Nat}
    (hkept : keptCount r.capacity gap = .ok kept) :
    ∃ pool, r.select gap = .ok pool ∧ pool.programs = r.programs.take kept ∧ pool.SelectedFrom s r := by
  refine ⟨{ r with programs := r.programs.take kept }, ?_, rfl, List.take_prefix kept r.programs, rfl, rfl, ?_⟩
  · unfold select
    rw [hkept]
    rfl
  · intro a ha b hb
    obtain ⟨rest, hrest⟩ := List.take_prefix kept r.programs
    have hdropped : r.programs.drop (r.programs.take kept).length = rest :=
      (congrArg (List.drop _) hrest.symm).trans List.drop_left
    have hb : b ∈ rest := hdropped ▸ hb
    rw [← hrest] at hsorted
    refine (standing_le_iff h (List.mem_of_mem_take ha) ?_).mp ((List.pairwise_append.mp hsorted).2.2 a ha b hb)
    rw [← hrest]
    exact List.mem_append_right _ hb

/--
**Ranking and selection.** For every population whose scores are finite numbers, as far as there are any:

* ranking puts the same programs in order, as `RankingOf` says, and ranking them again changes nothing;
* the best program is the same before and after ranking, and it is ranked first if there is any score;
* for a capacity that has a finite number nearest to it, every fraction above zero selects a first part of the ranked
  population, as `SelectedFrom` says, of as many programs as its quota rounded up, at least one and at most all;
* a larger fraction selects all of these, too.
-/
theorem rank_then_select (h : ∀ q ∈ p.programs, ∀ x, s.fitness q = some x → x.isFinite = true) :
    (p.rank s).RankingOf s p ∧ (p.rank s).rank s = p.rank s ∧ (p.rank s).best? s = p.best? s ∧
      ((∃ q ∈ p.programs, s.fitness q ≠ none) →
        ∃ best, p.best? s = some best ∧ (p.rank s).programs.head? = some best) ∧
      (p.capacity.natAbs < (2 ^ 54 - 1) * 2 ^ 970 → ∀ gap : Float, 0.0 < gap → gap ≤ 1.0 →
        (quota p.capacity gap).isFinite = true ∧
          ∃ pool, (p.rank s).select gap = .ok pool ∧ pool.SelectedFrom s (p.rank s) ∧
            (pool.size : Int) = min (p.size : Int) (max 1 ⌈valueOf (quota p.capacity gap)⌉) ∧
            ∀ gap' : Float, gap ≤ gap' → gap' ≤ 1.0 →
              ∃ pool', (p.rank s).select gap' = .ok pool' ∧ pool.programs <+: pool'.programs) := by
  have hfinite : FiniteScores s p.programs := h
  have hfinite' : FiniteScores s (p.rank s).programs := hfinite.perm (rank_perm s p).symm
  refine ⟨rank_rankingOf hfinite, rank_rank p hfinite, best?_rank hfinite, ?_, ?_⟩
  · rintro ⟨q, hq, hx⟩
    obtain ⟨best, hbest⟩ := Option.ne_none_iff_exists'.mp fun hempty => hx (best?_eq_none.mp hempty q hq)
    exact ⟨best, hbest, best?_eq_head?_rank hfinite ⟨q, hq, hx⟩ ▸ hbest⟩
  · intro hcapacity gap hpos h1
    have h0 := le_of_lt_float hpos
    have hselect : ∀ gap' : Float, 0.0 ≤ gap' → gap' ≤ 1.0 → ∃ pool, (p.rank s).select gap' = .ok pool ∧
        pool.programs = (p.rank s).programs.take (quotaCount p.capacity gap') ∧ pool.SelectedFrom s (p.rank s) :=
      fun gap' h0' h1' => select_selected hfinite' (rank_standings hfinite) (keptCount_eq hcapacity h0' h1')
    obtain ⟨pool, hpool, hprograms, hselected⟩ := hselect gap h0 h1
    refine ⟨isFinite_quota hcapacity h0 h1, pool, hpool, hselected, ?_, ?_⟩
    · have hcount : (quotaCount p.capacity gap : Int) = max 1 ⌈valueOf (quota p.capacity gap)⌉ :=
        Int.toNat_of_nonneg (Int.one_nonneg.trans (le_max_left 1 _))
      have hsize : pool.size = min (quotaCount p.capacity gap) p.size := by
        unfold size
        rw [hprograms, List.length_take, (rank_perm s p).length_eq]
      rw [hsize, Nat.cast_min, hcount, min_comm]
    · intro gap' hle h1'
      have hgap := (valueOf_fraction h0 h1).1
      have hgap' := isFinite_of_between (c := 1.0) hgap rfl hle h1'
      have h0' : 0.0 ≤ gap' := le_trans_of_finite rfl hgap hgap' h0 hle
      obtain ⟨pool', hpool', hprograms', -⟩ := hselect gap' h0' h1'
      refine ⟨pool', hpool', ?_⟩
      rw [hprograms, hprograms']
      exact List.take_prefix_take_left (quotaCount_mono hcapacity h0 h1 h0' h1' hle)

/-- Programs of which two are equally good and one is not scored. -/
def partlyScored (capacity : Int) : Population :=
  let shape : Shape := ⟨8, some 2, some 1, some 1, none, 0.1, 0.5, 10.0, .single⟩
  ⟨[0, 1, 2, 3].map fun id => ⟨id, [⟨"mov", 1, 0, .external, none⟩], shape⟩, capacity, 7⟩

/-- Their scores. -/
def partScores : Store :=
  ⟨#[some ⟨none, .zeros 2 1⟩, some ⟨some 1.5, .zeros 2 1⟩, some ⟨some 2.0, .zeros 2 1⟩, some ⟨some 1.5, .zeros 2 1⟩]⟩

theorem partScores_finite (capacity : Int) :
    ∀ q ∈ (partlyScored capacity).programs, ∀ x, partScores.fitness q = some x → x.isFinite = true := by
  intro q hq x hx
  obtain ⟨id, hid, rfl⟩ := List.mem_map.mp hq
  fin_cases hid
  · exact nomatch hx
  · exact Option.some.inj hx ▸ rfl
  · exact Option.some.inj hx ▸ rfl
  · exact Option.some.inj hx ▸ rfl

/-- Half of a capacity of four is selected, and then all of it. -/
theorem rank_then_select_half :
    ∃ best pool pool', (partlyScored 4).best? partScores = some best ∧
      ((partlyScored 4).rank partScores).programs.head? = some best ∧
      ((partlyScored 4).rank partScores).select 0.5 = .ok pool ∧
      ((partlyScored 4).rank partScores).select 1.0 = .ok pool' ∧ pool.programs <+: pool'.programs := by
  obtain ⟨-, -, -, hbest, hselect⟩ := rank_then_select (partScores_finite 4)
  have hscored : ∃ q ∈ (partlyScored 4).programs, partScores.fitness q ≠ none :=
    ⟨_, List.mem_cons_of_mem _ (List.mem_cons_self ..), Option.some_ne_none 1.5⟩
  obtain ⟨best, hbest, hhead⟩ := hbest hscored
  obtain ⟨-, pool, hpool, -, -, hlarger⟩ := hselect (by decide +kernel) 0.5 (by decide) (by decide)
  obtain ⟨pool', hpool', hfront⟩ := hlarger 1.0 (by decide) (by decide)
  exact ⟨best, pool, pool', hbest, hhead, hpool, hpool', hfront⟩

/-- Selection fails when no finite number is nearest to the capacity. -/
theorem select_overflows :
    (∀ q ∈ (partlyScored (2 ^ 1024)).programs, ∀ x, partScores.fitness q = some x → x.isFinite = true) ∧
      (0.0 : Float) < 0.5 ∧ (0.5 : Float) ≤ 1.0 ∧
      ((partlyScored (2 ^ 1024)).rank partScores).select 0.5 = .error .integerTooLarge := by
  refine ⟨partScores_finite _, by decide, by decide, ?_⟩
  have hnone : Decimal.ofInt? (2 ^ 1024) = none := by decide +kernel
  have hkept : keptCount (2 ^ 1024) 0.5 = .error .integerTooLarge := by
    unfold keptCount
    rw [hnone]
  show (keptCount (2 ^ 1024) 0.5 >>= _) = _
  rw [hkept]
  rfl

end RegisterEvolution.Population
