import RegisterEvolution.Proofs.Binary64.Extended
import RegisterEvolution.Proofs.Outcome
import RegisterEvolution.Tasks.Control

/-!
# `Proofs.Tasks.Median` — the upper median of the rewards of episodes

A program is worth the upper median of what its episodes come to. That is the member of the list that as many others
are beside, on either side, as a middle allows; where the list has an even length, it is the larger one of the two. So
it does not matter in which order the episodes are played, and it does not do harm to do better in one of them.

* `UpperMedian` — the upper median of a list, by counting;
* `UpperMedian.le` — a list with fewer members below any bound does not have a smaller upper median;
* `Control.Played` — what the episodes of an evaluation come to;
* `evaluate_upperMedian` — the score is the upper median, in any order of the episodes, and monotone in each.
-/

namespace RegisterEvolution

open Binary64

/-! ## Places in an ascending list -/

/-- What is at a place of an ascending list is not exceeded up to there, and nothing from there on is less. -/
theorem countP_of_ascending {l : List Int} (h : l.Pairwise (· ≤ ·)) {k : Nat} {v : Int} (hv : l[k]? = some v) :
    k + 1 ≤ l.countP (fun x => decide (x ≤ v)) ∧ l.length - k ≤ l.countP (fun x => decide (v ≤ x)) := by
  obtain ⟨hk, hget⟩ := List.getElem?_eq_some_iff.mp hv
  have hpairs := List.pairwise_iff_getElem.mp h
  have hfirst : ∀ x ∈ l.take (k + 1), decide (x ≤ v) = true := by
    intro x hx
    obtain ⟨i, hi, rfl⟩ := List.mem_take_iff_getElem.mp hx
    have hle : i ≤ k := by omega
    rcases hle.eq_or_lt with rfl | hlt
    · simp [hget]
    · simpa [hget] using hpairs i k (by omega) hk hlt
  have hrest : ∀ x ∈ l.drop k, decide (v ≤ x) = true := by
    intro x hx
    obtain ⟨i, hi, rfl⟩ := List.mem_drop_iff_getElem.mp hx
    rcases Nat.eq_zero_or_pos i with rfl | hpos
    · simp [hget]
    · simpa [hget] using hpairs k (k + i) hk (by omega) (by omega)
  constructor
  · calc k + 1 = (l.take (k + 1)).length := by rw [List.length_take]; omega
      _ = (l.take (k + 1)).countP (fun x => decide (x ≤ v)) := (List.countP_eq_length.mpr hfirst).symm
      _ ≤ l.countP (fun x => decide (x ≤ v)) := (List.take_sublist _ _).countP_le
  · calc l.length - k = (l.drop k).length := List.length_drop.symm
      _ = (l.drop k).countP (fun x => decide (v ≤ x)) := (List.countP_eq_length.mpr hrest).symm
      _ ≤ l.countP (fun x => decide (v ≤ x)) := (List.drop_sublist _ _).countP_le

/-! ## Medians -/

/-- A list of numbers. -/
def Numbers (l : List Float) : Prop := ∀ x ∈ l, x.isNaN = false

/-- A larger number in place of another one. -/
theorem Numbers.set {l : List Float} {i : Nat} {r s : Float} (h : Numbers l) (hle : r ≤ s) : Numbers (l.set i s) := by
  intro z hz
  rcases List.mem_or_eq_of_mem_set hz with hz | rfl
  · exact h z hz
  · exact (isNaN_of_le hle).2

/-- A member of a list that half of the list and one more do not exceed, and that is not above the other half. -/
structure UpperMedian (l : List Float) (x : Float) : Prop where
  mem : x ∈ l
  notAbove : l.length / 2 + 1 ≤ l.countP (fun y => decide (y ≤ x))
  notBelow : l.length - l.length / 2 ≤ l.countP (fun y => decide (x ≤ y))

section Medians

variable {l l' : List Float} {x y : Float}

/-- Counting numbers is counting places. -/
theorem countP_place (hl : Numbers l) (hx : x.isNaN = false) :
    l.countP (fun y => decide (y ≤ x)) = (l.map placeOf).countP (fun v => decide (v ≤ placeOf x)) ∧
      l.countP (fun y => decide (x ≤ y)) = (l.map placeOf).countP (fun v => decide (placeOf x ≤ v)) := by
  constructor
  · rw [List.countP_map]
    refine List.countP_congr fun y hy => ?_
    simp [le_iff_place (hl y hy) hx]
  · rw [List.countP_map]
    refine List.countP_congr fun y hy => ?_
    simp [le_iff_place hx (hl y hy)]

/--
**A list with fewer members below any bound does not have a smaller upper median.** Otherwise the half of the one list
up to its median and the half of the other one from its median on would be too many.
-/
theorem UpperMedian.le (hx : UpperMedian l x) (hy : UpperMedian l' y) (hl : Numbers l) (hl' : Numbers l')
    (hlength : l'.length = l.length)
    (hcount : ∀ z, z.isNaN = false →
      l'.countP (fun y => decide (y ≤ z)) ≤ l.countP (fun y => decide (y ≤ z))) : x ≤ y := by
  have hxn := hl x hx.mem
  have hyn := hl' y hy.mem
  rw [le_iff_place hxn hyn]
  refine Int.not_lt.mp fun hlt => ?_
  have hlow := hcount y hyn
  have hhalf := hy.notAbove
  have hother := hx.notBelow
  rw [hlength] at hhalf
  rw [(countP_place hl hxn).2] at hother
  rw [(countP_place hl hyn).1] at hlow
  -- the members up to `y` are not among those from `x` on
  have hapart : (l.map placeOf).countP (fun v => decide (placeOf x ≤ v)) ≤
      (l.map placeOf).countP (fun v => decide ¬decide (v ≤ placeOf y) = true) := by
    refine List.countP_mono_left fun v _ hv => ?_
    have hv := of_decide_eq_true hv
    simp only [decide_eq_true_eq]
    omega
  have htotal := List.length_eq_countP_add_countP (fun v => decide (v ≤ placeOf y)) (l := l.map placeOf)
  simp only [List.length_map] at htotal
  omega

/-- Equal counts make equal medians. -/
theorem UpperMedian.beq_of_perm (hx : UpperMedian l x) (hy : UpperMedian l' y) (hl : Numbers l) (hperm : l'.Perm l) :
    (y == x) = true := by
  have hl' : Numbers l' := fun z hz => hl z (hperm.mem_iff.mp hz)
  have hxy := hx.le hy hl hl' hperm.length_eq fun z _ => (hperm.countP_eq _).le
  have hyx := hy.le hx hl' hl hperm.length_eq.symm fun z _ => (hperm.countP_eq _).ge
  have hxn := hl x hx.mem
  have hyn := hl' y hy.mem
  rw [le_iff_place hxn hyn] at hxy
  rw [le_iff_place hyn hxn] at hyx
  exact (beq_iff_place hyn hxn).mpr (Int.le_antisymm hyx hxy)

/-- A larger member in place of another one leaves fewer below any bound. -/
theorem countP_set_le {i : Nat} {r s z : Float} (hi : l[i]? = some r) (hle : r ≤ s) (hz : z.isNaN = false) :
    (l.set i s).countP (fun y => decide (y ≤ z)) ≤ l.countP (fun y => decide (y ≤ z)) := by
  obtain ⟨hlt, rfl⟩ := List.getElem?_eq_some_iff.mp hi
  obtain ⟨hr, hs⟩ := isNaN_of_le hle
  rw [List.countP_set hlt]
  by_cases hsz : s ≤ z
  · have hrz : l[i] ≤ z := by
      rw [le_iff_place hr hs] at hle
      rw [le_iff_place hs hz] at hsz
      exact (le_iff_place hr hz).mpr (hle.trans hsz)
    have hpos : 0 < l.countP (fun y => decide (y ≤ z)) :=
      List.countP_pos_iff.mpr ⟨_, List.getElem_mem hlt, decide_eq_true hrz⟩
    simp only [hrz, hsz, decide_true, if_true]
    omega
  · simp only [hsz, decide_false, Bool.false_eq_true, if_false]
    omega

/-- **To raise a member does not lower the upper median.** -/
theorem UpperMedian.le_of_set {i : Nat} {r s : Float} (hx : UpperMedian l x) (hy : UpperMedian (l.set i s) y)
    (hl : Numbers l) (hi : l[i]? = some r) (hle : r ≤ s) : x ≤ y :=
  hx.le hy hl (hl.set hle) List.length_set fun _ hz => countP_set_le hi hle hz

end Medians

namespace Control

variable {σ τ α : Type} {c : Control σ} {p : Program} {b b' : Bench σ} {x : Float} {scores : List Float}

/-! ## Sorted rewards -/

/-- Rewards are sorted by their places. -/
theorem rewardLe_eq (r s : Float) : rewardLe r s = decide (placeOf r ≤ placeOf s) := by
  have hlast {z : Float} (hz : z.isNaN = true) : placeOf z = 2049 * 2 ^ 53 := by
    have hz : z.toModel.unpack.isNaN = true := hz
    unfold placeOf
    cases hu : z.toModel.unpack with
    | notANumber => rfl
    | _ => rw [hu] at hz; exact nomatch hz
  unfold rewardLe
  cases hs : s.isNaN with
  | true =>
      -- nothing is behind what is not a number
      have hle : placeOf r ≤ placeOf s := by
        rw [hlast hs]
        cases hr : r.isNaN with
        | true => exact (hlast hr).le
        | false => exact (place_lt_of_isNaN (canonical_toModel r) hr).le
      simp [hle]
  | false =>
      cases hr : r.isNaN with
      | true =>
          have hlt : ¬ placeOf r ≤ placeOf s := by
            rw [hlast hr]
            exact Int.not_le.mpr (place_lt_of_isNaN (canonical_toModel s) hs)
          simp [hlt]
      | false => simp [le_iff_place hr hs]

/-- Sorting puts the places into ascending order. -/
theorem sorted_places (scores : List Float) : ((scores.mergeSort rewardLe).map placeOf).Pairwise (· ≤ ·) := by
  rw [List.pairwise_map]
  have hsorted : (scores.mergeSort rewardLe).Pairwise fun r s => rewardLe r s = true := by
    apply List.pairwise_mergeSort
    · intro r s t
      simp only [rewardLe_eq, decide_eq_true_eq]
      exact Int.le_trans
    · intro r s
      simp only [rewardLe_eq, Bool.or_eq_true, decide_eq_true_eq]
      exact Int.le_total _ _
  refine hsorted.imp fun h => ?_
  rwa [rewardLe_eq, decide_eq_true_eq] at h

/-- **The middle of the sorted rewards is their upper median.** -/
theorem upperMedian_spec (hne : scores ≠ []) (hnumbers : Numbers scores) : UpperMedian scores (upperMedian scores) := by
  have hperm : (scores.mergeSort rewardLe).Perm scores := List.mergeSort_perm ..
  have hpos := List.length_pos_of_ne_nil hne
  have hmiddle : scores.length / 2 < (scores.mergeSort rewardLe).length := by
    rw [hperm.length_eq]
    omega
  have hget : (scores.mergeSort rewardLe)[scores.length / 2]? = some (upperMedian scores) := by
    unfold upperMedian
    rw [List.getD_eq_getElem?_getD, List.getElem?_eq_getElem hmiddle]
    rfl
  have hmem : upperMedian scores ∈ scores := hperm.mem_iff.mp (List.mem_of_getElem? hget)
  have hcounts := countP_of_ascending (sorted_places scores) (by rw [List.getElem?_map, hget]; rfl)
  have hplaces := countP_place hnumbers (hnumbers _ hmem)
  rw [(hperm.map placeOf).countP_eq, (hperm.map placeOf).countP_eq, ← hplaces.1, ← hplaces.2, List.length_map,
    hperm.length_eq] at hcounts
  exact ⟨hmem, hcounts.1, hcounts.2⟩

/-! ## Evaluations -/

/-- The episodes of an evaluation come to the given rewards, in an environment that is set up before and put away after
    them. -/
def Played (c : Control σ) (p : Program) (b : Bench σ) (scores : List Float) (b' : Bench σ) : Prop :=
  ∃ made played closed, c.environment.make b.world = .ok () made ∧
    c.episodes p c.runs c.seed { b with world := made } = .ok scores played ∧
    c.environment.close played.world = .ok () closed ∧ b' = { played with world := closed }

theorem onWorld_eq_ok {m : EStateM Error σ α} {a : α} :
    Scoring.onWorld m b = .ok a b' ↔ ∃ w, m b.world = .ok a w ∧ b' = { b with world := w } := by
  unfold Scoring.onWorld
  cases m b.world with
  | ok a w => simp [eq_comm]
  | error e w => simp

theorem andFinally_eq_ok {body : Scoring σ α} {last : Scoring σ Unit} {a : α} :
    Scoring.andFinally body last b = .ok a b' ↔ ∃ b₁, body b = .ok a b₁ ∧ last b₁ = .ok () b' := by
  unfold Scoring.andFinally
  cases body b with
  | ok a' b₁ => cases hlast : last b₁ with
    | ok u b₂ => simp [hlast, and_assoc]
    | error e b₂ => simp [hlast]
  | error e b₁ => cases hlast : last b₁ with
    | ok u b₂ => simp [hlast]
    | error e' b₂ => simp [hlast]

/-- An evaluation scores the upper median of what the episodes come to, and does not score otherwise. -/
theorem evaluate_eq_ok_iff : c.evaluate p b = .ok x b' ↔ ∃ scores, c.Played p b scores b' ∧ x = upperMedian scores := by
  unfold evaluate Played
  simp only [bind_eq_ok, onWorld_eq_ok, andFinally_eq_ok]
  constructor
  · rintro ⟨⟨⟩, _, ⟨made, hmake, rfl⟩, scores, _, ⟨played, hepisodes, closed, hclose, rfl⟩, h⟩
    obtain ⟨rfl, rfl⟩ := EStateM.Result.ok.inj h
    exact ⟨scores, ⟨made, played, closed, hmake, hepisodes, hclose, rfl⟩, rfl⟩
  · rintro ⟨scores, ⟨made, played, closed, hmake, hepisodes, hclose, rfl⟩, rfl⟩
    exact ⟨(), _, ⟨made, hmake, rfl⟩, scores, _, ⟨played, hepisodes, closed, hclose, rfl⟩, rfl⟩

/-- As many rewards as there are episodes. -/
theorem episodes_length {n : Nat} {seed : Int} (h : c.episodes p n seed b = .ok scores b') : scores.length = n := by
  induction n generalizing scores seed b b' with
  | zero =>
      obtain ⟨rfl, -⟩ := EStateM.Result.ok.inj h
      rfl
  | succ n ih =>
      obtain ⟨score, _, -, h⟩ := bind_eq_ok.mp h
      obtain ⟨rest, _, hrest, h⟩ := bind_eq_ok.mp h
      obtain ⟨rfl, -⟩ := EStateM.Result.ok.inj h
      exact congrArg Nat.succ (ih hrest)

/-- **The score of a program is the upper median of its episodes.** It does not depend on their order, also when they
    are played elsewhere or by another program, and one that comes to more does not lower it. -/
theorem evaluate_upperMedian (hplayed : c.Played p b scores b') (hruns : 1 ≤ c.runs) (hnumbers : Numbers scores) :
    scores.length = c.runs ∧ ∃ x, c.evaluate p b = .ok x b' ∧ UpperMedian scores x ∧
      ∀ (τ : Type) (d : Control τ) (q : Program) (t t' : Bench τ) (others : List Float) (y : Float),
        d.Played q t others t' → d.evaluate q t = .ok y t' →
        (others.Perm scores → (y == x) = true) ∧
          ∀ i r s, scores[i]? = some r → r ≤ s → others = scores.set i s → x ≤ y := by
  have hlength : scores.length = c.runs := by
    obtain ⟨_, _, _, -, hepisodes, -⟩ := hplayed
    exact episodes_length hepisodes
  have hne : scores ≠ [] := List.ne_nil_of_length_pos (by omega)
  have hmedian := upperMedian_spec hne hnumbers
  refine ⟨hlength, upperMedian scores, evaluate_eq_ok_iff.mpr ⟨scores, hplayed, rfl⟩, hmedian, ?_⟩
  intro τ d q t t' others y hothers hy
  obtain rfl : y = upperMedian others := by
    have hscore := evaluate_eq_ok_iff.mpr ⟨others, hothers, rfl⟩
    exact (EStateM.Result.ok.inj (hy.symm.trans hscore)).1
  constructor
  · intro hperm
    have hmedian' := upperMedian_spec (fun h => hne (List.nil_perm.mp (h ▸ hperm))) fun z hz =>
      hnumbers z (hperm.mem_iff.mp hz)
    exact hmedian.beq_of_perm hmedian' hnumbers hperm
  · rintro i r s hi hle rfl
    have hne' : scores.set i s ≠ [] := by simpa using hne
    have hmedian' := upperMedian_spec hne' (hnumbers.set hle)
    exact hmedian.le_of_set hmedian' hnumbers hi hle

/-- An environment whose episodes are of one step, which pays what the seed is worth. -/
def payingEnvironment (pay : Int → Int) : Environment Int where
  make := pure ()
  reset seed := do
    set seed
    return .list [.float 0.0]
  step _ := do return ⟨.null, .int (pay (← get)), true⟩
  close := pure ()

/-- Four episodes of a program of no instructions, with seeds from one on. -/
def fourEpisodes (pay : Int → Int) : Control Int := ⟨payingEnvironment pay, 1, 1, 4, 10, 1⟩

/-- A program of no instructions for one input and one action. -/
def idleProgram : Program := ⟨0, [], ⟨1, some 1, some 1, some 1, none, 0.1, 0.5, 10.0, .single⟩⟩

/-- Where it is run. -/
def idleBench : Bench Int := ⟨⟨#[0.0], #[0.0]⟩, 0⟩

/-- The score of rewards from one to four is as well that of the same rewards the other way round, and not above that of
    rewards which begin with seven. -/
theorem evaluate_upperMedian_four :
    ∃ x b', (fourEpisodes id).evaluate idleProgram idleBench = .ok x b' ∧ UpperMedian [1.0, 2.0, 3.0, 4.0] x ∧
      (∃ y b'', (fourEpisodes fun seed => 5 - seed).evaluate idleProgram idleBench = .ok y b'' ∧ (y == x) = true) ∧
      ∃ y b'', (fourEpisodes fun seed => if seed = 1 then 7 else seed).evaluate idleProgram idleBench = .ok y b'' ∧
        x ≤ y := by
  let b' : Bench Int := ⟨idleBench.registers, 4⟩
  have hplayed : (fourEpisodes id).Played idleProgram idleBench [1.0, 2.0, 3.0, 4.0] b' :=
    ⟨0, b', 4, rfl, rfl, rfl, rfl⟩
  have hreversed : (fourEpisodes fun seed => 5 - seed).Played idleProgram idleBench [4.0, 3.0, 2.0, 1.0] b' :=
    ⟨0, b', 4, rfl, rfl, rfl, rfl⟩
  have hraised : (fourEpisodes fun seed => if seed = 1 then 7 else seed).Played idleProgram idleBench
      [7.0, 2.0, 3.0, 4.0] b' :=
    ⟨0, b', 4, rfl, rfl, rfl, rfl⟩
  have hnumbers : Numbers [1.0, 2.0, 3.0, 4.0] := by
    unfold Numbers
    decide +kernel
  obtain ⟨-, x, hx, hmedian, hothers⟩ := evaluate_upperMedian hplayed (by decide) hnumbers
  refine ⟨x, b', hx, hmedian, ⟨_, b', evaluate_eq_ok_iff.mpr ⟨_, hreversed, rfl⟩, ?_⟩,
    _, b', evaluate_eq_ok_iff.mpr ⟨_, hraised, rfl⟩, ?_⟩
  · exact (hothers _ _ _ _ _ _ _ hreversed (evaluate_eq_ok_iff.mpr ⟨_, hreversed, rfl⟩)).1
      (List.reverse_perm [1.0, 2.0, 3.0, 4.0])
  · exact (hothers _ _ _ _ _ _ _ hraised (evaluate_eq_ok_iff.mpr ⟨_, hraised, rfl⟩)).2 0 1.0 7.0 rfl
      (by decide +kernel) rfl

end Control

end RegisterEvolution
