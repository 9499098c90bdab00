import RegisterEvolution.Proofs.Binary64.Magnitude
import RegisterEvolution.Proofs.Binary64.Nearest

/-!
# `Proofs.Binary64.Arithmetic` — products, sums and differences are monotone

A product, a sum or a difference is computed exactly and then rounded to a number of the format. Rounding keeps the
order of rational numbers, and so do the operations, as long as the exact result is not out of range: what is out of
range is packed up as an infinity.

* `Rounds`, `Rounds.mono` — rounding of rational numbers;
* `Rounded` — parts that a rational number is rounded to, before it is known whether there is room for them;
* `mul_rounds`, `sub_rounds`, `add_rounds` — products, differences and sums of finite numbers;
* `isFinite_ofInt`, `ofInt?_eq` — the integers that have a finite number nearest to them;
* `valueOf_fraction` — the numbers between zero and one.
-/

namespace RegisterEvolution.Binary64

open Float.Model Float.Model.UnpackedFloat

/-! ## Rational numbers -/

/-- A dyadic rational number is rounded to a number of the format, the exponent being unlimited. -/
inductive Rounds : ℚ → ℚ → Prop where
  | zero : Rounds 0 0
  | positive {m : Nat} {e : Int} (hm : 0 < m) (hdrop : Droppable m e) : Rounds (m * 2 ^ e) (nearest m e)
  | negative {m : Nat} {e : Int} (hm : 0 < m) (hdrop : Droppable m e) : Rounds (-(m * 2 ^ e)) (-nearest m e)

namespace Rounds

theorem of_sign {m : Nat} {e : Int} (s : Sign) (hm : 0 < m) (hdrop : Droppable m e) :
    Rounds (unit s * (m * 2 ^ e)) (unit s * nearest m e) := by
  cases s with
  | negative =>
      rw [unit, neg_one_mul, neg_one_mul]
      exact .negative hm hdrop
  | positive =>
      rw [unit, one_mul, one_mul]
      exact .positive hm hdrop

/-- What has a place in the format is not changed. -/
theorem refl {u : UnpackedFloat} (h : Canonical u) : Rounds (value u) (value u) := by
  cases u with
  | notANumber => exact .zero
  | infinity s => exact .zero
  | zero s => exact .zero
  | finite s m e hm =>
      obtain ⟨hdrop, hnearest⟩ := nearest_of_canonical h
      have hrounds := Rounds.of_sign s hm hdrop
      rw [hnearest] at hrounds
      exact hrounds

theorem one : Rounds 1 1 := by
  have hrefl := Rounds.refl (canonical_toModel 1.0)
  rwa [show value (1.0 : Float).toModel.unpack = 1 from valueOf_one] at hrefl

/-- **A larger number is not rounded to a smaller one.** -/
theorem mono {p q r t : ℚ} (hp : Rounds p r) (hq : Rounds q t) (h : p ≤ q) : r ≤ t := by
  cases hp with
  | zero =>
      cases hq with
      | zero => exact le_refl 0
      | positive hn he => exact nearest_nonneg _ _
      | @negative n e hn he => exact absurd h (by have := value_pos (e := e) hn; linarith)
  | @positive m d hm hd =>
      have hpos := value_pos (e := d) hm
      cases hq with
      | zero => exact absurd h (by linarith)
      | positive hn he => exact nearest_mono hm hn hd he h
      | @negative n e hn he => exact absurd h (by have := value_pos (e := e) hn; linarith)
  | @negative m d hm hd =>
      have hnonpos : -nearest m d ≤ 0 := neg_nonpos.mpr (nearest_nonneg m d)
      cases hq with
      | zero => exact hnonpos
      | positive hn he => exact hnonpos.trans (nearest_nonneg _ _)
      | negative hn he => exact neg_le_neg (nearest_mono hn hm he hd (neg_le_neg_iff.mp h))

end Rounds

/-! ## Rounded parts -/

/-- A mantissa that is brought to a smaller exponent. -/
theorem shiftLeft_mul_zpow (m : Nat) {d e : Int} (h : d ≤ e) :
    ((m <<< (e - d).toNat : ℕ) : ℚ) * 2 ^ d = m * 2 ^ e := by
  rw [Nat.shiftLeft_eq, mul_zpow_eq m h]

theorem abs_unit_mul (s : Sign) (q : ℚ) : |unit s * q| = |q| := by
  cases s with
  | negative => rw [unit, neg_one_mul, abs_neg]
  | positive => rw [unit, one_mul]

/-- Parts as rounding yields them. There is room for them unless the exponent is too large. -/
def Normal : UnpackedFloat → Prop
  | .finite _ m e _ => m < 2 ^ 53 ∧ -1074 ≤ e ∧ (2 ^ 52 ≤ m ∨ e = -1074)
  | _ => True

theorem Canonical.normal {u : UnpackedFloat} (h : Canonical u) : Normal u := by
  cases u with
  | notANumber | infinity | zero => trivial
  | finite s m e hm => exact ⟨h.1, h.2.1, h.2.2.2⟩

/-- **Parts for which there is no room are packed up as an infinity.** -/
theorem Normal.canonical {u : UnpackedFloat} (h : Normal u)
    (hfinite : (Float.ofModel (Float.Model.pack u)).isFinite = true) : Canonical u := by
  cases u with
  | notANumber | infinity | zero => trivial
  | finite s m e hm =>
      obtain ⟨hlt, hmin, hform⟩ := h
      refine ⟨hlt, hmin, Int.not_lt.mp fun hlarge => ?_, hform⟩
      have hpack : UnpackedFloat.pack format (.finite s m e hm) = UnpackedFloat.pack format (.infinity s) := by
        have hbias : e + (format.exponentBias : Int) + (format.mantissaBitsWithoutImplicit : Int) = e + 1075 := by
          rw [Int.add_assoc, bias_eq]
        simp only [UnpackedFloat.pack, hbias]
        rw [if_pos (by show 2 ^ 11 ≤ _; omega)]
      have hunpack : (Float.ofModel (Float.Model.pack (.finite s m e hm))).toModel.unpack = .infinity s := by
        refine Eq.trans ?_ (unpack_ofModel (u := .infinity s) trivial)
        exact congrArg (UnpackedFloat.unpack format) hpack
      rw [isFinite_iff, hunpack] at hfinite
      exact Bool.false_ne_true hfinite

theorem normal_roundWithAccuracy {m : Nat} {e : Int} (s : Sign) (hm : 0 < m) (hdrop : Droppable m e) :
    Normal (roundWithAccuracy format s m e .exact) ∧ (roundWithAccuracy format s m e .exact).isFinite = true := by
  obtain ⟨k, hk⟩ := hdrop.exists_shift
  have hmin : -1074 ≤ lastPlace m e := le_max_right _ _
  rcases roundWithAccuracy_cases s hm hk with ⟨-, heq⟩ | ⟨hc, hlt, hlong, heq⟩ | ⟨-, heq⟩
  · rw [heq]
    exact ⟨trivial, rfl⟩
  · rw [heq]
    exact ⟨⟨hlt, hmin, hlong⟩, rfl⟩
  · rw [heq]
    exact ⟨⟨by decide, by omega, .inl (Nat.le_refl _)⟩, rfl⟩

/-- Finite parts that a rational number is rounded to, the exponent being unlimited. -/
structure Rounded (q : ℚ) (u : UnpackedFloat) : Prop where
  normal : Normal u
  finite : u.isFinite = true
  rounds : Rounds q (value u)
  canonical : |q| < overflow → Canonical u

namespace Rounded

theorem zero (s : Sign) : Rounded 0 (.zero s) := ⟨trivial, rfl, .zero, fun _ => trivial⟩

/-- Parts for which there is room already. -/
theorem refl {u : UnpackedFloat} (hu : u.isFinite = true) (cu : Canonical u) : Rounded (value u) u :=
  ⟨cu.normal, hu, .refl cu, fun _ => cu⟩

theorem roundWithAccuracy {m : Nat} {e : Int} (s : Sign) (hm : 0 < m) (hdrop : Droppable m e) :
    Rounded (unit s * (m * 2 ^ e)) (UnpackedFloat.roundWithAccuracy format s m e .exact) := by
  obtain ⟨hnormal, hfinite⟩ := normal_roundWithAccuracy s hm hdrop
  refine ⟨hnormal, hfinite, ?_, fun h => canonical_of_lt s hm hdrop ?_⟩
  · rw [value_roundWithAccuracy s hm hdrop]
    exact .of_sign s hm hdrop
  · rwa [abs_unit_mul, abs_of_pos (value_pos hm)] at h

theorem round {m : Nat} {e : Int} (s : Sign) (hm : 0 < m) :
    Rounded (unit s * (m * 2 ^ e)) (UnpackedFloat.round format s m e) := by
  obtain ⟨k, hround, hdrop⟩ := round_eq hm s e
  have hsame : ((m <<< k : ℕ) : ℚ) * 2 ^ (e - k) = m * 2 ^ e := by
    have hshift := shiftLeft_mul_zpow m (show e - k ≤ e by omega)
    rwa [show (e - (e - k)).toNat = k by omega] at hshift
  rw [hround, ← hsame]
  refine .roundWithAccuracy s ?_ hdrop
  rw [Nat.shiftLeft_eq]
  exact Nat.mul_pos hm (Nat.two_pow_pos k)

theorem normalize (m e : Int) (s : Sign) : Rounded (m * 2 ^ e) (UnpackedFloat.normalize format m e s) := by
  unfold UnpackedFloat.normalize
  rcases Int.lt_trichotomy m 0 with hm | rfl | hm
  · rw [Int.compare_eq_lt.mpr hm]
    have hcast : (m : ℚ) * 2 ^ e = unit .negative * (((-m).toNat : ℕ) * 2 ^ e) := by
      have hnat : (((-m).toNat : ℕ) : ℚ) = -m := by exact_mod_cast Int.toNat_of_nonneg (by omega : 0 ≤ -m)
      rw [hnat, unit]
      ring
    rw [hcast]
    exact .round .negative (by omega)
  · rw [Int.cast_zero, zero_mul]
    exact .zero s
  · rw [Int.compare_eq_gt.mpr hm]
    have hcast : (m : ℚ) * 2 ^ e = unit .positive * ((m.toNat : ℕ) * 2 ^ e) := by
      have hnat : ((m.toNat : ℕ) : ℚ) = m := by exact_mod_cast Int.toNat_of_nonneg (by omega : 0 ≤ m)
      rw [hnat, unit, one_mul]
    rw [hcast]
    exact .round .positive (by omega)

end Rounded

/-! ## Products, sums and differences -/

section Parts

variable {u v : UnpackedFloat} (hu : u.isFinite = true) (hv : v.isFinite = true) (cu : Canonical u) (cv : Canonical v)

include hu hv cu cv

theorem mul_rounded : Rounded (value u * value v) (UnpackedFloat.mul format u v) := by
  obtain ⟨s, rfl⟩ | ⟨s, m, e, hm, rfl⟩ := zero_or_finite hu
  · rw [value_zero, zero_mul]
    obtain ⟨t, rfl⟩ | ⟨t, n, d, hn, rfl⟩ := zero_or_finite hv
    · exact .zero (s * t)
    · exact .zero (s * t)
  · obtain ⟨t, rfl⟩ | ⟨t, n, d, hn, rfl⟩ := zero_or_finite hv
    · rw [value_zero, mul_zero]
      exact .zero (s * t)
    · have hproduct : value (.finite s m e hm) * value (.finite t n d hn) =
          unit (s * t) * ((m * n : ℕ) * 2 ^ (e + d)) := by
        rw [unit_mul, zpow_add₀ (by norm_num)]
        show unit s * (m * 2 ^ e) * (unit t * (n * 2 ^ d)) = _
        push_cast
        ring
      rw [hproduct]
      exact .roundWithAccuracy (s * t) (Nat.mul_pos hm hn) (droppable_mul cu cv)

theorem add_rounded : Rounded (value u + value v) (UnpackedFloat.add format u v) := by
  obtain ⟨s, rfl⟩ | ⟨s, m, e, hm, rfl⟩ := zero_or_finite hu
  · rw [value_zero, zero_add]
    obtain ⟨t, rfl⟩ | ⟨t, n, d, hn, rfl⟩ := zero_or_finite hv
    · cases s <;> cases t <;> exact .zero _
    · exact .refl hv cv
  · obtain ⟨t, rfl⟩ | ⟨t, n, d, hn, rfl⟩ := zero_or_finite hv
    · rw [value_zero, add_zero]
      exact .refl hu cu
    · have hsum : value (.finite s m e hm) + value (.finite t n d hn) =
          ((s.apply (m <<< (e - min e d).toNat : ℕ) + t.apply (n <<< (d - min e d).toNat : ℕ) : ℤ) : ℚ) *
            2 ^ min e d := by
        rw [Int.cast_add, cast_apply, cast_apply, add_mul, mul_assoc, mul_assoc, Int.cast_natCast, Int.cast_natCast,
          shiftLeft_mul_zpow m (min_le_left e d), shiftLeft_mul_zpow n (min_le_right e d)]
        rfl
      rw [hsum]
      exact .normalize _ _ _

end Parts

theorem value_neg (u : UnpackedFloat) : value u.neg = -value u := by
  cases u with
  | notANumber => exact neg_zero.symm
  | infinity s => exact neg_zero.symm
  | zero s => exact neg_zero.symm
  | finite s m e hm =>
      cases s with
      | negative => exact (value_positive m e hm).trans (by rw [value_negative, neg_neg])
      | positive => exact (value_negative m e hm).trans (by rw [value_positive])

/-- A difference is the sum with the negated number. -/
theorem sub_eq_add {u v : UnpackedFloat} (hu : u.isFinite = true) (hv : v.isFinite = true) :
    UnpackedFloat.sub format u v = UnpackedFloat.add format u v.neg := by
  obtain ⟨s, rfl⟩ | ⟨s, m, e, hm, rfl⟩ := zero_or_finite hu
  · obtain ⟨t, rfl⟩ | ⟨t, n, d, hn, rfl⟩ := zero_or_finite hv
    · cases s <;> cases t <;> rfl
    · rfl
  · obtain ⟨t, rfl⟩ | ⟨t, n, d, hn, rfl⟩ := zero_or_finite hv
    · rfl
    · have happly (k : ℤ) : (-t).apply k = -t.apply k := by
        cases t with
        | negative => exact (neg_neg k).symm
        | positive => rfl
      simp only [UnpackedFloat.sub, UnpackedFloat.add, UnpackedFloat.neg, happly, Int.sub_eq_add_neg]

theorem sub_rounded {u v : UnpackedFloat} (hu : u.isFinite = true) (hv : v.isFinite = true) (cu : Canonical u)
    (cv : Canonical v) : Rounded (value u - value v) (UnpackedFloat.sub format u v) := by
  have hneg : v.neg.isFinite = true ∧ Canonical v.neg := by
    obtain ⟨t, rfl⟩ | ⟨t, n, d, hn, rfl⟩ := zero_or_finite hv
    · exact ⟨rfl, trivial⟩
    · exact ⟨rfl, cv⟩
  rw [sub_eq_add hu hv, sub_eq_add_neg, ← value_neg]
  exact add_rounded hu hneg.1 cu hneg.2

section Numbers

variable {x y : Float}

/-- A number that is made out of rounded parts, if there is room for them. -/
theorem Rounded.isFinite_ofModel {q : ℚ} {u : UnpackedFloat} (h : Rounded q u) (hq : |q| < overflow) :
    (Float.ofModel (Float.Model.pack u)).isFinite = true := by
  rw [isFinite_iff, unpack_ofModel (h.canonical hq)]
  exact h.finite

theorem Rounded.rounds_ofModel {q : ℚ} {u : UnpackedFloat} (h : Rounded q u)
    (hfinite : (Float.ofModel (Float.Model.pack u)).isFinite = true) :
    Rounds q (valueOf (Float.ofModel (Float.Model.pack u))) := by
  unfold valueOf
  rw [unpack_ofModel (h.normal.canonical hfinite)]
  exact h.rounds

/-- **A product of finite numbers** that is not too large is the exact product, rounded. -/
theorem mul_rounds (hx : x.isFinite = true) (hy : y.isFinite = true) (h : |valueOf x * valueOf y| < overflow) :
    (x * y).isFinite = true ∧ Rounds (valueOf x * valueOf y) (valueOf (x * y)) := by
  have hrounded := mul_rounded hx hy (canonical_toModel x) (canonical_toModel y)
  have hfinite : (x * y).isFinite = true := hrounded.isFinite_ofModel h
  exact ⟨hfinite, hrounded.rounds_ofModel hfinite⟩

/-- **A difference of finite numbers** that is not too large is the exact difference, rounded. -/
theorem sub_rounds (hx : x.isFinite = true) (hy : y.isFinite = true) (h : |valueOf x - valueOf y| < overflow) :
    (x - y).isFinite = true ∧ Rounds (valueOf x - valueOf y) (valueOf (x - y)) := by
  have hrounded := sub_rounded hx hy (canonical_toModel x) (canonical_toModel y)
  have hfinite : (x - y).isFinite = true := hrounded.isFinite_ofModel h
  exact ⟨hfinite, hrounded.rounds_ofModel hfinite⟩

theorem isFinite_add (hx : x.isFinite = true) (hy : y.isFinite = true) (h : |valueOf x + valueOf y| < overflow) :
    (x + y).isFinite = true :=
  (add_rounded hx hy (canonical_toModel x) (canonical_toModel y)).isFinite_ofModel h

/-- **A finite sum** is the exact sum of finite numbers, rounded. -/
theorem add_rounds (hx : x.isFinite = true) (hy : y.isFinite = true) (h : (x + y).isFinite = true) :
    Rounds (valueOf x + valueOf y) (valueOf (x + y)) :=
  (add_rounded hx hy (canonical_toModel x) (canonical_toModel y)).rounds_ofModel h

end Numbers

/-! ## Integers and fractions -/

/-- A large integer is rounded. -/
theorem exists_rounded_ofNat {n : Nat} (hlarge : 2 ^ 53 ≤ n) :
    ∃ u, Decimal.ofNat n = Float.ofModel (Float.Model.pack u) ∧ Rounded n u := by
  have hofNat : Decimal.ofNat n = Float.ofModel (Float.Model.pack (UnpackedFloat.ofScientific format n 0)) := by
    unfold Decimal.ofNat Float.ofScientific
    rw [dif_neg fun hfast => Nat.not_lt.mpr hlarge hfast.1]
    rfl
  have hpos : 0 < n := by omega
  have hlog : (0 : Int) ≤ (n.log2 : Int) := Int.natCast_nonneg _
  -- the integer is given fifty-three bits behind the point, which rounding drops again
  have hparts : UnpackedFloat.ofScientific format n 0 =
      UnpackedFloat.roundWithAccuracy format .positive (n <<< 53) (-53) .exact := by
    unfold UnpackedFloat.ofScientific
    rw [dif_neg (by omega), if_neg (by decide), if_neg (by show ¬ (0 : Int) < -(2 ^ 11 + (n.log2 : Int)); omega),
      if_pos (Int.le_refl 0)]
    show UnpackedFloat.roundWithAccuracy format (.positive * .positive) (n <<< 53 * 1) (-53 + 0) .exact = _
    rw [Nat.mul_one, Int.add_zero]
    rfl
  have hdrop : Droppable (n <<< 53) (-53) := by
    unfold Droppable
    rw [log2_shiftLeft hpos]
    omega
  have hvalue : ((n <<< 53 : ℕ) : ℚ) * 2 ^ (-53 : Int) = n := by
    have hshift := shiftLeft_mul_zpow n (show (-53 : Int) ≤ 0 by decide)
    rwa [zpow_zero, mul_one] at hshift
  have hrounded : Rounded (unit .positive * ((n <<< 53 : ℕ) * 2 ^ (-53 : Int)))
      (UnpackedFloat.roundWithAccuracy format .positive (n <<< 53) (-53) .exact) := by
    refine .roundWithAccuracy .positive ?_ hdrop
    rw [Nat.shiftLeft_eq]
    exact Nat.mul_pos hpos (Nat.two_pow_pos 53)
  rw [hvalue, unit, one_mul] at hrounded
  exact ⟨_, hofNat.trans (by rw [hparts]), hrounded⟩

theorem isFinite_ofNat {n : Nat} (h : (n : ℚ) < overflow) : (Decimal.ofNat n).isFinite = true := by
  by_cases hsmall : n < 2 ^ 53
  · exact (atMost_ofNat hsmall).within.isFinite
  · obtain ⟨u, hofNat, hrounded⟩ := exists_rounded_ofNat (Nat.le_of_not_lt hsmall)
    rw [hofNat]
    exact hrounded.isFinite_ofModel (by rwa [Nat.abs_cast])

/-- The integers that are not too large are below half a unit above the largest finite number. -/
theorem natAbs_lt_overflow {n : Int} (h : n.natAbs < (2 ^ 54 - 1) * 2 ^ 970) : (n.natAbs : ℚ) < overflow := by
  have hcast := (Nat.cast_lt (α := ℚ)).mpr h
  rw [Nat.cast_mul, Nat.cast_pow, Nat.cast_pred (Nat.two_pow_pos 54), Nat.cast_pow, Nat.cast_ofNat] at hcast
  unfold overflow
  rwa [zpow_ofNat]

/-- **Integers that are not too large have a finite number nearest to them.** -/
theorem isFinite_ofInt {n : Int} (h : n.natAbs < (2 ^ 54 - 1) * 2 ^ 970) : (Decimal.ofInt n).isFinite = true := by
  have hnat := isFinite_ofNat (natAbs_lt_overflow h)
  unfold Decimal.ofInt
  simp only
  split
  · exact isFinite_neg hnat
  · exact hnat

theorem ofInt?_eq {n : Int} (h : n.natAbs < (2 ^ 54 - 1) * 2 ^ 970) : Decimal.ofInt? n = some (Decimal.ofInt n) :=
  if_pos (isFinite_ofNat (natAbs_lt_overflow h))

/-- What lies between zero and one has a value between zero and one. -/
theorem valueOf_fraction {x : Float} (h0 : 0.0 ≤ x) (h1 : x ≤ 1.0) :
    x.isFinite = true ∧ 0 ≤ valueOf x ∧ valueOf x ≤ 1 := by
  have hx : x.isFinite = true := isFinite_of_between (b := 0.0) (c := 1.0) rfl rfl h0 h1
  have hlow := valueOf_le (x := 0.0) rfl hx h0
  have hhigh := valueOf_le (y := 1.0) hx rfl h1
  rw [valueOf_one] at hhigh
  exact ⟨hx, hlow, hhigh⟩

end RegisterEvolution.Binary64
