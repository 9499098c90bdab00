import RegisterEvolution.Decimal.Layout
import RegisterEvolution.Decimal.Reader
import RegisterEvolution.Proofs.Decimal.Binary
import RegisterEvolution.Proofs.Decimal.Shortest
import RegisterEvolution.Proofs.Text.Numeral

/-!
# `Proofs.Decimal.Layout` — what the texts of binary64 numbers stand for

A number is written as digits with a point and an exponent, both of which may be missing. Wherever they are put, the
text stands for the rational number of the digits that were selected, so that different numbers have different texts.

* `Numeral`, `Numeral.denoted_eq` — an unsigned text, and the rational number that it stands for;
* `numeral_place` — whichever way digits are laid out, their number is the same;
* `decimal_significant` — trailing zeros do not matter;
* `numeral_magnitude`, `Selects.eq` — the text of a finite number stands for one that is selected for no other;
* `isNumeral_of_mem_write` — the characters of a finite number;
* `floatText_inj` — no two numbers have the same text.
-/

namespace RegisterEvolution.Decimal

variable {cs digits whole fraction power : List Char} {leading : Int} {n : Nat}

/-! ## Digits -/

/-- The natural number of decimal digits. -/
def natural (digits : List Char) : Nat := Nat.ofDigitChars 10 digits 0

theorem natural_append (cs ds : List Char) : natural (cs ++ ds) = 10 ^ ds.length * natural cs + natural ds := by
  unfold natural
  rw [Nat.ofDigitChars_append, Nat.ofDigitChars_eq_ofDigitChars_zero]

theorem natural_replicate (n : Nat) : natural (List.replicate n '0') = 0 := by
  rw [natural, Nat.ofDigitChars_replicate_zero, Nat.mul_zero]

theorem natural_digitsOf (n : Nat) : natural (digitsOf n) = n := by
  rw [natural, digitsOf, Nat.toList_repr, Nat.ofDigitChars_ten_toDigits]

theorem natural_padded (width n : Nat) : natural (padded width n) = n := by
  simp only [padded]
  rw [natural_append, natural_replicate, Nat.mul_zero, Nat.zero_add, natural_digitsOf]

/-- Only digits, and at least one. -/
structure Digits (cs : List Char) : Prop where
  ne_nil : cs ≠ []
  isDigit : ∀ c ∈ cs, c.isDigit = true

theorem digits_digitsOf (n : Nat) : Digits (digitsOf n) := by
  refine ⟨?_, fun _ => isDigit_of_mem_repr⟩
  rw [digitsOf, Nat.toList_repr]
  exact Nat.toDigits_ne_nil

theorem isDigit_of_mem_padded {width : Nat} : ∀ c ∈ padded width n, c.isDigit = true := by
  intro c h
  simp only [padded] at h
  cases List.mem_append.mp h with
  | inl h =>
      rw [List.eq_of_mem_replicate h]
      rfl
  | inr h => exact isDigit_of_mem_repr h

/-! ## Unsigned texts -/

/-- The exponent that an exponent part stands for; without one it is zero. -/
def exponentOf : List Char → Int
  | _ :: '-' :: digits => -natural digits
  | _ :: _ :: digits => natural digits
  | _ => 0

/-- The rational number of an unsigned text: digits, perhaps a point among them, and an exponent or not. -/
def denoted (cs : List Char) : ℚ :=
  let body := cs.takeWhile (· != 'e')
  let whole := body.takeWhile (· != '.')
  let fraction := (body.dropWhile (· != '.')).drop 1
  natural (whole ++ fraction) * 10 ^ (exponentOf (cs.dropWhile (· != 'e')) - fraction.length)

theorem ne_of_isDigit {c d : Char} (h : c.isDigit = true) (hd : d.isDigit = false) : (c != d) = true := by
  rw [bne_iff_ne]
  rintro rfl
  exact nomatch h.symm.trans hd

theorem mem_pointed {c : Char} (h : c ∈ pointed whole fraction) : c ∈ whole ∨ c = '.' ∨ c ∈ fraction := by
  unfold pointed at h
  split at h
  · exact .inl h
  · cases List.mem_append.mp h with
    | inl h => exact .inl h
    | inr h => exact .inr (List.mem_cons.mp h)

/-- The point divides a text, if there is one. -/
theorem pointed_divided (fraction : List Char) (hwhole : ∀ c ∈ whole, c.isDigit = true) :
    (pointed whole fraction).takeWhile (· != '.') = whole ∧
      ((pointed whole fraction).dropWhile (· != '.')).drop 1 = fraction := by
  have hpoint : ∀ c ∈ whole, (c != '.') = true := fun c h => ne_of_isDigit (hwhole c h) rfl
  unfold pointed
  split
  · rename_i hempty
    obtain rfl := List.isEmpty_iff.mp hempty
    refine ⟨List.takeWhile_eq_self_iff.mpr hpoint, ?_⟩
    rw [List.dropWhile_eq_nil_iff.mpr hpoint]
    rfl
  · rw [List.takeWhile_append_of_pos hpoint, List.dropWhile_append_of_pos hpoint]
    exact ⟨List.append_nil _, rfl⟩

/-- Whether a number may be written with `c`. -/
def isNumeral (c : Char) : Bool := c.isDigit || c == '.' || c == 'e' || c == '-' || c == '+'

/-- A text of digits, perhaps with a point among them and an exponent part, and the rational number of it. -/
inductive Numeral (text : List Char) (q : ℚ) : Prop
  | parts (whole fraction power : List Char) (htext : text = pointed whole fraction ++ power)
      (hvalue : q = natural (whole ++ fraction) * 10 ^ (exponentOf power - fraction.length)) (hwhole : Digits whole)
      (hfraction : ∀ c ∈ fraction, c.isDigit = true) (hpower : power = [] ∨ ∃ k, power = exponentPart 'e' k)

namespace Numeral

variable {text : List Char} {q : ℚ}

/-- A text stands for one number only. -/
theorem denoted_eq (h : Numeral text q) : denoted text = q := by
  obtain ⟨whole, fraction, power, rfl, rfl, hwhole, hfraction, hpower⟩ := h
  have hbody : ∀ c ∈ pointed whole fraction, (c != 'e') = true := by
    intro c h
    obtain h | rfl | h := mem_pointed h
    · exact ne_of_isDigit (hwhole.isDigit c h) rfl
    · rfl
    · exact ne_of_isDigit (hfraction c h) rfl
  have hends : power.takeWhile (· != 'e') = [] ∧ power.dropWhile (· != 'e') = power := by
    obtain rfl | ⟨k, rfl⟩ := hpower
    · exact ⟨rfl, rfl⟩
    · exact ⟨rfl, rfl⟩
  obtain ⟨hbefore, hbehind⟩ := pointed_divided fraction hwhole.isDigit
  simp only [denoted, List.takeWhile_append_of_pos hbody, List.dropWhile_append_of_pos hbody, hends.1, hends.2,
    List.append_nil, hbefore, hbehind]

/-- A number is written in digits, points, exponent marks and signs. -/
theorem isNumeral (h : Numeral text q) : ∀ c ∈ text, isNumeral c = true := by
  obtain ⟨whole, fraction, power, rfl, -, hwhole, hfraction, hpower⟩ := h
  have hdigit {c : Char} (hc : c.isDigit = true) : Decimal.isNumeral c = true := by
    unfold Decimal.isNumeral
    rw [hc]
    rfl
  intro c hc
  obtain hc | hc := List.mem_append.mp hc
  · obtain hc | rfl | hc := mem_pointed hc
    · exact hdigit (hwhole.isDigit c hc)
    · rfl
    · exact hdigit (hfraction c hc)
  · obtain rfl | ⟨k, rfl⟩ := hpower
    · exact nomatch hc
    · cases List.mem_cons.mp hc with
      | inl hc =>
          rw [hc]
          rfl
      | inr hc =>
          cases List.mem_cons.mp hc with
          | inl hc =>
              rw [hc]
              split <;> rfl
          | inr hc => exact hdigit (isDigit_of_mem_padded c hc)

/-- A number begins with a digit. -/
theorem exists_cons (h : Numeral text q) : ∃ c rest, text = c :: rest ∧ c.isDigit = true := by
  obtain ⟨whole, fraction, power, rfl, -, hwhole, -, -⟩ := h
  obtain ⟨c, rest, rfl⟩ := List.exists_cons_of_ne_nil hwhole.ne_nil
  have hdigit := hwhole.isDigit c List.mem_cons_self
  unfold pointed
  split
  · exact ⟨c, _, rfl, hdigit⟩
  · exact ⟨c, _, rfl, hdigit⟩

end Numeral

/-! ## Digits laid out -/

/-- The rational number of digits, the first of which has the exponent `leading`. -/
def decimal (digits : List Char) (leading : Int) : ℚ := natural digits * 10 ^ (leading + 1 - digits.length)

/-- Zeros behind digits make up for a smaller exponent. -/
theorem natural_mul_zpow {m n k : Nat} {a b : Int} (hm : m = 10 ^ k * n) (h : a + k = b) :
    (n : ℚ) * 10 ^ b = m * 10 ^ a := by
  rw [hm, ← h, zpow_add₀ (by norm_num), zpow_natCast]
  push_cast
  ring

/-- An exponent part stands for its exponent. -/
theorem exponentOf_exponentPart (k : Int) : exponentOf (exponentPart 'e' k) = k := by
  unfold exponentPart
  split
  · show -(natural (padded 2 k.natAbs) : Int) = k
    rw [natural_padded]
    omega
  · show (natural (padded 2 k.natAbs) : Int) = k
    rw [natural_padded]
    omega

theorem isDigit_of_mem_replicate {k : Nat} : ∀ c ∈ List.replicate k '0', c.isDigit = true := by
  intro c h
  rw [List.eq_of_mem_replicate h]
  rfl

theorem isDigit_of_mem_append {ds : List Char} (hcs : ∀ c ∈ cs, c.isDigit = true) (hds : ∀ c ∈ ds, c.isDigit = true) :
    ∀ c ∈ cs ++ ds, c.isDigit = true := fun c h => (List.mem_append.mp h).elim (hcs c) (hds c)

/-- Digits behind zeros and a point. -/
theorem numeral_small (h : Digits digits) (hneg : leading < 0) :
    Numeral ('0' :: '.' :: (List.replicate (-leading - 1).toNat '0' ++ digits)) (decimal digits leading) := by
  have hnonempty : (List.replicate (-leading - 1).toNat '0' ++ digits).isEmpty = false := by
    rw [List.isEmpty_eq_false_iff]
    exact List.append_ne_nil_of_right_ne_nil _ h.ne_nil
  have hnatural : natural (['0'] ++ (List.replicate (-leading - 1).toNat '0' ++ digits)) = 10 ^ 0 * natural digits := by
    rw [natural_append, natural_append, natural_replicate]
    show _ * 0 + _ = _
    omega
  refine .parts ['0'] (List.replicate (-leading - 1).toNat '0' ++ digits) [] ?_ (natural_mul_zpow hnatural ?_)
    ⟨List.cons_ne_nil _ _, isDigit_of_mem_replicate (k := 1)⟩
    (isDigit_of_mem_append isDigit_of_mem_replicate h.isDigit) (.inl rfl)
  · rw [pointed, hnonempty, List.append_nil]
    rfl
  · rw [List.length_append, List.length_replicate]
    show (0 : Int) - _ + (0 : ℕ) = _
    omega

/-- Digits that go on behind the point. -/
theorem numeral_divided (h : Digits digits) {size : Nat} (hsize : 0 < size) (hlong : size < digits.length) :
    Numeral (pointed (digits.take size) (digits.drop size)) (decimal digits (size - 1)) := by
  have hnatural : natural (digits.take size ++ digits.drop size) = 10 ^ 0 * natural digits := by
    rw [List.take_append_drop, pow_zero, one_mul]
  refine .parts (digits.take size) (digits.drop size) [] (List.append_nil _).symm (natural_mul_zpow hnatural ?_)
    ⟨?_, fun c hc => h.isDigit c (List.mem_of_mem_take hc)⟩ (fun c hc => h.isDigit c (List.mem_of_mem_drop hc))
    (.inl rfl)
  · rw [List.length_drop]
    show (0 : Int) - _ + (0 : ℕ) = _
    omega
  · rw [Ne, List.take_eq_nil_iff]
    exact not_or.mpr ⟨by omega, h.ne_nil⟩

/-- Digits that end in front of the point, with zeros as far as there and perhaps some behind it. -/
theorem numeral_whole (h : Digits digits) {size k : Nat} (hlong : digits.length ≤ size) :
    Numeral (pointed (digits ++ List.replicate (size - digits.length) '0') (List.replicate k '0'))
      (decimal digits (size - 1)) := by
  have hnatural : natural ((digits ++ List.replicate (size - digits.length) '0') ++ List.replicate k '0') =
      10 ^ (size - digits.length + k) * natural digits := by
    rw [List.append_assoc, List.replicate_append_replicate, natural_append, natural_replicate, List.length_replicate]
    rfl
  refine .parts _ _ [] (List.append_nil _).symm (natural_mul_zpow hnatural ?_)
    ⟨List.append_ne_nil_of_left_ne_nil h.ne_nil _, isDigit_of_mem_append h.isDigit isDigit_of_mem_replicate⟩
    isDigit_of_mem_replicate (.inl rfl)
  rw [List.length_replicate]
  show (0 : Int) - _ + (_ : ℕ) = _
  omega

theorem numeral_positional (h : Digits digits) (keepsPoint : Bool) :
    Numeral (positional keepsPoint digits leading) (decimal digits leading) := by
  by_cases hneg : leading < 0
  · rw [positional, if_pos hneg]
    exact numeral_small h hneg
  · obtain ⟨place, rfl⟩ : ∃ place : Nat, leading = (place + 1 : ℕ) - 1 := ⟨leading.toNat, by omega⟩
    have hplace : (((place + 1 : ℕ) : Int) - 1).toNat = place := by omega
    rw [positional, if_neg hneg, hplace]
    by_cases hlong : place + 1 < digits.length
    · have hnonempty : (digits.drop (place + 1)).isEmpty = false := by
        rw [List.isEmpty_eq_false_iff, Ne, List.drop_eq_nil_iff]
        omega
      have hzeros : List.replicate (place + 1 - digits.length) '0' = [] := by
        rw [Nat.sub_eq_zero_of_le hlong.le]
        rfl
      simp only [hnonempty, hzeros, List.append_nil, Bool.false_and]
      exact numeral_divided h (Nat.succ_pos place) hlong
    · have hshort : digits.length ≤ place + 1 := Nat.le_of_not_lt hlong
      simp only [List.drop_eq_nil_of_le hshort, List.take_of_length_le hshort, List.isEmpty_nil, Bool.true_and]
      cases keepsPoint with
      | true => exact numeral_whole h (k := 1) hshort
      | false => exact numeral_whole h (k := 0) hshort

theorem numeral_withExponent (h : Digits digits) : Numeral (withExponent digits leading) (decimal digits leading) := by
  obtain ⟨c, rest, rfl⟩ := List.exists_cons_of_ne_nil h.ne_nil
  refine .parts [c] rest (exponentPart 'e' leading) rfl ?_
    ⟨List.cons_ne_nil _ _, fun a ha => h.isDigit a (List.mem_singleton.mp ha ▸ List.mem_cons_self)⟩
    (fun a ha => h.isDigit a (List.mem_cons_of_mem c ha)) (.inr ⟨leading, rfl⟩)
  have hexponent : leading - (rest.length : Int) = leading + 1 - ((c :: rest).length : Nat) := by
    rw [List.length_cons]
    omega
  rw [exponentOf_exponentPart, hexponent]
  rfl

/-- Wherever the point is put, and whether there is an exponent or not, the number is that of the digits. -/
theorem numeral_place (layout : Layout) (h : Digits digits) :
    Numeral (layout.place digits leading) (decimal digits leading) := by
  unfold Layout.place
  split
  · exact numeral_positional h layout.keepsPoint
  · exact numeral_withExponent h

/-! ## Trailing zeros -/

/-- What is dropped at the end of digits is zeros. -/
theorem exists_dropTrailingZeros (digits : List Char) :
    ∃ k, digits = dropTrailingZeros digits ++ List.replicate k '0' := by
  refine ⟨(digits.reverse.takeWhile (· == '0')).reverse.length, ?_⟩
  have hzeros : (digits.reverse.takeWhile (· == '0')).reverse =
      List.replicate (digits.reverse.takeWhile (· == '0')).reverse.length '0' := by
    refine List.eq_replicate_of_mem fun c hc => ?_
    exact beq_iff_eq.mp (List.mem_takeWhile_imp (p := (· == '0')) (List.mem_reverse.mp hc))
  rw [← hzeros, dropTrailingZeros, ← List.reverse_append, List.takeWhile_append_dropWhile, List.reverse_reverse]

/-- Trailing zeros do not matter to a number. -/
theorem decimal_dropTrailingZeros (digits : List Char) (leading : Int) :
    decimal (dropTrailingZeros digits) leading = decimal digits leading := by
  obtain ⟨k, hk⟩ := exists_dropTrailingZeros digits
  have hlength : digits.length = (dropTrailingZeros digits).length + k := by
    conv_lhs => rw [hk]
    rw [List.length_append, List.length_replicate]
  have hnatural : natural digits = 10 ^ k * natural (dropTrailingZeros digits) := by
    conv_lhs => rw [hk]
    rw [natural_append, natural_replicate, List.length_replicate, Nat.add_zero]
  exact natural_mul_zpow hnatural (by omega)

theorem digits_dropTrailingZeros (h : Digits digits) (hpos : 0 < natural digits) :
    Digits (dropTrailingZeros digits) := by
  obtain ⟨k, hk⟩ := exists_dropTrailingZeros digits
  refine ⟨fun hnil => ?_, fun c hc => h.isDigit c ?_⟩
  · rw [hnil, List.nil_append] at hk
    rw [hk, natural_replicate] at hpos
    exact absurd hpos (Nat.lt_irrefl 0)
  · rw [hk]
    exact List.mem_append_left _ hc

/-- The significant digits of a scientific form stand for it. -/
theorem decimal_significant (s : Scientific) : decimal s.significant.1 s.significant.2 = s.value := by
  show decimal (dropTrailingZeros (digitsOf s.coefficient)) (s.exponent + (digitsOf s.coefficient).length - 1) = _
  have hexponent : s.exponent + ((digitsOf s.coefficient).length : Int) - 1 + 1 - (digitsOf s.coefficient).length =
      s.exponent := by omega
  rw [decimal_dropTrailingZeros, decimal, natural_digitsOf, hexponent, Scientific.value]

/-! ## Finite numbers -/

/-- The digits that are written for a magnitude, and the exponent of the first one. -/
def selected (mantissa : Nat) (exponent : Int) : List Char × Int :=
  if mantissa = 0 then (['0'], 0) else (shortest mantissa exponent).significant

/-- The text of a magnitude. -/
def Layout.magnitude (layout : Layout) (d : Dyadic) : List Char :=
  layout.place (selected d.mantissa d.exponent).1 (selected d.mantissa d.exponent).2

/-- A finite number is written as a sign and a magnitude. -/
theorem write_finite (layout : Layout) {x : Float} {d : Dyadic} (h : Shape.ofFloat x = .finite d) :
    layout.write x = String.ofList (signed d.negative (layout.magnitude d)) := by
  obtain ⟨negative, mantissa, exponent⟩ := d
  unfold Layout.write Layout.magnitude selected
  rw [h]
  cases mantissa with
  | zero => rfl
  | succ n => rfl

/-- A number that is selected for a magnitude: zero for zero, else one in its rounding interval. -/
inductive Selects (d : Dyadic) (q : ℚ) : Prop
  | zero (hd : d.mantissa = 0) (hleast : d.exponent = -1074) (hq : q = 0)
  | normal (hd : Normal d.mantissa d.exponent) (hq : (Rounding.ofPower d.mantissa d.exponent).Covers q)

/-- The mantissa and the exponent of a finite number. -/
theorem zero_or_normal {x : Float} {d : Dyadic} (h : Shape.ofFloat x = .finite d) :
    d.mantissa = 0 ∧ d.exponent = -1074 ∨ Normal d.mantissa d.exponent := by
  simp only [Shape.ofFloat, Nat.pow_eq] at h
  split at h
  · split at h <;> exact nomatch h
  split at h
  · obtain rfl := Shape.finite.inj h
    by_cases hzero : x.toBits.toNat % 2 ^ 52 = 0
    · exact .inl ⟨hzero, rfl⟩
    · refine .inr ⟨?_, ?_, le_rfl, .inr rfl⟩ <;> simp only <;> omega
  · obtain rfl := Shape.finite.inj h
    refine .inr ⟨?_, ?_, ?_, .inl ?_⟩ <;> simp only <;> omega

/-- The text of a magnitude stands for a number that is selected for it. -/
theorem numeral_magnitude (layout : Layout) {x : Float} {d : Dyadic} (h : Shape.ofFloat x = .finite d) :
    ∃ q, Numeral (layout.magnitude d) q ∧ Selects d q := by
  unfold Layout.magnitude selected
  cases zero_or_normal h with
  | inl hzero =>
      rw [if_pos hzero.1]
      have hzeros : Digits ['0'] := ⟨List.cons_ne_nil _ _, isDigit_of_mem_replicate (k := 1)⟩
      refine ⟨_, numeral_place layout hzeros, .zero hzero.1 hzero.2 ?_⟩
      have hnatural : natural ['0'] = 0 := natural_replicate 1
      simp only [decimal, hnatural, Nat.cast_zero, zero_mul]
  | inr hnormal =>
      rw [if_neg hnormal.pos.ne']
      have hcovers := (Rounding.contains_iff (Rounding.denominator_ofPower_pos _ _)).mp
        (contains_shortest hnormal.pos hnormal.lt (e := d.exponent))
      have hcoefficient : 0 < (shortest d.mantissa d.exponent).coefficient := by
        have hvalue := hnormal.pos_of_covers hcovers
        rw [Scientific.value, mul_pos_iff_of_pos_right (ten_zpow_pos _)] at hvalue
        exact_mod_cast hvalue
      refine ⟨_, numeral_place layout (digits_dropTrailingZeros (digits_digitsOf _) ?_), .normal hnormal ?_⟩
      · rwa [natural_digitsOf]
      · rwa [decimal_significant]

/-- The characters of a finite number. -/
theorem isNumeral_of_mem_write (layout : Layout) {x : Float} {d : Dyadic} (h : Shape.ofFloat x = .finite d) :
    ∀ c ∈ (layout.write x).toList, isNumeral c = true := by
  intro c hc
  obtain ⟨q, hnumeral, -⟩ := numeral_magnitude layout h
  rw [write_finite layout h, String.toList_ofList, signed] at hc
  split at hc
  · cases List.mem_cons.mp hc with
    | inl hc =>
        rw [hc]
        rfl
    | inr hc => exact hnumeral.isNumeral c hc
  · exact hnumeral.isNumeral c hc

/-- A number is selected for one magnitude only. -/
theorem Selects.eq {d d' : Dyadic} {q : ℚ} (h : Selects d q) (h' : Selects d' q)
    (hsign : d.negative = d'.negative) : d = d' := by
  have hparts : d.mantissa = d'.mantissa ∧ d.exponent = d'.exponent := by
    cases h with
    | zero hd hleast hq =>
        cases h' with
        | zero hd' hleast' _ => exact ⟨hd.trans hd'.symm, hleast.trans hleast'.symm⟩
        | normal hd' hq' => exact absurd hq (hd'.pos_of_covers hq').ne'
    | normal hd hq =>
        cases h' with
        | zero _ _ hq' => exact absurd hq' (hd.pos_of_covers hq).ne'
        | normal hd' hq' => exact hd.eq_of_covers hd' hq hq'
  obtain ⟨negative, mantissa, exponent⟩ := d
  obtain ⟨negative', mantissa', exponent'⟩ := d'
  simp only at hsign hparts
  rw [hsign, hparts.1, hparts.2]

/-! ## All numbers -/

/-- A sign is read as it is written, in front of what does not begin with one itself. -/
theorem takeSign_signed {negative : Bool} {c : Char} (hminus : c ≠ '-') (hplus : c ≠ '+') :
    takeSign (signed negative (c :: cs)) = (negative, c :: cs) := by
  cases negative with
  | true => rfl
  | false =>
      show takeSign (c :: cs) = _
      unfold takeSign
      split
      · rename_i h
        exact absurd (List.cons.inj h).1 hminus
      · rename_i h
        exact absurd (List.cons.inj h).1 hplus
      · rfl

variable {x y : Float}

/-- The text of a finite number, without its sign, and the number that it stands for. -/
theorem takeSign_floatText {d : Dyadic} (h : Shape.ofFloat x = .finite d) :
    ∃ text q, takeSign (floatText x).toList = (d.negative, text) ∧ Numeral text q ∧ Selects d q := by
  obtain ⟨q, hnumeral, hselects⟩ := numeral_magnitude .plain h
  obtain ⟨c, rest, htext, hdigit⟩ := hnumeral.exists_cons
  refine ⟨Layout.plain.magnitude d, q, ?_, hnumeral, hselects⟩
  rw [floatText, write_finite _ h, String.toList_ofList, htext]
  exact takeSign_signed (fun hc => nomatch (hc ▸ hdigit : '-'.isDigit = true))
    (fun hc => nomatch (hc ▸ hdigit : '+'.isDigit = true))

theorem takeSign_floatText_infinite {negative : Bool} (h : Shape.ofFloat x = .infinite negative) :
    takeSign (floatText x).toList = (negative, ['i', 'n', 'f']) := by
  rw [floatText, Layout.write, h, String.toList_ofList]
  exact takeSign_signed (by decide) (by decide)

/-- A word is no number. -/
theorem Numeral.ne_infinity {text : List Char} {q : ℚ} (h : Numeral text q) : text ≠ ['i', 'n', 'f'] := by
  rintro rfl
  obtain ⟨c, rest, htext, hdigit⟩ := h.exists_cons
  obtain rfl := (List.cons.inj htext).1
  exact nomatch hdigit

/-- The text of a number tells what it stands for. -/
theorem shape_eq_of_floatText (hx : Shape.ofFloat x ≠ .notANumber) (hy : Shape.ofFloat y ≠ .notANumber)
    (h : floatText x = floatText y) : Shape.ofFloat x = Shape.ofFloat y := by
  cases hxs : Shape.ofFloat x with
  | notANumber => exact absurd hxs hx
  | infinite negative =>
      have htext := takeSign_floatText_infinite hxs
      cases hys : Shape.ofFloat y with
      | notANumber => exact absurd hys hy
      | infinite negative' =>
          rw [h, takeSign_floatText_infinite hys] at htext
          rw [(Prod.mk.inj htext).1]
      | finite d' =>
          obtain ⟨text, q, htext', hnumeral, -⟩ := takeSign_floatText hys
          rw [h, htext'] at htext
          exact absurd (Prod.mk.inj htext).2 hnumeral.ne_infinity
  | finite d =>
      -- The same text stands for one rational number, and that is selected for one magnitude.
      obtain ⟨text, q, htext, hnumeral, hselects⟩ := takeSign_floatText hxs
      cases hys : Shape.ofFloat y with
      | notANumber => exact absurd hys hy
      | infinite negative' =>
          rw [h, takeSign_floatText_infinite hys] at htext
          exact absurd (Prod.mk.inj htext).2.symm hnumeral.ne_infinity
      | finite d' =>
          obtain ⟨text', q', htext', hnumeral', hselects'⟩ := takeSign_floatText hys
          rw [h, htext'] at htext
          obtain ⟨hsign, rfl⟩ := Prod.mk.inj htext
          obtain rfl : q' = q := hnumeral'.denoted_eq.symm.trans hnumeral.denoted_eq
          rw [hselects.eq hselects' hsign.symm]

/-- **No two numbers have the same text.** -/
theorem floatText_inj (hx : x.isNaN = false) (hy : y.isNaN = false) : floatText x = floatText y ↔ x = y := by
  refine ⟨fun h => ?_, fun h => h ▸ rfl⟩
  have hshape := shape_eq_of_floatText (shape_ne_notANumber hx) (shape_ne_notANumber hy) h
  exact eq_of_shape (shape_ne_notANumber hx) hshape

end RegisterEvolution.Decimal
