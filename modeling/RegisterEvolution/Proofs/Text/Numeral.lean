import Mathlib.Tactic.Ring
import RegisterEvolution.Decimal.Reader

/-!
# `Proofs.Text.Numeral` — integers read and written

Integers of more than 4300 digits are neither read nor written. All others are read again as they have been written, and
what has been read can be written again.

* `Text.ofDigits_lt`, `Decimal.natAbs_readInt?_lt` — what is read is not too long;
* `Text.takeDigits_toDigits` — the digits of a number are read to the end;
* `Decimal.readInt?_toString` — an integer is read as it has been written.
-/

namespace RegisterEvolution

/-! ## Integers that have been read -/

namespace Text

theorem digitValue?_lt {c : Char} {d : Nat} (h : digitValue? c = some d) : d < 10 := by
  obtain ⟨first, hfirst, rfl⟩ := Option.map_eq_some_iff.mp h
  have hrange := List.find?_some hfirst
  simp only [Bool.and_eq_true, decide_eq_true_eq] at hrange
  omega

theorem continueDigits_lt (afterDigit : Bool) (cs : List Char) : ∀ d ∈ (continueDigits afterDigit cs).1, d < 10 := by
  induction cs generalizing afterDigit with
  | nil => exact List.forall_mem_nil _
  | cons c rest ih =>
      unfold continueDigits
      split
      · exact ih false
      · split
        · exact List.forall_mem_nil _
        · rename_i d hd
          exact List.forall_mem_cons.mpr ⟨digitValue?_lt hd, ih true⟩

/-- As many digits stand for a number below that power of ten. -/
theorem ofDigits_lt {digits : List Nat} (h : ∀ d ∈ digits, d < 10) : ofDigits digits < 10 ^ digits.length := by
  have hfold : ∀ n, digits.foldl (fun n d => 10 * n + d) n < (n + 1) * 10 ^ digits.length := by
    induction digits with
    | nil => simp
    | cons d rest ih =>
        intro n
        have hd := h d (List.mem_cons_self ..)
        calc (d :: rest).foldl (fun n d => 10 * n + d) n
            < (10 * n + d + 1) * 10 ^ rest.length := ih (fun d hd => h d (List.mem_cons_of_mem _ hd)) _
          _ ≤ (10 * (n + 1)) * 10 ^ rest.length := Nat.mul_le_mul_right _ (by omega)
          _ = (n + 1) * 10 ^ (d :: rest).length := by rw [List.length_cons, Nat.pow_succ]; ring
  simpa [ofDigits] using hfold 0

end Text

namespace Decimal

/-- An integer that is read from text is short enough to be written out again. -/
theorem natAbs_readInt?_lt {s : String} {n : Int} (h : readInt? s = some n) : n.natAbs < 10 ^ integerDigitLimit := by
  unfold readInt? at h
  simp only at h
  split at h
  · exact nomatch h
  · rename_i digits _ hdigits
    split at h
    · exact nomatch h
    · rename_i hlength
      have hlt : Text.ofDigits digits < 10 ^ integerDigitLimit := by
        have hall := Text.continueDigits_lt false (takeSign (Text.trimBy Text.isNumberSpace s.toList)).2
        have heq : (Text.continueDigits false (takeSign (Text.trimBy Text.isNumberSpace s.toList)).2).1 = digits :=
          congrArg (·.1) hdigits
        rw [heq] at hall
        exact (Text.ofDigits_lt hall).trans_le (Nat.pow_le_pow_right (by decide) (by omega))
      obtain rfl := Option.some.inj h
      split
      · rwa [Int.natAbs_neg, Int.natAbs_natCast]
      · rwa [Int.natAbs_natCast]
  · exact nomatch h

end Decimal

/-! ## Integers that have been written -/

namespace Text

variable {p : Char → Bool} {c : Char} {cs : List Char}

/-- Nothing is trimmed where there is nothing of the kind. -/
theorem trimBy_of_forall (h : ∀ c ∈ cs, p c = false) : trimBy p cs = cs := by
  have hdrop : ∀ ds : List Char, (∀ c ∈ ds, p c = false) → ds.dropWhile p = ds := by
    intro ds hds
    cases ds with
    | nil => rfl
    | cons d rest => simp [hds d (List.mem_cons_self ..)]
  unfold trimBy
  rw [hdrop cs h, hdrop cs.reverse (fun c hc => h c (List.mem_reverse.mp hc)), List.reverse_reverse]

theorem isBlank_of_isDigit (h : c.isDigit = true) : isBlank c = false := by
  obtain ⟨hlow, hhigh⟩ := Char.isDigit_iff_toNat.mp h
  simp only [Char.reduceToNat] at hlow hhigh
  simp [isBlank, blankRanges]
  omega

/-- The digits that numbers are written with have their values. -/
theorem digitValue?_of_isDigit (h : c.isDigit = true) : digitValue? c = some (c.toNat - 48) := by
  obtain ⟨hlow, hhigh⟩ := Char.isDigit_iff_toNat.mp h
  simp only [Char.reduceToNat] at hlow hhigh
  have hfirst : (decide (0x30 ≤ c.toNat) && decide (c.toNat < 0x30 + 10)) = true := by
    simp only [Bool.and_eq_true, decide_eq_true_eq]
    omega
  obtain ⟨others, hzeros⟩ : ∃ others, zeros = 0x30 :: others := ⟨_, rfl⟩
  have hfind : (zeros.find? fun first => first ≤ c.toNat && c.toNat < first + 10) = some 0x30 := by
    rw [hzeros]
    exact List.find?_cons_of_pos hfirst
  unfold digitValue?
  rw [hfind]
  rfl

/-- Digits are read to the end. -/
theorem continueDigits_of_isDigit (afterDigit : Bool) (h : ∀ c ∈ cs, c.isDigit = true) :
    continueDigits afterDigit cs = (cs.map fun c => c.toNat - 48, []) := by
  induction cs generalizing afterDigit with
  | nil => rfl
  | cons c rest ih =>
      obtain ⟨hc, hrest⟩ := List.forall_mem_cons.mp h
      have hjoin : c ≠ '_' := by
        rintro rfl
        exact absurd hc (by decide)
      unfold continueDigits
      rw [if_neg fun hand => hjoin hand.1, digitValue?_of_isDigit hc]
      simp [ih true hrest]

end Text

namespace Decimal

open Text

theorem isDigit_of_mem_repr {n : Nat} {c : Char} (h : c ∈ n.repr.toList) : c.isDigit = true := by
  rw [Nat.toList_repr] at h
  exact Nat.isDigit_of_mem_toDigits (by decide) (by decide) h

/-- The digits of a number that is written stand for it. -/
theorem ofDigits_repr (n : Nat) : ofDigits (n.repr.toList.map fun c => c.toNat - 48) = n := by
  have hread : Nat.ofDigitChars 10 (Nat.toDigits 10 n) 0 = n := Nat.ofDigitChars_ten_toDigits
  rw [Nat.ofDigitChars_eq_foldl] at hread
  unfold ofDigits
  rw [Nat.toList_repr, List.foldl_map]
  exact hread

/-- What is written for a natural number after a sign, or without one, is read as this number. -/
theorem takeDigits_repr (n : Nat) :
    takeDigits n.repr.toList = (n.repr.toList.map fun c => c.toNat - 48, []) :=
  continueDigits_of_isDigit false fun _ => isDigit_of_mem_repr

/-- The characters of an integer that is written: a sign, or none, and the digits of its magnitude. -/
theorem toList_toString (n : Int) :
    (toString n).toList = if 0 ≤ n then n.natAbs.repr.toList else '-' :: n.natAbs.repr.toList := by
  rw [Int.toString_eq_repr, Int.repr_eq_if]
  by_cases h : 0 ≤ n
  · have hnat : n.toNat = n.natAbs := by omega
    rw [if_pos h, if_pos h, hnat]
  · have hnat : (-n).toNat = n.natAbs := by omega
    rw [if_neg h, if_neg h, hnat]
    simp

/-- An integer is written without white space. -/
theorem not_blank_of_mem_toString {n : Int} {c : Char} (h : c ∈ (toString n).toList) : isBlank c = false := by
  rw [toList_toString] at h
  split at h
  · exact isBlank_of_isDigit (isDigit_of_mem_repr h)
  · rcases List.mem_cons.mp h with rfl | hdigit
    · decide
    · exact isBlank_of_isDigit (isDigit_of_mem_repr hdigit)

/-- A sign is told from a digit. -/
theorem takeSign_toString (n : Int) : takeSign (toString n).toList = (decide (n < 0), n.natAbs.repr.toList) := by
  rw [toList_toString]
  by_cases h : 0 ≤ n
  · rw [if_pos h, decide_eq_false (by omega)]
    unfold takeSign
    split
    · rename_i rest hlist
      have hminus : '-' ∈ n.natAbs.repr.toList := by simp [hlist]
      exact absurd (isDigit_of_mem_repr hminus) (by decide)
    · rename_i rest hlist
      have hplus : '+' ∈ n.natAbs.repr.toList := by simp [hlist]
      exact absurd (isDigit_of_mem_repr hplus) (by decide)
    · rfl
  · rw [if_neg h, decide_eq_true (by omega)]
    rfl

/-- **An integer is read as it has been written**, unless it is too long for that. -/
theorem readInt?_toString {n : Int} (h : n.natAbs < 10 ^ integerDigitLimit) : readInt? (toString n) = some n := by
  have htrim : trimBy isNumberSpace (toString n).toList = (toString n).toList := by
    refine trimBy_of_forall fun c hc => ?_
    simp [isNumberSpace, not_blank_of_mem_toString hc]
  have hlength : ¬ integerDigitLimit < (n.natAbs.repr.toList.map fun c => c.toNat - 48).length := by
    rw [Nat.not_lt, List.length_map, Nat.toList_repr,
      Nat.length_toDigits_le_iff (by decide) (by simp [integerDigitLimit])]
    exact h
  have hvalue := ofDigits_repr n.natAbs
  obtain ⟨d, digits, hdigits⟩ : ∃ d digits, (n.natAbs.repr.toList.map fun c => c.toNat - 48) = d :: digits := by
    rw [← List.ne_nil_iff_exists_cons]
    simp
  rw [hdigits] at hlength hvalue
  unfold readInt?
  rw [htrim, takeSign_toString]
  simp only [takeDigits_repr, hdigits, if_neg hlength, hvalue, decide_eq_true_eq]
  by_cases hneg : n < 0
  · rw [if_pos hneg]
    congr 1
    omega
  · rw [if_neg hneg]
    congr 1
    omega

end Decimal

end RegisterEvolution
