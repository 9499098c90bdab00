import RegisterEvolution.Proofs.Settings.Refusal
import RegisterEvolution.Proofs.Text.Numeral
import RegisterEvolution.Settings.Coercion

/-!
# `Proofs.Settings.Rendering` — values of settings as texts

A value of the type that its field declares can be written as a text: an integer or a number in its plain form, a list
as its items between commas. Conversion to the declared type undoes it, as long as no text is taken for an absent value,
no item contains a comma, and the numbers can be read again.

* `commaSeparated_intercalate` — a list between commas is split into its items;
* `Field.Declares`, `Value.Legible` — values of a declared type, and those that can be read from their texts;
* `Check.legible_of_opcodes` — accepted operations are legible;
* `Field.coerce_variableText` — the text of a value of the declared type is converted to the value.
-/

namespace RegisterEvolution

/-! ## Words -/

namespace Text

variable {p : Char → Bool} {c : Char} {cs : List Char} {s : String}

/-- What may stay at the beginning does stay there. -/
theorem trimBy_cons (h : p c = false) : ∃ rest, trimBy p (c :: cs) = c :: rest := by
  have hend : ∀ ds : List Char, ∃ rest, (ds ++ [c]).dropWhile p = rest ++ [c] := by
    intro ds
    induction ds with
    | nil => exact ⟨[], by simp [h]⟩
    | cons d ds ih =>
        obtain ⟨rest, hrest⟩ := ih
        by_cases hd : p d = true
        · exact ⟨rest, by simp [hd, hrest]⟩
        · exact ⟨d :: ds, by simp [hd]⟩
  obtain ⟨rest, hrest⟩ := hend cs.reverse
  refine ⟨rest.reverse, ?_⟩
  unfold trimBy
  rw [List.dropWhile_cons_of_neg (by simp [h]), List.reverse_cons, hrest]
  simp

/-- A digit has no other case. -/
theorem lowerChar_of_isDigit (h : c.isDigit = true) : lowerChar c = c := by
  have hkelvin : c ≠ '\u212A' := by
    rintro rfl
    exact absurd h (by decide)
  obtain ⟨hlow, hhigh⟩ := Char.isDigit_iff_toNat.mp h
  have hcapital : ¬ (c.val ≥ 'A'.val ∧ c.val ≤ 'Z'.val) := by
    rintro ⟨hletter, -⟩
    have hletter : 65 ≤ c.toNat := UInt32.le_iff_toNat_le.mp hletter
    have hhigh : c.toNat ≤ 57 := hhigh
    omega
  unfold lowerChar
  rw [if_neg hkelvin]
  exact dif_neg hcapital

/-- Words for an absent value are empty or begin with the same letter. -/
theorem not_absent (hs : s.toList = c :: cs) (hblank : isBlank c = false) (hletter : lowerChar c ≠ 'n') :
    absentWords.contains (lower (strip s)) = false := by
  obtain ⟨rest, hrest⟩ : ∃ rest, trimBy isBlank (c :: cs) = c :: rest := trimBy_cons hblank
  have hword : (lower (strip s)).toList = lowerChar c :: rest.map lowerChar := by
    simp [lower, strip, hs, hrest]
  have hletters : ∀ word ∈ absentWords, word.toList = [] ∨ ∃ tail, word.toList = 'n' :: tail := by
    intro word hmem
    simp only [absentWords, List.mem_cons, List.not_mem_nil, or_false] at hmem
    rcases hmem with rfl | rfl | rfl
    · exact .inl rfl
    · exact .inr ⟨_, rfl⟩
    · exact .inr ⟨_, rfl⟩
  rw [← Bool.not_eq_true, List.contains_iff_mem]
  intro hmem
  rcases hletters _ hmem with hnil | ⟨tail, htail⟩
  · rw [hnil] at hword
    exact List.cons_ne_nil _ _ hword.symm
  · rw [htail] at hword
    exact hletter (List.cons.inj hword).1.symm

/-- A word that commas and white space do not touch. -/
structure Word (s : String) : Prop where
  ne_empty : s ≠ ""
  noComma : ',' ∉ s.toList
  trimmed : trimBy isBlank s.toList = s.toList

end Text

/-! ## Lists between commas -/

/-- The parts of a text are those of the list of its characters. -/
theorem commaSeparated.splitOn_eq (separator : Char) (cs : List Char) :
    splitOn separator cs = cs.splitOn separator := by
  induction cs with
  | nil => simp [splitOn]
  | cons c rest ih =>
      obtain ⟨part, parts, hrest⟩ := List.ne_nil_iff_exists_cons.mp (List.splitOn_ne_nil separator rest)
      unfold splitOn
      rw [ih, hrest, List.splitOn_eq_splitOnP, List.splitOnP_cons_eq_if_modifyHead, ← List.splitOn_eq_splitOnP, hrest]
      by_cases hc : c = separator
      · simp [hc]
      · simp [hc]

/-- **Words between commas are read as these words.** -/
theorem commaSeparated_intercalate {words : List String} (hwords : words ≠ []) (h : ∀ word ∈ words, Text.Word word) :
    commaSeparated (",".intercalate words) = words := by
  have hsplit : commaSeparated.splitOn ',' (",".intercalate words).toList = words.map String.toList := by
    have hcomma : ",".toList = [','] := rfl
    rw [String.toList_intercalate, hcomma, commaSeparated.splitOn_eq]
    refine List.splitOn_intercalate ',' (fun part hpart => ?_) (by simpa using hwords)
    obtain ⟨word, hword, rfl⟩ := List.mem_map.mp hpart
    exact (h word hword).noComma
  unfold commaSeparated
  rw [hsplit, List.map_map]
  have hkept : (words.map ((fun part => String.ofList (Text.trimBy Text.isBlank part)) ∘ String.toList)) = words := by
    refine (List.map_congr_left fun word hword => ?_).trans (List.map_id words)
    simp [(h word hword).trimmed]
  rw [hkept, List.filter_eq_self]
  intro word hword
  simpa using (h word hword).ne_empty

/-! ## Values of declared types -/

/-- The text that stands for a value: the items of a list between commas, everything else in its plain form. -/
def Value.variableText : Value → String
  | .list items => ",".intercalate (items.map plain)
  | v => v.plain

/-- The values of the type that a field declares. -/
inductive Field.Declares (field : Field) : Value → Prop where
  | absent (h : field.isOptional = true) : Declares field .null
  | integer (n : Int) (h : field.type = .integer) : Declares field (.int n)
  | real (x : Float) (h : field.type = .real) : Declares field (.float x)
  | switch (b : Bool) (h : field.type = .switch) : Declares field (.bool b)
  | text (s : String) (h : field.type = .text) : Declares field (.text s)
  | texts (names : List String) (h : field.type = .texts) : Declares field (.list (names.map .text))

/-- A value whose text is read as it has been written: an integer that is not too long, a number that its digits give
    back, and words between commas that do not begin like one for an absent value. -/
def Value.Legible : Value → Prop
  | .int n => n.natAbs < 10 ^ Decimal.integerDigitLimit
  | .float x => Decimal.readFloat? (floatText x) = some x
  | .list items => ∃ first rest, items = (first :: rest).map .text ∧ (∀ word ∈ first :: rest, Text.Word word) ∧
      ∃ c cs, first.toList = c :: cs ∧ Text.isBlank c = false ∧ Text.lowerChar c ≠ 'n'
  | _ => True

/-- Which values of a declared type are legible: integers, numbers and lists have to be looked at. -/
theorem Field.Declares.legible {field : Field} {v : Value} (h : field.Declares v)
    (hinteger : ∀ n, v = .int n → n.natAbs < 10 ^ Decimal.integerDigitLimit)
    (hreal : ∀ x, v = .float x → Decimal.readFloat? (floatText x) = some x)
    (htexts : ∀ names : List String, field.type = .texts → v = .list (names.map .text) → v.Legible) : v.Legible := by
  cases h with
  | absent => trivial
  | integer n => exact hinteger n rfl
  | real x => exact hreal x rfl
  | switch => trivial
  | text => trivial
  | texts names h => exact htexts names h rfl

/-- The names of operations are such words. -/
theorem Opcode.word_name (op : Opcode) :
    Text.Word op.name ∧ ∃ c cs, op.name.toList = c :: cs ∧ Text.isBlank c = false ∧ Text.lowerChar c ≠ 'n' := by
  cases op <;> exact ⟨⟨by decide, by decide, by decide⟩, _, _, rfl, by decide, by decide⟩

theorem mapM_toName_texts (names : List String) : (names.map Value.text).mapM Value.toName = .ok names := by
  induction names with
  | nil => rfl
  | cons name rest ih =>
      rw [List.map_cons, List.mapM_cons, ih]
      rfl

/-- Accepted operations are legible. -/
theorem Check.legible_of_opcodes {names : List String} (h : Check.opcodes (.list (names.map .text)) = .ok ()) :
    (Value.list (names.map .text)).Legible := by
  obtain ⟨known, hknown, hne, hnamed⟩ := Check.opcodes_ok h
  obtain rfl : some names = known := by
    have htoNames : (Value.list (names.map .text)).toNames = ((names.map Value.text).mapM Value.toName).map some := rfl
    rw [htoNames, mapM_toName_texts] at hknown
    exact Except.ok.inj hknown
  obtain ⟨first, rest, hnames⟩ : ∃ first rest, names = first :: rest := List.ne_nil_iff_exists_cons.mp hne
  subst hnames
  refine ⟨first, rest, rfl, ?_, ?_⟩
  · intro word hword
    obtain ⟨op, hop⟩ := hnamed word hword
    rw [← Opcode.name_of_ofName? hop]
    exact op.word_name.1
  · obtain ⟨op, hop⟩ := hnamed first (List.mem_cons_self ..)
    rw [← Opcode.name_of_ofName? hop]
    exact op.word_name.2

namespace Field

variable {field : Field} {v : Value}

/-- The text of an integer does not stand for an absent value. -/
theorem not_absent_toString (n : Int) : absentWords.contains (Text.lower (Text.strip (toString n))) = false := by
  obtain ⟨c, cs, hchars⟩ : ∃ c cs, (toString n).toList = c :: cs := by
    rw [← List.ne_nil_iff_exists_cons, Decimal.toList_toString]
    split
    · simp
    · simp
  have hc : c ∈ (toString n).toList := by
    rw [hchars]
    exact List.mem_cons_self ..
  refine Text.not_absent hchars (Decimal.not_blank_of_mem_toString hc) ?_
  rw [Decimal.toList_toString] at hc
  have hdigit : c ∈ n.natAbs.repr.toList → Text.lowerChar c ≠ 'n' := by
    intro hmem
    have hc := Decimal.isDigit_of_mem_repr hmem
    rw [Text.lowerChar_of_isDigit hc]
    rintro rfl
    exact absurd hc (by decide)
  split at hc
  · exact hdigit hc
  · rcases List.mem_cons.mp hc with rfl | hmem
    · decide
    · exact hdigit hmem

/-- A text that does not stand for an absent value is converted to the type of the field. -/
theorem coerce_of_present {w : Value} (h : Coercion.isAbsent field.isOptional w = false) :
    field.coerce w =
      match field.type with
      | .integer => Coercion.toInteger w
      | .real => Coercion.toReal w
      | .switch => .ok (Coercion.toSwitch w)
      | .text => if w.isWritable then .ok (.text w.plain) else Coercion.refuse .text w
      | .texts => .ok (Coercion.toTexts w)
      | .group => .ok w := by
  unfold coerce
  rw [h]
  rfl

/-- **Conversion undoes writing**, for every type that a field may have. -/
theorem coerce_variableText (hdeclares : field.Declares v) (hlegible : v.Legible)
    (hoptional : field.isOptional = true → field.type = .integer ∨ field.type = .texts) :
    field.coerce (.text v.variableText) = .ok v := by
  obtain ⟨name, type, isOptional⟩ := field
  have hrequired : type ≠ .integer → type ≠ .texts → isOptional = false := by
    intro hinteger htexts
    cases isOptional with
    | false => rfl
    | true => exact ((hoptional rfl).elim hinteger htexts).elim
  cases hdeclares with
  | absent h =>
      obtain rfl : isOptional = true := h
      rfl
  | integer n h =>
      obtain rfl : type = .integer := h
      have hpresent : Coercion.isAbsent isOptional (.text (toString n)) = false := by
        show (isOptional && absentWords.contains (Text.lower (Text.strip (toString n)))) = false
        rw [not_absent_toString, Bool.and_false]
      have hread : Decimal.readInt? (toString n) = some n := Decimal.readInt?_toString hlegible
      show coerce _ (.text (toString n)) = _
      rw [coerce_of_present hpresent]
      simp only [Coercion.toInteger, hread]
  | real x h =>
      obtain rfl : type = .real := h
      obtain rfl : isOptional = false := hrequired (by decide) (by decide)
      have hread : (Value.text (floatText x)).toNumber = .ok x := by
        have hnumber : Decimal.readFloat? (floatText x) = some x := hlegible
        simp only [Value.toNumber, hnumber]
      show coerce _ (.text (floatText x)) = _
      rw [coerce_of_present rfl]
      simp only [Coercion.toReal, hread]
  | switch b h =>
      obtain rfl : type = .switch := h
      obtain rfl : isOptional = false := hrequired (by decide) (by decide)
      cases b with
      | true => rfl
      | false => rfl
  | text s h =>
      obtain rfl : type = .text := h
      obtain rfl : isOptional = false := hrequired (by decide) (by decide)
      rfl
  | texts names h =>
      obtain rfl : type = .texts := h
      obtain ⟨first, rest, hnames, hwords, c, cs, hfirst, hblank, hletter⟩ := hlegible
      obtain rfl : names = first :: rest := List.map_injective_iff.mpr (fun _ _ => Value.text.inj) hnames
      have htext : (Value.list ((first :: rest).map .text)).variableText = ",".intercalate (first :: rest) := by
        have hplain : ((first :: rest).map Value.text).map Value.plain = first :: rest := by
          rw [List.map_map]
          exact List.map_id _
        show ",".intercalate (((first :: rest).map Value.text).map Value.plain) = _
        rw [hplain]
      have hpresent : Coercion.isAbsent isOptional (.text (",".intercalate (first :: rest))) = false := by
        obtain ⟨tail, htail⟩ : ∃ tail, (",".intercalate (first :: rest)).toList = c :: tail := by
          cases rest with
          | nil => exact ⟨cs, by simpa using hfirst⟩
          | cons next rest => exact ⟨_, by rw [String.intercalate_cons_cons]; simp [hfirst]; rfl⟩
        show (isOptional && absentWords.contains (Text.lower (Text.strip (",".intercalate (first :: rest))))) = false
        rw [Text.not_absent htail hblank hletter, Bool.and_false]
      rw [htext, coerce_of_present hpresent]
      simp only [Coercion.toTexts, commaSeparated_intercalate (List.cons_ne_nil _ _) hwords]

end Field

end RegisterEvolution
