import RegisterEvolution.Proofs.Binary64.Unpacked
import RegisterEvolution.Proofs.Settings.Refusal
import RegisterEvolution.Proofs.Text.Numeral
import RegisterEvolution.Settings.Layer

/-!
# `Proofs.Settings.Loading` — what becomes of settings that are loaded

Values reach the settings from three sources, converted to the types of their fields and then checked as a whole. A
value may upset its conversion, or what it is converted to may upset its check. The conversions make nothing worse, and
the defaults pass their checks: whatever fails by a fault does so because of a value that a source has supplied.

* `Coercion.Upset` — the supplied values that loading is not made for;
* `Field.coerce_raises`, `Coercion.Upset.of_coerce` — conversions that fail, and conversions whose result fails;
* `Supplies`, `layered_raises`, `layered_laidOut` — what the sources supply, and the entries that come of it;
* `RunSettings.load_outcome` — loaded settings are accepted settings, and other faults are accounted for.
-/

namespace RegisterEvolution

/-! ## Integers that can be written out -/

namespace Decimal

theorem two_pow_le_limit {k : Nat} (h : k ≤ integerDigitLimit) : 2 ^ k ≤ 10 ^ integerDigitLimit :=
  (Nat.pow_le_pow_left (by decide) k).trans (Nat.pow_le_pow_right (by decide) h)

/-- The integer part of a binary64 number is short enough as well. -/
theorem natAbs_truncate_lt {x : Float} {d : Dyadic} (h : Shape.ofFloat x = .finite d) :
    d.truncate.natAbs < 10 ^ integerDigitLimit := by
  obtain ⟨hmantissa, hexponent⟩ : d.mantissa < 2 ^ 53 ∧ d.exponent ≤ 971 := by
    have hcanonical : Binary64.Canonical x.toModel.unpack := Binary64.canonical_unpack _
    rw [Binary64.shape_ofFloat] at h
    unfold Binary64.shapeOf at h
    split at h
    · exact nomatch h
    · exact nomatch h
    · obtain rfl := Shape.finite.inj h
      exact ⟨Nat.two_pow_pos 53, by simp⟩
    · rename_i heq
      obtain rfl := Shape.finite.inj h
      rw [heq] at hcanonical
      exact ⟨hcanonical.1, hcanonical.2.2.1⟩
  have hsigned : d.signed.natAbs = d.mantissa := by
    unfold Dyadic.signed
    split <;> omega
  have hpow (k : Nat) : (Int.pow 2 k).natAbs = 2 ^ k := Int.natAbs_pow 2 k
  unfold Dyadic.truncate
  split
  · rw [Int.natAbs_mul, hsigned, hpow]
    calc d.mantissa * 2 ^ d.exponent.toNat
        < 2 ^ 53 * 2 ^ d.exponent.toNat := Nat.mul_lt_mul_of_pos_right hmantissa (Nat.two_pow_pos _)
      _ = 2 ^ (53 + d.exponent.toNat) := (Nat.pow_add 2 53 _).symm
      _ ≤ 10 ^ integerDigitLimit := two_pow_le_limit (by unfold integerDigitLimit; omega)
  · rw [Int.natAbs_tdiv, hsigned]
    calc d.mantissa / (Int.pow 2 (-d.exponent).toNat).natAbs
        ≤ d.mantissa := Nat.div_le_self _ _
      _ < 2 ^ 53 := hmantissa
      _ ≤ 10 ^ integerDigitLimit := two_pow_le_limit (by simp [integerDigitLimit])

end Decimal

/-! ## Conversions -/

namespace Coercion

/-- The supplied values that loading is not made for, and the kind of fault that comes of them. -/
inductive Upset : Field → Value → FaultKind → Prop
  /-- Infinity is refused as an integer in another way than what is no number. -/
  | infinite {name : String} {isOptional negative : Bool} {x : Float}
      (h : Decimal.Shape.ofFloat x = .infinite negative) : Upset ⟨name, .integer, isOptional⟩ (.float x) .overflow
  /-- Not every integer has a binary64 number near it. -/
  | tooLarge {name : String} {isOptional : Bool} {n : Int} (h : Decimal.ofInt? n = none) :
      Upset ⟨name, .real, isOptional⟩ (.int n) .overflow
  /-- Null is left as it is, also where the check wants a number. -/
  | absentRange : Upset ⟨"constant_range", .real, false⟩ .null .wrongType
  /-- What is no text and no collection is left as it is, also where the check wants items. -/
  | notIterable {name : String} {isOptional : Bool} {w : Value} (htruthy : w.isTruthy = true)
      (h : Check.items? w = none) : Upset ⟨name, .texts, isOptional⟩ w .wrongType
  /-- The items of a collection are left as they are, also where the check looks them up. -/
  | notAKey {name : String} {isOptional : Bool} {w item : Value} {items : List Value}
      (h : Check.items? w = some items) (hitem : item ∈ items) (hkey : Check.isKey item = false) :
      Upset ⟨name, .texts, isOptional⟩ w .wrongType
  /-- The message about a value that is refused quotes it. -/
  | tooLong {field : Field} {w : Value} (h : w.isWritable = false) : Upset field w .badValue

variable {field : Field} {v w : Value}

theorem refuse_raises {type : FieldType} : Raises (Error.Accounted (Upset field w)) (refuse type w) :=
  .throw (Error.accounted_of_quoted rfl .tooLong)

theorem toInteger_raises {name : String} {isOptional : Bool} :
    Raises (Error.Accounted (Upset ⟨name, .integer, isOptional⟩ w)) (toInteger w) := by
  unfold toInteger
  split
  · exact .ok
  · exact .ok
  · split
    · exact .ok
    · exact refuse_raises
  · split
    · exact .ok
    · rename_i hinfinite
      exact .throw (.fault (.infinite hinfinite))
    · exact refuse_raises
  · exact refuse_raises

/-- Only an integer can be too large for a number. -/
theorem toNumber_overflow {f : Fault} (h : w.toNumber = .error f) (hkind : f.kind = .overflow) :
    ∃ n, w = .int n ∧ Decimal.ofInt? n = none := by
  unfold Value.toNumber at h
  split at h
  · exact nomatch h
  · exact nomatch h
  · split at h
    · exact nomatch h
    · rename_i hn
      exact ⟨_, rfl, hn⟩
  · split at h
    · exact nomatch h
    · obtain rfl := Except.error.inj h
      exact nomatch hkind
  · obtain rfl := Except.error.inj h
    exact nomatch hkind

theorem toReal_raises {name : String} {isOptional : Bool} :
    Raises (Error.Accounted (Upset ⟨name, .real, isOptional⟩ w)) (toReal w) := by
  unfold toReal
  split
  · exact .ok
  · rename_i f hf
    split
    · rename_i hkind
      obtain ⟨n, rfl, hn⟩ := toNumber_overflow hf hkind
      exact .throw (.fault (hkind ▸ .tooLarge hn))
    · exact refuse_raises

end Coercion

variable {field : Field} {v w : Value} {kind : FaultKind}

/-- **A value is only refused for a field by a configuration error**, or by a fault that it accounts for. -/
theorem Field.coerce_raises : Raises (Error.Accounted (Coercion.Upset field w)) (field.coerce w) := by
  obtain ⟨name, type, isOptional⟩ := field
  unfold coerce
  split
  · exact .ok
  · cases type with
    | integer => exact Coercion.toInteger_raises
    | real => exact Coercion.toReal_raises
    | switch => exact .ok
    | text =>
        simp only
        split
        · exact .ok
        · exact Coercion.refuse_raises
    | texts => exact .ok
    | group => exact .ok

namespace Coercion

theorem isWritable_toInteger (h : toInteger w = .ok v) (hw : w.isWritable = true) : v.isWritable = true := by
  unfold toInteger at h
  split at h
  · obtain rfl := Except.ok.inj h
    exact hw
  · obtain rfl := Except.ok.inj h
    exact Value.isWritable_small (by split <;> decide)
  · split at h
    · rename_i hread
      obtain rfl := Except.ok.inj h
      exact Value.isWritable_int.mpr (Decimal.natAbs_readInt?_lt hread)
    · exact nomatch h
  · split at h
    · rename_i hfinite
      obtain rfl := Except.ok.inj h
      exact Value.isWritable_int.mpr (Decimal.natAbs_truncate_lt hfinite)
    · exact nomatch h
    · exact nomatch h
  · exact nomatch h

theorem toInteger_ok (h : toInteger w = .ok v) : ∃ n, v = .int n := by
  unfold toInteger at h
  split at h
  · exact ⟨_, (Except.ok.inj h).symm⟩
  · exact ⟨_, (Except.ok.inj h).symm⟩
  · split at h
    · exact ⟨_, (Except.ok.inj h).symm⟩
    · exact nomatch h
  · split at h
    · exact ⟨_, (Except.ok.inj h).symm⟩
    · exact nomatch h
    · exact nomatch h
  · exact nomatch h

theorem toReal_ok (h : toReal w = .ok v) : ∃ x, v = .float x := by
  unfold toReal at h
  split at h
  · rename_i x hx
    exact ⟨x, (Except.ok.inj h).symm⟩
  · split at h
    · exact nomatch h
    · exact nomatch h

/-- Texts are split into texts, and everything else is left as it is. -/
theorem toTexts_cases (w : Value) : toTexts w = w ∨ ∃ names : List String, toTexts w = .list (names.map .text) := by
  unfold toTexts
  split
  · exact .inr ⟨_, rfl⟩
  · exact .inl rfl

theorem isWritable_texts (names : List String) : (Value.list (names.map .text)).isWritable = true := by
  refine Value.areWritable_iff.mpr fun v hv => ?_
  obtain ⟨name, -, rfl⟩ := List.mem_map.mp hv
  rfl

end Coercion

/-- What can be written out is converted to what can be written out. -/
theorem Field.isWritable_coerce (h : field.coerce w = .ok v) (hw : w.isWritable = true) : v.isWritable = true := by
  obtain ⟨name, type, isOptional⟩ := field
  unfold coerce at h
  split at h
  · obtain rfl := Except.ok.inj h
    rfl
  · cases type with
    | integer => exact Coercion.isWritable_toInteger h hw
    | real =>
        obtain ⟨x, rfl⟩ := Coercion.toReal_ok h
        rfl
    | switch =>
        obtain rfl := Except.ok.inj h
        unfold Coercion.toSwitch
        split <;> rfl
    | text =>
        obtain rfl := Except.ok.inj h
        rfl
    | texts =>
        obtain rfl := Except.ok.inj h
        rcases Coercion.toTexts_cases w with heq | ⟨names, heq⟩
        · rw [heq]
          exact hw
        · rw [heq]
          exact Coercion.isWritable_texts names
    | group =>
        obtain rfl := Except.ok.inj h
        exact hw

/-- A collection of names comes from a text, or it is what has been supplied. -/
theorem Field.coerce_texts {name : String} {isOptional : Bool} (h : Field.coerce ⟨name, .texts, isOptional⟩ w = .ok v) :
    v = .null ∨ v = w ∨ ∃ names : List String, v = .list (names.map .text) := by
  unfold coerce at h
  split at h
  · exact .inl (Except.ok.inj h).symm
  · obtain rfl := Except.ok.inj h
    exact .inr (Coercion.toTexts_cases w)

/-- No number is left an integer. -/
theorem Field.coerce_real_ne_int {name : String} {isOptional : Bool} {n : Int} :
    Field.coerce ⟨name, .real, isOptional⟩ w ≠ .ok (.int n) := by
  intro h
  unfold coerce at h
  split at h
  · exact nomatch h
  · obtain ⟨x, hx⟩ := Coercion.toReal_ok h
    exact nomatch hx

/-- A required number is a number, or it has been supplied as null. -/
theorem Field.coerce_real {name : String} (h : Field.coerce ⟨name, .real, false⟩ w = .ok v) :
    w = .null ∧ v = .null ∨ ∃ x, v = .float x := by
  unfold coerce at h
  split at h
  · rename_i habsent
    refine .inl ⟨?_, (Except.ok.inj h).symm⟩
    cases w with
    | null => rfl
    | _ => exact nomatch habsent
  · exact .inr (Coercion.toReal_ok h)

/-- **What upsets a check has upset loading already in the form in which it was supplied.** -/
theorem Coercion.Upset.of_coerce (h : field.coerce w = .ok v) (hupset : Check.Upset field v kind) :
    Upset field w kind := by
  cases hupset with
  | tooLarge hn => exact absurd h Field.coerce_real_ne_int
  | notANumber hnumber =>
      rcases Field.coerce_real h with ⟨rfl, rfl⟩ | ⟨x, rfl⟩
      · exact .absentRange
      · exact nomatch hnumber
  | notIterable htruthy hitems =>
      rcases Field.coerce_texts h with rfl | rfl | ⟨names, rfl⟩
      · exact nomatch htruthy
      · exact .notIterable htruthy hitems
      · exact nomatch hitems
  | notAKey hitems hitem hkey =>
      rcases Field.coerce_texts h with rfl | rfl | ⟨names, rfl⟩
      · exact nomatch hitems
      · exact .notAKey hitems hitem hkey
      · obtain rfl := Option.some.inj hitems
        obtain ⟨s, -, rfl⟩ := List.mem_map.mp hitem
        exact nomatch hkey
  | tooLong hlong =>
      refine .tooLong ?_
      rw [← Bool.not_eq_true] at hlong ⊢
      exact fun hw => hlong (Field.isWritable_coerce h hw)

/-! ## Layers -/

section Layers

variable {fields : List Field} {supplied : Entries String Value}

theorem fieldNamed?_eq_some {name : String} (h : fieldNamed? fields name = some field) :
    field ∈ fields ∧ field.name = name :=
  ⟨List.mem_of_find?_eq_some h, by simpa using List.find?_some h⟩

theorem Entries.mem_put {κ α : Type} [BEq κ] [LawfulBEq κ] {key k : κ} {value u : α} {entries : Entries κ α}
    (h : (k, u) ∈ entries.put key value) : (k, u) ∈ entries ∨ k = key ∧ u = value := by
  induction entries with
  | nil =>
      obtain ⟨rfl, rfl⟩ := Prod.mk.inj (List.mem_singleton.mp h)
      exact .inr ⟨rfl, rfl⟩
  | cons entry rest ih =>
      obtain ⟨k', u'⟩ := entry
      unfold put at h
      split at h
      · rename_i hkey
        obtain rfl := eq_of_beq hkey
        rcases List.mem_cons.mp h with heq | hmem
        · obtain ⟨rfl, rfl⟩ := Prod.mk.inj heq
          exact .inr ⟨rfl, rfl⟩
        · exact .inl (List.mem_cons_of_mem _ hmem)
      · rcases List.mem_cons.mp h with heq | hmem
        · exact .inl (heq ▸ List.mem_cons_self ..)
        · exact (ih hmem).imp_left (List.mem_cons_of_mem _)

/-- A source supplies a value for one of the fields; mappings are no values of fields. -/
structure Supplies (fields : List Field) (supplied : Entries String Value) (field : Field) (w : Value) : Prop where
  known : field ∈ fields
  entry : (field.name, w) ∈ supplied
  noMap : w.isMap = false

/-- Something that is supplied upsets loading. -/
def SuppliesUpset (fields : List Field) (supplied : Entries String Value) (kind : FaultKind) : Prop :=
  ∃ field w, Supplies fields supplied field w ∧ Coercion.Upset field w kind

/-- An entry is the value of a field that something supplied has been converted to. -/
def LaidOut (fields : List Field) (supplied : Entries String Value) (entry : String × Value) : Prop :=
  ∃ field w, Supplies fields supplied field w ∧ entry.1 = field.name ∧ field.coerce w = .ok entry.2

/-- One more value is laid over those that are there. -/
theorem layOver_raises {below : Entries String Value} {entry : String × Value} (hentry : entry ∈ supplied) :
    Raises (Error.Accounted (SuppliesUpset fields supplied)) (layOver fields below entry) := by
  unfold layOver
  split
  · exact .ok
  · rename_i field hfield
    obtain ⟨hmem, hname⟩ := fieldNamed?_eq_some hfield
    split
    · exact .ok
    · rename_i hmap
      have hsupplies : Supplies fields supplied field entry.2 := ⟨hmem, hname ▸ hentry, by simpa using hmap⟩
      exact (Field.coerce_raises.imp fun _ he => he.imp fun _ hu => ⟨field, entry.2, hsupplies, hu⟩).bind
        fun _ _ => .ok

theorem layOver_laidOut {below above : Entries String Value} {entry : String × Value} (hentry : entry ∈ supplied)
    (hbelow : ∀ e ∈ below, LaidOut fields supplied e) (h : layOver fields below entry = .ok above) :
    ∀ e ∈ above, LaidOut fields supplied e := by
  unfold layOver at h
  split at h
  · obtain rfl := Except.ok.inj h
    exact hbelow
  · rename_i field hfield
    obtain ⟨hmem, hname⟩ := fieldNamed?_eq_some hfield
    split at h
    · obtain rfl := Except.ok.inj h
      exact hbelow
    · rename_i hmap
      obtain ⟨v, hv, h⟩ := except_bind_eq_ok.mp h
      obtain rfl := Except.ok.inj h
      intro e he
      rcases Entries.mem_put he with hold | ⟨hkey, hvalue⟩
      · exact hbelow e hold
      · exact ⟨field, entry.2, ⟨hmem, hname ▸ hentry, by simpa using hmap⟩, hkey, hvalue ▸ hv⟩

/-- All layers, one after the other: by induction on what is left to be laid over `below`. -/
theorem layers_raise {rest below : Entries String Value} (hrest : ∀ entry ∈ rest, entry ∈ supplied) :
    Raises (Error.Accounted (SuppliesUpset fields supplied)) (rest.foldlM (layOver fields) below) := by
  induction rest generalizing below with
  | nil => exact .ok
  | cons entry rest ih =>
      rw [List.forall_mem_cons] at hrest
      rw [List.foldlM_cons]
      exact (layOver_raises hrest.1).bind fun above _ => ih hrest.2

theorem layers_laidOut {rest below above : Entries String Value} (hrest : ∀ entry ∈ rest, entry ∈ supplied)
    (hbelow : ∀ e ∈ below, LaidOut fields supplied e) (h : rest.foldlM (layOver fields) below = .ok above) :
    ∀ e ∈ above, LaidOut fields supplied e := by
  induction rest generalizing below with
  | nil =>
      obtain rfl := Except.ok.inj h
      exact hbelow
  | cons entry rest ih =>
      rw [List.forall_mem_cons] at hrest
      rw [List.foldlM_cons] at h
      obtain ⟨next, hnext, h⟩ := except_bind_eq_ok.mp h
      exact ih hrest.2 (layOver_laidOut hrest.1 hbelow hnext) h

/-- What the three sources supply, one after the other. -/
def suppliedBy (fields : List Field) (lead : String) (file : Entries String Value) (environment : Variables)
    (overrides : Entries String Value) : Entries String Value :=
  file ++ ofEnvironment lead fields environment ++ overrides

variable {lead : String} {file overrides : Entries String Value} {environment : Variables}

theorem layered_raises :
    Raises (Error.Accounted (SuppliesUpset fields (suppliedBy fields lead file environment overrides)))
      (layered fields lead file environment overrides) := layers_raise fun _ => id

theorem layered_laidOut {above : Entries String Value}
    (h : layered fields lead file environment overrides = .ok above) :
    ∀ e ∈ above, LaidOut fields (suppliedBy fields lead file environment overrides) e :=
  layers_laidOut (fun _ => id) (List.forall_mem_nil _) h

end Layers

/-! ## Settings out of entries -/

/-- A setting has the value of an entry, or the one it had before all entries were written. -/
theorem get?_foldl_set {S : Type} {get? : S → String → Option Value} {set : S → String → Value → S}
    (hset : ∀ {s name v other w}, get? (set s name v) other = some w → other = name ∧ w = v ∨ get? s other = some w)
    {entries : Entries String Value} {s : S} {name : String}
    (h : get? (entries.foldl (fun s (name, v) => set s name v) s) name = some v) :
    (name, v) ∈ entries ∨ get? s name = some v := by
  induction entries generalizing s with
  | nil => exact .inr h
  | cons entry rest ih =>
      rcases ih h with hmem | hbefore
      · exact .inl (List.mem_cons_of_mem _ hmem)
      · rcases hset hbefore with ⟨rfl, rfl⟩ | hget
        · exact .inl (List.mem_cons_self ..)
        · exact .inr hget

/-- Whether a value is so plainly one of a type that no check of such a field is upset by it. -/
def FieldType.suits (type : FieldType) : Value → Bool
  | .null => type != .real
  | .int n => type == .integer && decide (n.natAbs < 1000)
  | .float _ => type == .real
  | .bool _ => type == .switch
  | .text _ => type == .text
  | _ => false

theorem FieldType.isWritable_of_suits {type : FieldType} (h : type.suits v = true) : v.isWritable = true := by
  cases v with
  | int n =>
      simp only [suits, Bool.and_eq_true, decide_eq_true_eq] at h
      exact Value.isWritable_small h.2
  | list items => exact absurd h Bool.false_ne_true
  | map entries => exact absurd h Bool.false_ne_true
  | null | bool _ | float _ | text _ => rfl

/-- A value that suits a number is a binary64 number. -/
theorem FieldType.suits_real (h : FieldType.real.suits v = true) : ∃ x, v = .float x := by
  cases v with
  | float x => exact ⟨x, rfl⟩
  | null | bool _ | int _ | text _ | list _ | map _ => exact absurd h Bool.false_ne_true

/-- Texts are suited by nothing but their absence. -/
theorem FieldType.suits_texts (h : FieldType.texts.suits v = true) : v = .null := by
  cases v with
  | null => rfl
  | bool _ | int _ | float _ | text _ | list _ | map _ => exact absurd h Bool.false_ne_true

theorem Check.not_upset (h : field.type.suits v = true) : ¬ Check.Upset field v kind := by
  intro hupset
  cases hupset with
  | tooLarge _ =>
      obtain ⟨x, hx⟩ := FieldType.suits_real h
      exact Value.noConfusion hx
  | notANumber hnumber =>
      obtain ⟨x, rfl⟩ := FieldType.suits_real h
      exact absurd hnumber.symm Bool.false_ne_true
  | notIterable htruthy _ =>
      obtain rfl := FieldType.suits_texts h
      exact absurd htruthy Bool.false_ne_true
  | notAKey hitems _ _ =>
      obtain rfl := FieldType.suits_texts h
      exact absurd (hitems : none = some _) (Option.some_ne_none _).symm
  | tooLong hlong => exact absurd (hlong.symm.trans (FieldType.isWritable_of_suits h)) Bool.false_ne_true

/-- What is wrong with an entry is wrong with what has been supplied for it. -/
theorem suppliesUpset_of_laidOut {fields : List Field} {supplied entries : Entries String Value}
    (hentries : ∀ e ∈ entries, LaidOut fields supplied e)
    (hdistinct : ∀ a ∈ fields, ∀ b ∈ fields, a.name = b.name → a = b) (hfield : field ∈ fields)
    (hmem : (field.name, v) ∈ entries) (hupset : Check.Upset field v kind) : SuppliesUpset fields supplied kind := by
  obtain ⟨field', w, hsupplies, hname, hcoerce⟩ := hentries _ hmem
  obtain rfl := hdistinct field hfield field' hsupplies.known hname
  exact ⟨field, w, hsupplies, .of_coerce hcoerce hupset⟩

namespace ProgramSettings

theorem get?_set {p : ProgramSettings} {name other : String} (h : (p.set name v).get? other = some w) :
    other = name ∧ w = v ∨ p.get? other = some w := by
  unfold set at h
  split at h <;> unfold get? at h ⊢ <;> split at h <;> simp_all

theorem default_suits : ∀ field ∈ fields, (({} : ProgramSettings).get? field.name).all field.type.suits := by decide

/-- Program settings out of laid out entries only upset their checks by what has been supplied. -/
theorem suppliesUpset_of_ofEntries {supplied entries : Entries String Value}
    (hentries : ∀ e ∈ entries, LaidOut fields supplied e) (h : (ofEntries entries).Upset kind) :
    SuppliesUpset fields supplied kind := by
  obtain ⟨field, hfield, v, hget, hupset⟩ := h
  rcases get?_foldl_set get?_set hget with hmem | hdefault
  · exact suppliesUpset_of_laidOut hentries (by decide) hfield hmem hupset
  · have hsuits := default_suits field hfield
    rw [hdefault] at hsuits
    exact absurd hupset (Check.not_upset hsuits)

end ProgramSettings

namespace RunSettings

theorem get?_set {s : RunSettings} {name other : String} (h : (s.set name v).get? other = some w) :
    other = name ∧ w = v ∨ s.get? other = some w := by
  unfold set at h
  split at h <;> unfold get? at h ⊢ <;> split at h <;> simp_all

theorem default_suits : ∀ field ∈ fields, (({} : RunSettings).get? field.name).all field.type.suits := by decide

/-- Run settings out of laid out entries only upset their checks by what has been supplied. -/
theorem suppliesUpset_of_ofEntries {supplied entries : Entries String Value}
    (hentries : ∀ e ∈ entries, LaidOut fields supplied e) (hfield : field ∈ fields)
    (hget : (ofEntries entries).get? field.name = some v) (hupset : Check.Upset field v kind) :
    SuppliesUpset fields supplied kind := by
  rcases get?_foldl_set get?_set hget with hmem | hdefault
  · exact suppliesUpset_of_laidOut hentries (by decide) hfield hmem hupset
  · have hsuits := default_suits field hfield
    rw [hdefault] at hsuits
    exact absurd hupset (Check.not_upset hsuits)

end RunSettings

/-! ## Loading -/

/-- The explicit program settings, which are a mapping unless there are none. -/
def explicitProgram? (explicit : Entries String Value) : Option (Entries String Value) :=
  match explicit.get? "program" with
  | none | some .null => some []
  | some (.map entries) => some (namedEntries entries)
  | some _ => none

theorem toOverrides_map (entries : List (Value × Value)) :
    (Value.map entries).toOverrides = .ok (namedEntries entries) := by
  unfold Value.toOverrides Value.toEntries
  cases entries with
  | nil => rfl
  | cons entry rest => rfl

theorem toOverrides_program {explicit programExplicit : Entries String Value}
    (h : explicitProgram? explicit = some programExplicit) :
    ((explicit.get? "program").getD .null).toOverrides = .ok programExplicit := by
  unfold explicitProgram? at h
  split at h
  · rename_i hget
    rw [hget, ← Option.some.inj h]
    rfl
  · rename_i hget
    rw [hget, ← Option.some.inj h]
    rfl
  · rename_i entries hget
    rw [hget, ← Option.some.inj h]
    exact toOverrides_map entries
  · exact nomatch h

namespace RunSettings

variable {content explicit : List (Value × Value)} {lead : String} {environment : Variables}
  {programExplicit : Entries String Value}

/-- What is supplied for the run settings. -/
def runSupplied (content : List (Value × Value)) (lead : String) (environment : Variables)
    (explicit : List (Value × Value)) : Entries String Value :=
  suppliedBy fields lead (namedEntries (runSection content)) environment
    ((namedEntries explicit).filter fun (name, _) => name != "program")

/-- What is supplied for the program settings. -/
def programSupplied (content : List (Value × Value)) (lead : String) (environment : Variables)
    (programExplicit : Entries String Value) : Entries String Value :=
  suppliedBy ProgramSettings.fields (programLead lead) (namedEntries (programSection content)) environment
    programExplicit

/-- One of the values that the sources supply upsets loading. -/
def LoadingUpset (content : List (Value × Value)) (lead : String) (environment : Variables)
    (explicit : List (Value × Value)) (programExplicit : Entries String Value) (kind : FaultKind) : Prop :=
  SuppliesUpset fields (runSupplied content lead environment explicit) kind ∨
    SuppliesUpset ProgramSettings.fields (programSupplied content lead environment programExplicit) kind

theorem load_raises (hprogram : explicitProgram? (namedEntries explicit) = some programExplicit) :
    Raises (Error.Accounted (LoadingUpset content lead environment explicit programExplicit))
      (load (.map content) lead environment (.map explicit)) := by
  unfold load fileEntries
  rw [toOverrides_map]
  refine Raises.ok.bind fun content' hcontent => ?_
  obtain rfl := Except.ok.inj hcontent
  refine Raises.ok.bind fun explicit' hexplicit => ?_
  obtain rfl := Except.ok.inj hexplicit
  refine (layered_raises.imp fun _ he => he.imp fun _ => .inl).bind fun run hrun => ?_
  rw [toOverrides_program hprogram]
  refine Raises.ok.bind fun programExplicit' hexplicit => ?_
  obtain rfl := Except.ok.inj hexplicit
  refine (layered_raises.imp fun _ he => he.imp fun _ => .inr).bind fun program hlayered => ?_
  refine Raises.bind (validate_raises.imp fun _ he => he.imp ?_) fun _ _ => .ok
  rintro kind (⟨field, hfield, v, hget, hupset⟩ | ⟨p, hp, hupset⟩)
  · exact .inl (suppliesUpset_of_ofEntries (layered_laidOut hrun) hfield hget hupset)
  · obtain rfl := ProgramGroup.settings.inj hp
    exact .inr (ProgramSettings.suppliesUpset_of_ofEntries (layered_laidOut hlayered) hupset)

theorem validate_of_load {file overrides : Value} {s : RunSettings}
    (h : load file lead environment overrides = .ok s) : s.validate = .ok () := by
  obtain ⟨_, -, h⟩ := except_bind_eq_ok.mp h
  obtain ⟨_, -, h⟩ := except_bind_eq_ok.mp h
  obtain ⟨_, -, h⟩ := except_bind_eq_ok.mp h
  obtain ⟨_, -, h⟩ := except_bind_eq_ok.mp h
  obtain ⟨_, -, h⟩ := except_bind_eq_ok.mp h
  obtain ⟨⟨⟩, hvalid, h⟩ := except_bind_eq_ok.mp h
  obtain rfl := Except.ok.inj h
  exact hvalid

/--
**What becomes of settings that are loaded** from a file that holds a mapping, the environment and explicit settings,
of which those for programs are a mapping as well if there are any. Settings that come out of it are accepted. Otherwise
the error is one of configuration, or a fault that a supplied value accounts for.
-/
theorem load_outcome (hprogram : explicitProgram? (namedEntries explicit) = some programExplicit) :
    (∀ s, load (.map content) lead environment (.map explicit) = .ok s → s.validate = .ok ()) ∧
      ∀ error, load (.map content) lead environment (.map explicit) = .error error →
        error.Accounted (LoadingUpset content lead environment explicit programExplicit) :=
  ⟨fun _ => validate_of_load, load_raises hprogram⟩

/-- A file with a section for programs. -/
def sectionedFile : List (Value × Value) :=
  [(.text "gap", .int 1), (.text "program", .map [(.text "opcodes", .text "add, if_lt")])]

/-- Explicit settings which leave those for programs open. -/
def openSettings : List (Value × Value) := [(.text "gap", .float 0.25), (.text "program", .null)]

/-- With a variable in between, these settings are accepted. -/
theorem load_outcome_layered :
    ∃ s, load (.map sectionedFile) defaultLead [("LGP_Max_Generations", " 10 ")] (.map openSettings) = .ok s ∧
      s.validate = .ok () := by
  have hprogram : explicitProgram? (namedEntries openSettings) = some [] := rfl
  have hok : (load (.map sectionedFile) defaultLead [("LGP_Max_Generations", " 10 ")]
      (.map openSettings)).isOk = true := by decide +kernel
  cases hs : load (.map sectionedFile) defaultLead [("LGP_Max_Generations", " 10 ")] (.map openSettings) with
  | ok s => exact ⟨s, rfl, (load_outcome hprogram).1 s hs⟩
  | error e =>
      rw [hs] at hok
      exact nomatch hok

/-- Infinity is no number of generations, but it is not refused as a configuration. -/
theorem infinite_generations_fail :
    load (.map [(.text "max_generations", .float (1.0 / 0.0))]) defaultLead [] (.map []) =
      .error (.fault ⟨.overflow, "cannot convert float infinity to integer"⟩) := rfl

end RunSettings

end RegisterEvolution
