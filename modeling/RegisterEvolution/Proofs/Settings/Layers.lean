import RegisterEvolution.Proofs.Settings.Environment

/-!
# `Proofs.Settings.Layers` — entries that are laid over each other

Entries for fields are converted and laid down one after the other, so that the last one for a field counts. Entries
that nothing is known about and mappings are passed over. What has been converted once is converted to itself, so
entries that have come of layering stay as they are.

* `Entries.Unique`, `Entries.get?_ofPairs` — entries with different keys, and how they come of pairs;
* `Field.coerce_coerce` — converting twice;
* `layers_get?`, `layers_fail_iff` — what becomes of each field, and when layering fails;
* `layers_settled` — converted entries are laid over nothing as they are.
-/

namespace RegisterEvolution

/-! ## Entries with different keys -/

namespace Entries

variable {κ α : Type} {entries : Entries κ α} {key k : κ} {value v : α} {pairs : List (κ × α)}

/-- Every key occurs once. -/
def Unique (entries : Entries κ α) : Prop := (entries.map (·.1)).Nodup

variable [BEq κ]

theorem get?_cons (entry : κ × α) (rest : Entries κ α) :
    Entries.get? k (entry :: rest) = if entry.1 == k then some entry.2 else Entries.get? k rest := rfl

variable [LawfulBEq κ]

theorem mem_keys_put : k ∈ (entries.put key value).map (·.1) ↔ k = key ∨ k ∈ entries.map (·.1) := by
  induction entries with
  | nil => simp [put]
  | cons entry rest ih =>
      obtain ⟨k', u⟩ := entry
      unfold put
      by_cases hkey : (k' == key) = true
      · obtain rfl := eq_of_beq hkey
        simp
      · rw [if_neg hkey, List.map_cons, List.mem_cons, ih, List.map_cons, List.mem_cons]
        exact or_left_comm

theorem Unique.put (h : entries.Unique) : (entries.put key value).Unique := by
  induction entries with
  | nil => exact List.nodup_singleton key
  | cons entry rest ih =>
      obtain ⟨k', u⟩ := entry
      obtain ⟨hnew, hrest⟩ := List.nodup_cons.mp h
      unfold Entries.put
      by_cases hkey : (k' == key) = true
      · rw [if_pos hkey]
        exact h
      · rw [if_neg hkey]
        refine List.nodup_cons.mpr ⟨fun hmem => ?_, ih hrest⟩
        rcases mem_keys_put.mp hmem with heq | hold
        · exact hkey (beq_iff_eq.mpr heq)
        · exact hnew hold

/-- A new key goes to the end. -/
theorem put_of_not_mem (h : key ∉ entries.map (·.1)) : entries.put key value = entries ++ [(key, value)] := by
  induction entries with
  | nil => rfl
  | cons entry rest ih =>
      obtain ⟨k', u⟩ := entry
      rw [List.map_cons, List.mem_cons, not_or] at h
      obtain ⟨hne, hrest⟩ := h
      have hkey : (k' == key) = false := by simpa using Ne.symm hne
      rw [put, hkey, ih hrest]
      rfl

/-- The value of a key is the one that stands beside it. -/
theorem get?_eq_some_iff (h : entries.Unique) : entries.get? k = some v ↔ (k, v) ∈ entries := by
  induction entries with
  | nil => simp [get?]
  | cons entry rest ih =>
      obtain ⟨k', u⟩ := entry
      obtain ⟨hnew, hrest⟩ := List.nodup_cons.mp h
      unfold get?
      by_cases hkey : (k' == k) = true
      · obtain rfl := eq_of_beq hkey
        have hothers : (k', v) ∉ rest := fun hmem => hnew (List.mem_map.mpr ⟨_, hmem, rfl⟩)
        simp [hothers, eq_comm]
      · have hne : k ≠ k' := fun heq => hkey (beq_iff_eq.mpr heq.symm)
        rw [if_neg hkey, ih hrest, List.mem_cons]
        exact ⟨.inr, fun hmem => hmem.resolve_left fun heq => hne (Prod.mk.inj heq).1⟩

theorem isSome_get?_iff : (entries.get? k).isSome = true ↔ k ∈ entries.map (·.1) := by
  induction entries with
  | nil => simp [get?]
  | cons entry rest ih =>
      obtain ⟨k', u⟩ := entry
      unfold get?
      by_cases hkey : (k' == k) = true
      · obtain rfl := eq_of_beq hkey
        simp
      · have hne : k ≠ k' := fun heq => hkey (beq_iff_eq.mpr heq.symm)
        rw [if_neg hkey, ih, List.map_cons, List.mem_cons]
        exact ⟨.inr, fun hmem => hmem.resolve_left hne⟩

theorem unique_ofPairs (pairs : List (κ × α)) : (ofPairs pairs).Unique := by
  have hfold : ∀ below : Entries κ α, below.Unique →
      Unique (pairs.foldl (fun entries pair => entries.put pair.1 pair.2) below) := by
    induction pairs with
    | nil => exact fun _ h => h
    | cons pair rest ih => exact fun below h => ih _ h.put
  exact hfold [] List.nodup_nil

/-- Of several pairs with a key the last one counts. -/
theorem get?_ofPairs (pairs : List (κ × α)) (key : κ) :
    (ofPairs pairs).get? key = ((pairs.filter fun pair => pair.1 == key).getLast?).map (·.2) := by
  have hfold : ∀ below : Entries κ α,
      Entries.get? key (pairs.foldl (fun entries pair => entries.put pair.1 pair.2) below) =
      (((pairs.filter fun pair => pair.1 == key).getLast?).map (·.2)).or (below.get? key) := by
    induction pairs with
    | nil => exact fun _ => rfl
    | cons pair rest ih =>
        obtain ⟨k, v⟩ := pair
        intro below
        rw [List.foldl_cons, ih, get?_put]
        by_cases hkey : (k == key) = true
        · rw [if_pos hkey, List.filter_cons_of_pos (by exact hkey), List.getLast?_cons]
          cases (rest.filter fun pair => pair.1 == key).getLast? <;> rfl
        · rw [if_neg hkey, List.filter_cons_of_neg (by exact hkey)]
  exact (hfold []).trans (Option.or_none ..)

end Entries

/-! ## Converting once more -/

namespace Field

variable {field : Field} {v w : Value}

/-- A value is converted to one of the declared type, unless it is absent or left as it is. -/
theorem coerce_cases (h : field.coerce w = .ok v) : v = .null ∨ v = w ∨ field.Declares v := by
  obtain ⟨name, type, isOptional⟩ := field
  unfold coerce at h
  split at h
  · exact .inl (Except.ok.inj h).symm
  · cases type with
    | integer =>
        obtain ⟨n, rfl⟩ := Coercion.toInteger_ok h
        exact .inr (.inr (.integer n rfl))
    | real =>
        obtain ⟨x, rfl⟩ := Coercion.toReal_ok h
        exact .inr (.inr (.real x rfl))
    | switch =>
        obtain rfl := Except.ok.inj h
        unfold Coercion.toSwitch
        split <;> exact .inr (.inr (.switch _ rfl))
    | text =>
        simp only at h
        split at h
        · obtain rfl := Except.ok.inj h
          exact .inr (.inr (.text _ rfl))
        · exact nomatch h
    | texts =>
        obtain rfl := Except.ok.inj h
        rcases Coercion.toTexts_cases w with heq | ⟨names, heq⟩
        · exact .inr (.inl heq)
        · exact .inr (.inr (heq ▸ .texts names rfl))
    | group => exact .inr (.inl (Except.ok.inj h).symm)

/-- A value of the declared type is left as it is, but an optional text could stand for an absent one. -/
theorem coerce_of_declares (hrequired : field.type = .text → field.isOptional = false) (h : field.Declares v) :
    field.coerce v = .ok v := by
  obtain ⟨name, type, isOptional⟩ := field
  cases h with
  | absent h => rfl
  | integer n h =>
      obtain rfl : type = .integer := h
      rfl
  | real x h =>
      obtain rfl : type = .real := h
      rfl
  | switch b h =>
      obtain rfl : type = .switch := h
      rfl
  | text s h =>
      obtain rfl : type = .text := h
      obtain rfl : isOptional = false := hrequired rfl
      rfl
  | texts names h =>
      obtain rfl : type = .texts := h
      rfl

/-- **What has been converted is converted to itself.** -/
theorem coerce_coerce (hrequired : field.type = .text → field.isOptional = false) (h : field.coerce w = .ok v) :
    field.coerce v = .ok v := by
  rcases coerce_cases h with rfl | rfl | hdeclares
  · rfl
  · exact h
  · exact coerce_of_declares hrequired hdeclares

/-- Nothing is converted to a mapping. -/
theorem isMap_coerce (h : field.coerce w = .ok v) (hw : w.isMap = false) : v.isMap = false := by
  rcases coerce_cases h with rfl | rfl | hdeclares
  · rfl
  · exact hw
  · cases hdeclares <;> rfl

end Field

/-! ## Entries laid over each other -/

section Layers

variable {fields : List Field} {f : Field} {v w : Value} {supplied rest below above : Entries String Value}
  {entry : String × Value}

/-- Fields that have different names, written in small letters, and no optional text among them. -/
structure WellNamed (fields : List Field) : Prop where
  named : ∀ f ∈ fields, fieldNamed? fields f.name = some f
  lower : ∀ f ∈ fields, Text.lower f.name = f.name
  required : ∀ f ∈ fields, f.type = .text → f.isOptional = false

theorem RunSettings.wellNamed : WellNamed RunSettings.fields := ⟨fieldNamed?_name, by decide, by decide⟩

theorem ProgramSettings.wellNamed : WellNamed ProgramSettings.fields := ⟨fieldNamed?_name, by decide, by decide⟩

/-- The field that an entry is laid down for; there is none for unknown names and for mappings. -/
def fieldOfEntry? (fields : List Field) (entry : String × Value) : Option Field :=
  (fieldNamed? fields entry.1).filter fun _ => !entry.2.isMap

theorem fieldOfEntry?_eq_some_iff (hfields : WellNamed fields) :
    fieldOfEntry? fields entry = some f ↔ f ∈ fields ∧ f.name = entry.1 ∧ entry.2.isMap = false := by
  unfold fieldOfEntry?
  rw [Option.filter_eq_some_iff]
  constructor
  · rintro ⟨hfield, hmap⟩
    obtain ⟨hmem, hname⟩ := fieldNamed?_eq_some hfield
    exact ⟨hmem, hname, by simpa using hmap⟩
  · rintro ⟨hmem, hname, hmap⟩
    exact ⟨hname ▸ hfields.named f hmem, by simpa using hmap⟩

theorem layOver_eq : layOver fields below entry =
    match fieldOfEntry? fields entry with
    | none => .ok below
    | some f => do
        let v ← f.coerce entry.2
        return below.put f.name v := by
  unfold layOver fieldOfEntry?
  cases fieldNamed? fields entry.1 with
  | none => rfl
  | some f => cases entry.2.isMap <;> rfl

/-- The value for a field among entries of which the later ones count. -/
def lastValue? (fields : List Field) (f : Field) : Entries String Value → Option Value
  | [] => none
  | entry :: rest => (lastValue? fields f rest).or (if fieldOfEntry? fields entry = some f then some entry.2 else none)

theorem lastValue?_append (first second : Entries String Value) :
    lastValue? fields f (first ++ second) = (lastValue? fields f second).or (lastValue? fields f first) := by
  induction first with
  | nil => exact (Option.or_none ..).symm
  | cons entry rest ih => rw [List.cons_append, lastValue?, ih, lastValue?, Option.or_assoc]

/-- One entry replaces the value of its field and leaves those of the others. -/
theorem layOver_get? (hfields : WellNamed fields) (hf : f ∈ fields) (h : layOver fields below entry = .ok above) :
    fieldOfEntry? fields entry ≠ some f ∧ above.get? f.name = below.get? f.name ∨
      fieldOfEntry? fields entry = some f ∧ ∃ v, f.coerce entry.2 = .ok v ∧ above.get? f.name = some v := by
  rw [layOver_eq] at h
  split at h
  · rename_i hnone
    obtain rfl := Except.ok.inj h
    exact .inl ⟨by simp [hnone], rfl⟩
  · rename_i g hg
    obtain ⟨v, hv, h⟩ := except_bind_eq_ok.mp h
    obtain rfl := Except.ok.inj h
    rw [Entries.get?_put]
    by_cases hname : g.name = f.name
    · obtain rfl : g = f := by
        have hgf := hfields.named g ((fieldOfEntry?_eq_some_iff hfields).mp hg).1
        rw [hname, hfields.named f hf] at hgf
        exact (Option.some.inj hgf).symm
      exact .inr ⟨hg, v, hv, by simp⟩
    · refine .inl ⟨fun hf' => hname ?_, by simp [hname]⟩
      exact congrArg Field.name (Option.some.inj (hg.symm.trans hf'))

/-- **Of several entries for a field the last one counts**: by induction on the entries, over whatever is below. -/
theorem layers_get? (hfields : WellNamed fields) (hf : f ∈ fields)
    (h : rest.foldlM (layOver fields) below = .ok above) :
    lastValue? fields f rest = none ∧ above.get? f.name = below.get? f.name ∨
      ∃ w v, lastValue? fields f rest = some w ∧ f.coerce w = .ok v ∧ above.get? f.name = some v := by
  induction rest generalizing below with
  | nil =>
      obtain rfl := Except.ok.inj h
      exact .inl ⟨rfl, rfl⟩
  | cons entry rest ih =>
      rw [List.foldlM_cons] at h
      obtain ⟨next, hnext, h⟩ := except_bind_eq_ok.mp h
      rw [lastValue?]
      rcases ih h with ⟨hlast, hget⟩ | ⟨w, v, hlast, hcoerce, hget⟩
      · rw [hlast, hget]
        rcases layOver_get? hfields hf hnext with ⟨hother, hbelow⟩ | ⟨hown, v, hcoerce, hbelow⟩
        · exact .inl ⟨by rw [if_neg hother]; rfl, hbelow⟩
        · exact .inr ⟨entry.2, v, by rw [if_pos hown]; rfl, hcoerce, hbelow⟩
      · exact .inr ⟨w, v, by rw [hlast]; rfl, hcoerce, hget⟩

/-- **Layering fails exactly if some entry for a field cannot be converted.** -/
theorem layers_fail_iff : (∃ e, rest.foldlM (layOver fields) below = .error e) ↔
    ∃ entry ∈ rest, ∃ f, fieldOfEntry? fields entry = some f ∧ ∃ e, f.coerce entry.2 = .error e := by
  induction rest generalizing below with
  | nil => exact ⟨fun ⟨e, h⟩ => (nomatch h), fun ⟨entry, h, _⟩ => (nomatch h)⟩
  | cons entry rest ih =>
      simp only [List.foldlM_cons, List.mem_cons, exists_eq_or_imp, layOver_eq]
      cases hfield : fieldOfEntry? fields entry with
      | none =>
          refine Iff.trans ih ⟨.inr, fun h => h.resolve_left ?_⟩
          rintro ⟨f, hf, -⟩
          exact nomatch hf
      | some f =>
          simp only [Option.some.injEq, exists_eq_left']
          cases hcoerce : f.coerce entry.2 with
          | error e => exact ⟨fun _ => .inl ⟨e, rfl⟩, fun _ => ⟨e, rfl⟩⟩
          | ok v =>
              refine Iff.trans ih ⟨.inr, fun h => h.resolve_left ?_⟩
              rintro ⟨e, he⟩
              exact nomatch he

theorem layOver_unique (hbelow : below.Unique) (h : layOver fields below entry = .ok above) : above.Unique := by
  rw [layOver_eq] at h
  split at h
  · obtain rfl := Except.ok.inj h
    exact hbelow
  · obtain ⟨v, -, h⟩ := except_bind_eq_ok.mp h
    obtain rfl := Except.ok.inj h
    exact hbelow.put

theorem layers_unique (hbelow : below.Unique) (h : rest.foldlM (layOver fields) below = .ok above) :
    above.Unique := by
  induction rest generalizing below with
  | nil =>
      obtain rfl := Except.ok.inj h
      exact hbelow
  | cons entry rest ih =>
      rw [List.foldlM_cons] at h
      obtain ⟨next, hnext, h⟩ := except_bind_eq_ok.mp h
      exact ih (layOver_unique hbelow hnext) h

/-- **Converted entries are laid down as they are**, each behind those that are there: by induction on the entries. -/
theorem layers_settled (hunique : Entries.Unique (below ++ rest))
    (h : ∀ entry ∈ rest, ∃ f, fieldOfEntry? fields entry = some f ∧ f.name = entry.1 ∧ f.coerce entry.2 = .ok entry.2) :
    rest.foldlM (layOver fields) below = .ok (below ++ rest) := by
  induction rest generalizing below with
  | nil =>
      rw [List.append_nil]
      rfl
  | cons entry rest ih =>
      obtain ⟨⟨f, hf, hname, hcoerce⟩, hrest⟩ := List.forall_mem_cons.mp h
      have hnew : entry.1 ∉ below.map (·.1) := by
        unfold Entries.Unique at hunique
        rw [List.map_append, List.nodup_append] at hunique
        exact fun hmem => hunique.2.2 _ hmem _ (List.mem_cons_self ..) rfl
      have hlay : layOver fields below entry = .ok (below ++ [entry]) := by
        rw [layOver_eq, hf]
        simp only [hcoerce, hname]
        exact congrArg Except.ok (Entries.put_of_not_mem hnew)
      have hsplit : below ++ entry :: rest = (below ++ [entry]) ++ rest := (List.append_cons ..)
      rw [List.foldlM_cons, hlay, hsplit]
      exact ih (hsplit ▸ hunique) hrest

end Layers

end RegisterEvolution
