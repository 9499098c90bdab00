import RegisterEvolution.Proofs.Settings.Layers

/-!
# `Proofs.Settings.Precedence` — which layer decides about a field

A file, the environment and overrides are laid over each other. For each field the value of the highest layer that has
one prevails, converted to the type of the field; mappings are no values of fields. All values of all layers are
converted, so that also one that does not prevail can be the reason why layering fails.

* `Sources.value?`, `Sources.prevailing?` — the value of a field in one layer, and the one that prevails;
* `Sources.lastValue?_eq_prevailing?` — the one that prevails is the last one of all entries;
* `layered_eq_of_foreign` — a variable that is called like no field changes nothing;
* `layered_precedence` — these together, for the settings of runs and of programs.
-/

namespace RegisterEvolution

/-! ## The value of a field in each layer -/

theorem after?_eq_some_iff {lead cs rest : List Char} : after? lead cs = some rest ↔ cs = lead ++ rest := by
  unfold after?
  by_cases h : lead.isPrefixOf cs = true
  · obtain ⟨tail, rfl⟩ := List.isPrefixOf_iff_prefix.mp h
    simp [h]
  · rw [if_neg h]
    refine ⟨nofun, fun heq => absurd ?_ h⟩
    exact List.isPrefixOf_iff_prefix.mpr ⟨rest, heq.symm⟩

/-- Whether a variable is called like a field: exactly the lead, and then the name of the field in any case. -/
def Field.isNamedBy (f : Field) (lead key : String) : Bool :=
  (after? lead.toList key.toList).any fun rest => Text.lower (String.ofList rest) == Text.lower f.name

theorem Field.isNamedBy_iff {f : Field} {lead key : String} :
    f.isNamedBy lead key = true ↔ ∃ rest, key = lead ++ rest ∧ Text.lower rest = Text.lower f.name := by
  unfold isNamedBy
  rw [Option.any_eq_true]
  constructor
  · rintro ⟨rest, hrest, hname⟩
    refine ⟨String.ofList rest, String.toList_inj.mp ?_, eq_of_beq hname⟩
    rw [after?_eq_some_iff.mp hrest, String.toList_append, String.toList_ofList]
  · rintro ⟨rest, rfl, hname⟩
    refine ⟨rest.toList, ?_, by simpa using hname⟩
    rw [String.toList_append, after?_append]

/-- The value of a field in a mapping; what is itself a mapping is no value of a field. -/
def valueIn? (f : Field) (source : Entries String Value) : Option Value :=
  (source.get? f.name).filter fun v => !v.isMap

/-- The layers, from the lowest to the highest. -/
inductive Layer where
  | file
  | environment
  | overrides
  deriving Repr, DecidableEq

/-- What the layers hold, and what the names of variables begin with. -/
structure Sources where
  lead : String
  file : Entries String Value
  environment : Variables
  overrides : Entries String Value

namespace Sources

/-- The value of a field in a layer; in the environment it is the text of the last variable called like the field. -/
def value? (s : Sources) : Layer → Field → Option Value
  | .file, f => valueIn? f s.file
  | .environment, f => ((s.environment.filter fun x => f.isNamedBy s.lead x.1).getLast?).map fun x => .text x.2
  | .overrides, f => valueIn? f s.overrides

/-- The value of a field in the highest layer that has one. -/
def prevailing? (s : Sources) (f : Field) : Option Value :=
  (s.value? .overrides f).or ((s.value? .environment f).or (s.value? .file f))

/-- The layers laid over each other. -/
def layered (s : Sources) (fields : List Field) : Except Error (Entries String Value) :=
  RegisterEvolution.layered fields s.lead s.file s.environment s.overrides

/-- The file and the overrides have every key once, as mappings do. -/
structure Proper (s : Sources) : Prop where
  file : s.file.Unique
  overrides : s.overrides.Unique

theorem isSome_prevailing?_iff {s : Sources} {f : Field} :
    (s.prevailing? f).isSome = true ↔ ∃ layer, (s.value? layer f).isSome = true := by
  unfold prevailing?
  rw [Option.isSome_or, Option.isSome_or, Bool.or_eq_true, Bool.or_eq_true]
  constructor
  · rintro (h | h | h)
    · exact ⟨_, h⟩
    · exact ⟨_, h⟩
    · exact ⟨_, h⟩
  · rintro ⟨layer, h⟩
    cases layer with
    | file => exact .inr (.inr h)
    | environment => exact .inr (.inl h)
    | overrides => exact .inl h

end Sources

section Sources

variable {fields : List Field} {f : Field} {w : Value} {source : Entries String Value} {s : Sources}
  {laid : Entries String Value}

theorem valueIn?_eq_some_iff (h : source.Unique) :
    valueIn? f source = some w ↔ (f.name, w) ∈ source ∧ w.isMap = false := by
  unfold valueIn?
  rw [Option.filter_eq_some_iff, Entries.get?_eq_some_iff h, Bool.not_eq_true']

/-- Where every key occurs once there is no other value to count. -/
theorem lastValue?_eq_valueIn? (hfields : WellNamed fields) (hf : f ∈ fields) (h : source.Unique) :
    lastValue? fields f source = valueIn? f source := by
  induction source with
  | nil => rfl
  | cons entry rest ih =>
      obtain ⟨name, w⟩ := entry
      obtain ⟨hnew, hrest⟩ := List.nodup_cons.mp h
      rw [lastValue?, ih hrest]
      unfold valueIn?
      rw [Entries.get?_cons]
      by_cases hname : (name == f.name) = true
      · obtain rfl := eq_of_beq hname
        have hnone : Entries.get? f.name rest = none := by
          rw [← Option.not_isSome_iff_eq_none, Entries.isSome_get?_iff]
          exact hnew
        have hiff : fieldOfEntry? fields (f.name, w) = some f ↔ w.isMap = false :=
          (fieldOfEntry?_eq_some_iff hfields).trans ⟨fun h => h.2.2, fun h => ⟨hf, rfl, h⟩⟩
        rw [hnone, if_pos hname]
        cases hmap : w.isMap with
        | false =>
            rw [if_pos (hiff.mpr hmap)]
            exact (Option.filter_some_pos (by simp [hmap])).symm
        | true =>
            rw [if_neg (mt hiff.mp (by simp [hmap]))]
            exact (Option.filter_some_neg (by simp [hmap])).symm
      · have hother : fieldOfEntry? fields (name, w) ≠ some f := fun heq =>
          hname (beq_iff_eq.mpr ((fieldOfEntry?_eq_some_iff hfields).mp heq).2.1.symm)
        rw [if_neg hname, if_neg hother, Option.or_none]

/-- A variable sets the field that it is called like. -/
theorem fieldOfVariable?_eq_some_iff (hfields : WellNamed fields) (hf : f ∈ fields) {lead key : String} :
    (∃ g, fieldOfVariable? lead fields key = some g ∧ g.name = f.name) ↔ f.isNamedBy lead key = true := by
  rw [Field.isNamedBy_iff]
  constructor
  · rintro ⟨g, hg, hname⟩
    obtain ⟨rest, hrest, hfield⟩ := Option.bind_eq_some_iff.mp hg
    refine ⟨String.ofList rest, String.toList_inj.mp ?_, ?_⟩
    · rw [after?_eq_some_iff.mp hrest, String.toList_append, String.toList_ofList]
    · rw [hfields.lower f hf, ← hname]
      exact (fieldNamed?_eq_some hfield).2.symm
  · rintro ⟨rest, rfl, hname⟩
    refine ⟨f, ?_, rfl⟩
    rw [fieldOfVariable?_append, hname, hfields.lower f hf]
    exact hfields.named f hf

/-- What variables supply for a field, among what they supply for all fields. -/
theorem filter_variables (hfields : WellNamed fields) (hf : f ∈ fields) (lead : String) (environment : Variables) :
    ((environment.filterMap fun (key, text) =>
        (fieldOfVariable? lead fields key).map fun g => (g.name, Value.text text)).filter fun pair =>
          pair.1 == f.name) =
      (environment.filter fun x => f.isNamedBy lead x.1).map fun x => (f.name, Value.text x.2) := by
  induction environment with
  | nil => rfl
  | cons x rest ih =>
      obtain ⟨key, text⟩ := x
      cases hg : fieldOfVariable? lead fields key with
      | none =>
          have hforeign : ¬ f.isNamedBy lead key = true := fun hnamed => by
            obtain ⟨g, hg', -⟩ := (fieldOfVariable?_eq_some_iff hfields hf).mpr hnamed
            exact nomatch hg.symm.trans hg'
          rw [List.filterMap_cons_none (by simp [hg]), List.filter_cons_of_neg (by exact hforeign), ih]
      | some g =>
          rw [List.filterMap_cons_some (b := (g.name, Value.text text)) (by simp [hg])]
          by_cases hname : g.name = f.name
          · have hnamed : f.isNamedBy lead key = true :=
              (fieldOfVariable?_eq_some_iff hfields hf).mp ⟨g, hg, hname⟩
            rw [List.filter_cons_of_pos (by simpa using hname), List.filter_cons_of_pos (by exact hnamed),
              List.map_cons, ih, hname]
          · have hforeign : ¬ f.isNamedBy lead key = true := fun hnamed => by
              obtain ⟨g', hg', hname'⟩ := (fieldOfVariable?_eq_some_iff hfields hf).mpr hnamed
              obtain rfl := Option.some.inj (hg.symm.trans hg')
              exact hname hname'
            rw [List.filter_cons_of_neg (by simpa using hname), List.filter_cons_of_neg (by exact hforeign), ih]

/-- The environment supplies the text of the last variable called like the field. -/
theorem valueIn?_ofEnvironment (hfields : WellNamed fields) (hf : f ∈ fields) :
    valueIn? f (ofEnvironment s.lead fields s.environment) = s.value? .environment f := by
  unfold valueIn? ofEnvironment
  rw [Entries.get?_ofPairs, filter_variables hfields hf, List.getLast?_map, Option.map_map]
  -- no text is a mapping
  have hkept : ∀ last : Option (String × String),
      (last.map fun x => Value.text x.2).filter (fun v => !v.isMap) = last.map fun x => Value.text x.2 := by
    rintro (- | x) <;> rfl
  exact hkept _

/-- What a layer supplies for the fields. -/
def Sources.entries (s : Sources) (fields : List Field) : Layer → Entries String Value
  | .file => s.file
  | .environment => ofEnvironment s.lead fields s.environment
  | .overrides => s.overrides

theorem Sources.Proper.unique_entries (h : s.Proper) (layer : Layer) : (s.entries fields layer).Unique := by
  cases layer with
  | file => exact h.file
  | environment => exact Entries.unique_ofPairs _
  | overrides => exact h.overrides

theorem Sources.valueIn?_entries (hfields : WellNamed fields) (hf : f ∈ fields) (layer : Layer) :
    valueIn? f (s.entries fields layer) = s.value? layer f := by
  cases layer with
  | file => rfl
  | environment => exact valueIn?_ofEnvironment hfields hf
  | overrides => rfl

theorem Sources.mem_entries {entry : String × Value} :
    entry ∈ suppliedBy fields s.lead s.file s.environment s.overrides ↔ ∃ layer, entry ∈ s.entries fields layer := by
  unfold suppliedBy
  rw [List.mem_append, List.mem_append]
  constructor
  · rintro ((h | h) | h)
    · exact ⟨.file, h⟩
    · exact ⟨.environment, h⟩
    · exact ⟨.overrides, h⟩
  · rintro ⟨layer, h⟩
    cases layer with
    | file => exact .inl (.inl h)
    | environment => exact .inl (.inr h)
    | overrides => exact .inr h

/-- The value of the highest layer is the last one when all layers are laid over each other. -/
theorem Sources.lastValue?_eq_prevailing? (hfields : WellNamed fields) (hf : f ∈ fields) (h : s.Proper) :
    lastValue? fields f (suppliedBy fields s.lead s.file s.environment s.overrides) = s.prevailing? f := by
  have hlast (layer : Layer) : lastValue? fields f (s.entries fields layer) = s.value? layer f :=
    (lastValue?_eq_valueIn? hfields hf (h.unique_entries layer)).trans (valueIn?_entries hfields hf layer)
  unfold suppliedBy prevailing?
  rw [lastValue?_append, lastValue?_append, ← hlast, ← hlast, ← hlast]
  rfl

/-- A value for a field in some layer, and an entry for the field among all entries. -/
theorem Sources.exists_entry_iff (hfields : WellNamed fields) (h : s.Proper) {P : Field → Value → Prop} :
    (∃ entry ∈ suppliedBy fields s.lead s.file s.environment s.overrides,
      ∃ f, fieldOfEntry? fields entry = some f ∧ P f entry.2) ↔
      ∃ f ∈ fields, ∃ layer w, s.value? layer f = some w ∧ P f w := by
  have hvalue {f : Field} (hf : f ∈ fields) (layer : Layer) (w : Value) :
      s.value? layer f = some w ↔ (f.name, w) ∈ s.entries fields layer ∧ w.isMap = false := by
    rw [← valueIn?_entries hfields hf, valueIn?_eq_some_iff (h.unique_entries layer)]
  constructor
  · rintro ⟨⟨name, w⟩, hentry, f, hfield, hP⟩
    obtain ⟨layer, hlayer⟩ := mem_entries.mp hentry
    obtain ⟨hf, rfl, hmap⟩ := (fieldOfEntry?_eq_some_iff hfields).mp hfield
    exact ⟨f, hf, layer, w, (hvalue hf layer w).mpr ⟨hlayer, hmap⟩, hP⟩
  · rintro ⟨f, hf, layer, w, hw, hP⟩
    obtain ⟨hlayer, hmap⟩ := (hvalue hf layer w).mp hw
    exact ⟨(f.name, w), mem_entries.mpr ⟨layer, hlayer⟩, f,
      (fieldOfEntry?_eq_some_iff hfields).mpr ⟨hf, rfl, hmap⟩, hP⟩

/-! ## Layering -/

/-- A field without a value in any layer has none, every other one that which prevails, converted. -/
theorem Sources.layered_get? (hfields : WellNamed fields) (h : s.Proper) (hlaid : s.layered fields = .ok laid)
    (hf : f ∈ fields) : s.prevailing? f = none ∧ laid.get? f.name = none ∨
      ∃ w v, s.prevailing? f = some w ∧ f.coerce w = .ok v ∧ laid.get? f.name = some v := by
  rw [← lastValue?_eq_prevailing? hfields hf h]
  exact layers_get? hfields hf hlaid

theorem Sources.mem_keys_iff (hfields : WellNamed fields) (h : s.Proper) (hlaid : s.layered fields = .ok laid)
    {name : String} : name ∈ laid.map (·.1) ↔
      ∃ f ∈ fields, f.name = name ∧ ∃ layer, (s.value? layer f).isSome = true := by
  have hfield {f : Field} (hf : f ∈ fields) :
      f.name ∈ laid.map (·.1) ↔ ∃ layer, (s.value? layer f).isSome = true := by
    rw [← isSome_prevailing?_iff, ← Entries.isSome_get?_iff]
    rcases layered_get? hfields h hlaid hf with ⟨hnone, hget⟩ | ⟨w, v, hsome, -, hget⟩
    · rw [hnone, hget]
    · rw [hsome, hget]
      exact ⟨fun _ => rfl, fun _ => rfl⟩
  constructor
  · intro hname
    obtain ⟨entry, hentry, rfl⟩ := List.mem_map.mp hname
    obtain ⟨f, w, hsupplies, heq, -⟩ := layered_laidOut hlaid entry hentry
    rw [heq] at hname ⊢
    exact ⟨f, hsupplies.known, rfl, (hfield hsupplies.known).mp hname⟩
  · rintro ⟨f, hf, rfl, hlayer⟩
    exact (hfield hf).mpr hlayer

theorem Sources.unique_layered (hlaid : s.layered fields = .ok laid) : laid.Unique := by
  have hnone : Entries.Unique ([] : Entries String Value) := List.nodup_nil
  exact layers_unique hnone hlaid

/-- **What has come of layering, taken as a file on its own, comes to the same.** -/
theorem Sources.layered_layered (hfields : WellNamed fields) (hlaid : s.layered fields = .ok laid) (lead : String) :
    Sources.layered ⟨lead, laid, [], []⟩ fields = .ok laid := by
  have hunique : Entries.Unique ([] ++ laid) := unique_layered hlaid
  have hsettled : laid.foldlM (layOver fields) [] = .ok ([] ++ laid) := layers_settled hunique fun entry hentry => by
    obtain ⟨f, w, hsupplies, hname, hcoerce⟩ := layered_laidOut hlaid entry hentry
    have hmap := Field.isMap_coerce hcoerce hsupplies.noMap
    exact ⟨f, (fieldOfEntry?_eq_some_iff hfields).mpr ⟨hsupplies.known, hname.symm, hmap⟩, hname.symm,
      Field.coerce_coerce (hfields.required f hsupplies.known) hcoerce⟩
  have hsources : Sources.layered ⟨lead, laid, [], []⟩ fields = (laid ++ [] ++ []).foldlM (layOver fields) [] := rfl
  rw [hsources, List.append_nil, List.append_nil]
  exact hsettled

theorem Sources.layered_fails_iff (hfields : WellNamed fields) (h : s.Proper) :
    (∃ e, s.layered fields = .error e) ↔
      ∃ f ∈ fields, ∃ layer w, s.value? layer f = some w ∧ ∃ e, f.coerce w = .error e :=
  layers_fail_iff.trans (exists_entry_iff hfields h (P := fun f w => ∃ e, f.coerce w = .error e))

end Sources

/-! ## Variables that set no field -/

section Foreign

variable {fields : List Field} {lead key : String} {environment environment' : Variables}

/-- Environments that differ in the variables of one name only. -/
def AlikeBut (key : String) (environment environment' : Variables) : Prop :=
  environment.filter (fun x => x.1 != key) = environment'.filter fun x => x.1 != key

theorem ofEnvironment_of_foreign (h : fieldOfVariable? lead fields key = none) (environment : Variables) :
    ofEnvironment lead fields environment = ofEnvironment lead fields (environment.filter fun x => x.1 != key) := by
  unfold ofEnvironment
  rw [List.filterMap_filter]
  congr 1
  refine List.filterMap_congr fun x _ => ?_
  by_cases hkey : x.1 = key
  · simp [hkey, h]
  · simp [hkey]

/-- **A variable that is called like no field changes nothing.** -/
theorem layered_eq_of_foreign (h : fieldOfVariable? lead fields key = none)
    (halike : AlikeBut key environment environment') (file overrides : Entries String Value) :
    layered fields lead file environment overrides = layered fields lead file environment' overrides := by
  unfold layered
  rw [ofEnvironment_of_foreign h environment, halike, ← ofEnvironment_of_foreign h environment']

/-- A variable is called like no field for runs, or like no field for programs. -/
theorem foreign_to_runs_or_programs (lead key : String) :
    fieldOfVariable? lead RunSettings.fields key = none ∨
      fieldOfVariable? (programLead lead) ProgramSettings.fields key = none := by
  cases hprogram : fieldOfVariable? (programLead lead) ProgramSettings.fields key with
  | none => exact .inr rfl
  | some f =>
      obtain ⟨rest, hrest, -⟩ := Option.bind_eq_some_iff.mp hprogram
      refine .inl ?_
      have hkey : key = programLead lead ++ String.ofList rest := by
        rw [← String.toList_inj, String.toList_append, String.toList_ofList]
        exact after?_eq_some_iff.mp hrest
      rw [hkey]
      exact RunSettings.fieldOfVariable?_program lead _

/-- The variables of a name make a difference for some fields, whether layering succeeds with them or not. -/
def Influences (fields : List Field) (lead key : String) : Prop :=
  ∃ file overrides environment environment', AlikeBut key environment environment' ∧
    layered fields lead file environment overrides ≠ layered fields lead file environment' overrides

theorem not_influences_both (lead key : String) :
    ¬ (Influences RunSettings.fields lead key ∧ Influences ProgramSettings.fields (programLead lead) key) := by
  rintro ⟨⟨file, overrides, _, _, halike, hrun⟩, file', overrides', _, _, halike', hprogram⟩
  rcases foreign_to_runs_or_programs lead key with h | h
  · exact hrun (layered_eq_of_foreign h halike file overrides)
  · exact hprogram (layered_eq_of_foreign h halike' file' overrides')

end Foreign

namespace RunSettings

variable {s s' : RunSettings} {file overrides : Value} {lead : String} {environment : Variables}

/-- Settings that have been loaded come of two layerings, one for runs and one for programs. -/
theorem layered_of_load (h : load file lead environment overrides = .ok s) :
    ∃ content explicit programExplicit run program, fileEntries file = .ok content ∧
      overrides.toOverrides = .ok explicit ∧
      ((explicit.get? "program").getD .null).toOverrides = .ok programExplicit ∧
      layered fields lead (namedEntries (runSection content)) environment
        (explicit.filter fun (name, _) => name != "program") = .ok run ∧
      layered ProgramSettings.fields (programLead lead) (namedEntries (programSection content)) environment
        programExplicit = .ok program ∧
      s = { ofEntries run with program := .settings (ProgramSettings.ofEntries program) } := by
  obtain ⟨content, hcontent, h⟩ := except_bind_eq_ok.mp h
  obtain ⟨explicit, hexplicit, h⟩ := except_bind_eq_ok.mp h
  obtain ⟨run, hrun, h⟩ := except_bind_eq_ok.mp h
  obtain ⟨programExplicit, hprogramExplicit, h⟩ := except_bind_eq_ok.mp h
  obtain ⟨program, hprogram, h⟩ := except_bind_eq_ok.mp h
  obtain ⟨_, -, h⟩ := except_bind_eq_ok.mp h
  exact ⟨content, explicit, programExplicit, run, program, hcontent, hexplicit, hprogramExplicit, hrun, hprogram,
    (Except.ok.inj h).symm⟩

/-- Settings that are loaded from the same file with the same overrides, in environments that differ in the variables of
    one name only. -/
def LoadedAlikeBut (lead key : String) (s s' : RunSettings) : Prop :=
  ∃ file overrides environment environment', AlikeBut key environment environment' ∧
    load file lead environment overrides = .ok s ∧ load file lead environment' overrides = .ok s'

/-- **No variable makes a difference for a setting of runs and for one of programs.** -/
theorem loaded_alike (lead key : String) :
    (∀ s s', LoadedAlikeBut lead key s s' → ∀ name, s.get? name = s'.get? name) ∨
      ∀ s s', LoadedAlikeBut lead key s s' → s.program = s'.program := by
  refine (foreign_to_runs_or_programs lead key).imp ?_ ?_
  all_goals
    rintro hforeign s s' ⟨file, overrides, environment, environment', halike, h, h'⟩
    obtain ⟨content, explicit, programExplicit, run, program, hcontent, hexplicit, hprogramExplicit, hrun, hprogram,
      rfl⟩ := layered_of_load h
    obtain ⟨_, _, _, run', program', hcontent', hexplicit', hprogramExplicit', hrun', hprogram', rfl⟩ :=
      layered_of_load h'
    obtain rfl := Except.ok.inj (hcontent.symm.trans hcontent')
    obtain rfl := Except.ok.inj (hexplicit.symm.trans hexplicit')
    obtain rfl := Except.ok.inj (hprogramExplicit.symm.trans hprogramExplicit')
  · rw [layered_eq_of_foreign hforeign halike, hrun'] at hrun
    obtain rfl := Except.ok.inj hrun
    exact fun _ => rfl
  · rw [layered_eq_of_foreign hforeign halike, hprogram'] at hprogram
    obtain rfl := Except.ok.inj hprogram
    rfl

end RunSettings

/-! ## Precedence -/

/--
**The highest layer that has a value for a field decides about it.** When layering succeeds, every key occurs once, the
keys are the names of the fields with a value in some layer, and the value of a field is that of the highest such layer,
converted; laid down once more as a file on its own, the result stays the same. Layering fails exactly if a value of
some layer cannot be converted to the type of its field. No variable plays a part for fields of runs and of programs
alike, neither for the layers nor for settings that are loaded.
-/
theorem layered_precedence {fields : List Field} {s : Sources}
    (hfields : fields ∈ [RunSettings.fields, ProgramSettings.fields]) (hs : s.Proper) :
    (∀ laid, s.layered fields = .ok laid →
      laid.Unique ∧
      (∀ name, name ∈ laid.map (·.1) ↔ ∃ f ∈ fields, f.name = name ∧ ∃ layer, (s.value? layer f).isSome = true) ∧
      (∀ f ∈ fields, ∀ w, s.prevailing? f = some w → ∃ v, f.coerce w = .ok v ∧ laid.get? f.name = some v) ∧
      ∀ lead, Sources.layered ⟨lead, laid, [], []⟩ fields = .ok laid) ∧
    ((∃ e, s.layered fields = .error e) ↔
      ∃ f ∈ fields, ∃ layer w, s.value? layer f = some w ∧ ∃ e, f.coerce w = .error e) ∧
    ∀ lead key,
      ¬ (Influences RunSettings.fields lead key ∧ Influences ProgramSettings.fields (programLead lead) key) ∧
      ((∀ s s', RunSettings.LoadedAlikeBut lead key s s' → ∀ name, s.get? name = s'.get? name) ∨
        ∀ s s', RunSettings.LoadedAlikeBut lead key s s' → s.program = s'.program) := by
  have hnamed : WellNamed fields := by
    rcases List.mem_cons.mp hfields with rfl | hprograms
    · exact RunSettings.wellNamed
    · obtain rfl := List.mem_singleton.mp hprograms
      exact ProgramSettings.wellNamed
  refine ⟨fun laid hlaid => ⟨Sources.unique_layered hlaid,
    fun name => Sources.mem_keys_iff hnamed hs hlaid, fun f hf w hw => ?_, Sources.layered_layered hnamed hlaid⟩,
    Sources.layered_fails_iff hnamed hs, fun lead key =>
      ⟨not_influences_both lead key, RunSettings.loaded_alike lead key⟩⟩
  rcases Sources.layered_get? hnamed hs hlaid hf with ⟨hnone, -⟩ | ⟨w', v, hsome, hcoerce, hget⟩
  · exact nomatch hnone.symm.trans hw
  · obtain rfl := Option.some.inj (hsome.symm.trans hw)
    exact ⟨v, hcoerce, hget⟩

/-- A file, variables of which three are called like one field, and overrides that leave a field open. -/
def contested : Sources where
  lead := "LGP_"
  file := [("gap", .int 1), ("seed", .text "7"), ("workers", .int 2)]
  environment := [("LGP_GAP", "0.75"), ("lgp_gap", "none"), ("LGP_Gap", "0.25")]
  overrides := [("seed", .null), ("workers", .map [])]

/-- The last variable decides about the gap, the override about the seed, and the file about the workers. -/
theorem layered_precedence_contested : ∃ laid, contested.layered RunSettings.fields = .ok laid ∧
    laid.get? "gap" = some (.float 0.25) ∧ laid.get? "seed" = some .null ∧ laid.get? "workers" = some (.int 2) := by
  have hproper : contested.Proper := ⟨by unfold Entries.Unique; decide, by unfold Entries.Unique; decide⟩
  obtain ⟨hlaid, -, -⟩ := layered_precedence (List.mem_cons_self ..) hproper
  have hlays : (contested.layered RunSettings.fields).isOk = true := by decide +kernel
  cases hok : contested.layered RunSettings.fields with
  | error fault =>
      rw [hok] at hlays
      exact absurd hlays Bool.false_ne_true
  | ok laid =>
      obtain ⟨-, -, hvalues, -⟩ := hlaid laid hok
      obtain ⟨gap, hgap, hgapLaid⟩ := hvalues ⟨"gap", .real, false⟩ (by decide) (.text "0.25") rfl
      obtain ⟨seed, hseed, hseedLaid⟩ := hvalues ⟨"seed", .integer, false⟩ (by decide) .null rfl
      obtain ⟨workers, hworkers, hworkersLaid⟩ := hvalues ⟨"workers", .integer, false⟩ (by decide) (.int 2) rfl
      obtain rfl := Except.ok.inj hgap
      obtain rfl := Except.ok.inj hseed
      obtain rfl := Except.ok.inj hworkers
      exact ⟨laid, rfl, hgapLaid, hseedLaid, hworkersLaid⟩

end RegisterEvolution
