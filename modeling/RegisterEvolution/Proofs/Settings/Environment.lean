import RegisterEvolution.Proofs.Settings.Loading
import RegisterEvolution.Proofs.Settings.Rendering

/-!
# `Proofs.Settings.Environment` — settings handed on through the environment

Every field of the settings can be a variable of the environment: the name of the field in capitals after a lead, and a
text that stands for its value. No variable is taken for another one, although the variables for programs begin like
those for runs, and so settings are loaded as they have been written.

* `RunSettings.asVariables` — settings as variables;
* `fieldOfVariable?_append` — which field a variable belongs to;
* `layered_of_variables` — what comes of the variables for a list of fields;
* `ProgramSettings.ofEntries_eq`, `RunSettings.ofEntries_eq` — settings are what their fields have been set to;
* `RunSettings.load_variables` — settings that are loaded from their own variables.
-/

namespace RegisterEvolution

/-! ## Settings as variables -/

/-- `s` in capitals, as far as the names of fields need it. -/
def Text.upper (s : String) : String := String.ofList (s.toList.map Char.toUpper)

/-- Fields with their values as variables whose names begin with `lead`. -/
def toVariables (lead : String) (entries : List (String × Value)) : Variables :=
  entries.map fun (name, v) => (lead ++ Text.upper name, v.variableText)

/-- Every field of the settings for a run and for its programs as a variable. -/
def RunSettings.asVariables (lead : String) (s : RunSettings) (p : ProgramSettings) : Variables :=
  toVariables lead s.entries ++ toVariables (programLead lead) p.entries

/-! ## Which variable sets which field -/

/-- What two texts begin with in common plays no part in what follows. -/
theorem after?_append_append (lead cs ds : List Char) : after? (lead ++ cs) (lead ++ ds) = after? cs ds := by
  have hstart : (lead ++ cs).isPrefixOf (lead ++ ds) = cs.isPrefixOf ds := by
    rw [Bool.eq_iff_iff, List.isPrefixOf_iff_prefix, List.isPrefixOf_iff_prefix, List.prefix_append_right_inj]
  have hrest : (lead ++ ds).drop (lead.length + cs.length) = ds.drop cs.length := by
    rw [← List.drop_drop, List.drop_left]
  unfold after?
  rw [hstart, List.length_append, hrest]

theorem after?_append (lead cs : List Char) : after? lead (lead ++ cs) = some cs := by
  have h := after?_append_append lead [] cs
  rw [List.append_nil] at h
  rw [h]
  rfl

/-- After the lead a variable is called like its field, in any case. -/
theorem fieldOfVariable?_append (lead rest : String) (fields : List Field) :
    fieldOfVariable? lead fields (lead ++ rest) = fieldNamed? fields (Text.lower rest) := by
  unfold fieldOfVariable?
  rw [String.toList_append, after?_append]
  simp

theorem Text.lower_upper {s : String} (h : (s.toList.map Char.toUpper).map lowerChar = s.toList) :
    lower (upper s) = s := by
  unfold lower upper
  rw [String.toList_ofList, h, String.ofList_toList]

/-- The names of fields tell them apart, and they come back from capitals. -/
theorem RunSettings.fieldNamed?_name : ∀ f ∈ fields, fieldNamed? fields f.name = some f := by decide

theorem RunSettings.lower_upper : ∀ f ∈ fields, Text.lower (Text.upper f.name) = f.name := by
  have hchars : ∀ f ∈ fields, (f.name.toList.map Char.toUpper).map Text.lowerChar = f.name.toList := by decide
  exact fun f hf => Text.lower_upper (hchars f hf)

theorem ProgramSettings.fieldNamed?_name : ∀ f ∈ fields, fieldNamed? fields f.name = some f := by decide

theorem ProgramSettings.lower_upper : ∀ f ∈ fields, Text.lower (Text.upper f.name) = f.name := by
  have hchars : ∀ f ∈ fields, (f.name.toList.map Char.toUpper).map Text.lowerChar = f.name.toList := by decide
  exact fun f hf => Text.lower_upper (hchars f hf)

/-- A variable for programs is none for runs: it goes on after the lead like no field. -/
theorem RunSettings.fieldOfVariable?_program (lead rest : String) :
    fieldOfVariable? lead fields (programLead lead ++ rest) = none := by
  have hothers : ∀ f ∈ fields, f.name.toList.take 8 ≠ "program_".toList := by decide
  have hlead : (Text.lower ("PROGRAM_" ++ rest)).toList.take 8 = "program_".toList := by
    have hchars : "PROGRAM_".toList.map Text.lowerChar = "program_".toList := by decide
    unfold Text.lower
    rw [String.toList_append, List.map_append, hchars, String.toList_ofList]
    exact List.take_left' rfl
  unfold programLead
  rw [String.append_assoc, fieldOfVariable?_append]
  refine List.find?_eq_none.mpr fun f hf hname => hothers f hf ?_
  rw [eq_of_beq hname, hlead]

/-- And a variable for runs is none for programs: it does not begin with that lead. -/
theorem ProgramSettings.fieldOfVariable?_run (lead : String) :
    ∀ f ∈ RunSettings.fields, fieldOfVariable? (programLead lead) fields (lead ++ Text.upper f.name) = none := by
  intro f hf
  have hnone : ∀ f ∈ RunSettings.fields, after? "PROGRAM_".toList (Text.upper f.name).toList = none := by
    decide
  unfold fieldOfVariable? programLead
  rw [String.toList_append, String.toList_append, after?_append_append, hnone f hf]
  rfl

/-! ## Entries -/

namespace Entries

variable {κ α : Type} [BEq κ] [LawfulBEq κ] {key k : κ} {value u : α} {entries below : Entries κ α}
  {pairs : List (κ × α)}

theorem mem_put_self : (key, value) ∈ entries.put key value := by
  induction entries with
  | nil => exact List.mem_singleton_self _
  | cons entry rest ih =>
      obtain ⟨k, u⟩ := entry
      unfold put
      by_cases hkey : (k == key) = true
      · rw [if_pos hkey, eq_of_beq hkey]
        exact List.mem_cons_self ..
      · rw [if_neg hkey]
        exact List.mem_cons_of_mem _ ih

omit [LawfulBEq κ] in
/-- No key gets lost. -/
theorem exists_mem_put (h : (k, u) ∈ entries) : ∃ v, (k, v) ∈ entries.put key value := by
  induction entries with
  | nil => simp at h
  | cons entry rest ih =>
      obtain ⟨k', u'⟩ := entry
      unfold put
      by_cases hkey : (k' == key) = true
      · rw [if_pos hkey]
        rcases List.mem_cons.mp h with heq | hmem
        · obtain ⟨rfl, rfl⟩ := Prod.mk.inj heq
          exact ⟨value, List.mem_cons_self ..⟩
        · exact ⟨u, List.mem_cons_of_mem _ hmem⟩
      · rw [if_neg hkey]
        rcases List.mem_cons.mp h with heq | hmem
        · exact ⟨u, heq ▸ List.mem_cons_self ..⟩
        · obtain ⟨v, hv⟩ := ih hmem
          exact ⟨v, List.mem_cons_of_mem _ hv⟩

theorem mem_foldl_put (h : (k, u) ∈ pairs.foldl (fun entries (k, v) => put k v entries) below) :
    (k, u) ∈ below ∨ (k, u) ∈ pairs := by
  induction pairs generalizing below with
  | nil => exact .inl h
  | cons pair rest ih =>
      rcases ih h with hput | hmem
      · rcases mem_put hput with hbelow | ⟨rfl, rfl⟩
        · exact .inl hbelow
        · exact .inr (List.mem_cons_self ..)
      · exact .inr (List.mem_cons_of_mem _ hmem)

theorem exists_mem_foldl_put (h : (∃ u, (k, u) ∈ below) ∨ ∃ u, (k, u) ∈ pairs) :
    ∃ u, (k, u) ∈ pairs.foldl (fun entries (k, v) => put k v entries) below := by
  induction pairs generalizing below with
  | nil => simpa using h
  | cons pair rest ih =>
      apply ih
      rcases h with ⟨u, hbelow⟩ | ⟨u, hmem⟩
      · exact .inl (exists_mem_put hbelow)
      · rcases List.mem_cons.mp hmem with rfl | hrest
        · exact .inl ⟨u, mem_put_self⟩
        · exact .inr ⟨u, hrest⟩

end Entries

/-! ## Layers out of the environment -/

section Layers

variable {fields : List Field} {lead name key text : String} {w : Value} {field : Field} {environment : Variables}

/-- What the environment supplies are the texts of variables. -/
theorem mem_ofEnvironment (h : (name, w) ∈ ofEnvironment lead fields environment) :
    ∃ key text field, (key, text) ∈ environment ∧ fieldOfVariable? lead fields key = some field ∧
      field.name = name ∧ w = .text text := by
  rcases Entries.mem_foldl_put h with hnil | hmem
  · simp at hnil
  · obtain ⟨⟨key, text⟩, hvariable, hmap⟩ := List.mem_filterMap.mp hmem
    obtain ⟨field, hfield, heq⟩ := Option.map_eq_some_iff.mp hmap
    obtain ⟨rfl, rfl⟩ := Prod.mk.inj heq
    exact ⟨key, text, field, hvariable, hfield, rfl, rfl⟩

theorem exists_mem_ofEnvironment (hmem : (key, text) ∈ environment)
    (hfield : fieldOfVariable? lead fields key = some field) :
    ∃ w, (field.name, w) ∈ ofEnvironment lead fields environment := by
  apply Entries.exists_mem_foldl_put
  refine .inr ⟨.text text, List.mem_filterMap.mpr ⟨(key, text), hmem, ?_⟩⟩
  simp [hfield]

/-- Layers that can be converted are laid over each other, and every field that one of them has keeps its place. -/
theorem layers_ok {rest below : Entries String Value}
    (hrest : ∀ entry ∈ rest, ∃ field v, fieldNamed? fields entry.1 = some field ∧ entry.2.isMap = false ∧
      field.coerce entry.2 = .ok v) :
    ∃ above, rest.foldlM (layOver fields) below = .ok above ∧
      ∀ name, ((∃ v, (name, v) ∈ below) ∨ ∃ w, (name, w) ∈ rest) → ∃ v, (name, v) ∈ above := by
  induction rest generalizing below with
  | nil => exact ⟨below, rfl, fun name h => by simpa using h⟩
  | cons entry rest ih =>
      obtain ⟨⟨field, v, hfield, hmap, hcoerce⟩, hrest⟩ := List.forall_mem_cons.mp hrest
      obtain ⟨above, hlayers, habove⟩ := @ih (below.put field.name v) hrest
      have hlay : layOver fields below entry = .ok (below.put field.name v) := by
        unfold layOver
        rw [hfield]
        simp only [hmap, hcoerce]
        rfl
      refine ⟨above, ?_, ?_⟩
      · rw [List.foldlM_cons, hlay]
        exact hlayers
      · intro name h
        apply habove
        rcases h with ⟨u, hbelow⟩ | ⟨w, hmem⟩
        · exact .inl (Entries.exists_mem_put hbelow)
        · rcases List.mem_cons.mp hmem with rfl | hlater
          · have hname : field.name = name := (fieldNamed?_eq_some hfield).2
            refine .inl ⟨v, ?_⟩
            rw [← hname]
            exact Entries.mem_put_self
          · exact .inr ⟨w, hlater⟩

theorem mem_toVariables {entries : List (String × Value)} :
    (key, text) ∈ toVariables lead entries ↔
      ∃ name v, (name, v) ∈ entries ∧ key = lead ++ Text.upper name ∧ text = v.variableText := by
  unfold toVariables
  rw [List.mem_map]
  constructor
  · rintro ⟨⟨name, v⟩, hmem, heq⟩
    obtain ⟨rfl, rfl⟩ := Prod.mk.inj heq
    exact ⟨name, v, hmem, rfl, rfl⟩
  · rintro ⟨name, v, hmem, rfl, rfl⟩
    exact ⟨(name, v), hmem, rfl⟩

/-- **What comes of the environment**, if it holds the variables that have been written for settings, and no other ones
    that set one of these fields: the settings. -/
theorem layered_of_variables {get? : String → Option Value} {entries : List (String × Value)}
    (hentries : ∀ name v, (name, v) ∈ entries ↔ ∃ f ∈ fields, f.name = name ∧ get? name = some v)
    (hnames : ∀ f ∈ fields, fieldNamed? fields f.name = some f)
    (hupper : ∀ f ∈ fields, Text.lower (Text.upper f.name) = f.name)
    (hcoerce : ∀ f ∈ fields, ∀ v, get? f.name = some v → f.coerce (.text v.variableText) = .ok v)
    (hwritten : ∀ x ∈ toVariables lead entries, x ∈ environment)
    (hothers : ∀ x ∈ environment, x ∈ toVariables lead entries ∨ fieldOfVariable? lead fields x.1 = none) :
    ∃ above, layered fields lead [] environment [] = .ok above ∧
      (∀ name v, (name, v) ∈ above → get? name = some v) ∧
      ∀ f ∈ fields, (get? f.name).isSome = true → ∃ v, (f.name, v) ∈ above := by
  have hvariable : ∀ f ∈ fields, fieldOfVariable? lead fields (lead ++ Text.upper f.name) = some f := by
    intro f hf
    rw [fieldOfVariable?_append, hupper f hf, hnames f hf]
  -- whatever sets a field is the variable that has been written for it
  have hsupplied : ∀ name w, (name, w) ∈ ofEnvironment lead fields environment →
      ∃ f ∈ fields, f.name = name ∧ w.isMap = false ∧ ∃ v, get? name = some v ∧ f.coerce w = .ok v := by
    intro name w hmem
    obtain ⟨key, text, field, hkey, hfield, rfl, rfl⟩ := mem_ofEnvironment hmem
    rcases hothers _ hkey with hown | hnone
    · obtain ⟨name, v, hentry, rfl, rfl⟩ := mem_toVariables.mp hown
      obtain ⟨f, hf, rfl, hget⟩ := (hentries name v).mp hentry
      obtain rfl : f = field := Option.some.inj ((hvariable f hf).symm.trans hfield)
      exact ⟨f, hf, rfl, rfl, v, hget, hcoerce f hf v hget⟩
    · rw [hnone] at hfield
      exact absurd hfield (Option.some_ne_none field).symm
  have hsource : suppliedBy fields lead [] environment [] = ofEnvironment lead fields environment := by
    simp [suppliedBy]
  have hready : ∀ entry ∈ suppliedBy fields lead [] environment [], ∃ field v,
      fieldNamed? fields entry.1 = some field ∧ entry.2.isMap = false ∧ field.coerce entry.2 = .ok v := by
    rintro ⟨name, w⟩ hmem
    rw [hsource] at hmem
    obtain ⟨f, hf, rfl, hmap, v, -, hv⟩ := hsupplied name w hmem
    exact ⟨f, v, hnames f hf, hmap, hv⟩
  obtain ⟨above, hlayers, habove⟩ := @layers_ok fields _ [] hready
  have hlayered : layered fields lead [] environment [] = .ok above := hlayers
  refine ⟨above, hlayered, ?_, ?_⟩
  · intro name v hmem
    obtain ⟨field, w, hsupplies, hname, hw⟩ := layered_laidOut hlayered _ hmem
    obtain rfl : name = field.name := hname
    have hentry := hsupplies.entry
    rw [hsource] at hentry
    obtain ⟨f, hf, hsame, -, v', hget, hv'⟩ := hsupplied field.name w hentry
    obtain rfl : f = field := by
      have hfound := hnames f hf
      rw [hsame, hnames field hsupplies.known] at hfound
      exact (Option.some.inj hfound).symm
    obtain rfl : v' = v := Except.ok.inj (hv'.symm.trans hw)
    exact hget
  · intro f hf hsome
    obtain ⟨v, hget⟩ := Option.isSome_iff_exists.mp hsome
    have hentry : (f.name, v) ∈ entries := (hentries f.name v).mpr ⟨f, hf, rfl, hget⟩
    have hmem := hwritten _ (mem_toVariables.mpr ⟨f.name, v, hentry, rfl, rfl⟩)
    apply habove
    rw [hsource]
    exact .inr (exists_mem_ofEnvironment hmem (hvariable f hf))

end Layers

/-! ## Settings out of their variables -/

/-- Where every entry under a name has the value that is wanted, and there is one or the value is there already, the
    settings have this value after all entries have been written: by induction on the entries. -/
theorem get?_foldl_set_of_mem {S : Type} {get? : S → String → Option Value} {set : S → String → Value → S}
    {name : String} {v : Value}
    (hset : ∀ {s name v other w}, get? (set s name v) other = some w → other = name ∧ w = v ∨ get? s other = some w)
    (hself : ∀ s v, get? (set s name v) name = some v) (hsome : ∀ s, (get? s name).isSome = true)
    {entries : Entries String Value} (hvalues : ∀ w, (name, w) ∈ entries → w = v) {s : S}
    (h : get? s name = some v ∨ ∃ w, (name, w) ∈ entries) :
    get? (entries.foldl (fun s (name, v) => set s name v) s) name = some v := by
  induction entries generalizing s with
  | nil => simpa using h
  | cons entry rest ih =>
      obtain ⟨key, u⟩ := entry
      apply ih fun w hw => hvalues w (List.mem_cons_of_mem _ hw)
      by_cases hkey : key = name
      · subst hkey
        obtain rfl : u = v := hvalues u (List.mem_cons_self ..)
        exact .inl (hself s u)
      · rcases h with hbefore | ⟨w, hmem⟩
        · obtain ⟨w, hw⟩ := Option.isSome_iff_exists.mp (hsome (set s key u))
          rcases hset hw with ⟨heq, -⟩ | hsame
          · exact absurd heq.symm hkey
          · obtain rfl : w = v := Option.some.inj (hsame.symm.trans hbefore)
            exact .inl hw
        · rcases List.mem_cons.mp hmem with heq | hrest
          · exact absurd (congrArg Prod.fst heq).symm hkey
          · exact .inr ⟨w, hrest⟩

/-- Settings that have been written to by entries agree in a field with those that the entries are taken from. -/
theorem get?_foldl_set_eq {S : Type} {get? : S → String → Option Value} {set : S → String → Value → S} {name : String}
    (hset : ∀ {s name v other w}, get? (set s name v) other = some w → other = name ∧ w = v ∨ get? s other = some w)
    (hself : ∀ s v, get? (set s name v) name = some v) (hsome : ∀ s, (get? s name).isSome = true)
    {entries : Entries String Value} {s t : S} (hvalues : ∀ v, (name, v) ∈ entries → get? t name = some v)
    (hmem : ∃ v, (name, v) ∈ entries) :
    get? (entries.foldl (fun s (name, v) => set s name v) s) name = get? t name := by
  obtain ⟨v, hv⟩ := Option.isSome_iff_exists.mp (hsome t)
  rw [hv]
  refine get?_foldl_set_of_mem hset hself hsome (fun w hw => ?_) (.inr hmem)
  exact Option.some.inj ((hvalues w hw).symm.trans hv)

/-- The entries of settings are their fields with the values. -/
theorem mem_filterMap_fields {fields : List Field} {get? : String → Option Value} {name : String} {v : Value} :
    (name, v) ∈ fields.filterMap (fun f => (get? f.name).map fun v => (f.name, v)) ↔
      ∃ f ∈ fields, f.name = name ∧ get? name = some v := by
  rw [List.mem_filterMap]
  constructor
  · rintro ⟨f, hf, hmap⟩
    obtain ⟨u, hget, heq⟩ := Option.map_eq_some_iff.mp hmap
    obtain ⟨rfl, rfl⟩ := Prod.mk.inj heq
    exact ⟨f, hf, rfl, hget⟩
  · rintro ⟨f, hf, rfl, hget⟩
    exact ⟨f, hf, by simp [hget]⟩

namespace ProgramSettings

variable {p q : ProgramSettings}

/-- Settings are determined by their fields. -/
theorem eq_of_get? (h : ∀ f ∈ fields, p.get? f.name = q.get? f.name) : p = q := by
  obtain ⟨⟩ := p
  obtain ⟨⟩ := q
  simp only [fields, List.forall_mem_cons] at h
  obtain ⟨hlimit, hregisters, hinputs, hactions, hopcodes, hconstants, hexternals, hrange, hpolicy, -⟩ := h
  rw [mk.injEq]
  exact ⟨Option.some.inj hlimit, Option.some.inj hregisters, Option.some.inj hinputs, Option.some.inj hactions,
    Option.some.inj hopcodes, Option.some.inj hconstants, Option.some.inj hexternals, Option.some.inj hrange,
    Option.some.inj hpolicy⟩

theorem get?_set_self : ∀ f ∈ fields, ∀ (p : ProgramSettings) v, (p.set f.name v).get? f.name = some v := by
  simp only [fields, List.forall_mem_cons]
  exact ⟨fun _ _ => rfl, fun _ _ => rfl, fun _ _ => rfl, fun _ _ => rfl, fun _ _ => rfl, fun _ _ => rfl,
    fun _ _ => rfl, fun _ _ => rfl, fun _ _ => rfl, List.forall_mem_nil _⟩

theorem isSome_get? : ∀ f ∈ fields, ∀ p : ProgramSettings, (p.get? f.name).isSome = true := by
  simp only [fields, List.forall_mem_cons]
  exact ⟨fun _ => rfl, fun _ => rfl, fun _ => rfl, fun _ => rfl, fun _ => rfl, fun _ => rfl, fun _ => rfl,
    fun _ => rfl, fun _ => rfl, List.forall_mem_nil _⟩

theorem mem_entries {name : String} {v : Value} :
    (name, v) ∈ p.entries ↔ ∃ f ∈ fields, f.name = name ∧ p.get? name = some v := mem_filterMap_fields

/-- Settings are what has been written to every one of their fields. -/
theorem ofEntries_eq {entries : Entries String Value} (hvalues : ∀ name v, (name, v) ∈ entries → p.get? name = some v)
    (hall : ∀ f ∈ fields, (p.get? f.name).isSome = true → ∃ v, (f.name, v) ∈ entries) : ofEntries entries = p := by
  refine eq_of_get? fun f hf => ?_
  exact get?_foldl_set_eq get?_set (get?_set_self f hf) (isSome_get? f hf) (hvalues f.name)
    (hall f hf (isSome_get? f hf p))

end ProgramSettings

namespace RunSettings

variable {s t : RunSettings} {p : ProgramSettings}

theorem eq_of_get? (h : ∀ f ∈ fields, s.get? f.name = t.get? f.name) (hprogram : s.program = t.program) : s = t := by
  obtain ⟨⟩ := s
  obtain ⟨⟩ := t
  simp only [fields, List.forall_mem_cons] at h
  obtain ⟨hsize, hgenerations, hgap, hmutations, hcrossovers, hkind, hedits, hreevaluate, hseed, hworkers, hquiet,
    -⟩ := h
  rw [mk.injEq]
  exact ⟨Option.some.inj hsize, Option.some.inj hgenerations, Option.some.inj hgap, Option.some.inj hmutations,
    Option.some.inj hcrossovers, Option.some.inj hkind, Option.some.inj hedits, Option.some.inj hreevaluate,
    Option.some.inj hseed, Option.some.inj hworkers, Option.some.inj hquiet, hprogram⟩

theorem get?_set_self :
    ∀ f ∈ fields, f.type ≠ .group → ∀ (s : RunSettings) v, (s.set f.name v).get? f.name = some v := by
  simp only [fields, List.forall_mem_cons]
  exact ⟨fun _ _ _ => rfl, fun _ _ _ => rfl, fun _ _ _ => rfl, fun _ _ _ => rfl, fun _ _ _ => rfl, fun _ _ _ => rfl,
    fun _ _ _ => rfl, fun _ _ _ => rfl, fun _ _ _ => rfl, fun _ _ _ => rfl, fun _ _ _ => rfl,
    fun hgroup => absurd rfl hgroup, List.forall_mem_nil _⟩

theorem isSome_get? : ∀ f ∈ fields, f.type ≠ .group → ∀ s : RunSettings, (s.get? f.name).isSome = true := by
  simp only [fields, List.forall_mem_cons]
  exact ⟨fun _ _ => rfl, fun _ _ => rfl, fun _ _ => rfl, fun _ _ => rfl, fun _ _ => rfl, fun _ _ => rfl, fun _ _ => rfl,
    fun _ _ => rfl, fun _ _ => rfl, fun _ _ => rfl, fun _ _ => rfl, fun hgroup => absurd rfl hgroup,
    List.forall_mem_nil _⟩

theorem get?_group : ∀ f ∈ fields, f.type = .group → ∀ s : RunSettings, s.get? f.name = none := by
  have hgroup : ∀ f ∈ fields, f.type = .group → f.name = "program" := by decide
  intro f hf htype s
  rw [hgroup f hf htype]
  rfl

theorem mem_entries {name : String} {v : Value} :
    (name, v) ∈ s.entries ↔ ∃ f ∈ fields, f.name = name ∧ s.get? name = some v := mem_filterMap_fields

theorem ofEntries_eq {entries : Entries String Value} (hvalues : ∀ name v, (name, v) ∈ entries → s.get? name = some v)
    (hall : ∀ f ∈ fields, (s.get? f.name).isSome = true → ∃ v, (f.name, v) ∈ entries) :
    { ofEntries entries with program := s.program } = s := by
  refine eq_of_get? (fun f hf => ?_) rfl
  have hunmoved : ∀ name, ({ ofEntries entries with program := s.program } : RunSettings).get? name =
      (ofEntries entries).get? name := fun _ => rfl
  rw [hunmoved]
  by_cases hgroup : f.type = .group
  · rw [get?_group f hf hgroup, get?_group f hf hgroup]
  · exact get?_foldl_set_eq get?_set (get?_set_self f hf hgroup) (isSome_get? f hf hgroup) (hvalues f.name)
      (hall f hf (isSome_get? f hf hgroup s))

/-- Accepted settings have accepted settings for programs. -/
theorem validate_program (h : s.validate = .ok ()) (hprogram : s.program = .settings p) : p.validate = .ok () := by
  unfold validate at h
  obtain ⟨⟨⟩, -, h⟩ := except_bind_eq_ok.mp h
  obtain ⟨⟨⟩, -, h⟩ := except_bind_eq_ok.mp h
  obtain ⟨⟨⟩, hgap, h⟩ := except_bind_eq_ok.mp h
  obtain ⟨gap, htoReal, -⟩ := Check.fraction_ok hgap
  rw [htoReal, hprogram] at h
  simp only at h
  split at h
  · exact nomatch h
  · obtain ⟨⟨⟩, -, h⟩ := except_bind_eq_ok.mp h
    obtain ⟨⟨⟩, -, h⟩ := except_bind_eq_ok.mp h
    obtain ⟨⟨⟩, -, h⟩ := except_bind_eq_ok.mp h
    obtain ⟨⟨⟩, -, h⟩ := except_bind_eq_ok.mp h
    obtain ⟨⟨⟩, -, h⟩ := except_bind_eq_ok.mp h
    exact h

/-- Settings for a run, with those for its programs, all of whose fields hold values of the types that they declare. -/
structure Typed (s : RunSettings) (p : ProgramSettings) : Prop where
  program : s.program = .settings p
  run : ∀ f ∈ fields, ∀ v, s.get? f.name = some v → f.Declares v
  programs : ∀ f ∈ ProgramSettings.fields, ∀ v, p.get? f.name = some v → f.Declares v

/-- Every value can be read from its text: those of the fields for runs, none of which is a list. -/
theorem Typed.coerce_run (h : s.Typed p)
    (hintegers : ∀ name n, (name, Value.int n) ∈ s.entries → n.natAbs < 10 ^ Decimal.integerDigitLimit)
    (hnumbers : ∀ name x, (name, Value.float x) ∈ s.entries → Decimal.readFloat? (floatText x) = some x) :
    ∀ f ∈ fields, ∀ v, s.get? f.name = some v → f.coerce (.text v.variableText) = .ok v := by
  have hoptional : ∀ f ∈ fields, f.isOptional = true → f.type = .integer ∨ f.type = .texts := by decide
  have hlists : ∀ f ∈ fields, f.type ≠ .texts := by decide
  intro f hf v hget
  have hentry : (f.name, v) ∈ s.entries := mem_entries.mpr ⟨f, hf, rfl, hget⟩
  have hdeclares := h.run f hf v hget
  refine Field.coerce_variableText hdeclares ?_ (hoptional f hf)
  refine hdeclares.legible (fun n hn => ?_) (fun x hx => ?_) fun _ htexts _ => absurd htexts (hlists f hf)
  · subst hn
    exact hintegers _ n hentry
  · subst hx
    exact hnumbers _ x hentry

/-- And those of the fields for programs, whose only list has been checked to be one of operations. -/
theorem Typed.coerce_program (h : s.Typed p) (hvalid : p.validate = .ok ())
    (hintegers : ∀ name n, (name, Value.int n) ∈ p.entries → n.natAbs < 10 ^ Decimal.integerDigitLimit)
    (hnumbers : ∀ name x, (name, Value.float x) ∈ p.entries → Decimal.readFloat? (floatText x) = some x) :
    ∀ f ∈ ProgramSettings.fields, ∀ v, p.get? f.name = some v → f.coerce (.text v.variableText) = .ok v := by
  have hoptional :
      ∀ f ∈ ProgramSettings.fields, f.isOptional = true → f.type = .integer ∨ f.type = .texts := by decide
  have hlists : ∀ f ∈ ProgramSettings.fields, f.type = .texts → f.name = "opcodes" := by decide
  intro f hf v hget
  have hentry : (f.name, v) ∈ p.entries := ProgramSettings.mem_entries.mpr ⟨f, hf, rfl, hget⟩
  have hdeclares := h.programs f hf v hget
  refine Field.coerce_variableText hdeclares ?_ (hoptional f hf)
  refine hdeclares.legible (fun n hn => ?_) (fun x hx => ?_) fun names htexts hnames => ?_
  · subst hn
    exact hintegers _ n hentry
  · subst hx
    exact hnumbers _ x hentry
  · have hopcodes : p.opcodes = v := by
      rw [hlists f hf htexts] at hget
      exact Option.some.inj hget
    have hcheck := (ProgramSettings.checked_of_validate hvalid).opcodes
    rw [hopcodes, hnames] at hcheck
    rw [hnames]
    exact Check.legible_of_opcodes hcheck

/-- No variable that has been written for programs sets a field for runs. -/
theorem fieldOfVariable?_of_mem_program {lead : String} {x : String × String}
    (h : x ∈ toVariables (programLead lead) p.entries) : fieldOfVariable? lead fields x.1 = none := by
  obtain ⟨name, v, hentry, hkey, -⟩ := mem_toVariables.mp h
  rw [hkey]
  exact fieldOfVariable?_program lead (Text.upper name)

/-- And no variable that has been written for runs sets a field for programs. -/
theorem fieldOfVariable?_of_mem_run {lead : String} {x : String × String} (h : x ∈ toVariables lead s.entries) :
    fieldOfVariable? (programLead lead) ProgramSettings.fields x.1 = none := by
  obtain ⟨name, v, hentry, hkey, -⟩ := mem_toVariables.mp h
  obtain ⟨f, hf, rfl, -⟩ := mem_entries.mp hentry
  rw [hkey]
  exact ProgramSettings.fieldOfVariable?_run lead f hf

/--
**Settings survive the environment.** Accepted settings whose fields hold values of the declared types are loaded from
their own variables, without a file and without overrides, whatever else the environment holds, as long as it sets no
field. Their integers must not be too long to be written out, and their numbers be read from their texts.
-/
theorem load_variables {lead : String} {environment : Variables} (htyped : s.Typed p) (hvalid : s.validate = .ok ())
    (hintegers : ∀ name n, (name, Value.int n) ∈ s.entries ++ p.entries → n.natAbs < 10 ^ Decimal.integerDigitLimit)
    (hnumbers : ∀ name x, (name, Value.float x) ∈ s.entries ++ p.entries →
      Decimal.readFloat? (floatText x) = some x)
    (hwritten : ∀ x ∈ s.asVariables lead p, x ∈ environment)
    (hothers : ∀ x ∈ environment, x ∈ s.asVariables lead p ∨ (fieldOfVariable? lead fields x.1 = none ∧
      fieldOfVariable? (programLead lead) ProgramSettings.fields x.1 = none)) :
    load (.map []) lead environment .null = .ok s := by
  have hload : load (.map []) lead environment .null = (do
      let run ← layered fields lead [] environment []
      let program ← layered ProgramSettings.fields (programLead lead) [] environment []
      let settings : RunSettings :=
        { ofEntries run with program := .settings (ProgramSettings.ofEntries program) }
      settings.validate
      return settings) := rfl
  -- the fields for runs, which the variables for programs do not set
  obtain ⟨run, hrun, hrunValues, hrunAll⟩ : ∃ run, layered fields lead [] environment [] = .ok run ∧
      (∀ name v, (name, v) ∈ run → s.get? name = some v) ∧
      ∀ f ∈ fields, (s.get? f.name).isSome = true → ∃ v, (f.name, v) ∈ run := by
    refine layered_of_variables (fun name v => mem_entries) RunSettings.fieldNamed?_name RunSettings.lower_upper
      (htyped.coerce_run (fun name n hn => hintegers name n (List.mem_append_left _ hn))
        fun name x hx => hnumbers name x (List.mem_append_left _ hx))
      (fun x hx => hwritten x (List.mem_append_left _ hx)) fun x hx => ?_
    rcases hothers x hx with hown | hnone
    · exact (List.mem_append.mp hown).imp_right fieldOfVariable?_of_mem_program
    · exact .inr hnone.1
  -- the fields for programs, which the variables for runs do not set
  obtain ⟨program, hprogram, hprogramValues, hprogramAll⟩ :
      ∃ program, layered ProgramSettings.fields (programLead lead) [] environment [] = .ok program ∧
      (∀ name v, (name, v) ∈ program → p.get? name = some v) ∧
      ∀ f ∈ ProgramSettings.fields, (p.get? f.name).isSome = true → ∃ v, (f.name, v) ∈ program := by
    refine layered_of_variables (fun name v => ProgramSettings.mem_entries)
      ProgramSettings.fieldNamed?_name ProgramSettings.lower_upper
      (htyped.coerce_program (validate_program hvalid htyped.program)
        (fun name n hn => hintegers name n (List.mem_append_right _ hn))
        fun name x hx => hnumbers name x (List.mem_append_right _ hx))
      (fun x hx => hwritten x (List.mem_append_right _ hx)) fun x hx => ?_
    rcases hothers x hx with hown | hnone
    · exact (List.mem_append.mp hown).symm.imp_right fieldOfVariable?_of_mem_run
    · exact .inr hnone.2
  have hsettings : { ofEntries run with program := .settings (ProgramSettings.ofEntries program) } = s := by
    rw [ProgramSettings.ofEntries_eq hprogramValues hprogramAll, ← htyped.program]
    exact ofEntries_eq hrunValues hrunAll
  rw [hload]
  refine except_bind_eq_ok.mpr ⟨run, hrun, except_bind_eq_ok.mpr ⟨program, hprogram, ?_⟩⟩
  rw [hsettings]
  exact except_bind_eq_ok.mpr ⟨(), hvalid, rfl⟩

/-- Settings for programs of two operations, with one count that is given and two that are left open. -/
def distantProgram : ProgramSettings :=
  { maxInstructions := .int 12, inputCount := .int 3, opcodes := .list [.text "add", .text "if_lt"],
    constantProbability := .float 0.25, branchPolicy := .text "nested" }

/-- Settings for a run that differ from the defaults in fields of every type. -/
def distant : RunSettings :=
  { gap := .float 0.3, crossoverKind := .text "one_point", reevaluate := .bool true, seed := .int (-7),
    program := .settings distantProgram }

/-- They come back from an environment that holds more than their variables. -/
theorem load_variables_distant :
    load (.map []) "LGP_" (("PATH", "/bin") :: ("LGP_UNKNOWN", "1") :: distant.asVariables "LGP_" distantProgram)
      .null = .ok distant := by
  have hentries : distant.entries ++ distantProgram.entries =
      [("population_size", .int 100), ("max_generations", .int 100), ("gap", .float 0.3), ("n_mutations", .float 0.5),
       ("n_crossovers", .float 0.5), ("crossover_kind", .text "one_point"), ("max_mutation_edits", .int 1),
       ("reevaluate", .bool true), ("seed", .int (-7)), ("workers", .int 1), ("quiet", .bool false),
       ("max_instructions", .int 12), ("register_count", .null), ("input_count", .int 3), ("action_count", .null),
       ("opcodes", .list [.text "add", .text "if_lt"]), ("constant_probability", .float 0.25),
       ("external_probability", .float 0.5), ("constant_range", .float 10.0), ("branch_policy", .text "nested")] := rfl
  have htyped : distant.Typed distantProgram := by
    refine ⟨rfl, ?_, ?_⟩
    · intro f hf v hv
      simp only [fields, List.mem_cons, List.not_mem_nil, or_false] at hf
      rcases hf with rfl | rfl | rfl | rfl | rfl | rfl | rfl | rfl | rfl | rfl | rfl | rfl
      all_goals cases hv
      all_goals first | exact .integer _ rfl | exact .real _ rfl | exact .switch _ rfl | exact .text _ rfl
    · intro f hf v hv
      simp only [ProgramSettings.fields, List.mem_cons, List.not_mem_nil, or_false] at hf
      rcases hf with rfl | rfl | rfl | rfl | rfl | rfl | rfl | rfl | rfl
      all_goals cases hv
      · exact .integer 12 rfl
      · exact .absent rfl
      · exact .integer 3 rfl
      · exact .absent rfl
      · exact .texts ["add", "if_lt"] rfl
      · exact .real 0.25 rfl
      · exact .real 0.5 rfl
      · exact .real 10.0 rfl
      · exact .text "nested" rfl
  refine load_variables htyped rfl ?_ ?_ (fun x hx => List.mem_cons_of_mem _ (List.mem_cons_of_mem _ hx)) ?_
  · have hshort : ∀ n : Int, n.natAbs < 10 ^ 3 → n.natAbs < 10 ^ Decimal.integerDigitLimit := fun n hn =>
      Value.isWritable_int.mp (Value.isWritable_small hn)
    intro name n hn
    apply hshort
    rw [hentries] at hn
    simp only [List.mem_cons, Prod.mk.injEq, Value.int.injEq, reduceCtorEq, and_false, List.not_mem_nil, or_false,
      false_or] at hn
    omega
  · intro name x hx
    rw [hentries] at hx
    simp only [List.mem_cons, Prod.mk.injEq, Value.float.injEq, reduceCtorEq, and_false, List.not_mem_nil, or_false,
      false_or] at hx
    rcases hx with ⟨-, rfl⟩ | ⟨-, rfl⟩ | ⟨-, rfl⟩ | ⟨-, rfl⟩ | ⟨-, rfl⟩ | ⟨-, rfl⟩
    all_goals decide
  · intro x hx
    rcases List.mem_cons.mp hx with rfl | hx
    · exact .inr (by decide)
    · rcases List.mem_cons.mp hx with rfl | hx
      · exact .inr (by decide)
      · exact .inl hx

end RunSettings

end RegisterEvolution
