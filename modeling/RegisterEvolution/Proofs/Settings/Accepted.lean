import RegisterEvolution.Proofs.Binary64.Magnitude
import RegisterEvolution.Proofs.Outcome
import RegisterEvolution.Proofs.Program.Validity
import RegisterEvolution.Settings.Check

/-!
# `Proofs.Settings.Accepted` — what accepted settings guarantee

Checks answer nothing but acceptance. This module reads off what they have established: each check of a field gives
the typed value that the field stands for, and together these give typed settings that a run can rely on.

* `ProgramSettings.exists_shape_of_bind` — settings bound to a task describe a usable shape for it;
* `Breeding.Feasible`, `RunSettings.exists_plan` — accepted settings describe a plan whose counts and fractions are in
  range.
-/

namespace RegisterEvolution

open Binary64

/-! ## Checks of single fields -/

namespace Check

variable {field : String} {v : Value}

theorem atLeast_ok {least : Int} (h : atLeast field least v = .ok ()) : ∃ n, v = .int n ∧ least ≤ n := by
  unfold atLeast at h
  split at h
  · rename_i n
    split at h
    · exact nomatch h
    · exact ⟨n, rfl, by omega⟩
  · exact nomatch h

/-- A fraction stands for a number between zero and one. -/
theorem fraction_ok (h : fraction field v = .ok ()) : ∃ x, v.toReal = .ok x ∧ AtMost 1 x := by
  unfold fraction at h
  split at h
  · rename_i b
    cases b with
    | false => exact ⟨0.0, rfl, atMost_zero 1⟩
    | true => exact ⟨1.0, rfl, ⟨⟨by decide, by decide⟩, rfl⟩⟩
  · rename_i n
    split at h
    · exact nomatch h
    · split at h
      · rename_i hrange
        -- the only integers that are fractions are the ends of the range
        obtain rfl | rfl : n = 0 ∨ n = 1 := by omega
        · exact ⟨Decimal.ofNat 0, rfl, (atMost_ofNat (by decide)).mono (by decide)⟩
        · exact ⟨Decimal.ofNat 1, rfl, atMost_ofNat (by decide)⟩
      · exact nomatch h
  · rename_i x
    split at h
    · rename_i hrange
      exact ⟨x, rfl, atMost_one hrange.1 hrange.2⟩
    · exact nomatch h
  · exact nomatch h

theorem oneOf_ok {choices : List String} (h : oneOf field choices v = .ok ()) : ∃ s, v = .text s ∧ s ∈ choices := by
  unfold oneOf at h
  split at h
  · rename_i s
    split at h
    · rename_i hmem
      exact ⟨s, rfl, by simpa using hmem⟩
    · exact nomatch h
  · exact nomatch h

theorem positive_ok (h : positive v = .ok ()) : ∃ x, v.toReal = .ok x := by
  unfold positive at h
  split at h
  · exact ⟨_, rfl⟩
  · rename_i n
    split at h
    · exact nomatch h
    · rename_i hrange
      obtain ⟨x, hx⟩ : ∃ x, Decimal.ofInt? n = some x := by
        rw [Bool.not_eq_true, Option.isNone_eq_false_iff, Option.isSome_iff_exists] at hrange
        exact hrange
      exact ⟨x, by simp [Value.toReal, Value.toNumber, hx]⟩
  · exact ⟨_, rfl⟩
  · exact nomatch h

theorem count_ok (h : count field v = .ok ()) : v = .null ∨ ∃ n, v = .int n ∧ 1 ≤ n := by
  unfold count at h
  split at h
  · exact .inl rfl
  · exact .inr (atLeast_ok h)

theorem one_le_of_count {n : Int} (h : count field (.int n) = .ok ()) : 1 ≤ n := by
  rcases count_ok h with hnull | ⟨m, hm, hpos⟩
  · exact nomatch hnull
  · cases hm
    exact hpos

theorem room_ok {r a : Int} (h : room (.int r) (.int a) = .ok ()) : a ≤ r := by
  simp only [room] at h
  split at h
  · exact nomatch h
  · omega

theorem namesOpcode_iff : namesOpcode v = true ↔ ∃ s op, v = .text s ∧ Opcode.ofName? s = some op := by
  unfold namesOpcode
  split
  · simp [Option.isSome_iff_exists]
  · rename_i hne
    exact ⟨fun h => (nomatch h), fun ⟨s, _, hs, _⟩ => absurd hs (hne s)⟩

/-- Texts that all name operations are names. -/
theorem mapM_toName (items : List Value) (h : ∀ v ∈ items, namesOpcode v = true) :
    ∃ names, items.mapM Value.toName = .ok names ∧ names.length = items.length ∧
      ∀ name ∈ names, ∃ op, Opcode.ofName? name = some op := by
  induction items with
  | nil => exact ⟨[], rfl, rfl, List.forall_mem_nil _⟩
  | cons v rest ih =>
      obtain ⟨s, op, rfl, hop⟩ := namesOpcode_iff.mp (h v (List.mem_cons_self ..))
      obtain ⟨names, hnames, hlength, hknown⟩ := ih fun w hw => h w (List.mem_cons_of_mem _ hw)
      refine ⟨s :: names, ?_, by simp [hlength], ?_⟩
      · rw [List.mapM_cons, hnames]
        rfl
      · rw [List.forall_mem_cons]
        exact ⟨⟨op, hop⟩, hknown⟩

/-- A collection that counts as switched on has an item. -/
theorem items_ne_nil {items : List Value} (hitems : items? v = some items) (htruthy : v.isTruthy = true) :
    items ≠ [] := by
  unfold items? at hitems
  split at hitems
  · rename_i xs
    obtain rfl := Option.some.inj hitems
    intro h
    simp [Value.isTruthy, h] at htruthy
  · rename_i s
    obtain rfl := Option.some.inj hitems
    intro h
    simp [Value.isTruthy] at htruthy
    simp at h
    exact htruthy h
  · rename_i entries
    obtain rfl := Option.some.inj hitems
    intro h
    simp at h
    simp [Value.isTruthy, h] at htruthy
  · exact nomatch hitems

/-- Accepted operations are names of operations, at least one, or all operations. -/
theorem opcodes_ok (h : opcodes v = .ok ()) :
    ∃ names, v.toNames = .ok names ∧ names.getD (Opcode.all.map Opcode.name) ≠ [] ∧
      ∀ name ∈ names.getD (Opcode.all.map Opcode.name), ∃ op, Opcode.ofName? name = some op := by
  unfold opcodes at h
  split at h
  · refine ⟨none, rfl, by decide, ?_⟩
    intro name hname
    obtain ⟨op, -, rfl⟩ := List.mem_map.mp hname
    exact ⟨op, Opcode.ofName?_name op⟩
  · rename_i hnull
    split at h
    · exact nomatch h
    · rename_i htruthy
      split at h
      · exact nomatch h
      · rename_i items hitems
        split at h
        · exact nomatch h
        · simp only at h
          split at h
          · rename_i hunknown
            have hall : ∀ w ∈ items, namesOpcode w = true := by
              simpa [List.filter_eq_nil_iff] using hunknown
            obtain ⟨names, hnames, hlength, hknown⟩ := mapM_toName items hall
            refine ⟨some names, ?_, ?_, hknown⟩
            · unfold Value.toNames
              split
              · exact absurd rfl hnull
              · rw [hitems]
                simp [hnames, Except.map]
            · have hne := items_ne_nil hitems (by simpa using htruthy)
              intro hnil
              have hnil' : names = [] := hnil
              rw [hnil', List.length_nil] at hlength
              exact hne (List.length_eq_zero_iff.mp hlength.symm)
          · exact nomatch h

end Check

/-! ## Program settings -/

namespace ProgramSettings

/-- Settings of which every field has passed its check. -/
structure Checked (p : ProgramSettings) : Prop where
  limit : Check.atLeast "max_instructions" 1 p.maxInstructions = .ok ()
  registers : Check.count "register_count" p.registerCount = .ok ()
  inputs : Check.count "input_count" p.inputCount = .ok ()
  actions : Check.count "action_count" p.actionCount = .ok ()
  room : Check.room p.registerCount p.actionCount = .ok ()
  constant : Check.fraction "constant_probability" p.constantProbability = .ok ()
  inputShare : Check.fraction "external_probability" p.externalProbability = .ok ()
  range : Check.positive p.constantRange = .ok ()
  opcodes : Check.opcodes p.opcodes = .ok ()

variable {p bound : ProgramSettings}

theorem checked_of_validate (h : p.validate = .ok ()) : p.Checked := by
  unfold validate at h
  obtain ⟨⟨⟩, hlimit, h⟩ := except_bind_eq_ok.mp h
  obtain ⟨⟨⟩, hregisters, h⟩ := except_bind_eq_ok.mp h
  obtain ⟨⟨⟩, hinputs, h⟩ := except_bind_eq_ok.mp h
  obtain ⟨⟨⟩, hactions, h⟩ := except_bind_eq_ok.mp h
  obtain ⟨⟨⟩, hroom, h⟩ := except_bind_eq_ok.mp h
  obtain ⟨⟨⟩, hconstant, h⟩ := except_bind_eq_ok.mp h
  obtain ⟨⟨⟩, hexternal, h⟩ := except_bind_eq_ok.mp h
  obtain ⟨⟨⟩, hrange, h⟩ := except_bind_eq_ok.mp h
  obtain ⟨⟨⟩, -, hopcodes⟩ := except_bind_eq_ok.mp h
  exact ⟨hlimit, hregisters, hinputs, hactions, hroom, hconstant, hexternal, hrange, hopcodes⟩

/-- Checked settings without an open count describe a usable shape. -/
theorem Checked.exists_shape {r i a : Int} (h : p.Checked) (hr : p.registerCount = .int r)
    (hi : p.inputCount = .int i) (ha : p.actionCount = .int a) :
    ∃ shape, p.shape = .ok shape ∧ shape.Usable ⟨r, i, a⟩ := by
  obtain ⟨limit, hlimit, hlimitPos⟩ := Check.atLeast_ok h.limit
  obtain ⟨constant, hconstant, -⟩ := Check.fraction_ok h.constant
  obtain ⟨fromInputs, hexternal, -⟩ := Check.fraction_ok h.inputShare
  obtain ⟨range, hrange⟩ := Check.positive_ok h.range
  obtain ⟨names, hnames, hne, hknown⟩ := Check.opcodes_ok h.opcodes
  have hiPos := Check.one_le_of_count (hi ▸ h.inputs)
  have haPos := Check.one_le_of_count (ha ▸ h.actions)
  have hroom := h.room
  rw [hr, ha] at hroom
  unfold shape
  rw [hlimit, hr, hi, ha, hnames, hconstant, hexternal, hrange]
  exact ⟨_, rfl, rfl, hlimitPos, hiPos, haPos, Check.room_ok hroom, hne, hknown⟩

/-- A checked count that is known is an integer. -/
theorem int_of_count {field : String} {v : Value} (h : Check.count field v = .ok ()) (hknown : v ≠ .null) :
    ∃ n, v = .int n := by
  rcases Check.count_ok h with rfl | ⟨n, rfl, -⟩
  · exact absurd rfl hknown
  · exact ⟨n, rfl⟩

/-- Checked settings of which all counts are known describe a usable shape. -/
theorem Checked.exists_shape_of_bound (h : p.Checked) (hbound : p.isBound = true) :
    ∃ shape sizes, p.shape = .ok shape ∧ shape.Usable sizes := by
  have hknown : p.registerCount ≠ .null ∧ p.inputCount ≠ .null ∧ p.actionCount ≠ .null := by
    refine ⟨?_, ?_, ?_⟩ <;> rintro hnull <;> simp [isBound, hnull] at hbound
  obtain ⟨r, hr⟩ := int_of_count h.registers hknown.1
  obtain ⟨i, hi⟩ := int_of_count h.inputs hknown.2.1
  obtain ⟨a, ha⟩ := int_of_count h.actions hknown.2.2
  obtain ⟨shape, hshape, husable⟩ := h.exists_shape hr hi ha
  exact ⟨shape, _, hshape, husable⟩

/-- A checked count in the place of an open one is an integer. -/
theorem orElse_int_of_count {field : String} {v : Value} {n : Int}
    (h : Check.count field (orElse v (.int n)) = .ok ()) : ∃ m, orElse v (.int n) = .int m := by
  rcases Check.count_ok h with hnull | ⟨m, hm, -⟩
  · cases v <;> exact nomatch hnull
  · exact ⟨m, hm⟩

/-- A count that agrees with the task is the one of the task. -/
theorem eq_of_agrees {v : Value} {m n : Int} (hv : v = .int m) (h : agrees v n = true) : m = n := by
  rw [hv] at h
  exact eq_of_beq h

/-- **Settings that are bound to a task describe a usable shape**, with the inputs and actions of the task. -/
theorem exists_shape_of_bind {inputs actions : Int} (h : p.bind inputs actions = .ok bound) :
    ∃ shape sizes, bound.shape = .ok shape ∧ shape.Usable sizes ∧ sizes.inputs = inputs ∧ sizes.actions = actions := by
  unfold bind at h
  simp only at h
  split at h
  · exact nomatch h
  · rename_i hinputs
    split at h
    · exact nomatch h
    · rename_i hactions
      obtain ⟨⟨⟩, hvalid, hbound⟩ := except_bind_eq_ok.mp h
      obtain rfl := Except.ok.inj hbound
      have hchecked := checked_of_validate hvalid
      obtain ⟨i, hi⟩ := orElse_int_of_count hchecked.inputs
      obtain ⟨a, ha⟩ := orElse_int_of_count hchecked.actions
      -- an open number of registers is one more than the actions, which are known by now
      obtain ⟨r, hr⟩ : ∃ r, orElse p.registerCount (successor (orElse p.actionCount (.int actions))) = .int r := by
        have hregisters := hchecked.registers
        simp only [ha] at hregisters ⊢
        exact orElse_int_of_count hregisters
      obtain ⟨shape, hshape, husable⟩ := hchecked.exists_shape hr hi ha
      refine ⟨shape, _, hshape, husable, eq_of_agrees hi ?_, eq_of_agrees ha ?_⟩
      · simpa using hinputs
      · simpa using hactions

theorem exists_shape {inputs actions : Int} (h : p.bind inputs actions = .ok bound) :
    ∃ shape sizes, bound.shape = .ok shape ∧ shape.Usable sizes := by
  obtain ⟨shape, sizes, hshape, husable, -⟩ := exists_shape_of_bind h
  exact ⟨shape, sizes, hshape, husable⟩

end ProgramSettings

/-! ## Run settings -/

/-- A breeding whose counts and fractions are in range. -/
structure Breeding.Feasible (b : Breeding) : Prop where
  size : 2 ≤ b.populationSize
  mutations : AtMost 1 b.mutations
  crossovers : AtMost 1 b.crossovers
  crossover : b.crossover = .onePoint ∨ b.crossover = .twoPoint

namespace RunSettings

theorem crossover_known {s : String} (h : s ∈ Crossover.names) :
    Crossover.ofValue (.text s) = .onePoint ∨ Crossover.ofValue (.text s) = .twoPoint := by
  unfold Crossover.names at h
  rw [List.mem_cons, List.mem_singleton] at h
  rcases h with rfl | rfl
  · exact .inl rfl
  · exact .inr rfl

/-- Settings of which every field has passed its check. -/
structure Checked (s : RunSettings) : Prop where
  size : Check.atLeast "population_size" 2 s.populationSize = .ok ()
  generations : Check.atLeast "max_generations" 0 s.maxGenerations = .ok ()
  gap : Check.fraction "gap" s.gap = .ok ()
  mutations : Check.fraction "n_mutations" s.mutations = .ok ()
  crossovers : Check.fraction "n_crossovers" s.crossovers = .ok ()
  kind : Check.oneOf "crossover_kind" Crossover.names s.crossoverKind = .ok ()
  edits : Check.atLeast "max_mutation_edits" 1 s.maxMutationEdits = .ok ()
  workers : Check.atLeast "workers" 1 s.workers = .ok ()
  program : ∃ p, s.programSettings = .ok p

variable {s : RunSettings}

theorem checked_of_validate (h : s.validate = .ok ()) : s.Checked := by
  unfold validate at h
  obtain ⟨⟨⟩, hsize, h⟩ := except_bind_eq_ok.mp h
  obtain ⟨⟨⟩, hgenerations, h⟩ := except_bind_eq_ok.mp h
  obtain ⟨⟨⟩, hgap, h⟩ := except_bind_eq_ok.mp h
  obtain ⟨gap, htoReal, -⟩ := Check.fraction_ok hgap
  rw [htoReal] at h
  simp only at h
  -- a gap of zero is not accepted, although it is a fraction
  split at h
  · exact nomatch h
  · obtain ⟨⟨⟩, hmutations, h⟩ := except_bind_eq_ok.mp h
    obtain ⟨⟨⟩, hcrossovers, h⟩ := except_bind_eq_ok.mp h
    obtain ⟨⟨⟩, hkind, h⟩ := except_bind_eq_ok.mp h
    obtain ⟨⟨⟩, hedits, h⟩ := except_bind_eq_ok.mp h
    obtain ⟨⟨⟩, hworkers, h⟩ := except_bind_eq_ok.mp h
    refine ⟨hsize, hgenerations, hgap, hmutations, hcrossovers, hkind, hedits, hworkers, ?_⟩
    unfold programSettings
    cases hprogram : s.program with
    | settings p => exact ⟨p, rfl⟩
    | other v =>
        rw [hprogram] at h
        exact nomatch h

/-- **Accepted settings describe a plan** that breeds feasibly. -/
theorem exists_plan (h : s.validate = .ok ()) :
    ∃ plan, s.plan = .ok plan ∧ plan.breeding.Feasible ∧ AtMost 1 plan.gap ∧
      s.programSettings = .ok plan.program ∧ s.populationSize = .int plan.breeding.populationSize := by
  have hchecked := checked_of_validate h
  obtain ⟨size, hsize, hsizeRange⟩ := Check.atLeast_ok hchecked.size
  obtain ⟨generations, hgenerations, -⟩ := Check.atLeast_ok hchecked.generations
  obtain ⟨gap, hgap, hgapRange⟩ := Check.fraction_ok hchecked.gap
  obtain ⟨mutations, hmutations, hmutationsRange⟩ := Check.fraction_ok hchecked.mutations
  obtain ⟨crossovers, hcrossovers, hcrossoversRange⟩ := Check.fraction_ok hchecked.crossovers
  obtain ⟨kind, hkind, hknown⟩ := Check.oneOf_ok hchecked.kind
  obtain ⟨edits, hedits, -⟩ := Check.atLeast_ok hchecked.edits
  obtain ⟨workers, hworkers, -⟩ := Check.atLeast_ok hchecked.workers
  obtain ⟨p, hprogram⟩ := hchecked.program
  have hbreeding : s.breeding = .ok ⟨size, mutations, crossovers, Crossover.ofValue (.text kind), edits⟩ := by
    unfold breeding
    rw [hsize, hmutations, hcrossovers, hkind, hedits]
    rfl
  refine ⟨⟨⟨size, mutations, crossovers, Crossover.ofValue (.text kind), edits⟩, generations, gap,
    s.reevaluate.isTruthy, s.seed, workers, s.quiet.isTruthy, p⟩, ?_, ?_, hgapRange, hprogram, hsize⟩
  · unfold plan
    rw [hprogram, hbreeding, hgenerations, hgap, hworkers]
    rfl
  · exact ⟨hsizeRange, hmutationsRange, hcrossoversRange, crossover_known hknown⟩

/-- The plan has the number of generations that is set. -/
theorem maxGenerations_of_plan {plan : Plan} {limit : Int} (h : s.plan = .ok plan)
    (hlimit : s.maxGenerations = .int limit) : plan.maxGenerations = limit := by
  obtain ⟨program, -, h⟩ := except_bind_eq_ok.mp h
  rw [hlimit] at h
  simp only at h
  split at h
  · rename_i typed htyped
    obtain ⟨_, -, htyped⟩ := except_bind_eq_ok.mp htyped
    obtain ⟨generations, hgenerations, htyped⟩ := except_bind_eq_ok.mp htyped
    obtain ⟨_, -, htyped⟩ := except_bind_eq_ok.mp htyped
    obtain ⟨_, -, htyped⟩ := except_bind_eq_ok.mp htyped
    obtain rfl := Except.ok.inj htyped
    obtain rfl := Except.ok.inj h
    exact (Except.ok.inj hgenerations).symm
  · exact nomatch h

end RunSettings

end RegisterEvolution
