import RegisterEvolution.Proofs.Settings.Accepted

/-!
# `Proofs.Settings.Binding` — counts taken from a task

The counts of program settings are integers or open. Binding them to a task closes the open ones: inputs and actions are
those of the task, and there is one register more than actions. Counts that are given have to agree with the task, and
the registers have to hold its actions; nothing else about the settings changes or is asked again.

* `ProgramSettings.HasCounts`, `ProgramSettings.withCounts` — the counts of settings, and settings with other ones;
* `ProgramSettings.validate_eq_ok_iff` — what the checks say about the counts, apart from the other settings;
* `ProgramSettings.bind_eq_ok_iff` — when binding succeeds, and with what;
* `ProgramSettings.bind_resolves` — both in terms of the settings and the task, and binding once more.
-/

namespace RegisterEvolution

/-- A count as a value: an integer, or null as long as it is open. -/
def Value.ofCount : Option Int → Value
  | none => .null
  | some n => .int n

/-- A check and what follows it succeed when both do. -/
theorem check_bind_eq_ok {ε α : Type} {check : Except ε Unit} {f : Unit → Except ε α} {a : α} :
    (check >>= f) = .ok a ↔ check = .ok () ∧ f () = .ok a :=
  except_bind_eq_ok.trans ⟨fun ⟨_, h⟩ => h, fun h => ⟨(), h⟩⟩

/-! ## Checks of counts -/

namespace Check

variable {field : String} {registers actions count : Option Int} {n : Int}

theorem atLeast_int_iff {least : Int} : atLeast field least (.int n) = .ok () ↔ least ≤ n := by
  unfold atLeast
  by_cases h : n < least
  · simp only [if_pos h]
    exact ⟨nofun, fun hle => absurd h (by omega)⟩
  · simp only [if_neg h]
    exact ⟨fun _ => by omega, fun _ => rfl⟩

/-- An open count is accepted, a known one from one on. -/
theorem count_ofCount_iff : Check.count field (.ofCount count) = .ok () ↔ ∀ n ∈ count, 1 ≤ n := by
  cases count with
  | none => exact ⟨fun _ => nofun, fun _ => rfl⟩
  | some n =>
      have hcheck : Check.count field (.ofCount (some n)) = atLeast field 1 (.int n) := rfl
      rw [hcheck, atLeast_int_iff]
      simp only [Option.mem_some_iff, forall_eq']

/-- Two known counts leave room for the actions if there are not fewer registers than actions. -/
theorem room_ofCount_iff : room (.ofCount registers) (.ofCount actions) = .ok () ↔
    ∀ r ∈ registers, ∀ a ∈ actions, a ≤ r := by
  cases registers with
  | none => exact ⟨fun _ => nofun, fun _ => rfl⟩
  | some r =>
      cases actions with
      | none => exact ⟨fun _ _ _ => nofun, fun _ => rfl⟩
      | some a =>
          simp only [Option.mem_some_iff, forall_eq']
          refine ⟨room_ok, fun h => ?_⟩
          simp only [Value.ofCount, room]
          rw [if_neg (by omega)]
          rfl

end Check

namespace ProgramSettings

variable {p bound : ProgramSettings} {r i a : Option Int} {inputs actions : Int}

/-! ## Counts apart from the other settings -/

/-- The numbers of registers, inputs and actions that settings state, as far as they are not open. -/
structure HasCounts (p : ProgramSettings) (registers inputs actions : Option Int) : Prop where
  registers : p.registerCount = .ofCount registers
  inputs : p.inputCount = .ofCount inputs
  actions : p.actionCount = .ofCount actions

/-- The settings with these counts in the place of their own. -/
def withCounts (p : ProgramSettings) (registers inputs actions : Int) : ProgramSettings :=
  { p with registerCount := .int registers, inputCount := .int inputs, actionCount := .int actions }

theorem hasCounts_withCounts (p : ProgramSettings) (registers inputs actions : Int) :
    (p.withCounts registers inputs actions).HasCounts (some registers) (some inputs) (some actions) := ⟨rfl, rfl, rfl⟩

/-- Counts of which the known ones are positive, with enough registers for the actions. -/
structure CountsFit (registers inputs actions : Option Int) : Prop where
  registers_pos : ∀ r ∈ registers, 1 ≤ r
  inputs_pos : ∀ i ∈ inputs, 1 ≤ i
  actions_pos : ∀ a ∈ actions, 1 ≤ a
  room : ∀ r ∈ registers, ∀ a ∈ actions, a ≤ r

/-- Settings that pass every check which looks at no count. -/
structure OthersAccepted (p : ProgramSettings) : Prop where
  limit : Check.atLeast "max_instructions" 1 p.maxInstructions = .ok ()
  constant : Check.fraction "constant_probability" p.constantProbability = .ok ()
  inputShare : Check.fraction "external_probability" p.externalProbability = .ok ()
  range : Check.positive p.constantRange = .ok ()
  policy : Check.oneOf "branch_policy" (BranchPolicy.all.map BranchPolicy.name) p.branchPolicy = .ok ()
  opcodes : Check.opcodes p.opcodes = .ok ()

/-- Other counts leave the other settings as they are. -/
theorem OthersAccepted.withCounts (h : p.OthersAccepted) (registers inputs actions : Int) :
    (p.withCounts registers inputs actions).OthersAccepted :=
  ⟨h.limit, h.constant, h.inputShare, h.range, h.policy, h.opcodes⟩

theorem OthersAccepted.of_withCounts {registers inputs actions : Int}
    (h : (p.withCounts registers inputs actions).OthersAccepted) : p.OthersAccepted :=
  ⟨h.limit, h.constant, h.inputShare, h.range, h.policy, h.opcodes⟩

/-- **Settings are accepted exactly if their counts fit** and everything else is accepted. -/
theorem validate_eq_ok_iff (h : p.HasCounts r i a) : p.validate = .ok () ↔ p.OthersAccepted ∧ CountsFit r i a := by
  unfold validate
  simp only [check_bind_eq_ok]
  rw [h.registers, h.inputs, h.actions, Check.count_ofCount_iff, Check.count_ofCount_iff, Check.count_ofCount_iff,
    Check.room_ofCount_iff]
  constructor
  · rintro ⟨hlimit, hregisters, hinputs, hactions, hroom, hconstant, hshare, hrange, hpolicy, hopcodes⟩
    exact ⟨⟨hlimit, hconstant, hshare, hrange, hpolicy, hopcodes⟩, ⟨hregisters, hinputs, hactions, hroom⟩⟩
  · rintro ⟨hothers, hfit⟩
    exact ⟨hothers.limit, hfit.registers_pos, hfit.inputs_pos, hfit.actions_pos, hfit.room, hothers.constant,
      hothers.inputShare, hothers.range, hothers.policy, hothers.opcodes⟩

/-! ## Binding -/

/-- A count that is known, or else that of the task, agrees with the task if it is the one of the task where known. -/
theorem agrees_orElse_iff {count : Option Int} {n : Int} :
    agrees (orElse (.ofCount count) (.int n)) n = true ↔ ∀ m ∈ count, m = n := by
  cases count with
  | none => exact ⟨fun _ => nofun, fun _ => beq_self_eq_true n⟩
  | some m =>
      simp only [Option.mem_some_iff, forall_eq']
      exact beq_iff_eq

theorem orElse_ofCount {count : Option Int} {n : Int} (h : ∀ m ∈ count, m = n) :
    orElse (.ofCount count) (.int n) = .int n := by
  cases count with
  | none => rfl
  | some m =>
      rw [← h m rfl]
      rfl

theorem orElse_ofCount_getD (count : Option Int) (n : Int) :
    orElse (.ofCount count) (.int n) = .int (count.getD n) := by
  cases count with
  | none => rfl
  | some m => rfl

/-- **Binding succeeds exactly if known counts agree with the task** and the settings with all counts are accepted. -/
theorem bind_eq_ok_iff (h : p.HasCounts r i a) : p.bind inputs actions = .ok bound ↔
    (∀ n ∈ i, n = inputs) ∧ (∀ n ∈ a, n = actions) ∧
      (p.withCounts (r.getD (actions + 1)) inputs actions).validate = .ok () ∧
      bound = p.withCounts (r.getD (actions + 1)) inputs actions := by
  unfold bind
  rw [h.registers, h.inputs, h.actions, ← agrees_orElse_iff, ← agrees_orElse_iff]
  simp only
  by_cases hinputs : agrees (orElse (.ofCount i) (.int inputs)) inputs = true
  · by_cases hactions : agrees (orElse (.ofCount a) (.int actions)) actions = true
    · rw [orElse_ofCount (agrees_orElse_iff.mp hinputs), orElse_ofCount (agrees_orElse_iff.mp hactions)]
      have hsuccessor : successor (.int actions) = .int (actions + 1) := rfl
      have hself : ∀ n : Int, agrees (.int n) n = true := fun n => beq_self_eq_true n
      rw [hsuccessor, orElse_ofCount_getD]
      simp only [hself, Bool.not_true, Bool.false_eq_true, if_false, true_and]
      rw [except_bind_eq_ok]
      exact ⟨fun ⟨_, hvalid, hbound⟩ => ⟨hvalid, (Except.ok.inj hbound).symm⟩,
        fun ⟨hvalid, hbound⟩ => ⟨(), hvalid, congrArg _ hbound.symm⟩⟩
    · simp only [hinputs, hactions, Bool.not_true, Bool.not_false, if_true, Bool.false_eq_true, if_false]
      exact ⟨nofun, fun h => h.2.1.elim⟩
  · simp only [hinputs, Bool.not_false, if_true]
    exact ⟨nofun, fun h => absurd h.1 Bool.false_ne_true⟩

/-- Counts of a task fit into those that are open, if they are positive and a known number of registers has room. -/
theorem countsFit_resolved_iff (hi : ∀ n ∈ i, n = inputs) (ha : ∀ n ∈ a, n = actions) :
    CountsFit (some (r.getD (actions + 1))) (some inputs) (some actions) ↔
      CountsFit r i a ∧ 1 ≤ inputs ∧ 1 ≤ actions ∧ ∀ n ∈ r, actions ≤ n := by
  constructor
  · intro h
    have hinputs := h.inputs_pos inputs rfl
    have hactions := h.actions_pos actions rfl
    have hroom : ∀ n ∈ r, actions ≤ n := by
      rintro n rfl
      exact h.room n rfl actions rfl
    refine ⟨⟨fun n hn => hactions.trans (hroom n hn), fun n hn => ?_, fun n hn => ?_, fun n hn m hm => ?_⟩,
      hinputs, hactions, hroom⟩
    · rwa [hi n hn]
    · rwa [ha n hn]
    · rw [ha m hm]
      exact hroom n hn
  · rintro ⟨hfit, hinputs, hactions, hroom⟩
    -- an open number of registers is one more than the actions
    have hregisters : actions ≤ r.getD (actions + 1) := by
      cases r with
      | none =>
          show actions ≤ actions + 1
          omega
      | some n => exact hroom n rfl
    refine ⟨?_, ?_, ?_, ?_⟩ <;> simp only [Option.mem_some_iff, forall_eq']
    · exact hactions.trans hregisters
    · exact hinputs
    · exact hactions
    · exact hregisters

/-- The names of the settings that a task may determine. -/
def countNames : List String := ["register_count", "input_count", "action_count"]

theorem get?_withCounts {name : String} (h : name ∉ countNames) (registers inputs actions : Int) :
    (p.withCounts registers inputs actions).get? name = p.get? name := by
  simp only [countNames, List.mem_cons, List.not_mem_nil, or_false, not_or] at h
  obtain ⟨hregisters, hinputs, hactions⟩ := h
  unfold get?
  split
  all_goals first | rfl | contradiction

/-- A count that is not open is kept where all counts are those of the settings as far as they are known. -/
theorem get?_withCounts_of_known {registers inputs actions : Int} (h : p.HasCounts r i a) (hr : ∀ n ∈ r, n = registers)
    (hi : ∀ n ∈ i, n = inputs) (ha : ∀ n ∈ a, n = actions) {name : String} {v : Value} (hname : name ∈ countNames)
    (hget : p.get? name = some v) (hknown : v ≠ .null) :
    (p.withCounts registers inputs actions).get? name = some v := by
  have hvalue : ∀ {count : Option Int} {n : Int}, (∀ m ∈ count, m = n) → some (Value.ofCount count) = some v →
      some (Value.int n) = some v := by
    rintro (- | m) n hm hv
    · exact absurd (Option.some.inj hv).symm hknown
    · rwa [← hm m rfl]
  simp only [countNames, List.mem_cons, List.not_mem_nil, or_false] at hname
  rcases hname with rfl | rfl | rfl
  · exact hvalue hr (h.registers ▸ hget)
  · exact hvalue hi (h.inputs ▸ hget)
  · exact hvalue ha (h.actions ▸ hget)

/--
**Binding resolves the counts of settings against a task.** It succeeds exactly if the settings are accepted, the known
inputs and actions are those of the task, the task has at least one of both, and a known number of registers holds its
actions. The result is accepted and has all counts: those of the task, and the registers of the settings or one more
than there are actions. Every setting that was not an open count is kept, and binding the result again changes nothing.
-/
theorem bind_resolves (h : p.HasCounts r i a) (inputs actions : Int) :
    ((∃ bound, p.bind inputs actions = .ok bound) ↔
      p.validate = .ok () ∧ (∀ n ∈ i, n = inputs) ∧ (∀ n ∈ a, n = actions) ∧ 1 ≤ inputs ∧ 1 ≤ actions ∧
        ∀ n ∈ r, actions ≤ n) ∧
    ∀ bound, p.bind inputs actions = .ok bound →
      bound.isBound = true ∧ bound.validate = .ok () ∧
      bound.HasCounts (some (r.getD (actions + 1))) (some inputs) (some actions) ∧ actions ≤ r.getD (actions + 1) ∧
      (∀ name v, p.get? name = some v → v ≠ .null ∨ name ∉ countNames → bound.get? name = some v) ∧
      bound.bind inputs actions = .ok bound := by
  have hcounts := p.hasCounts_withCounts (r.getD (actions + 1)) inputs actions
  refine ⟨?_, ?_⟩
  · simp only [bind_eq_ok_iff h, validate_eq_ok_iff hcounts, validate_eq_ok_iff h]
    constructor
    · rintro ⟨_, hi, ha, ⟨hothers, hfit⟩, -⟩
      obtain ⟨hfit, hinputs, hactions, hroom⟩ := (countsFit_resolved_iff hi ha).mp hfit
      exact ⟨⟨hothers.of_withCounts, hfit⟩, hi, ha, hinputs, hactions, hroom⟩
    · rintro ⟨⟨hothers, hfit⟩, hi, ha, hinputs, hactions, hroom⟩
      exact ⟨_, hi, ha, ⟨hothers.withCounts _ _ _, (countsFit_resolved_iff hi ha).mpr ⟨hfit, hinputs, hactions, hroom⟩⟩,
        rfl⟩
  · intro bound hbound
    obtain ⟨hi, ha, hvalid, rfl⟩ := (bind_eq_ok_iff h).mp hbound
    have hfit := ((validate_eq_ok_iff hcounts).mp hvalid).2
    refine ⟨rfl, hvalid, hcounts, hfit.room _ rfl _ rfl, fun name v hget hkept => ?_, ?_⟩
    · by_cases hname : name ∈ countNames
      · have hr : ∀ n ∈ r, n = r.getD (actions + 1) := by
          rintro n rfl
          rfl
        exact get?_withCounts_of_known h hr hi ha hname hget (hkept.resolve_right fun hn => hn hname)
      · rw [get?_withCounts hname]
        exact hget
    · exact (bind_eq_ok_iff hcounts).mpr ⟨by simp, by simp, hvalid, rfl⟩

/-- Settings with a known number of inputs are bound to a task of three inputs and two actions. -/
theorem bind_resolves_partly_open :
    let p : ProgramSettings := { inputCount := .int 3, opcodes := .list [.text "add", .text "if_lt"] }
    ∃ bound, p.bind 3 2 = .ok bound ∧ bound.registerCount = .int 3 ∧ bound.bind 3 2 = .ok bound := by
  intro p
  have hcounts : p.HasCounts none (some 3) none := ⟨rfl, rfl, rfl⟩
  obtain ⟨hiff, hresult⟩ := bind_resolves hcounts 3 2
  obtain ⟨bound, hbound⟩ := hiff.mpr ⟨rfl, by simp, nofun, by decide, by decide, nofun⟩
  obtain ⟨-, -, hcounts', -, -, hagain⟩ := hresult bound hbound
  exact ⟨bound, hbound, hcounts'.registers, hagain⟩

end ProgramSettings

end RegisterEvolution
