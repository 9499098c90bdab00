import RegisterEvolution.Proofs.Tasks.Decision

/-!
# `Proofs.Tasks.Episodes` — the calls that an evaluation makes

An environment may do anything at any call, depending on all that has happened before. So what an evaluation does is
said by the calls that it makes: environments write them down, which changes nothing else, and the record is of one of
a few forms. It consists of complete episodes, then of what is left of an episode that has failed, and of the one call
that puts the environment away.

* `Environment.recorded`, `Records` — environments with a record of calls, and what a computation adds to it;
* `Underway`, `Ended`, `Interrupted` — the moves of an episode while it goes on, when it is over and where it fails;
* `Control.Protocol` — the records of evaluations;
* `evaluate_protocol` — every evaluation of a program without a flaw is of that form.
-/

namespace RegisterEvolution

variable {σ α β : Type}

/-! ## Environments with a record of calls -/

/-- A call of an environment, with what it has come to. -/
inductive Call where
  | make (outcome : Except Error Unit)
  | reset (seed : Int) (outcome : Except Error Value)
  | step (action : Int) (outcome : Except Error StepResult)
  | close (outcome : Except Error Unit)

/-- A computation on the world that is written down as a call. -/
def noteCall (call : Except Error α → Call) (m : EStateM Error σ α) : EStateM Error (σ × List Call) α := fun w =>
  match m w.1 with
  | .ok a w' => .ok a (w', w.2 ++ [call (.ok a)])
  | .error e w' => .error e (w', w.2 ++ [call (.error e)])

/-- The environment that writes its calls down. -/
def Environment.recorded (env : Environment σ) : Environment (σ × List Call) where
  make := noteCall .make env.make
  reset seed := noteCall (.reset seed) (env.reset seed)
  step action := noteCall (.step action) (env.step action)
  close := noteCall .close env.close

/-- The task in the environment that writes its calls down. -/
def Control.recorded (c : Control σ) : Control (σ × List Call) :=
  ⟨c.environment.recorded, c.inputCount, c.actionCount, c.runs, c.maxEpisodeLength, c.seed⟩

/-- An outcome of scoring, with a record of calls beside the world. -/
def withCalls (calls : List Call) : EStateM.Result Error (Bench σ) α → EStateM.Result Error (Bench (σ × List Call)) α
  | .ok a b => .ok a ⟨b.registers, (b.world, calls)⟩
  | .error e b => .error e ⟨b.registers, (b.world, calls)⟩

theorem finalState_withCalls {calls : List Call} {r : EStateM.Result Error (Bench σ) α} :
    finalState (withCalls calls r) = ⟨(finalState r).registers, ((finalState r).world, calls)⟩ := by
  cases r <;> rfl

/--
`m'` does what `m` does and writes calls down besides, which `ok` relates to a result and `err` to an error. The banks
keep their sizes.
-/
def Records (sizes : BankSizes) (ok : α → List Call → Prop) (err : Error → List Call → Prop) (m : Scoring σ α)
    (m' : Scoring (σ × List Call) α) : Prop :=
  ∀ b : Bench σ, b.registers.Fits sizes → ∃ new,
    Ends (fun a b' => ok a new ∧ b'.registers.Fits sizes) (fun e b' => err e new ∧ b'.registers.Fits sizes) (m b) ∧
      ∀ calls, m' ⟨b.registers, (b.world, calls)⟩ = withCalls (calls ++ new) (m b)

namespace Records

variable {sizes : BankSizes} {ok okThen : α → List Call → Prop} {err err' : Error → List Call → Prop}
  {m : Scoring σ α} {m' : Scoring (σ × List Call) α}

theorem pure {a : α} (h : ok a []) : Records sizes ok err (Pure.pure a : Scoring σ α) (Pure.pure a) := by
  refine fun b hb => ⟨[], ⟨h, hb⟩, fun calls => ?_⟩
  rw [List.append_nil]
  rfl

theorem imp (h : Records sizes ok err m m') (hok : ∀ a new, ok a new → okThen a new)
    (herr : ∀ e new, err e new → err' e new) : Records sizes okThen err' m m' := by
  intro b hb
  obtain ⟨new, hends, hrecord⟩ := h b hb
  exact ⟨new, hends.imp (fun a _ ha => ⟨hok a new ha.1, ha.2⟩) fun e _ he => ⟨herr e new he.1, he.2⟩, hrecord⟩

/-- One computation after the other writes down the calls of both. -/
theorem bind {okThen : β → List Call → Prop} {f : α → Scoring σ β} {f' : α → Scoring (σ × List Call) β}
    (h : Records sizes ok err m m')
    (hthen : ∀ a new, ok a new →
      Records sizes (fun b more => okThen b (new ++ more)) (fun e more => err' e (new ++ more)) (f a) (f' a))
    (herr : ∀ e new, err e new → err' e new) : Records sizes okThen err' (m >>= f) (m' >>= f') := by
  intro b hb
  obtain ⟨new, hends, hrecord⟩ := h b hb
  cases hm : m b with
  | ok a b₁ =>
      rw [hm] at hends hrecord
      obtain ⟨hok, hb₁⟩ := hends
      obtain ⟨more, hends', hrecord'⟩ := hthen a new hok b₁ hb₁
      have hboth : (m >>= f) b = f a b₁ := by
        show EStateM.bind m f b = _
        rw [EStateM.bind, hm]
      rw [hboth]
      refine ⟨new ++ more, hends', fun calls => ?_⟩
      show EStateM.bind m' f' _ = _
      rw [EStateM.bind, hrecord calls, ← List.append_assoc]
      exact hrecord' _
  | error e b₁ =>
      rw [hm] at hends hrecord
      have hfails : (m >>= f) b = .error e b₁ := by
        show EStateM.bind m f b = _
        rw [EStateM.bind, hm]
      rw [hfails]
      refine ⟨new, ⟨herr e new hends.1, hends.2⟩, fun calls => ?_⟩
      show EStateM.bind m' f' _ = _
      rw [EStateM.bind, hrecord calls]
      rfl

/-- A call is written down with what it comes to. -/
theorem onWorld (call : Except Error α → Call) (m : EStateM Error σ α) :
    Records sizes (fun a new => new = [call (.ok a)]) (fun e new => new = [call (.error e)]) (Scoring.onWorld m)
      (Scoring.onWorld (noteCall call m)) := by
  intro b hb
  unfold Scoring.onWorld noteCall
  cases hm : m b.world with
  | ok a w => exact ⟨_, ⟨rfl, hb⟩, fun calls => by simp [hm, withCalls]⟩
  | error e w => exact ⟨_, ⟨rfl, hb⟩, fun calls => by simp [hm, withCalls]⟩

/-- A missing value is nothing to be written down. -/
theorem ofFault (r : Except Fault α) :
    Records sizes (fun a new => r = .ok a ∧ new = []) (fun e new => ∃ f, r = .error f ∧ e = .fault f ∧ new = [])
      (Scoring.ofFault r : Scoring σ α) (Scoring.ofFault r) := by
  intro b hb
  cases r with
  | ok a =>
      refine ⟨[], ⟨⟨rfl, rfl⟩, hb⟩, fun calls => ?_⟩
      rw [List.append_nil]
      rfl
  | error f =>
      refine ⟨[], ⟨⟨f, rfl, rfl, rfl⟩, hb⟩, fun calls => ?_⟩
      rw [List.append_nil]
      rfl

/-- Nor is a decision. -/
theorem chooseAction {p : Program} {c : Control σ} (husable : p.shape.Usable sizes)
    (hfits : p.shape.Fits sizes p.code) (hc : c.actionCount = sizes.actions) (state : Value) :
    Records sizes (fun action new => p.Decides sizes state action ∧ new = [])
      (fun e new => sizes.Refuses state e ∧ new = []) (c.chooseAction p state) (c.recorded.chooseAction p state) := by
  intro b hb
  refine ⟨[], (Control.chooseAction_ends c husable hfits hc hb).imp (fun _ _ h => ⟨⟨h.1, rfl⟩, h.2⟩)
    fun _ _ h => ⟨⟨h.1, rfl⟩, h.2⟩, fun calls => ?_⟩
  rw [Control.chooseAction_eq, Control.chooseAction_eq, List.append_nil]
  cases (Control.stateVector state).toVector with
  | error f => rfl
  | ok xs =>
      simp only
      cases p.execute (some xs) b.registers with
      | error e r => rfl
      | ok u r =>
          have hcount : c.recorded.actionCount = c.actionCount := rfl
          simp only [hcount]
          cases r.argmax c.actionCount with
          | nil => rfl
          | cons best others => rfl

/-- What is done in any case prevails where it fails; otherwise the outcome is that of what it follows. -/
theorem andFinally_eq (body : Scoring σ α) (last : Scoring σ Unit) (b : Bench σ) :
    Scoring.andFinally body last b =
      match last (finalState (body b)) with
      | .error e b' => .error e b'
      | .ok _ b' =>
        match body b with
        | .ok a _ => .ok a b'
        | .error e _ => .error e b' := by
  unfold Scoring.andFinally
  cases body b with
  | ok a b₁ => cases hlast : last b₁ <;> simp [finalState, hlast]
  | error e b₁ => cases hlast : last b₁ <;> simp [finalState, hlast]

/-- What is done in any case writes its calls down behind those of what it follows, and its error prevails. -/
theorem andFinally {last : Scoring σ Unit} {last' : Scoring (σ × List Call) Unit} {okLast : Unit → List Call → Prop}
    {errLast : Error → List Call → Prop} (h : Records sizes ok err m m')
    (hlast : Records sizes okLast errLast last last') :
    Records sizes
      (fun a new => ∃ new₁ new₂, new = new₁ ++ new₂ ∧ ok a new₁ ∧ okLast () new₂)
      (fun e new => ∃ new₁ new₂, new = new₁ ++ new₂ ∧
        ((err e new₁ ∧ okLast () new₂) ∨ ((∃ a, ok a new₁) ∨ ∃ e', err e' new₁) ∧ errLast e new₂))
      (Scoring.andFinally m last) (Scoring.andFinally m' last') := by
  intro b hb
  obtain ⟨new₁, hends, hrecord⟩ := h b hb
  obtain ⟨new₂, hends', hrecord'⟩ := hlast (finalState (m b))
    (hends.imp (fun _ _ h => h.2) fun _ _ h => h.2 : Ends _ _ (m b)).final
  refine ⟨new₁ ++ new₂, ?_, fun calls => ?_⟩
  · rw [andFinally_eq]
    generalize last (finalState (m b)) = closing at hends'
    generalize m b = outcome at hends
    cases closing with
    | ok u b₂ =>
        cases outcome with
        | ok a b₁ => exact ⟨⟨new₁, new₂, rfl, hends.1, hends'.1⟩, hends'.2⟩
        | error e b₁ => exact ⟨⟨new₁, new₂, rfl, .inl ⟨hends.1, hends'.1⟩⟩, hends'.2⟩
    | error e b₂ =>
        cases outcome with
        | ok a b₁ => exact ⟨⟨new₁, new₂, rfl, .inr ⟨.inl ⟨a, hends.1⟩, hends'.1⟩⟩, hends'.2⟩
        | error e' b₁ => exact ⟨⟨new₁, new₂, rfl, .inr ⟨.inr ⟨e', hends.1⟩, hends'.1⟩⟩, hends'.2⟩
  · rw [andFinally_eq, andFinally_eq, hrecord, finalState_withCalls, hrecord', List.append_assoc]
    cases last (finalState (m b)) with
    | ok u b₂ => cases m b <;> rfl
    | error e b₂ => rfl

end Records

/-! ## Moves and episodes -/

/-- A step of an environment: the action, and what it has been answered with. -/
structure Move where
  action : Nat
  result : StepResult

namespace Move

/-- The call that makes the move. -/
def call (m : Move) : Call := .step m.action (.ok m.result)

/-- The reward of a move, where it is a number. -/
def reward (m : Move) : Float :=
  match m.result.reward.toNumber with
  | .ok x => x
  | .error _ => 0.0

end Move

/-- An episode: its seed, the state that it starts in, and its moves. -/
structure Episode where
  seed : Int
  first : Value
  moves : List Move

namespace Episode

/-- The calls of an episode. -/
def calls (e : Episode) : List Call := .reset e.seed (.ok e.first) :: e.moves.map Move.call

/-- The sum of the rewards of an episode. -/
def total (e : Episode) : Float := e.moves.foldl (fun sum m => sum + m.reward) 0.0

/-- The states that moves lead through: in each but the last one a move is made. -/
def statesOf (first : Value) (moves : List Move) : List Value := first :: moves.map fun m => m.result.state

section Rules

variable (p : Program) (sizes : BankSizes)

/-- Moves that may be made in an episode of at most `limit` moves from the state `first` on: every one of them is what
    the program decides for in the state at hand, is rewarded with a number, and is not made after a terminal one. -/
structure Underway (limit : Nat) (first : Value) (moves : List Move) : Prop where
  decided : ∀ (i : Nat) (m : Move), moves[i]? = some m →
    ∃ state, (statesOf first moves)[i]? = some state ∧ p.Decides sizes state m.action
  rewarded : ∀ m ∈ moves, ∃ x, m.result.reward.toNumber = .ok x
  terminal_last : ∀ (i : Nat) (m : Move), moves[i]? = some m → m.result.isTerminal = true → i + 1 = moves.length
  length_le : moves.length ≤ limit

/-- The moves of an episode that is over: they are as many as there may be, or the last one is terminal. -/
structure Ended (limit : Nat) (first : Value) (moves : List Move) : Prop
    extends Underway p sizes limit first moves where
  ended : moves.length = limit ∨ ∃ m, moves.getLast? = some m ∧ m.result.isTerminal = true

/-- How an episode fails in a state, with the calls that it makes yet and the error: the state is refused, the
    environment fails to make the move, or rewards it with what is not a number. -/
inductive Fails (state : Value) : List Call → Error → Prop where
  | refused {e : Error} (h : sizes.Refuses state e) : Fails state [] e
  | raised {action : Nat} {e : Error} (h : p.Decides sizes state action) : Fails state [.step action (.error e)] e
  | unrewarded {m : Move} {f : Fault} (h : p.Decides sizes state m.action)
      (hreward : m.result.reward.toNumber = .error f) : Fails state [m.call] (.fault f)

/-- The moves of an episode that is not over, and how it fails in the state that they lead to. -/
structure Interrupted (limit : Nat) (first : Value) (moves : List Move) (rest : List Call) (e : Error) : Prop
    extends Underway p sizes limit first moves where
  length_lt : moves.length < limit
  not_terminal : ∀ m ∈ moves, m.result.isTerminal = false
  fails : ∃ state, (statesOf first moves).getLast? = some state ∧ Fails p sizes state rest e

variable {p sizes} {limit : Nat} {first : Value} {moves : List Move} {m : Move} {rest : List Call} {e : Error}

theorem Underway.nil : Underway p sizes limit first [] where
  decided := nofun
  rewarded := nofun
  terminal_last := nofun
  length_le := Nat.zero_le _

/-- A move in front of others, which there are none of if it is terminal. -/
theorem Underway.cons (hdecides : p.Decides sizes first m.action) (hreward : ∃ x, m.result.reward.toNumber = .ok x)
    (hlast : m.result.isTerminal = true → moves = []) (h : Underway p sizes limit m.result.state moves) :
    Underway p sizes (limit + 1) first (m :: moves) where
  decided := by
    intro i n hn
    cases i with
    | zero =>
        obtain rfl := Option.some.inj hn
        exact ⟨first, rfl, hdecides⟩
    | succ i => exact h.decided i n hn
  rewarded := List.forall_mem_cons.mpr ⟨hreward, h.rewarded⟩
  terminal_last := by
    intro i n hn hterminal
    cases i with
    | zero =>
        obtain rfl := Option.some.inj hn
        rw [hlast hterminal]
        rfl
    | succ i => exact congrArg Nat.succ (h.terminal_last i n hn hterminal)
  length_le := Nat.succ_le_succ h.length_le

/-- A terminal move ends an episode. -/
theorem Ended.terminal (hdecides : p.Decides sizes first m.action) (hreward : ∃ x, m.result.reward.toNumber = .ok x)
    (hterminal : m.result.isTerminal = true) : Ended p sizes (limit + 1) first [m] where
  toUnderway := .cons hdecides hreward (fun _ => rfl) .nil
  ended := .inr ⟨m, rfl, hterminal⟩

/-- After any other one, an episode ends as it does from there. -/
theorem Ended.cons (hdecides : p.Decides sizes first m.action) (hreward : ∃ x, m.result.reward.toNumber = .ok x)
    (hgoes : m.result.isTerminal = false) (h : Ended p sizes limit m.result.state moves) :
    Ended p sizes (limit + 1) first (m :: moves) where
  toUnderway := .cons hdecides hreward (fun hterminal => nomatch hgoes.symm.trans hterminal) h.toUnderway
  ended := by
    rcases h.ended with hlength | ⟨n, hn, hterminal⟩
    · exact .inl (congrArg Nat.succ hlength)
    · exact .inr ⟨n, by rw [List.getLast?_cons, hn]; rfl, hterminal⟩

/-- Where a move is possible at all, an episode has one when it is over. -/
theorem Ended.length_pos (h : Ended p sizes limit first moves) (hlimit : 1 ≤ limit) : 1 ≤ moves.length := by
  rcases h.ended with hlength | ⟨n, hn, -⟩
  · omega
  · exact List.length_pos_of_mem (List.mem_of_getLast? hn)

/-- An episode may fail at once. -/
theorem Interrupted.now (h : Fails p sizes first rest e) : Interrupted p sizes (limit + 1) first [] rest e where
  toUnderway := .nil
  length_lt := Nat.succ_pos _
  not_terminal := nofun
  fails := ⟨first, rfl, h⟩

/-- After a move that is not terminal, it fails as it does from there. -/
theorem Interrupted.cons (hdecides : p.Decides sizes first m.action) (hreward : ∃ x, m.result.reward.toNumber = .ok x)
    (hgoes : m.result.isTerminal = false) (h : Interrupted p sizes limit m.result.state moves rest e) :
    Interrupted p sizes (limit + 1) first (m :: moves) rest e where
  toUnderway := .cons hdecides hreward (fun hterminal => nomatch hgoes.symm.trans hterminal) h.toUnderway
  length_lt := Nat.succ_lt_succ h.length_lt
  not_terminal := List.forall_mem_cons.mpr ⟨hgoes, h.not_terminal⟩
  fails := by
    obtain ⟨state, hstate, hfails⟩ := h.fails
    refine ⟨state, ?_, hfails⟩
    show (first :: statesOf m.result.state moves).getLast? = _
    rw [List.getLast?_cons, hstate]
    rfl

variable (p sizes) in
/-- Whether an episode is over after at least one move. -/
structure Complete (limit : Nat) (e : Episode) : Prop extends Ended p sizes limit e.first e.moves where
  length_pos : 1 ≤ e.moves.length

variable (p sizes) in
/-- What is left of an episode that fails, and the error: the environment fails to start it, or it fails later on. -/
inductive Cut (limit : Nat) (seed : Int) : List Call → Error → Prop where
  | reset {e : Error} : Cut limit seed [.reset seed (.error e)] e
  | moves {first : Value} {moves : List Move} {rest : List Call} {e : Error}
      (h : Interrupted p sizes limit first moves rest e) :
      Cut limit seed (.reset seed (.ok first) :: (moves.map Move.call ++ rest)) e

end Rules

end Episode

/-- Complete episodes whose seeds follow each other. -/
def Consecutive (p : Program) (sizes : BankSizes) (limit : Nat) (seed : Int) (episodes : List Episode) : Prop :=
  ∀ (i : Nat) (e : Episode), episodes[i]? = some e → e.seed = seed + i ∧ e.Complete p sizes limit

namespace Consecutive

variable {p : Program} {sizes : BankSizes} {limit : Nat} {seed : Int} {episodes : List Episode} {e : Episode}

theorem nil : Consecutive p sizes limit seed [] := nofun

theorem cons (h : Consecutive p sizes limit (e.seed + 1) episodes) (he : e.Complete p sizes limit) :
    Consecutive p sizes limit e.seed (e :: episodes) := by
  intro i e' he'
  cases i with
  | zero =>
      obtain rfl := Option.some.inj he'
      exact ⟨(Int.add_zero _).symm, he⟩
  | succ i =>
      obtain ⟨hseed, hcomplete⟩ := h i e' he'
      exact ⟨by rw [hseed]; push_cast; ring, hcomplete⟩

end Consecutive

namespace Control

variable (c : Control σ) (p : Program) (sizes : BankSizes)

/--
The records of evaluations, and what the evaluations come to:

* the environment cannot be made, and nothing else is called;
* all episodes are played, and the environment is put away;
* an episode fails, the environment is put away, and nothing else is called.

The upper median of the sums of the rewards is the score, and the error of an episode that of the evaluation. But if the
environment cannot be put away, its error then is that of the evaluation.
-/
inductive Protocol : List Call → Except Error Float → Prop where
  | unmade {e : Error} : Protocol [.make (.error e)] (.error e)
  | played {episodes : List Episode} (hcount : episodes.length = c.runs)
      (hplayed : Consecutive p sizes c.maxEpisodeLength c.seed episodes) (closing : Except Error Unit) :
      Protocol (.make (.ok ()) :: (episodes.flatMap Episode.calls ++ [.close closing]))
        (closing.map fun _ => upperMedian (episodes.map Episode.total))
  | cut {episodes : List Episode} {rest : List Call} {e : Error} (hcount : episodes.length < c.runs)
      (hplayed : Consecutive p sizes c.maxEpisodeLength c.seed episodes)
      (hcut : Episode.Cut p sizes c.maxEpisodeLength (c.seed + episodes.length) rest e) (closing : Except Error Unit) :
      Protocol (.make (.ok ()) :: (episodes.flatMap Episode.calls ++ rest ++ [.close closing]))
        (closing.bind fun _ => .error e)

section Evaluate

variable {c p sizes} (husable : p.shape.Usable sizes) (hfits : p.shape.Fits sizes p.code)
  (hc : c.actionCount = sizes.actions)

include husable hfits hc

/-- The moves of an episode from a state on: by induction on how many there may be. -/
theorem playOn_records (limit : Nat) (state : Value) (score : Float) :
    Records sizes
      (fun x new => ∃ moves, new = moves.map Move.call ∧ Episode.Ended p sizes limit state moves ∧
        x = moves.foldl (fun sum m => sum + m.reward) score)
      (fun e new => ∃ moves rest, new = moves.map Move.call ++ rest ∧
        Episode.Interrupted p sizes limit state moves rest e)
      (c.playOn p limit state score) (c.recorded.playOn p limit state score) := by
  induction limit generalizing state score with
  | zero => exact .pure ⟨[], rfl, ⟨.nil, .inl rfl⟩, rfl⟩
  | succ limit ih =>
      unfold playOn
      refine (Records.chooseAction husable hfits hc state).bind ?_ ?_
      · rintro action _ ⟨hdecides, rfl⟩
        refine (Records.onWorld (.step action) (c.environment.step action)).bind ?_ ?_
        · rintro result _ rfl
          refine (Records.ofFault result.reward.toNumber).bind ?_ ?_
          · rintro x _ ⟨hx, rfl⟩
            let m : Move := ⟨action, result⟩
            have hreward : m.reward = x := by
              unfold Move.reward
              rw [hx]
            cases hterminal : result.isTerminal with
            | true =>
                refine .pure ⟨[m], rfl, .terminal hdecides ⟨x, hx⟩ hterminal, ?_⟩
                rw [← hreward]
                rfl
            | false =>
                refine (ih result.state (score + x)).imp ?_ ?_
                · rintro y _ ⟨moves, rfl, hended, rfl⟩
                  refine ⟨m :: moves, rfl, hended.cons hdecides ⟨x, hx⟩ hterminal, ?_⟩
                  rw [← hreward]
                  rfl
                · rintro e _ ⟨moves, rest, rfl, hinterrupted⟩
                  exact ⟨m :: moves, rest, rfl, hinterrupted.cons hdecides ⟨x, hx⟩ hterminal⟩
          · rintro e _ ⟨f, hf, rfl, rfl⟩
            exact ⟨[], _, rfl, .now (.unrewarded (m := ⟨action, result⟩) hdecides hf)⟩
        · rintro e _ rfl
          exact ⟨[], _, rfl, .now (.raised hdecides)⟩
      · rintro e _ ⟨hrefuses, rfl⟩
        exact ⟨[], [], rfl, .now (.refused hrefuses)⟩

/-- An episode is complete, or it is cut. -/
theorem episode_records (hlimit : 1 ≤ c.maxEpisodeLength) (seed : Int) :
    Records sizes
      (fun x new => ∃ e : Episode, e.seed = seed ∧ new = e.calls ∧ e.Complete p sizes c.maxEpisodeLength ∧ x = e.total)
      (fun e new => Episode.Cut p sizes c.maxEpisodeLength seed new e)
      (c.episode p seed) (c.recorded.episode p seed) := by
  refine (Records.onWorld (.reset seed) (c.environment.reset seed)).bind ?_ ?_
  · rintro state _ rfl
    refine (playOn_records husable hfits hc c.maxEpisodeLength state 0.0).imp ?_ ?_
    · rintro x _ ⟨moves, rfl, hended, rfl⟩
      exact ⟨⟨seed, state, moves⟩, rfl, rfl, ⟨hended, hended.length_pos hlimit⟩, rfl⟩
    · rintro e _ ⟨moves, rest, rfl, hinterrupted⟩
      exact .moves hinterrupted
  · rintro e _ rfl
    exact .reset

/-- Episodes are played one after the other, up to the first one that is cut: by induction on their number. -/
theorem episodes_records (hlimit : 1 ≤ c.maxEpisodeLength) (count : Nat) (seed : Int) :
    Records sizes
      (fun scores new => ∃ episodes, episodes.length = count ∧ new = episodes.flatMap Episode.calls ∧
        Consecutive p sizes c.maxEpisodeLength seed episodes ∧ scores = episodes.map Episode.total)
      (fun e new => ∃ episodes rest, episodes.length < count ∧ new = episodes.flatMap Episode.calls ++ rest ∧
        Consecutive p sizes c.maxEpisodeLength seed episodes ∧
          Episode.Cut p sizes c.maxEpisodeLength (seed + episodes.length) rest e)
      (c.episodes p count seed) (c.recorded.episodes p count seed) := by
  induction count generalizing seed with
  | zero => exact .pure ⟨[], rfl, rfl, .nil, rfl⟩
  | succ count ih =>
      refine (episode_records husable hfits hc hlimit seed).bind ?_ ?_
      · rintro score _ ⟨episode, rfl, rfl, hcomplete, rfl⟩
        refine (ih (episode.seed + 1)).bind ?_ ?_
        · rintro scores _ ⟨episodes, hcount, rfl, hplayed, rfl⟩
          exact .pure ⟨episode :: episodes, congrArg Nat.succ hcount, by simp, hplayed.cons hcomplete, rfl⟩
        · rintro e _ ⟨episodes, rest, hcount, rfl, hplayed, hcut⟩
          refine ⟨episode :: episodes, rest, Nat.succ_lt_succ hcount, by simp, hplayed.cons hcomplete, ?_⟩
          rwa [List.length_cons, Nat.cast_add, Nat.cast_one, Int.add_comm (episodes.length : Int), ← Int.add_assoc]
      · intro e new hcut
        exact ⟨[], new, Nat.succ_pos _, rfl, .nil, by simpa using hcut⟩

/-- The calls of an evaluation are of one of the forms. -/
theorem evaluate_records (hlimit : 1 ≤ c.maxEpisodeLength) :
    Records sizes (fun x new => c.Protocol p sizes new (.ok x)) (fun e new => c.Protocol p sizes new (.error e))
      (c.evaluate p) (c.recorded.evaluate p) := by
  refine (Records.onWorld .make c.environment.make).bind ?_ ?_
  · rintro ⟨⟩ _ rfl
    have hclose : Records sizes _ _ _ _ := Records.onWorld .close c.environment.close
    refine ((episodes_records husable hfits hc hlimit c.runs c.seed).andFinally hclose).bind ?_ ?_
    · rintro scores _ ⟨_, _, rfl, ⟨episodes, hcount, rfl, hplayed, rfl⟩, rfl⟩
      refine .pure ?_
      rw [List.append_nil]
      exact .played hcount hplayed (.ok ())
    · rintro e _ ⟨_, _, rfl, ⟨⟨episodes, rest, hcount, rfl, hplayed, hcut⟩, rfl⟩ | ⟨hbody, rfl⟩⟩
      · exact .cut hcount hplayed hcut (.ok ())
      · rcases hbody with ⟨_, episodes, hcount, rfl, hplayed, -⟩ | ⟨_, episodes, rest, hcount, rfl, hplayed, hcut⟩
        · exact .played hcount hplayed (.error e)
        · exact .cut hcount hplayed hcut (.error e)
  · rintro e _ rfl
    exact .unmade

end Evaluate

/-- What is known of a task whose counts have been accepted. -/
theorem ofCounts_ok {environment : Environment σ} {inputs actions runs limit seed : Int} {c : Control σ}
    (h : ofCounts environment inputs actions runs limit seed = .ok c) :
    c = ⟨environment, inputs, actions, runs.toNat, limit.toNat, seed⟩ ∧ 1 ≤ runs ∧ 1 ≤ limit := by
  have hpositive {field : String} {n : Int} {k : Nat} (hn : positive field n = .ok k) : k = n.toNat ∧ 1 ≤ n := by
    unfold positive at hn
    split at hn
    · exact nomatch hn
    · exact ⟨(Except.ok.inj hn).symm, by omega⟩
  obtain ⟨_, -, h⟩ := except_bind_eq_ok.mp h
  obtain ⟨_, -, h⟩ := except_bind_eq_ok.mp h
  obtain ⟨_, hruns, h⟩ := except_bind_eq_ok.mp h
  obtain ⟨_, hlimit, h⟩ := except_bind_eq_ok.mp h
  obtain ⟨rfl, hrunsPos⟩ := hpositive hruns
  obtain ⟨rfl, hlimitPos⟩ := hpositive hlimit
  exact ⟨(Except.ok.inj h).symm, hrunsPos, hlimitPos⟩

/--
**Every evaluation follows the protocol.** Settings that are bound to a task describe a shape such that, for every
program of the shape without a flaw and whatever the environment does at any call, an evaluation makes calls as the
protocol allows for what it comes to. To write the calls down changes nothing.
-/
theorem evaluate_protocol {settings bound : ProgramSettings} {environment : Environment σ}
    {inputs actions runs limit seed : Int} {c : Control σ}
    (hc : ofCounts environment inputs actions runs limit seed = .ok c)
    (hbind : settings.bind inputs actions = .ok bound) :
    c = ⟨environment, inputs, actions, runs.toNat, limit.toNat, seed⟩ ∧ 1 ≤ runs ∧ 1 ≤ limit ∧
      ∃ shape sizes, bound.shape = .ok shape ∧ shape.Usable sizes ∧ sizes.inputs = inputs ∧ sizes.actions = actions ∧
        ∀ (p : Program) (b : Bench σ), p.shape = shape → p.shape.flaw? p.code = none → b.registers.Fits sizes →
          ∃ calls, c.Protocol p sizes calls (answer (c.evaluate p b)) ∧
            ∀ earlier, c.recorded.evaluate p ⟨b.registers, (b.world, earlier)⟩ =
              withCalls (earlier ++ calls) (c.evaluate p b) := by
  obtain ⟨hcontrol, hruns, hlimit⟩ := ofCounts_ok hc
  obtain ⟨shape, sizes, hshape, husable, hinputs, hactions⟩ := ProgramSettings.exists_shape_of_bind hbind
  have hcount : c.actionCount = sizes.actions := by
    rw [hcontrol]
    exact hactions.symm
  have hlength : 1 ≤ c.maxEpisodeLength := by
    rw [hcontrol]
    exact Int.lt_toNat.mpr hlimit
  refine ⟨hcontrol, hruns, hlimit, shape, sizes, hshape, husable, hinputs, hactions, ?_⟩
  rintro p b rfl hflaw hb
  have hfits := Shape.fits_of_flaw?_eq_none husable.bound hflaw
  obtain ⟨calls, hends, hrecord⟩ := evaluate_records husable hfits hcount hlength b hb
  refine ⟨calls, ?_, hrecord⟩
  generalize c.evaluate p b = outcome at hends
  cases outcome with
  | ok x b' => exact hends.1
  | error e b' => exact hends.1

/-- The failure of an environment that there is no way through. -/
def noWay : Error := .fault ⟨.failure, "no way down"⟩

/-- Stairs to walk down, as many steps as the seed says, which show whether there are any left; from the fourth one
    there is no way. -/
def stairs : Environment Int where
  make := pure ()
  reset seed := do
    if seed = 4 then throw noWay
    set seed
    return .bool true
  step _ := do
    let height ← get
    set (height - 1)
    return ⟨.bool (height != 1), .float 1.0, height == 1⟩
  close := pure ()

/-- Five episodes of at most two steps, with seeds from two on. -/
def descents : Control Int := ⟨stairs, 1, 1, 5, 2, 2⟩

/-- A program that leaves its only register alone. -/
def walker : Program :=
  ⟨0, [⟨"if_lt", 0, 0, .internal, none⟩], ⟨32, some 2, some 1, some 1, none, 0.1, 0.5, 10.0, .single⟩⟩

/-- A step down, which may be the last one. -/
def stepDown (last : Bool) : Call := .step 0 (.ok ⟨.bool !last, .float 1.0, last⟩)

/-- The first episode ends on the ground and the second one above it, and the third one does not begin. -/
def descentCalls : List Call :=
  [.make (.ok ()), .reset 2 (.ok (.bool true)), stepDown false, stepDown true,
    .reset 3 (.ok (.bool true)), stepDown false, stepDown false, .reset 4 (.error noWay), .close (.ok ())]

/-- These are the calls of an evaluation. -/
theorem evaluate_protocol_stairs : descents.Protocol walker ⟨2, 1, 1⟩ descentCalls (.error noWay) := by
  have hc : ofCounts stairs 1 1 5 2 2 = .ok descents := rfl
  obtain ⟨bound, hbind⟩ : ∃ bound, ({} : ProgramSettings).bind 1 1 = .ok bound := ⟨_, rfl⟩
  obtain ⟨-, -, -, shape, sizes, hshape, husable, -, -, hprotocol⟩ := evaluate_protocol hc hbind
  have hsizes := husable.bound
  obtain rfl : walker.shape = shape := by
    obtain rfl := Except.ok.inj hbind
    exact Except.ok.inj hshape
  obtain rfl : (⟨2, 1, 1⟩ : BankSizes) = sizes := Option.some.inj hsizes
  obtain ⟨calls, hcalls, hrecord⟩ := hprotocol walker ⟨.zeros 2 1, 0⟩ rfl (by decide) ⟨rfl, rfl⟩
  obtain ⟨r, hrecorded⟩ : ∃ r,
      descents.recorded.evaluate walker ⟨.zeros 2 1, (0, [])⟩ = .error noWay ⟨r, (1, descentCalls)⟩ := ⟨_, rfl⟩
  have hnoted := hrecord []
  rw [List.nil_append] at hnoted
  generalize descents.evaluate walker ⟨.zeros 2 1, 0⟩ = outcome at hcalls hnoted
  cases outcome with
  | ok x b => exact nomatch hrecorded.symm.trans hnoted
  | error e b =>
      obtain ⟨rfl, hbench⟩ := EStateM.Result.error.inj (hrecorded.symm.trans hnoted)
      obtain ⟨-, rfl⟩ := Prod.mk.inj (Bench.mk.inj hbench).2
      exact hcalls

end Control

end RegisterEvolution
