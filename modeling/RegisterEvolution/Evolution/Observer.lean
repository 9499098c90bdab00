import RegisterEvolution.Evolution.Summary

/-!
# `Evolution.Observer` — those who watch a run

Observers are told of the events of a run, in their order, and each may ask that the run stop, report a failure, or
fail itself. Every observer is told of an event whatever the others do, and the first failure is the error of the event.
The one exception is a first failure that cannot be quoted: the attempt to quote it ends the event there and then.

* `Event`, `Verdict`, `Observer` — what observers see and answer;
* `Reply`, `Listener` — what an observer may hand back, and how it is read as a verdict;
* `Observer.callbacks`, `Observer.history`, `Observer.logging`, `Observer.target`, `Observer.silent` — observers for
  common purposes;
* `dispatch` — tells the observers of an event.
-/

namespace RegisterEvolution

/-- The events of a run. -/
inductive Event where
  | initialized
  | evaluated
  | ranked
  | selected
  | generationEnd
  deriving Repr, DecidableEq

namespace Event

/-- The name of an event. -/
def name : Event → String
  | initialized => "on_initialized"
  | evaluated => "on_evaluated"
  | ranked => "on_ranked"
  | selected => "on_selected"
  | generationEnd => "on_generation_end"

/-- Every event, in the order of a run. -/
def all : List Event := [initialized, evaluated, ranked, selected, generationEnd]

/-- The event of a given name. -/
def ofName? (s : String) : Option Event := all.find? fun e => e.name == s

end Event

/-- What an observer answers. -/
inductive Verdict where
  | proceed
  | stop
  | failure
  deriving Repr, DecidableEq

/-- The signals that an observer can give. -/
inductive Signal where
  | proceed
  | stop
  deriving Repr, DecidableEq

/-- What an observer hands back: a signal, a plain value, or anything else. -/
inductive Reply where
  | signal (s : Signal)
  | value (v : Value)
  | other

/-- Only the value `false` reports failure, and only the signal to stop asks for that. -/
def Reply.verdict : Reply → Verdict
  | .value (.bool false) => .failure
  | .signal .stop => .stop
  | _ => .proceed

/-- What observers may write to: the journal and the world outside. -/
structure Notes (σ : Type) where
  journal : Array Record
  world : σ

/-- Someone who watches a run. -/
structure Observer (σ : Type) where
  /-- What reports call the observer. -/
  name : String
  /-- What the observer does when it is told of an event, and what it answers. -/
  notice : Event → Store → Population → EStateM Error (Notes σ) Verdict

/-- Someone who is told of events and may hand anything back. -/
structure Listener (σ : Type) where
  name : String
  /-- What the listener does when it is told of an event, and what it hands back. -/
  hear : Event → Store → Population → EStateM Error (Notes σ) Reply

/-- A listener as an observer: what it hands back is read as a verdict. -/
def Listener.observer {σ : Type} (l : Listener σ) : Observer σ :=
  ⟨l.name, fun event store p => Reply.verdict <$> l.hear event store p⟩

/-- The name under which observers report. -/
def observerLogger : String := Record.evolutionPart "hooks"

namespace Notes

variable {σ : Type}

/-- Appends a report of an observer. -/
def report (level : Int) (message : String) : EStateM Error (Notes σ) Unit :=
  modify fun n => { n with journal := n.journal.push ⟨level, observerLogger, message⟩ }

/-- The statistics of a population. -/
def summarize (store : Store) (p : Population) : EStateM Error (Notes σ) Summary :=
  match p.summarize store with
  | .ok s => pure s
  | .error f => throw (.fault f)

end Notes

/-! ## Observers for common purposes -/

namespace Observer

variable {σ : Type}

/-- What a callback does with a population, and what it hands back. -/
abbrev Callback (σ : Type) := Store → Population → EStateM Error (Notes σ) Reply

/-- An observer that does nothing. -/
def silent : Observer σ := ⟨"GenerationObserver", fun _ _ _ => return .proceed⟩

/-- An observer that calls back after evaluation, ranking and the end of a generation. -/
def callbacks (afterEvaluation afterRanking afterGeneration : Option (Callback σ)) : Observer σ :=
  Listener.observer ⟨"CallbackObserver", fun event store p =>
    let call (c : Option (Callback σ)) : EStateM Error (Notes σ) Reply :=
      match c with
      | some f => f store p
      | none => return .value .null
    match event with
    | .evaluated => call afterEvaluation
    | .ranked => call afterRanking
    | .generationEnd => call afterGeneration
    | _ => return .value .null⟩

/-- An observer that hands the statistics of every ranked generation on. -/
def history (record : Summary → σ → σ) : Observer σ :=
  ⟨"HistoryObserver", fun event store p => do
    if event = .ranked then
      let s ← Notes.summarize store p
      modify fun n => { n with world := record s n.world }
    return .proceed⟩

/-- A length that may be absent. -/
def lengthText (best : Option BestProgram) : String := (best.map fun b => toString b.length).getD "None"

/-- The report on a ranked generation. -/
def generationMessage (s : Summary) : String :=
  "Gen " ++ toString s.generation ++ " | best " ++ Decimal.general 6 s.best ++ " | median " ++
    Decimal.general 6 s.median ++ " | worst " ++ Decimal.general 6 s.worst ++ " | best length " ++
    lengthText s.bestProgram

/-- The report on the best program of a generation. -/
def programMessage (s : Summary) (listing : String) : String :=
  "Gen " ++ toString s.generation ++ " | best program: " ++ listing

/-- An observer that reports on every ranked generation. -/
def logging (level : Int) (showsProgram : Bool) : Observer σ :=
  ⟨"LoggingObserver", fun event store p => do
    if event = .ranked then
      let s ← Notes.summarize store p
      Notes.report level (generationMessage s)
      match s.bestProgram with
      | some b => if showsProgram && b.listing ≠ "" then Notes.report level (programMessage s b.listing)
      | none => pure ()
    return .proceed⟩

/-- The report on a target that has been reached. -/
def targetMessage (target : Float) (program : Program) (fitness : Float) : String :=
  "Target fitness " ++ Decimal.general 6 target ++ " reached by program " ++ toString program.id ++ " (" ++
    Decimal.general 6 fitness ++ ")"

/-- An observer that stops a run once the best fitness reaches a target. -/
def target (goal : Float) : Observer σ :=
  ⟨"TargetFitnessObserver", fun event store p => do
    if event = .ranked then
      match p.best? store with
      | some program =>
        let fitness := (store.fitness program).getD (0.0 / 0.0)
        if goal ≤ fitness then
          Notes.report Record.infoLevel (targetMessage goal program fitness)
          return .stop
        else return .proceed
      | none => return .proceed
    else return .proceed⟩

end Observer

/-! ## Dispatch -/

/-- What telling observers of an event has come to so far. -/
structure Tally where
  stops : Bool
  /-- The first failure. -/
  failure : Option ObserverError

namespace Tally

/-- Nobody has answered. -/
def start : Tally := ⟨false, none⟩

/-- One more failure. -/
def fail (t : Tally) (e : ObserverError) : Tally := { t with failure := t.failure.or (some e) }

end Tally

section Dispatch

variable {γ σ : Type}

/-- A computation of an observer. -/
def onNotes {α : Type} (m : EStateM Error (Notes σ) α) : Run γ σ (Except Error α) := fun lab =>
  let keep (n : Notes σ) : Lab γ σ := { lab with journal := n.journal, world := n.world }
  match m ⟨lab.journal, lab.world⟩ with
  | .ok a n => .ok (.ok a) (keep n)
  | .error e n => .ok (.error e) (keep n)

/-- The report on an observer that raised an error. -/
def raisedMessage (observer event cause : String) : String :=
  "Observer " ++ observer ++ " raised in " ++ event ++ ": " ++ cause

/-- The report on an observer that reported failure. -/
def failureMessage (observer event : String) : String := "Observer " ++ observer ++ " reported failure in " ++ event

/-- The report on an observer that asked to stop. -/
def stopMessage (observer event : String) : String := "Observer " ++ observer ++ " requested stop in " ++ event

/-- Tells one observer of an event. -/
def tell (event : Event) (p : Population) (t : Tally) (o : Observer σ) : Run γ σ Tally := do
  match ← onNotes (o.notice event (← get).store p) with
  | .error e =>
    match e.quote with
    | .ok quote => do
      Run.report ⟨Record.errorLevel, observerLogger, raisedMessage o.name event.name quote⟩
      return t.fail (.raised o.name event.name quote e)
    -- the report is lost, and only a first failure is quoted once more
    | .error failure => if t.failure.isSome then return t else throw failure
  | .ok .failure => do
    Run.report ⟨Record.errorLevel, observerLogger, failureMessage o.name event.name⟩
    return t.fail (.reported o.name event.name)
  | .ok .stop => do
    Run.report ⟨Record.infoLevel, observerLogger, stopMessage o.name event.name⟩
    return { t with stops := true }
  | .ok .proceed => return t

/-- Tells every observer of an event. -/
def tellAll (event : Event) (p : Population) : List (Observer σ) → Tally → Run γ σ Tally
  | [], t => return t
  | o :: rest, t => do
    let t ← tell event p t o
    tellAll event p rest t

/-- Tells every observer of an event; answers whether one of them asked to stop. -/
def dispatch (observers : List (Observer σ)) (event : Event) (p : Population) : Run γ σ Bool := do
  let t ← tellAll event p observers .start
  match t.failure with
  | some e => throw (.observer e)
  | none => return t.stops

end Dispatch

end RegisterEvolution
