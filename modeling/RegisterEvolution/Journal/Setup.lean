import RegisterEvolution.Entries
import RegisterEvolution.Journal.Line

/-!
# `Journal.Setup` — what is shown of the journal, and where

The console shows the records from a chosen level on, and a file may take them too. Scores of single programs are
details of the evaluation part and can be shown apart from the rest.

* `usesColour` — whether the console is coloured;
* `Thresholds.shows` — whether a record is shown;
* `Setup.console`, `Setup.file` — the lines of a session.
-/

namespace RegisterEvolution

/--
Whether the console is coloured. A variable forces it, another one forbids it, and without either a terminal is
coloured.
-/
def usesColour (environment : Entries String String) (isTerminal : Bool) : Bool :=
  if (environment.get? "FORCE_COLOR").any (· != "") then true
  else if (environment.get? "NO_COLOR").isSome then false
  else isTerminal

/-- The levels from which on records are shown: of anyone, of the library, and of its evaluation part. -/
structure Thresholds where
  anyone : Int
  library : Int
  evaluation : Int
  deriving Repr, DecidableEq

namespace Thresholds

/-- The name under which the evaluation part reports. -/
def evaluationLogger : String := Record.evolutionPart "evaluation"

/-- The thresholds for a level, with the scores of single programs or without. -/
def ofLevel (level : Int) (showsScores : Bool) : Thresholds :=
  ⟨level, level, if showsScores then Record.debugLevel else max level Record.infoLevel⟩

/-- Whether `logger` is `part` or belongs to it. -/
def belongsTo (logger part : String) : Bool :=
  logger == part || (part ++ ".").toList.isPrefixOf logger.toList

/-- The first threshold that is set; one of zero is not. -/
def firstSet : List Int → Int
  | [] => 0
  | level :: rest => if level = 0 then firstSet rest else level

/-- The threshold of a logger: that of the narrowest part that it belongs to and that has one. -/
def of (t : Thresholds) (logger : String) : Int :=
  if belongsTo logger evaluationLogger then firstSet [t.evaluation, t.library, t.anyone]
  else if belongsTo logger Record.package then firstSet [t.library, t.anyone]
  else t.anyone

/-- Whether a record is shown. Records without a positive level never are. -/
def shows (t : Thresholds) (r : Record) : Bool :=
  0 < r.level && t.of r.logger ≤ r.level && t.anyone ≤ r.level

end Thresholds

/-- How a session shows its journal. -/
structure Setup where
  thresholds : Thresholds
  inColour : Bool

namespace Setup

/-- The name of a logger that is given none. -/
def rootName : String := "root"

/-- The record that opens a session. -/
def opening (moment : Int) : Record :=
  ⟨Record.infoLevel, Record.package, "Session started · " ++ Clock.dateText moment⟩

/-- The drafts of the records that a session shows, the opening first. -/
def drafts (s : Setup) (moment : Int) (records : List Record) : List Draft :=
  ((opening moment :: records).filter s.thresholds.shows).map fun r =>
    Draft.ofRecord moment { r with logger := if r.logger = "" then rootName else r.logger }

/-- The lines on the console. -/
def console (s : Setup) (moment : Int) (records : List Record) : List String :=
  (s.drafts moment records).filterMap fun d =>
    match Draft.consoleLine s.inColour d with
    | .ok line _ => some line
    | .error _ _ => none

/-- The lines in the file. -/
def file (s : Setup) (moment : Int) (records : List Record) : List String :=
  (s.drafts moment records).filterMap fun d => d.fileLine.toOption

end Setup

end RegisterEvolution
