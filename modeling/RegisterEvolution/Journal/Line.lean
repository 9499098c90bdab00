import RegisterEvolution.Journal.Clock
import RegisterEvolution.Journal.Record
import RegisterEvolution.Journal.Template

/-!
# `Journal.Line` — records as lines of text

A line shows when a record was made, its level, who made it, and its message. What is reported of an exception and the
calls that led to the record stand below it. Lines for the console are compact and may be coloured, lines for a file are
complete.

* `Draft` — a record on its way to a line; colouring changes it while the line is made;
* `Draft.completed` — a line with what stands below it;
* `Draft.consoleLine` — the line for the console; the draft is put back afterwards, also when the message cannot be
  made;
* `Draft.fileLine` — the line for a file;
* `withoutEscapes` — a text without its colours.
-/

namespace RegisterEvolution

/-! ## Colours -/

/-- A sequence that switches the look of what follows on a terminal. -/
def escapeSequence (code : String) : String := "\x1b[" ++ code ++ "m"

/-- Goes back to the plain look. -/
def resetLook : String := escapeSequence "0"

/-- Makes what follows faint. -/
def faintLook : String := escapeSequence "2"

/-- The colour of a level. A level without a colour of its own has that of details. -/
def colourOf (level : Int) : String :=
  if level = Record.criticalLevel then escapeSequence "35"
  else if level = Record.errorLevel then escapeSequence "31"
  else if level = Record.warningLevel then escapeSequence "33"
  else if level = Record.infoLevel then escapeSequence "36"
  else escapeSequence "90"

/-- `text` in the given look. -/
def within (look text : String) : String := look ++ text ++ resetLook

/-- The characters of a text outside escape sequences, from inside one on or not. -/
def outsideEscapes (inside : Bool) : List Char → List Char
  | [] => []
  | c :: rest =>
    if inside then outsideEscapes (c != 'm') rest
    else if c = '\x1b' then outsideEscapes true rest
    else c :: outsideEscapes false rest

/-- The name of a level. -/
def levelName (level : Int) : String :=
  if level = Record.criticalLevel then "CRITICAL"
  else if level = Record.errorLevel then "ERROR"
  else if level = Record.warningLevel then "WARNING"
  else if level = Record.infoLevel then "INFO"
  else if level = Record.debugLevel then "DEBUG"
  else if level = 0 then "NOTSET"
  else "Level " ++ toString level

/-- `text` with blanks behind it up to five characters. -/
def padLevel (text : String) : String := text ++ String.ofList (List.replicate (5 - text.length) ' ')

/-- A record on its way to a line. -/
structure Draft where
  moment : Int
  level : Int
  levelName : String
  logger : String
  shortName : String
  /-- The message, a template if there are arguments. -/
  message : String
  arguments : List Value
  /-- What there is to report of the exception that the record is about. -/
  exception : Option String
  /-- The report of the exception as it has been written before; empty if it has not been. -/
  report : String
  /-- The calls that led to the record; empty if they are not shown. -/
  stack : String

/-- What can be made of a draft while it is worked on. -/
abbrev Drafting (α : Type) := EStateM FaultKind Draft α

namespace Draft

/-- A logger's name without that of the library in front. -/
def shorten (logger : String) : String :=
  let front := Record.package ++ "."
  if front.toList.isPrefixOf logger.toList then String.ofList (logger.toList.drop front.length) else logger

/-- The draft of a message with arguments. -/
def new (moment level : Int) (logger message : String) (arguments : List Value) : Draft :=
  ⟨moment, level, RegisterEvolution.levelName level, logger, logger, message, arguments, none, "", ""⟩

/-- The draft of a record. -/
def ofRecord (moment : Int) (r : Record) : Draft := new moment r.level r.logger r.message []

/-- The message with its arguments. -/
def messageText (d : Draft) : Except FaultKind String := Template.fill d.message d.arguments

/-- Whether the end of a text is the end of a line. -/
def endsLine (text : String) : Bool := text.toList.getLast? == some '\n'

/-- `text` on a line of its own below others, if there is any. -/
def below (lines text : String) : String :=
  if text = "" then lines else if endsLine lines then lines ++ text else lines ++ "\n" ++ text

/-- The draft with the report of its exception, which is kept for further lines. -/
def reported (d : Draft) : Draft := if d.report = "" then { d with report := d.exception.getD "" } else d

/-- A line with the report and the calls below it. -/
def completed (d : Draft) (line : String) : String := below (below line d.reported.report) d.stack

/-- The parts of a line between separators. -/
def joined (separator : String) (d : Draft) (stamp name : String) : Except FaultKind String := do
  return (" " ++ separator ++ " ").intercalate [stamp, padLevel d.levelName, name, ← d.messageText]

/-- The line of a draft as it stands, for the console. -/
def consoleText (stamp : String) (d : Draft) : Except FaultKind String := d.joined "│" stamp d.shortName

/-- The draft with its parts in colour. -/
def coloured (d : Draft) : Draft :=
  { d with
    levelName := within (colourOf d.level) (padLevel d.levelName)
    shortName := within faintLook d.shortName
    message := within (colourOf d.level) d.message }

/-- The draft with the parts that colouring changes put back to those of `saved`. -/
def restore (saved d : Draft) : Draft :=
  { d with levelName := saved.levelName, shortName := saved.shortName, message := saved.message }

/-- The line of the draft at hand, which has its report afterwards if there is a line. -/
def lineAsIs (stamp : String) : Drafting String := do
  let d ← get
  match d.consoleText stamp with
  | .ok text =>
    set d.reported
    return d.completed text
  | .error e => throw e

/-- Makes the line for the console. -/
def consoleLine (inColour : Bool) : Drafting String := do
  modify fun d => { d with shortName := shorten d.logger }
  let saved ← get
  let stamp := Clock.timeText saved.moment
  if inColour then
    set saved.coloured
    try lineAsIs (within faintLook stamp) finally modify saved.restore
  else lineAsIs stamp

/-- The line for a file. -/
def fileLine (d : Draft) : Except FaultKind String :=
  (d.joined "|" (Clock.dateText d.moment ++ " " ++ Clock.timeText d.moment) d.logger).map d.completed

end Draft

end RegisterEvolution
