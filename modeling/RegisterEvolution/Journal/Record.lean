/-!
# `Journal.Record` — what a run reports about itself

Every phase of a run appends records to a journal. A record has a level, the name of the part that wrote it, and a
message.
-/

namespace RegisterEvolution

/-- A journal entry. -/
structure Record where
  level : Int
  logger : String
  message : String
  deriving Repr, DecidableEq

namespace Record

/-- The level of details. -/
def debugLevel : Int := 10

/-- The level of ordinary news. -/
def infoLevel : Int := 20

/-- The level of warnings. -/
def warningLevel : Int := 30

/-- The level of errors. -/
def errorLevel : Int := 40

/-- The level of errors that end a run. -/
def criticalLevel : Int := 50

/-- The name under which the library reports. -/
def package : String := "linear_gp"

/-- The name of a part of the evolution phase. -/
def evolutionPart (part : String) : String := package ++ ".evolution." ++ part

end Record

end RegisterEvolution
