/-!
# `Format.Reader` — readers of text formats

A reader takes what it needs off the front of a text, or fails. Readers of nested structures recurse on fuel, which
their callers compute from the length of the text.
-/

namespace RegisterEvolution.Format

/-- A reader of a `α` from the front of a text. -/
abbrev Reader (α : Type) := StateT (List Char) Option α

namespace Reader

/-- The next character, which is left in place. -/
def peek? : Reader (Option Char) := fun cs => some (cs.head?, cs)

/-- Takes the next character, which has to be `c`. -/
def expect (c : Char) : Reader Unit
  | [] => none
  | d :: rest => if d = c then some ((), rest) else none

/-- Takes `word` off the front, if the text begins with it; says whether it does. -/
def accept (word : String) : Reader Bool := fun cs =>
  if word.toList.isPrefixOf cs then some (true, cs.drop word.length) else some (false, cs)

/-- Takes the longest run of characters of which `p` holds. -/
def takeWhile (p : Char → Bool) : Reader (List Char) := fun cs => some (cs.takeWhile p, cs.dropWhile p)

/-- Drops the longest run of characters of which `p` holds. -/
def skipWhile (p : Char → Bool) : Reader Unit := fun cs => some ((), cs.dropWhile p)

/-- How many characters are left. -/
def remaining : Reader Nat := fun cs => some (cs.length, cs)

end Reader

end RegisterEvolution.Format
