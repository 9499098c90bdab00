import RegisterEvolution.Text.Blank

/-!
# `Text.Shorten` — text cut to a width

A text that is too wide is cut after a whole word and ends in a placeholder.
-/

namespace RegisterEvolution.Text

/-- What stands for the words that were cut. -/
def placeholder : String := "..."

/-- The words of a text, separated by white space. -/
def wordsOf (cs : List Char) : List (List Char) :=
  let (word, words) := cs.foldr
    (fun c (word, words) =>
      if isBlank c then ([], if word.isEmpty then words else word :: words) else (c :: word, words))
    (([] : List Char), ([] : List (List Char)))
  if word.isEmpty then words else word :: words

/-- The words after `line` that still fit into `room` characters, each after a blank. -/
def extend (room : Nat) (line : List Char) : List (List Char) → List Char
  | [] => line
  | word :: rest =>
    let longer := if line.isEmpty then word else line ++ ' ' :: word
    if longer.length ≤ room then extend room longer rest else line

/--
`s` with single blanks between its words, cut to at most `width` characters. There is no such text when the
placeholder is wider than that.
-/
def shorten? (width : Int) (s : String) : Option String :=
  if width < placeholder.length then none
  else
    let words := wordsOf s.toList
    let whole := [' '].intercalate words
    if (whole.length : Int) ≤ width then some (String.ofList whole)
    else some (String.ofList (extend (width.toNat - placeholder.length) [] words) ++ placeholder)

end RegisterEvolution.Text
