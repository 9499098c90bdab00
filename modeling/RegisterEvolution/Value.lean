import RegisterEvolution.Decimal.Layout
import RegisterEvolution.Decimal.Reader
import RegisterEvolution.Text.Quoted

/-!
# `Value` — dynamically typed values

Configuration files, environment variables, explicit overrides and the scores that tasks return are values whose
type is known only when they are read. This module holds the type and its texts:

* `Value.display` — the unambiguous form that messages show, with text in quotes;
* `Value.plain` — the plain form, in which a top-level text stands as it is;
* `Value.isWritable` — whether a value has these forms, which very long integers have not;
* `Value.isTruthy` — the reading of any value as a switch.
-/

namespace RegisterEvolution

/-- A dynamically typed value. The entries of a mapping are in insertion order. -/
inductive Value where
  | null
  | bool (b : Bool)
  | int (n : Int)
  | float (x : Float)
  | text (s : String)
  | list (items : List Value)
  | map (entries : List (Value × Value))
  deriving Inhabited, BEq

namespace Value

/-- `items` between `opening` and `closing`, separated by commas. -/
def bracketed (opening closing : String) (items : List String) : String :=
  opening ++ ", ".intercalate items ++ closing

mutual

/-- The form of a value in messages. -/
def display : Value → String
  | null => "None"
  | bool true => "True"
  | bool false => "False"
  | int n => toString n
  | float x => floatText x
  | text s => Text.quoted s
  | list items => bracketed "[" "]" (displayItems items)
  | map entries => bracketed "\x7b" "\x7d" (displayEntries entries)

/-- The forms of the items of a list. -/
def displayItems : List Value → List String
  | [] => []
  | item :: rest => display item :: displayItems rest

/-- The forms of the entries of a mapping. -/
def displayEntries : List (Value × Value) → List String
  | [] => []
  | (key, value) :: rest => (display key ++ ": " ++ display value) :: displayEntries rest

end

mutual

/-- Whether a value can be written out: integers of too many digits are refused. -/
def isWritable : Value → Bool
  | int n => decide (n.natAbs < Nat.pow 10 Decimal.integerDigitLimit)
  | list items => areWritable items
  | map entries => entriesWritable entries
  | _ => true

/-- Whether the items of a list can be written out. -/
def areWritable : List Value → Bool
  | [] => true
  | item :: rest => isWritable item && areWritable rest

/-- Whether the entries of a mapping can be written out. -/
def entriesWritable : List (Value × Value) → Bool
  | [] => true
  | (key, value) :: rest => isWritable key && isWritable value && entriesWritable rest

end

/-- The plain form of a value. -/
def plain : Value → String
  | text s => s
  | v => v.display

/-- Whether a value counts as switched on: everything but null, false, zero and the empty collections and text. -/
def isTruthy : Value → Bool
  | null => false
  | bool b => b
  | int n => n != 0
  | float x => !(x == 0.0)
  | text s => s != ""
  | list items => !items.isEmpty
  | map entries => !entries.isEmpty

/-- Whether a value is a mapping. -/
def isMap : Value → Bool
  | map _ => true
  | _ => false

/-- The value of the first entry whose key is the text `key`. -/
def lookup? (entries : List (Value × Value)) (key : String) : Option Value :=
  (entries.find? fun entry => match entry.1 with | .text s => s == key | _ => false).map (·.2)

end Value

/-- A list of texts in quotation marks, as messages show it. -/
def displayTexts (texts : List String) : String := (Value.list (texts.map Value.text)).display

/-- Alternatives in quotation marks between parentheses. -/
def displayChoices (texts : List String) : String := Value.bracketed "(" ")" (texts.map Text.quoted)

end RegisterEvolution
