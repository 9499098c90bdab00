import RegisterEvolution.Error

/-!
# `Machine.Vector` — numbers and input vectors out of dynamically typed values

Inputs reach a program as a number, a list of numbers, or lists nested to any depth, which are read row by row. Nested
lists have to be rectangular.

* `Value.toNumber` — one number, as a score or a constant;
* `Value.toVector` — the numbers of a nested list, in order.
-/

namespace RegisterEvolution

namespace Value

/-- The name of the type of a value, in the text of faults. -/
def typeName : Value → String
  | null => "NoneType"
  | bool _ => "bool"
  | int _ => "int"
  | float _ => "float"
  | text _ => "str"
  | list _ => "list"
  | map _ => "dict"

/-- The number that a value stands for; text is read as a number. -/
def toNumber : Value → Except Fault Float
  | float x => .ok x
  | bool b => .ok (if b then 1.0 else 0.0)
  | int n =>
    match Decimal.ofInt? n with
    | some x => .ok x
    | none => .error Fault.integerTooLarge
  | text s =>
    match Decimal.readFloat? s with
    | some x => .ok x
    | none => .error ⟨.badValue, "could not convert string to float: " ++ Text.quoted s⟩
  | v => .error (Fault.notANumber v.typeName)

/-- A number inside a vector, where null stands for a missing number. -/
def toEntry : Value → Except Fault Float
  | null => .ok (0.0 / 0.0)
  | list _ => .error ⟨.badValue, "setting an array element with a sequence."⟩
  | v => v.toNumber

/-- The common beginning of two lists. -/
def commonPrefixOf : List Nat → List Nat → List Nat
  | a :: as, b :: bs => if a = b then a :: commonPrefixOf as bs else []
  | _, _ => []

/-- The lengths of nested lists along each direction, and whether they are the same everywhere. -/
structure Extent where
  lengths : List Nat
  uniform : Bool

/-- What two neighbours have in common. -/
def Extent.meet (a b : Extent) : Extent :=
  ⟨commonPrefixOf a.lengths b.lengths, a.uniform && b.uniform && a.lengths == b.lengths⟩

mutual

/-- The extent of a value; all but lists have none. -/
def extent : Value → Extent
  | list items =>
    match extents items with
    | [] => ⟨[0], true⟩
    | first :: rest =>
      let inner := rest.foldl Extent.meet first
      ⟨items.length :: inner.lengths, inner.uniform⟩
  | _ => ⟨[], true⟩

/-- The extents of the items of a list. -/
def extents : List Value → List Extent
  | [] => []
  | item :: rest => extent item :: extents rest

end

mutual

/-- The values inside nested lists, in order. -/
def leaves : Value → List Value
  | list items => leavesOf items
  | v => [v]

/-- The values inside the items of a list, in order. -/
def leavesOf : List Value → List Value
  | [] => []
  | item :: rest => leaves item ++ leavesOf rest

end

/-- The lengths of a partly uniform list in the text of a fault. -/
def extentText : List Nat → String
  | [n] => "(" ++ toString n ++ ",)"
  | lengths => bracketed "(" ")" (lengths.map toString)

/-- The fault of nested lists that are not rectangular. -/
def raggedFault (lengths : List Nat) : Fault :=
  ⟨.badValue, "setting an array element with a sequence. The requested array has an inhomogeneous shape after " ++
    toString lengths.length ++ " dimensions. The detected shape was " ++ extentText lengths ++
    " + inhomogeneous part."⟩

/-- The numbers in a value, in order. -/
def toVector (v : Value) : Except Fault (List Float) :=
  let found := v.extent
  if found.uniform then v.leaves.mapM toEntry else .error (raggedFault found.lengths)

end Value

end RegisterEvolution
