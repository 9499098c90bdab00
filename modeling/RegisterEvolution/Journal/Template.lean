import RegisterEvolution.Machine.Vector

/-!
# `Journal.Template` — messages with places for arguments

A record's message may be a template. Each directive in it, a `%` with a conversion letter, takes the next argument
and says how to write it: flags, a least width, and a precision may stand between the two. Two `%` stand for one. Where
the only argument is a mapping, a directive may name the key of what it writes, in parentheses right behind the `%`.

* `pieces` — cuts a template into literal characters and directives;
* `Supply` — the arguments: a row of them, or a mapping;
* `Form.write` — one argument as its directive asks;
* `fill` — the message: every directive has an argument, and every argument of a row a directive.
-/

namespace RegisterEvolution.Template

/-- A width or precision: written in the template, or taken from the arguments. -/
inductive Amount where
  | given (n : Nat)
  | argument
  deriving Repr, DecidableEq

/-- One more digit of an amount. -/
def Amount.digit : Amount → Nat → Amount
  | .given n, d => .given (10 * n + d)
  | .argument, _ => .argument

/-- How to write an argument. -/
structure Directive where
  /-- The key of the argument in a mapping. -/
  key? : Option String := none
  leftAligned : Bool := false
  signed : Bool := false
  spaced : Bool := false
  alternate : Bool := false
  zeroFilled : Bool := false
  width : Amount := .given 0
  precision? : Option Amount := none
  /-- The letter that selects the form. -/
  conversion : Char := '%'
  deriving Repr, DecidableEq

/-- The directive with a flag set, if `c` is a flag. -/
def Directive.flag? (d : Directive) (c : Char) : Option Directive :=
  match c with
  | '-' => some { d with leftAligned := true }
  | '+' => some { d with signed := true }
  | ' ' => some { d with spaced := true }
  | '#' => some { d with alternate := true }
  | '0' => some { d with zeroFilled := true }
  | _ => none

/-- A part of a template. -/
inductive Piece where
  | literal (c : Char)
  | directive (d : Directive)
  /-- A directive that the end of the template cuts off in its key. -/
  | unclosed
  /-- A directive that the end of the template cuts off behind its key. -/
  | unfinished (d : Directive)
  deriving Repr, DecidableEq

/-! ## Cutting a template into pieces -/

/-- Where in a directive the reading of a template stands. -/
inductive Phase where
  | outside
  | opened
  /-- In a key, inside so many parentheses of its own, with its characters so far, the last one first. -/
  | key (depth : Nat) (read : List Char)
  | flags (d : Directive)
  | width (d : Directive)
  | widthTaken (d : Directive)
  | point (d : Directive)
  | precision (d : Directive)
  | precisionTaken (d : Directive)
  | sized (d : Directive)

namespace Phase

/-- What reading a character comes to: the phase after it, and the piece that it completes. -/
abbrev Step := Phase × Option Piece

/-- The conversion letter of `d` is read. -/
def conversion (d : Directive) (c : Char) : Step := (outside, some (.directive { d with conversion := c }))

/-- A size letter may stand before the conversion letter, and has no meaning. -/
def size (d : Directive) (c : Char) : Step :=
  if c = 'h' ∨ c = 'l' ∨ c = 'L' then (sized d, none) else conversion d c

/-- A point opens the precision, which is zero unless digits follow. -/
def pointOr (d : Directive) (c : Char) : Step :=
  if c = '.' then (point { d with precision? := some (.given 0) }, none) else size d c

/-- The value of an ASCII digit. -/
def digit? (c : Char) : Option Nat := if c.isDigit then some (c.toNat - '0'.toNat) else none

/-- A flag, or what may follow the flags. -/
def flagOr (d : Directive) (c : Char) : Step :=
  match d.flag? c with
  | some d' => (flags d', none)
  | none =>
    if c = '*' then (widthTaken { d with width := .argument }, none)
    else
      match digit? c with
      | some n => (width { d with width := .given n }, none)
      | none => pointOr d c

/-- A character of a key, or the parenthesis that closes it. -/
def keyOr (depth : Nat) (read : List Char) (c : Char) : Step :=
  if c = '(' then (key (depth + 1) (c :: read), none)
  else if c = ')' then
    match depth with
    | 0 => (flags { key? := some (String.ofList read.reverse) }, none)
    | depth + 1 => (key depth (c :: read), none)
  else (key depth (c :: read), none)

/-- Reads one character. -/
def step : Phase → Char → Step
  | outside, c => if c = '%' then (opened, none) else (outside, some (.literal c))
  | opened, c =>
    if c = '%' then (outside, some (.literal c))
    else if c = '(' then (key 0 [], none)
    else flagOr {} c
  | key depth read, c => keyOr depth read c
  | flags d, c => flagOr d c
  | width d, c =>
    match digit? c with
    | some n => (width { d with width := d.width.digit n }, none)
    | none => pointOr d c
  | widthTaken d, c => pointOr d c
  | point d, c =>
    if c = '*' then (precisionTaken { d with precision? := some .argument }, none)
    else
      match digit? c with
      | some n => (precision { d with precision? := some (.given n) }, none)
      | none => size d c
  | precision d, c =>
    match digit? c with
    | some n => (precision { d with precision? := d.precision?.map (·.digit n) }, none)
    | none => size d c
  | precisionTaken d, c => size d c
  | sized d, c => conversion d c

/-- The pieces that the end of the template leaves. -/
def finish : Phase → List Piece
  | outside => []
  | opened => [.unfinished {}]
  | key _ _ => [.unclosed]
  | flags d | width d | widthTaken d | point d | precision d | precisionTaken d | sized d => [.unfinished d]

end Phase

/-- The pieces of a template from `phase` on. -/
def piecesFrom (phase : Phase) : List Char → List Piece
  | [] => phase.finish
  | c :: rest =>
    let (next, piece) := phase.step c
    piece.toList ++ piecesFrom next rest

/-- The pieces of a template. -/
def pieces (template : String) : List Piece := piecesFrom .outside template.toList

/-! ## Writing an argument -/

/-- A directive whose width and precision are known. -/
structure Form where
  directive : Directive
  leftAligned : Bool
  width : Nat
  precision? : Option Nat

/-- A written number, before it is aligned. -/
structure Figure where
  negative : Bool
  /-- The mark of the base. -/
  mark : List Char
  digits : List Char

namespace Form

/-- `text` with blanks up to the width. -/
def align (f : Form) (text : List Char) : List Char :=
  let blanks := List.replicate (f.width - text.length) ' '
  if f.leftAligned then text ++ blanks else blanks ++ text

/-- The sign of a number. -/
def sign (f : Form) (negative : Bool) : List Char :=
  if negative then ['-'] else if f.directive.signed then ['+'] else if f.directive.spaced then [' '] else []

/-- A number with its sign and mark, filled up with zeros behind them or aligned. -/
def place (f : Form) (n : Figure) : List Char :=
  let front := f.sign n.negative ++ n.mark
  let zeros := f.width - (front.length + n.digits.length)
  if f.directive.zeroFilled && !f.leftAligned then front ++ List.replicate zeros '0' ++ n.digits
  else f.align (front ++ n.digits)

/-- A text, cut to the precision. -/
def placeText (f : Form) (text : List Char) : List Char :=
  f.align (match f.precision? with | some n => text.take n | none => text)

/-- The integer that a value stands for as an argument. Fractions are cut off where `truncates`. -/
def integerOf (truncates : Bool) : Value → Except FaultKind Int
  | .int n => .ok n
  | .bool b => .ok (if b then 1 else 0)
  | .float x =>
    if truncates then
      match Decimal.Shape.ofFloat x with
      | .finite d => .ok d.truncate
      | .infinite _ => .error .overflow
      | .notANumber => .error .badValue
    else .error .wrongType
  | _ => .error .wrongType

/-- An integer in the given base, with at least as many digits as the precision says. -/
def placeInteger (f : Form) (base : Nat) (mark : List Char) (capital : Bool) (n : Int) : List Char :=
  let digits := Nat.toDigits base n.natAbs
  let digits := if capital then digits.map Char.toUpper else digits
  let zeros := List.replicate (f.precision?.getD 0 - digits.length) '0'
  f.place ⟨n < 0, if f.directive.alternate then mark else [], zeros ++ digits⟩

/-- `digits` with a point after the whole part, in front of the exponent if there is one. -/
def withPoint (digits : List Char) : List Char :=
  if digits.contains '.' || !(digits.head?.any Char.isDigit) then digits
  else digits.takeWhile (· != 'e') ++ '.' :: digits.dropWhile (· != 'e')

/-- A floating-point number in the notation that `write` gives it for a precision. -/
def placeReal (f : Form) (write : Nat → Float → String) (capital : Bool) (x : Float) : List Char :=
  let text := (write (f.precision?.getD 6) x).toList
  let negative := text.head? == some '-'
  let digits := if negative then text.drop 1 else text
  let digits := if f.directive.alternate then withPoint digits else digits
  f.place ⟨negative, [], if capital then digits.map Char.toUpper else digits⟩

/-- The number that a value stands for as an argument. -/
def realOf : Value → Except FaultKind Float
  | .text _ | .null | .list _ | .map _ => .error .wrongType
  | v => v.toNumber.mapError Fault.kind

/-- The character that a value stands for as an argument. -/
def characterOf : Value → Except FaultKind Char
  | .int n => if 0 ≤ n ∧ n < 0x110000 then .ok (Char.ofNat n.toNat) else .error .overflow
  | .bool b => .ok (Char.ofNat (if b then 1 else 0))
  | .text s =>
    match s.toList with
    | [c] => .ok c
    | _ => .error .wrongType
  | _ => .error .wrongType

/-- An argument as the form asks. -/
def write (f : Form) (v : Value) : Except FaultKind (List Char) :=
  match f.directive.conversion with
  | 's' => .ok (f.placeText v.plain.toList)
  | 'r' => .ok (f.placeText v.display.toList)
  | 'a' => .ok (f.placeText (v.display.toList.flatMap Text.escapeBeyondAscii))
  | 'd' | 'i' | 'u' => (integerOf true v).map (f.placeInteger 10 [] false)
  | 'o' => (integerOf false v).map (f.placeInteger 8 ['0', 'o'] false)
  | 'x' => (integerOf false v).map (f.placeInteger 16 ['0', 'x'] false)
  | 'X' => (integerOf false v).map (f.placeInteger 16 ['0', 'X'] true)
  | 'f' => (realOf v).map (f.placeReal Decimal.fixed false)
  | 'F' => (realOf v).map (f.placeReal Decimal.fixed true)
  | 'e' => (realOf v).map (f.placeReal Decimal.scientific false)
  | 'E' => (realOf v).map (f.placeReal Decimal.scientific true)
  | 'g' => (realOf v).map (f.placeReal (Decimal.generalWith f.directive.alternate) false)
  | 'G' => (realOf v).map (f.placeReal (Decimal.generalWith f.directive.alternate) true)
  | 'c' => (characterOf v).map fun c => f.align [c]
  | _ => .error .badValue

end Form

/-! ## Filling a template -/

/-- The arguments that are left: a row of them, or a mapping with the value that is to be written next. -/
structure Supply where
  entries? : Option (List (Value × Value))
  pending : List Value

namespace Supply

/-- A filled mapping is looked up in if it is the only argument; all others are taken in their order. -/
def ofArguments : List Value → Supply
  | [.map (entry :: rest)] => ⟨some (entry :: rest), [.map (entry :: rest)]⟩
  | arguments => ⟨none, arguments⟩

/-- Takes the next argument. -/
def take (s : Supply) : Except FaultKind (Value × Supply) :=
  match s.pending with
  | [] => .error .wrongType
  | v :: rest => .ok (v, { s with pending := rest })

/-- Looks up what is to be written next, if it is asked for by its key. -/
def choose (s : Supply) (key? : Option String) : Except FaultKind Supply :=
  match key?, s.entries? with
  | none, _ => .ok s
  | some _, none => .error .wrongType
  | some key, some entries =>
    match Value.lookup? entries key with
    | some v => .ok { s with pending := [v] }
    | none => .error .missingKey

/-- Whether no argument is left over. A mapping need not be used up. -/
def isUsed (s : Supply) : Bool := s.entries?.isSome || s.pending.isEmpty

end Supply

/-- The greatest width. -/
def widthLimit : Nat := Nat.pow 2 63 - 1

/-- The greatest precision. -/
def precisionLimit : Nat := Nat.pow 2 31 - 1

/-- What an amount of at most `limit` comes to. -/
def Amount.resolve (limit : Nat) (a : Amount) (s : Supply) : Except FaultKind (Int × Supply) :=
  match a with
  | .given n => if limit < n then .error .badValue else .ok (n, s)
  | .argument => do
    let (v, s) ← s.take
    match v with
    | .int n => if limit < n.natAbs then throw .overflow else return (n, s)
    | .bool b => return (if b then 1 else 0, s)
    | _ => throw .wrongType

/-- A directive with its key looked up and its width and precision resolved; a negative width aligns to the left. -/
def Directive.form (d : Directive) (s : Supply) : Except FaultKind (Form × Supply) := do
  let s ← s.choose d.key?
  let (width, s) ← d.width.resolve widthLimit s
  let leftAligned := d.leftAligned || width < 0
  match d.precision? with
  | none => return (⟨d, leftAligned, width.natAbs, none⟩, s)
  | some p => do
    let (precision, s) ← p.resolve precisionLimit s
    return (⟨d, leftAligned, width.natAbs, some precision.toNat⟩, s)

/-- A piece as text, and the arguments that it leaves. -/
def Piece.write (s : Supply) : Piece → Except FaultKind (List Char × Supply)
  | .literal c => .ok ([c], s)
  | .unclosed => .error (if s.entries?.isSome then .badValue else .wrongType)
  | .unfinished d => do
    let _ ← d.form s
    throw .badValue
  | .directive d => do
    let (form, s) ← d.form s
    let (v, s) ← s.take
    return (← form.write v, s)

/-- The text of pieces; all arguments have to be used. -/
def fillPieces : List Piece → Supply → Except FaultKind (List Char)
  | [], s => if s.isUsed then .ok [] else .error .wrongType
  | piece :: rest, s => do
    let (text, s) ← piece.write s
    return text ++ (← fillPieces rest s)

/-- A template with its arguments filled in. Without arguments a message is no template and stays as it is. -/
def fill (template : String) (arguments : List Value) : Except FaultKind String :=
  if arguments.isEmpty then .ok template
  else (fillPieces (pieces template) (.ofArguments arguments)).map String.ofList

end RegisterEvolution.Template
