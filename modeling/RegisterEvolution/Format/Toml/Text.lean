import RegisterEvolution.Decimal.Reader
import RegisterEvolution.Format.Reader
import RegisterEvolution.Format.Toml.Table

/-!
# `Format.Toml.Text` — reading TOML documents

* `readToml?` — the mapping that a TOML document denotes; none when it is malformed.

Dates and times are not among the values.
-/

namespace RegisterEvolution.Toml

open Format

/-! ## Characters -/

/-- White space inside a line. -/
def isSpace (c : Char) : Bool := c = ' ' || c = '\t'

/-- White space, line ends included. -/
def isSpaceOrNewline (c : Char) : Bool := isSpace c || c = '\n'

/-- Characters that must not occur in comments and in text of one line. -/
def isForbidden (c : Char) : Bool := (c.toNat < 0x20 && c ≠ '\t') || c.toNat = 0x7F

/-- Characters that a key can consist of without quotation marks. -/
def isKeyChar (c : Char) : Bool := c.isAlphanum || c = '-' || c = '_'

/-- Whether `c` is a hexadecimal digit. -/
def isHexDigit (c : Char) : Bool := c.isDigit || ('a' ≤ c && c ≤ 'f') || ('A' ≤ c && c ≤ 'F')

/-- The value of a digit in bases up to sixteen. -/
def digitValue (c : Char) : Nat :=
  if c.isDigit then c.toNat - '0'.toNat
  else if 'a' ≤ c then c.toNat - 'a'.toNat + 10
  else c.toNat - 'A'.toNat + 10

/-- The number that digits stand for. -/
def ofDigits (base : Nat) (digits : List Char) : Nat := digits.foldl (fun n c => base * n + digitValue c) 0

/-! ## Strings -/

/-- The character that an escape of one letter stands for. -/
def escaped? : Char → Option Char
  | 'b' => some '\x08'
  | 't' => some '\t'
  | 'n' => some '\n'
  | 'f' => some '\x0c'
  | 'r' => some '\r'
  | '"' => some '"'
  | '\\' => some '\\'
  | _ => none

/-- A character given by `count` hexadecimal digits. -/
def unicodeEscape? (count : Nat) (cs : List Char) : Option (Char × List Char) :=
  let digits := cs.take count
  let n := ofDigits 16 digits
  if digits.length = count ∧ digits.all isHexDigit = true ∧ n.isValidChar then some (Char.ofNat n, cs.drop count)
  else none

/-- What follows a backslash at the end of a line: the line end and all white space after it are left out. -/
def afterLineEnd? (cs : List Char) : Option (List Char) :=
  match cs.dropWhile isSpace with
  | [] => some []
  | '\n' :: rest => some (rest.dropWhile isSpaceOrNewline)
  | _ => none

/-- The rest of a text in double quotes, from after the opening to after the closing ones. -/
def basicText? (multiline : Bool) : Nat → List Char → Option (List Char × List Char)
  | 0, _ => none
  | fuel + 1, cs =>
    let onward (c : Char) (rest : List Char) := do
      let (body, tail) ← basicText? multiline fuel rest
      return (c :: body, tail)
    match cs with
    | [] => none
    | '"' :: rest =>
      if multiline then
        match rest with
        | '"' :: '"' :: tail => some ([], tail)
        | _ => onward '"' rest
      else some ([], rest)
    | '\\' :: 'u' :: rest => do
      let (c, rest) ← unicodeEscape? 4 rest
      onward c rest
    | '\\' :: 'U' :: rest => do
      let (c, rest) ← unicodeEscape? 8 rest
      onward c rest
    | '\\' :: c :: rest =>
      if multiline && isSpaceOrNewline c then do
        let rest ← afterLineEnd? (c :: rest)
        basicText? multiline fuel rest
      else do
        let c ← escaped? c
        onward c rest
    | c :: rest => if isForbidden c && !(multiline && c = '\n') then none else onward c rest

/-- The rest of a text in single quotes, from after the opening to after the closing ones. -/
def literalText? (multiline : Bool) : List Char → Option (List Char × List Char)
  | [] => none
  | '\'' :: rest =>
    let onward := do
      let (body, tail) ← literalText? multiline rest
      return ('\'' :: body, tail)
    if multiline then
      match rest with
      | '\'' :: '\'' :: tail => some ([], tail)
      | _ => onward
    else some ([], rest)
  | c :: rest =>
    if isForbidden c && !(multiline && c = '\n') then none
    else do
      let (body, tail) ← literalText? multiline rest
      return (c :: body, tail)

/-- At most two more quotation marks directly after the closing ones, which belong to the text. -/
def furtherQuotes (quote : Char) (cs : List Char) : List Char × List Char :=
  let count := min 2 (cs.takeWhile (· == quote)).length
  (cs.take count, cs.drop count)

/-- A text over several lines, from after the opening quotation marks. A line end directly after them is left out. -/
def multilineText? (quote : Char) (cs : List Char) : Option (List Char × List Char) := do
  let cs := match cs with
    | '\n' :: rest => rest
    | _ => cs
  let (body, rest) ← if quote = '"' then basicText? true (cs.length + 1) cs else literalText? true cs
  let (further, rest) := furtherQuotes quote rest
  return (body ++ further, rest)

/-- A text of one line, from its opening quotation mark. -/
def lineText? (cs : List Char) : Option (List Char × List Char) :=
  match cs with
  | '"' :: rest => basicText? false (rest.length + 1) rest
  | '\'' :: rest => literalText? false rest
  | _ => none

/-- A text, from its opening quotation marks. -/
def text? (cs : List Char) : Option (List Char × List Char) :=
  match cs with
  | '"' :: '"' :: '"' :: rest => multilineText? '"' rest
  | '\'' :: '\'' :: '\'' :: rest => multilineText? '\'' rest
  | _ => lineText? cs

/-! ## Numbers -/

/-- Digits with single underscores between them; none when the text does not begin with a digit. -/
def digitRun (isDigit : Char → Bool) : List Char → List Char × List Char
  | [] => ([], [])
  | '_' :: c :: rest =>
    if isDigit c then
      let (digits, tail) := digitRun isDigit rest
      (c :: digits, tail)
    else ([], '_' :: c :: rest)
  | c :: rest =>
    if isDigit c then
      let (digits, tail) := digitRun isDigit rest
      (c :: digits, tail)
    else ([], c :: rest)

/-- A run of digits that begins with a digit. -/
def digits? (isDigit : Char → Bool) (cs : List Char) : Option (List Char × List Char) :=
  match cs with
  | c :: _ => if isDigit c then some (digitRun isDigit cs) else none
  | [] => none

/-- A whole number in another base, from after its mark. -/
def based? (base : Nat) (isDigit : Char → Bool) (cs : List Char) : Option (Value × List Char) := do
  let (digits, rest) ← digits? isDigit cs
  return (.int (ofDigits base digits), rest)

/-- The part of a number in front of the point; a leading zero stands alone. -/
def wholePart? (cs : List Char) : Option (List Char × List Char) :=
  match cs with
  | '0' :: rest => some (['0'], rest)
  | _ => digits? Char.isDigit cs

/-- A fraction, if there is one. -/
def fractionPart (cs : List Char) : List Char × List Char :=
  match cs with
  | '.' :: rest =>
    match digits? Char.isDigit rest with
    | some (digits, tail) => ('.' :: digits, tail)
    | none => ([], cs)
  | _ => ([], cs)

/-- An exponent, if there is one. -/
def exponentPart (cs : List Char) : List Char × List Char :=
  match cs with
  | mark :: rest =>
    if mark = 'e' ∨ mark = 'E' then
      let (negative, body) := Decimal.takeSign rest
      match digits? Char.isDigit body with
      | some (digits, tail) => ('e' :: (if negative then '-' :: digits else digits), tail)
      | none => ([], cs)
    else ([], cs)
  | [] => ([], cs)

/-- A number in base ten. -/
def decimal? (cs : List Char) : Option (Value × List Char) := do
  let (negative, body) := Decimal.takeSign cs
  let (whole, afterWhole) ← wholePart? body
  let (fraction, afterFraction) := fractionPart afterWhole
  let (exponent, rest) := exponentPart afterFraction
  let numeral := String.ofList ((if negative then ['-'] else []) ++ whole ++ fraction ++ exponent)
  if fraction.isEmpty && exponent.isEmpty then return (.int (← Decimal.readInt? numeral), rest)
  else return (.float (← Decimal.readFloat? numeral), rest)

/-- One of the special numbers. -/
def special? (cs : List Char) : Option (Value × List Char) :=
  let (negative, body) := Decimal.takeSign cs
  let signed (x : Float) : Float := if negative then -x else x
  if "inf".toList.isPrefixOf body then some (.float (signed (1.0 / 0.0)), body.drop 3)
  else if "nan".toList.isPrefixOf body then some (.float (signed (0.0 / 0.0)), body.drop 3)
  else none

/-- A number. -/
def number? (cs : List Char) : Option (Value × List Char) :=
  let based := match cs with
    | '0' :: 'x' :: rest => based? 16 isHexDigit rest
    | '0' :: 'o' :: rest => based? 8 (fun c => '0' ≤ c && c ≤ '7') rest
    | '0' :: 'b' :: rest => based? 2 (fun c => c = '0' || c = '1') rest
    | _ => none
  based.orElse fun _ => (decimal? cs).orElse fun _ => special? cs

/-! ## Keys -/

/-- One part of a dotted key. -/
def keyPart : Reader String := do
  match ← Reader.peek? with
  | some c =>
    if c = '"' ∨ c = '\'' then return String.ofList (← lineText?)
    else
      let part ← Reader.takeWhile isKeyChar
      if part.isEmpty then failure else return String.ofList part
  | none => failure

/-- The further parts of a dotted key. -/
def keyParts : Nat → Reader Path
  | 0 => failure
  | fuel + 1 => do
    Reader.skipWhile isSpace
    if ← Reader.accept "." then
      Reader.skipWhile isSpace
      let part ← keyPart
      let rest ← keyParts fuel
      return part :: rest
    else return []

/-- A dotted key, with the white space after it. -/
def key : Reader Path := do
  let first ← keyPart
  let rest ← keyParts ((← Reader.remaining) + 1)
  return first :: rest

/-! ## Values -/

/-- The rest of the line if it is a comment. -/
def comment : Reader Unit := fun cs =>
  match cs with
  | '#' :: rest =>
    let body := rest.takeWhile (· ≠ '\n')
    if body.any isForbidden then none else some ((), rest.dropWhile (· ≠ '\n'))
  | _ => some ((), cs)

/-- White space, line ends and comments. -/
def spaceAndComments : Nat → Reader Unit
  | 0 => failure
  | fuel + 1 => do
    Reader.skipWhile isSpaceOrNewline
    if (← Reader.peek?) = some '#' then
      comment
      spaceAndComments fuel
    else return ()

/-- The white space inside an array. -/
def arraySpace : Reader Unit := do spaceAndComments ((← Reader.remaining) + 1)

mutual

/-- A value. -/
def value : Nat → Reader Value
  | 0 => failure
  | fuel + 1 => do
    match ← Reader.peek? with
    | some '"' | some '\'' => return .text (String.ofList (← text?))
    | some '[' => do
      Reader.expect '['
      arraySpace
      return .list (← arrayItems fuel)
    | some '\x7b' => do
      Reader.expect '\x7b'
      Reader.skipWhile isSpace
      if ← Reader.accept "\x7d" then return .map []
      else return .map (← tableEntries fuel {}).content
    | _ => do
      if ← Reader.accept "true" then return .bool true
      else if ← Reader.accept "false" then return .bool false
      else number?

/-- The items of an array up to its end, where the next item or the end stands in front. -/
def arrayItems : Nat → Reader (List Value)
  | 0 => failure
  | fuel + 1 => do
    if ← Reader.accept "]" then return []
    else
      let item ← value fuel
      arraySpace
      if ← Reader.accept "]" then return [item]
      else
        Reader.expect ','
        arraySpace
        let rest ← arrayItems fuel
        return item :: rest

/-- The entries of a table in braces up to its end, where an entry stands in front. -/
def tableEntries : Nat → Builder → Reader Builder
  | 0, _ => failure
  | fuel + 1, b => do
    let path ← key
    Reader.expect '='
    Reader.skipWhile isSpace
    let v ← value fuel
    let b ← (b.assign? path v : Option Builder)
    Reader.skipWhile isSpace
    if ← Reader.accept "\x7d" then return b
    else
      Reader.expect ','
      Reader.skipWhile isSpace
      tableEntries fuel b

end

/-! ## Documents -/

/-- A statement, from its first character. -/
def statement (b : Builder) : Reader Builder := do
  if ← Reader.accept "[[" then
    Reader.skipWhile isSpace
    let path ← key
    if ← Reader.accept "]]" then b.append? path else failure
  else if ← Reader.accept "[" then
    Reader.skipWhile isSpace
    let path ← key
    Reader.expect ']'
    b.open? path
  else
    let path ← key
    Reader.expect '='
    Reader.skipWhile isSpace
    let v ← value (2 * (← Reader.remaining) + 2)
    b.assign? path v

/-- A line: a statement or nothing, then perhaps a comment. -/
def line (b : Builder) : Reader Builder := do
  Reader.skipWhile isSpace
  let next ← Reader.peek?
  let b ← if next = none ∨ next = some '\n' ∨ next = some '#' then pure b else statement b
  Reader.skipWhile isSpace
  comment
  return b

/-- All lines. -/
def document : Nat → Builder → Reader Builder
  | 0, _ => failure
  | fuel + 1, b => do
    let b ← line b
    match ← Reader.peek? with
    | none => return b
    | some _ => do
      Reader.expect '\n'
      document fuel b

/-- The text with every carriage return in front of a line feed left out. -/
def unixLines : List Char → List Char
  | '\r' :: '\n' :: rest => '\n' :: unixLines rest
  | c :: rest => c :: unixLines rest
  | [] => []

end RegisterEvolution.Toml

namespace RegisterEvolution

/-- The mapping that a TOML document denotes. -/
def readToml? (s : String) : Option Value :=
  let cs := Toml.unixLines s.toList
  (Toml.document (cs.length + 1) {} cs).map fun (b, _) => .map b.content

end RegisterEvolution
