import RegisterEvolution.Fault

/-!
# `Format.Yaml.Token` — the tokens of YAML text

Indentation and line structure become tokens of their own here, so that nothing later has to know about columns. A
scalar in front of a colon is known to be a key only when the colon is reached: until then it is remembered as a
possible key, and the tokens that open a mapping are put in front of it afterwards.

* `tokens` — all tokens of a text; one that is malformed ends the list.

Anchors, tags, directives and block scalars are not among the tokens.
-/

namespace RegisterEvolution.Yaml

/-- The tokens. -/
inductive Token where
  | streamEnd
  | documentStart
  | documentEnd
  | blockSequenceStart
  | blockMappingStart
  | blockEnd
  | flowSequenceStart
  | flowSequenceEnd
  | flowMappingStart
  | flowMappingEnd
  | flowEntry
  | blockEntry
  | key
  | value
  | scalar (isPlain : Bool) (text : String)
  /-- A reference to a node, which is never defined. -/
  | reference
  /-- Text that makes no token. -/
  | malformed
  deriving Repr, DecidableEq

/-! ## Characters and positions -/

/-- Whether `c` ends a line. -/
def isBreak (c : Char) : Bool := c = '\n' || c = '\u0085' || c = '\u2028' || c = '\u2029'

/-- Whether a word ends in front of `next`. -/
def endsWord (next : Option Char) : Bool := next.all fun c => c = ' ' || c = '\t' || isBreak c

/-- A place in a text. -/
structure Cursor where
  rest : List Char
  line : Nat := 0
  column : Nat := 0
  index : Nat := 0

namespace Cursor

/-- The next character. -/
def peek? (c : Cursor) : Option Char := c.rest.head?

/-- The place after the next character. -/
def step (c : Cursor) : Cursor :=
  match c.rest with
  | [] => c
  | d :: rest =>
    if isBreak d then { rest := rest, line := c.line + 1, column := 0, index := c.index + 1 }
    else { c with rest := rest, column := if d = '\uFEFF' then c.column else c.column + 1, index := c.index + 1 }

/-- The place after several characters. -/
def advance (c : Cursor) : Nat → Cursor
  | 0 => c
  | n + 1 => c.step.advance n

/-- The place after the run of characters of which `p` holds. -/
def skipWhile (c : Cursor) (p : Char → Bool) : Cursor := c.advance (c.rest.takeWhile p).length

/-- A line end as it counts inside text. -/
def breakText (d : Char) : Char := if d = '\u0085' then '\n' else d

/-- Whether a document marker of three times `mark` stands at the cursor. -/
def isMarker (c : Cursor) (mark : Char) : Bool :=
  c.rest.take 3 = [mark, mark, mark] && endsWord (c.rest.drop 3).head?

/-- Whether a document starts or ends at the cursor. -/
def atMarker (c : Cursor) : Bool := c.isMarker '-' || c.isMarker '.'

/-- The next place that can begin a token, and whether it is on another line. -/
def nextToken : Nat → Cursor → Cursor × Bool
  | 0, c => (c, false)
  | fuel + 1, c =>
    let c := c.skipWhile (· = ' ')
    let c := if c.peek? = some '#' then c.skipWhile (fun d => !isBreak d) else c
    if c.peek?.any isBreak then ((nextToken fuel c.step).1, true) else (c, false)

end Cursor

/-! ## Scalars -/

/-- The line ends from the cursor on, white space between them left out; none at a document marker. -/
def lineEnds (isSpace : Char → Bool) : Nat → Cursor → Option (List Char × Cursor)
  | 0, c => some ([], c)
  | fuel + 1, c =>
    if c.atMarker && c.column = 0 then none
    else
      let c := c.skipWhile isSpace
      match c.peek? with
      | some d =>
        if isBreak d then do
          let (breaks, c) ← lineEnds isSpace fuel c.step
          return (Cursor.breakText d :: breaks, c)
        else return ([], c)
      | none => return ([], c)

/-- What a line end followed by `further` ones is in a scalar: one alone is a blank, and the first of several
    vanishes. -/
def folded (first : Char) (further : List Char) : List Char :=
  if Cursor.breakText first ≠ '\n' then first :: further else if further.isEmpty then [' '] else further

/-- The characters of a plain scalar up to white space or an indicator. -/
def plainWord (inFlow : Bool) : List Char → List Char
  | [] => []
  | c :: rest =>
    let endsKey := c = ':' && (endsWord rest.head? || (inFlow && rest.head?.any fun d => ",[]\x7b\x7d".contains d))
    if endsWord (some c) || endsKey || (inFlow && ",?[]\x7b\x7d".contains c) then [] else c :: plainWord inFlow rest

/-- The text of a plain scalar, the place after it, and whether that is on another line. -/
def plainScalar (inFlow : Bool) (indent : Int) : Nat → Cursor → List Char × Cursor × Bool
  | 0, c => ([], c, false)
  | fuel + 1, c =>
    let word := plainWord inFlow c.rest
    let c := c.advance word.length
    let spaces := c.rest.takeWhile (· = ' ')
    let after := c.advance spaces.length
    let onward (gap : List Char) (place : Cursor) (crossed : Bool) : List Char × Cursor × Bool :=
      if word.isEmpty || gap.isEmpty || place.peek? = some '#' || (!inFlow && place.column < indent) then
        (word, place, crossed)
      else
        let (more, last, crossedLater) := plainScalar inFlow indent fuel place
        if more.isEmpty then (word, last, crossed || crossedLater) else (word ++ gap ++ more, last, crossedLater)
    match after.peek? with
    | some d =>
      if isBreak d then
        match lineEnds (· = ' ') (after.rest.length + 1) after.step with
        | some (breaks, place) => onward (folded d breaks) place true
        | none => (word, after.step, true)
      else onward spaces after false
    | none => onward spaces after false

/-- The character that an escape of one letter stands for. -/
def escaped? : Char → Option Char
  | '0' => some '\x00'
  | 'a' => some '\x07'
  | 'b' => some '\x08'
  | 't' => some '\t'
  | '\t' => some '\t'
  | 'n' => some '\n'
  | 'v' => some '\x0b'
  | 'f' => some '\x0c'
  | 'r' => some '\r'
  | 'e' => some '\x1b'
  | ' ' => some ' '
  | '"' => some '"'
  | '\\' => some '\\'
  | '/' => some '/'
  | 'N' => some '\u0085'
  | '_' => some '\u00a0'
  | 'L' => some '\u2028'
  | 'P' => some '\u2029'
  | _ => none

/-- How many hexadecimal digits follow an escape. -/
def escapeWidth? : Char → Option Nat
  | 'x' => some 2
  | 'u' => some 4
  | 'U' => some 8
  | _ => none

/-- The value of a hexadecimal digit. -/
def hexValue? (c : Char) : Option Nat :=
  if c.isDigit then some (c.toNat - '0'.toNat)
  else if 'a' ≤ c && c ≤ 'f' then some (c.toNat - 'a'.toNat + 10)
  else if 'A' ≤ c && c ≤ 'F' then some (c.toNat - 'A'.toNat + 10)
  else none

/-- The character that hexadecimal digits stand for. -/
def ofHex? (width : Nat) (cs : List Char) : Option Char := do
  let digits ← (cs.take width).mapM hexValue?
  if digits.length = width then return Char.ofNat (digits.foldl (fun n d => 16 * n + d) 0) else none

/-- The text of a quoted scalar from after its opening quotation mark, and the place after the closing one. -/
def quotedScalar (quote : Char) : Nat → Cursor → Option (List Char × Cursor)
  | 0, _ => none
  | fuel + 1, c =>
    let onward (cs : List Char) (place : Cursor) := do
      let (body, last) ← quotedScalar quote fuel place
      return (cs ++ body, last)
    match c.rest with
    | [] => none
    | d :: rest =>
      if d = quote then
        if quote = '\'' && rest.head? = some '\'' then onward ['\''] (c.advance 2) else some ([], c.step)
      else if d = '\\' && quote = '"' then
        match rest with
        | [] => none
        | e :: tail =>
          match escaped? e, escapeWidth? e with
          | some x, _ => onward [x] (c.advance 2)
          | none, some width => do
            let x ← ofHex? width tail
            onward [x] (c.advance (2 + width))
          | none, none =>
            if isBreak e then do
              let (breaks, place) ← lineEnds (fun d => d = ' ' || d = '\t') (c.rest.length + 1) (c.advance 2)
              onward breaks place
            else none
      else if d = ' ' || d = '\t' || isBreak d then
        let spaces := c.rest.takeWhile fun d => d = ' ' || d = '\t'
        let after := c.advance spaces.length
        match after.peek? with
        | none => none
        | some e =>
          if isBreak e then do
            let (breaks, place) ← lineEnds (fun d => d = ' ' || d = '\t') (c.rest.length + 1) after.step
            onward (folded e breaks) place
          else onward spaces after
      else onward [d] c.step

/-! ## The scanner -/

/-- A token that may turn out to be a key. -/
structure PossibleKey where
  /-- The position of the token. -/
  position : Nat
  /-- Whether the text is malformed unless it is a key. -/
  isRequired : Bool
  line : Nat
  column : Nat
  index : Nat

/-- A scan under way. -/
structure Scan where
  cursor : Cursor
  tokens : Array Token := #[]
  /-- How many brackets are open. -/
  flowLevel : Int := 0
  /-- The column of the innermost block. -/
  indent : Int := -1
  /-- The columns of the blocks around it. -/
  outer : List Int := []
  /-- Whether a key may stand at the cursor. -/
  allowsKey : Bool := true
  /-- The possible key of each level of brackets. -/
  keys : List (Int × PossibleKey) := []
  isDone : Bool := false

/-- Possible keys further back than this are given up. -/
def keyReach : Nat := 1024

namespace Scan

/-- Whether the cursor is inside brackets. -/
def inFlow (s : Scan) : Bool := s.flowLevel ≠ 0

/-- The scan with a token at the end. -/
def push (s : Scan) (t : Token) : Scan := { s with tokens := s.tokens.push t }

/-- The scan behind several characters. -/
def advance (s : Scan) (n : Nat) : Scan := { s with cursor := s.cursor.advance n }

/-- Closes the blocks that are indented further than `column`. -/
def closeBlocks (column : Int) : List Int → Scan → Scan
  | [], s => s
  | o :: outer, s =>
    if column < s.indent then closeBlocks column outer ({ s with indent := o, outer := outer }.push .blockEnd) else s

/-- Closes the blocks that end in front of `column`; inside brackets indentation says nothing. -/
def unwind (column : Int) (s : Scan) : Scan := if s.inFlow then s else closeBlocks column s.outer s

/-- Opens a block at `column`, if that is further in than the innermost one; says whether it does. -/
def openBlock (column : Int) (s : Scan) : Bool × Scan :=
  if s.indent < column then (true, { s with indent := column, outer := s.indent :: s.outer }) else (false, s)

/-- Whether the cursor has left a possible key behind. -/
def isStale (s : Scan) (k : PossibleKey) : Bool :=
  k.line ≠ s.cursor.line || keyReach < s.cursor.index - k.index

/-- Gives up the possible keys that the cursor has left behind. -/
def dropStaleKeys (s : Scan) : Option Scan :=
  if s.keys.any fun (_, k) => s.isStale k && k.isRequired then none
  else some { s with keys := s.keys.filter fun (_, k) => !s.isStale k }

/-- Gives up the possible key of this level of brackets. -/
def dropKey (s : Scan) : Option Scan :=
  if s.keys.any fun (level, k) => level == s.flowLevel && k.isRequired then none
  else some { s with keys := s.keys.filter fun (level, _) => level != s.flowLevel }

/-- Remembers the next token as a possible key, if one may stand here. -/
def saveKey (s : Scan) : Option Scan :=
  if s.allowsKey then do
    let required := !s.inFlow && s.indent == s.cursor.column
    let s' ← s.dropKey
    let k : PossibleKey := ⟨s.tokens.size, required, s.cursor.line, s.cursor.column, s.cursor.index⟩
    return { s' with keys := (s.flowLevel, k) :: s'.keys }
  else some s

/-- The end of the text. -/
def finish (s : Scan) : Option Scan := do
  let s ← (s.unwind (-1)).dropKey
  return { s.push .streamEnd with isDone := true }

/-- A document marker. -/
def marker (t : Token) (s : Scan) : Option Scan := do
  let s ← (s.unwind (-1)).dropKey
  return { (s.advance 3).push t with allowsKey := false }

/-- An opening bracket. -/
def openBracket (t : Token) (s : Scan) : Option Scan := do
  let s ← s.saveKey
  return { (s.advance 1).push t with flowLevel := s.flowLevel + 1, allowsKey := true }

/-- A closing bracket. -/
def closeBracket (t : Token) (s : Scan) : Option Scan := do
  let s ← s.dropKey
  return { (s.advance 1).push t with flowLevel := s.flowLevel - 1, allowsKey := false }

/-- A comma inside brackets. -/
def comma (s : Scan) : Option Scan := do
  let s ← s.dropKey
  return { (s.advance 1).push .flowEntry with allowsKey := true }

/-- Opens a block with the token `t` at the cursor, outside of brackets where a key may stand. -/
def blockAt (t : Token) (s : Scan) : Option Scan :=
  if s.inFlow then some s
  else if !s.allowsKey then none
  else
    let (opened, s) := s.openBlock s.cursor.column
    some (if opened then s.push t else s)

/-- The dash of a block sequence. -/
def dash (s : Scan) : Option Scan := do
  let s ← (← s.blockAt .blockSequenceStart).dropKey
  return { (s.advance 1).push .blockEntry with allowsKey := true }

/-- The mark of an explicit key. -/
def explicitKey (s : Scan) : Option Scan := do
  let s ← (← s.blockAt .blockMappingStart).dropKey
  return { (s.advance 1).push .key with allowsKey := !s.inFlow }

/-- Puts tokens in front of the one at `position`. -/
def insertAt (position : Nat) (inserted : List Token) (s : Scan) : Scan :=
  { s with tokens := (s.tokens.toList.take position ++ inserted ++ s.tokens.toList.drop position).toArray }

/-- The colon after a key. -/
def colon (s : Scan) : Option Scan :=
  match s.keys.find? fun (level, _) => level == s.flowLevel with
  | some (_, k) =>
    let s := { s with keys := s.keys.filter fun (level, _) => level != s.flowLevel, allowsKey := false }
    let (opened, s) := if s.inFlow then (false, s) else s.openBlock k.column
    let s := s.insertAt k.position (if opened then [.blockMappingStart, .key] else [.key])
    some ((s.advance 1).push .value)
  | none => do
    let s ← (← s.blockAt .blockMappingStart).dropKey
    return { (s.advance 1).push .value with allowsKey := !s.inFlow }

/-- A scalar in quotation marks. -/
def quoted (quote : Char) (s : Scan) : Option Scan := do
  let s ← s.saveKey
  let (text, c) ← quotedScalar quote (s.cursor.rest.length + 1) s.cursor.step
  return { s.push (.scalar false (String.ofList text)) with cursor := c, allowsKey := false }

/-- A scalar without quotation marks. -/
def plain (s : Scan) : Option Scan := do
  let s ← s.saveKey
  let (text, c, crossed) := plainScalar s.inFlow (s.indent + 1) (s.cursor.rest.length + 1) s.cursor
  return { s.push (.scalar true (String.ofList text)) with cursor := c, allowsKey := crossed }

/-- A reference to a node. -/
def reference (s : Scan) : Option Scan := do
  let s ← s.saveKey
  return { (s.advance 1).push .reference with allowsKey := false }

/-- Whether a plain scalar can begin with `c` in front of `next`. -/
def beginsPlain (inFlow : Bool) (c : Char) (next : Option Char) : Bool :=
  !(endsWord (some c) || "-?:,[]\x7b\x7d#&*!|>'\"%@\x60".contains c) ||
    (!endsWord next && (c = '-' || (!inFlow && (c = '?' || c = ':'))))

/-- The token at the cursor. -/
def token (s : Scan) : Option Scan :=
  let next := (s.cursor.rest.drop 1).head?
  match s.cursor.peek? with
  | none => s.finish
  | some c =>
    if s.cursor.column = 0 && s.cursor.isMarker '-' then s.marker .documentStart
    else if s.cursor.column = 0 && s.cursor.isMarker '.' then s.marker .documentEnd
    else if c = '[' then s.openBracket .flowSequenceStart
    else if c = '\x7b' then s.openBracket .flowMappingStart
    else if c = ']' then s.closeBracket .flowSequenceEnd
    else if c = '\x7d' then s.closeBracket .flowMappingEnd
    else if c = ',' then s.comma
    else if c = '-' && endsWord next then s.dash
    else if c = '?' && (s.inFlow || endsWord next) then s.explicitKey
    else if c = ':' && (s.inFlow || endsWord next) then s.colon
    else if c = '*' then s.reference
    else if c = '\'' || c = '"' then s.quoted c
    else if beginsPlain s.inFlow c next then s.plain
    else none

/-- Goes on to the next token and takes it. -/
def advanceToken (s : Scan) : Option Scan := do
  let (c, crossed) := Cursor.nextToken (s.cursor.rest.length + 1) s.cursor
  let s ← ({ s with cursor := c, allowsKey := s.allowsKey || (crossed && !s.inFlow) } : Scan).dropStaleKeys
  (s.unwind c.column).token

/--
The tokens of a scan that cannot go on. What a token is has to be known before it is used, so those from the first
possible key on that is still undecided are lost.
-/
def broken (s : Scan) : Array Token :=
  let undecided := s.keys.filterMap fun (_, k) => if k.isRequired || !s.isStale k then some k.position else none
  (s.tokens.take (undecided.foldl min s.tokens.size)).push .malformed

/-- Takes tokens to the end of the text. -/
def run : Nat → Scan → Array Token
  | 0, s => s.tokens
  | fuel + 1, s =>
    if s.isDone then s.tokens
    else
      match s.advanceToken with
      | some s' => run fuel s'
      | none => s.broken

end Scan

/-- The tokens of a text. -/
def tokens (cs : List Char) : List Token := (Scan.run (cs.length + 2) { cursor := { rest := cs } }).toList

end RegisterEvolution.Yaml
