import RegisterEvolution.Entries
import RegisterEvolution.Format.Yaml.Scalar
import RegisterEvolution.Format.Yaml.Token

/-!
# `Format.Yaml.Node` — the values that YAML documents denote

* `readYaml` — the value of a text that holds one document, or what is wrong with it.
-/

namespace RegisterEvolution.Yaml

/-- A reader that takes tokens off the front of a list. -/
abbrev TokenReader (α : Type) := StateT (List Token) (Except FaultKind) α

namespace TokenReader

/-- The next token, which is left in place. -/
def peek : TokenReader Token := fun ts => .ok (ts.headD .streamEnd, ts)

/-- Takes the next token. -/
def take : TokenReader Unit := fun ts => .ok ((), ts.drop 1)

/-- Fails at a token that does not belong where it stands. -/
def unexpected {α : Type} (t : Token) : TokenReader α :=
  throw (if t = .malformed then .yamlToken else .yamlStructure)

/-- The node that `read` reads, or null if one of `ends` stands in its place. -/
def orNull (ends : List Token) (read : TokenReader Value) : TokenReader Value := do
  if ends.contains (← peek) then return .null else read

/-- The node after the mark of a value, or null if there is no mark. -/
def valueOrNull (ends : List Token) (read : TokenReader Value) : TokenReader Value := do
  if (← peek) = .value then
    take
    orNull ends read
  else return .null

end TokenReader

open TokenReader

/-- Tokens in front of which a key or value of a block mapping is empty. -/
def entryEnds : List Token := [.key, .value, .blockEnd]

mutual

/-- A node, inside brackets or not. A sequence that is the value of a mapping need not be indented. -/
def node (inBlock mayHang : Bool) : Nat → TokenReader Value
  | 0 => throw .yamlStructure
  | fuel + 1 => do
    match ← peek with
    | .scalar isPlain text => do
      take
      return if isPlain then resolve text else .text text
    | .flowSequenceStart => do
      take
      return .list (← flowItems true fuel)
    | .flowMappingStart => do
      take
      return .map (← flowEntries true fuel)
    | .blockSequenceStart =>
      if inBlock then do
        take
        return .list (← blockItems fuel)
      else unexpected .blockSequenceStart
    | .blockMappingStart =>
      if inBlock then do
        take
        return .map (← blockEntries fuel)
      else unexpected .blockMappingStart
    | .blockEntry => if mayHang then return .list (← hangingItems fuel) else unexpected .blockEntry
    | .reference => throw .yamlReference
    | t => unexpected t

/-- The items of a block sequence. -/
def blockItems : Nat → TokenReader (List Value)
  | 0 => throw .yamlStructure
  | fuel + 1 => do
    match ← peek with
    | .blockEntry => do
      take
      let item ← orNull [.blockEntry, .blockEnd] (node true false fuel)
      let rest ← blockItems fuel
      return item :: rest
    | .blockEnd => do
      take
      return []
    | t => unexpected t

/-- The items of a sequence that is not indented. -/
def hangingItems : Nat → TokenReader (List Value)
  | 0 => throw .yamlStructure
  | fuel + 1 => do
    match ← peek with
    | .blockEntry => do
      take
      let item ← orNull (.blockEntry :: entryEnds) (node true false fuel)
      let rest ← hangingItems fuel
      return item :: rest
    | _ => return []

/-- The entries of a block mapping. -/
def blockEntries : Nat → TokenReader (List (Value × Value))
  | 0 => throw .yamlStructure
  | fuel + 1 => do
    match ← peek with
    | .key => do
      take
      let k ← orNull entryEnds (node true true fuel)
      let v ← valueOrNull entryEnds (node true true fuel)
      let rest ← blockEntries fuel
      return (k, v) :: rest
    | .blockEnd => do
      take
      return []
    | t => unexpected t

/-- The items of a sequence in brackets. An item may be a mapping of one entry. -/
def flowItems (isFirst : Bool) : Nat → TokenReader (List Value)
  | 0 => throw .yamlStructure
  | fuel + 1 => do
    match ← peek with
    | .flowSequenceEnd => do
      take
      return []
    | t => do
      if !isFirst then
        if t = .flowEntry then take else unexpected t
      match ← peek with
      | .flowSequenceEnd => do
        take
        return []
      | .key => do
        take
        let k ← orNull [.value, .flowEntry, .flowSequenceEnd] (node false false fuel)
        let v ← valueOrNull [.flowEntry, .flowSequenceEnd] (node false false fuel)
        let rest ← flowItems false fuel
        return .map [(k, v)] :: rest
      | _ => do
        let item ← node false false fuel
        let rest ← flowItems false fuel
        return item :: rest

/-- The entries of a mapping in braces. A key may stand without a value. -/
def flowEntries (isFirst : Bool) : Nat → TokenReader (List (Value × Value))
  | 0 => throw .yamlStructure
  | fuel + 1 => do
    match ← peek with
    | .flowMappingEnd => do
      take
      return []
    | t => do
      if !isFirst then
        if t = .flowEntry then take else unexpected t
      match ← peek with
      | .flowMappingEnd => do
        take
        return []
      | .key => do
        take
        let k ← orNull [.value, .flowEntry, .flowMappingEnd] (node false false fuel)
        let v ← valueOrNull [.flowEntry, .flowMappingEnd] (node false false fuel)
        let rest ← flowEntries false fuel
        return (k, v) :: rest
      | _ => do
        let k ← node false false fuel
        let rest ← flowEntries false fuel
        return (k, .null) :: rest

end

/-- Drops the tokens that end a document. -/
def documentEnds : Nat → TokenReader Unit
  | 0 => return ()
  | fuel + 1 => do
    if (← peek) = .documentEnd then
      take
      documentEnds fuel

/-- The only document of a text; an empty text holds null. -/
def document (fuel : Nat) : TokenReader Value := do
  let content ← match ← peek with
    | .streamEnd => pure .null
    | .documentStart => do
      take
      orNull [.documentStart, .documentEnd, .streamEnd] (node true false fuel)
    | _ => node true false fuel
  documentEnds fuel
  match ← peek with
  | .streamEnd => return content
  | .documentStart => throw .yamlReference
  | t => unexpected t

/-- Whether a value can be a key. -/
def isKey : Value → Bool
  | .list _ | .map _ => false
  | _ => true

mutual

/-- The value with the entries of mappings under different keys; of several entries under one key the last counts. -/
def withKeys : Value → Except FaultKind Value
  | .list items => do return .list (← withKeysItems items)
  | .map entries => do return .map (← withKeysEntries entries)
  | v => .ok v

/-- `withKeys` for the items of a list. -/
def withKeysItems : List Value → Except FaultKind (List Value)
  | [] => .ok []
  | item :: rest => do
    let item ← withKeys item
    let rest ← withKeysItems rest
    return item :: rest

/-- `withKeys` for the entries of a mapping. -/
def withKeysEntries : List (Value × Value) → Except FaultKind (Entries Value Value)
  | [] => .ok []
  | (k, v) :: rest => do
    if !isKey k then throw .yamlKey
    let v ← withKeys v
    let rest ← withKeysEntries rest
    return (k, (rest.get? k).getD v) :: rest.filter fun entry => !(entry.1 == k)

end

/-- A document that is itself switched off stands for an empty mapping. -/
def orEmpty (v : Value) : Value := if v.isTruthy then v else .map []

/-- The text with every carriage return as a line feed, together with the line feed after it. -/
def unixLines : List Char → List Char
  | '\r' :: '\n' :: rest => '\n' :: unixLines rest
  | '\r' :: rest => '\n' :: unixLines rest
  | c :: rest => c :: unixLines rest
  | [] => []

end RegisterEvolution.Yaml

namespace RegisterEvolution

/-- A text without the byte order mark that may stand in front of it. -/
def Yaml.withoutMark : List Char → List Char
  | '\uFEFF' :: rest => rest
  | cs => cs

/-- The value of a YAML document, or the kind of what is wrong with it. -/
def readYaml (s : String) : Except FaultKind Value := do
  let tokens := Yaml.tokens (Yaml.unixLines (Yaml.withoutMark s.toList))
  let (content, _) ← Yaml.document (2 * tokens.length + 2) tokens
  return Yaml.orEmpty (← Yaml.withKeys content)

end RegisterEvolution
