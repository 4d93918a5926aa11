import CallContract.Yaml.Token

/-!
# YAML nodes

What a YAML text says: a scalar, a sequence or a mapping. Where a key, a value or an entry is left
out an empty plain scalar stands for it. A text without any document says nothing.
-/
namespace CallContract.Yaml

inductive Node where
  | scalar (isPlain : Bool) (text : String)
  | sequence (items : List Node)
  /-- Keys and values in order; keys may repeat. -/
  | mapping (entries : List (Node × Node))
deriving Repr

namespace Node

open Reader

/-- Reads tokens. -/
abbrev TokenReader (α : Type) : Type := Reader (List Token) α

/-- What stands for a node left out. -/
def empty : Node := .scalar true ""

/-- A node, or the empty one before a token that ends the place of the node. -/
def orEmpty (node : TokenReader Node) (ends : List Token) : TokenReader Node := do
  match ← peek? with
  | some token => if ends.contains token then return empty else node
  | none => return empty

/-- The entries of a block sequence. -/
def entries (node : TokenReader Node) (ends : List Token) : TokenReader (List Node) :=
  many do
    if (← accept [.blockEntry]) then return some (← orEmpty node ends)
    return none

/-- The rest of a flow collection behind its opening mark: entries with commas between them, and
one more comma if there are any. -/
def flowEntries {α : Type} (entry : TokenReader α) (last : Token) : TokenReader (List α) := do
  if (← accept [last]) then return []
  let first ← entry
  let more ← many do
    if (← accept [last]) then return none
    expect .flowEntry
    if (← peek?) == some last then return some none
    return some (some (← entry))
  return first :: more.filterMap id

/-- The value of a key in a flow collection, which is empty if its colon is missing. -/
def flowValue (node : TokenReader Node) (last : Token) : TokenReader Node := do
  if (← accept [.value]) then orEmpty node [.flowEntry, last] else return empty

/-- A key of a flow mapping that is marked, by its colon or a question mark, and its value. -/
def flowPair (node : TokenReader Node) : TokenReader (Node × Node) := do
  expect .key
  let key ← orEmpty node [.value, .flowEntry, .flowMappingEnd]
  return (key, ← flowValue node .flowMappingEnd)

/-- A marked key and its value in a flow sequence, where they are a mapping of their own. If the key
is left out, the one token that ends its place goes with it. -/
def sequencePair (node : TokenReader Node) : TokenReader (Node × Node) := do
  expect .key
  let isLeftOut := (← peek?).any [Token.value, .flowEntry, .flowSequenceEnd].contains
  let key ← if isLeftOut then next *> pure empty else node
  return (key, ← flowValue node .flowSequenceEnd)

/-- A node with at most so many levels. Blocks may begin in block context only, a sequence without
indentation of its own as key or value of a block mapping only. -/
def read : Nat → (inBlock bareSequence : Bool) → TokenReader Node
  | 0, _, _ => failure
  | depth + 1, inBlock, bareSequence => do
    let flowNode := read depth false false
    if bareSequence && (← peek?) == some .blockEntry then
      return .sequence (← entries (read depth true false) [.blockEntry, .key, .value, .blockEnd])
    match ← next with
    | .scalar isPlain text => return .scalar isPlain text
    | .flowSequenceStart =>
      return .sequence (← flowEntries (do
        if (← peek?) == some .key then
          return .mapping [← sequencePair flowNode]
        flowNode) .flowSequenceEnd)
    | .flowMappingStart =>
      return .mapping (← flowEntries (do
        if (← peek?) == some .key then flowPair flowNode
        else return (← flowNode, empty)) .flowMappingEnd)
    | .sequenceStart =>
      unless inBlock do failure
      let items ← entries (read depth true false) [.blockEntry, .blockEnd]
      expect .blockEnd
      return .sequence items
    | .mappingStart =>
      unless inBlock do failure
      let part := orEmpty (read depth true true) [.key, .value, .blockEnd]
      let pairs ← many do
        if (← accept [.key]) then
          let key ← part
          if (← accept [.value]) then return some (key, ← part)
          return some (key, empty)
        return none
      expect .blockEnd
      return .mapping pairs
    | _ => failure

/-- The one document of a text, or nothing if there is none. -/
def document : TokenReader (Option Node) := do
  if (← get).isEmpty then return none
  let node := read ((← get).length + 1) true false
  let said ← if (← accept [.documentStart]) then orEmpty node [.documentStart, .documentEnd]
    else node
  let _ ← takeWhile (· == .documentEnd)
  if (← get).isEmpty then return some said else failure

/-- What the tokens say; a text of more than one document is refused. -/
def ofTokens? (tokens : List Token) : Option (Option Node) := (document.run tokens).map (·.1)

end Node
end CallContract.Yaml
