import ApiSurface.Document.Yaml.Block
import ApiSurface.Document.Yaml.Tag
import ApiSurface.Document.Yaml.Text

/-!
# Tokens of a YAML text

Indentation becomes brackets here: a token opens a block collection where its first entry stands and
another one closes it where a line begins further left. The colon of a field shows only afterwards
that what precedes it was a key, so `Scan` remembers for each level of brackets where a key may have
begun, and the tokens that say so are put there when the colon is found.
-/

namespace ApiSurface.Document.Yaml

/-- A token. -/
inductive Token where
  | directive (d : Directive)
  /-- The mark `---`. -/
  | documentStart
  /-- The mark `...`. -/
  | documentEnd
  /-- Where a list of block style begins. -/
  | blockList
  /-- Where a mapping of block style begins. -/
  | blockMap
  /-- Where a collection of block style ends. -/
  | blockEnd
  /-- An opening bracket. -/
  | flowList
  /-- A closing bracket. -/
  | flowListEnd
  /-- An opening brace. -/
  | flowMap
  /-- A closing brace. -/
  | flowMapEnd
  /-- The dash of a list of block style. -/
  | item
  /-- The comma between entries of flow style. -/
  | comma
  /-- Where the key of a field begins. -/
  | key
  /-- Where the value of a field begins. -/
  | value
  /-- An alias, which stands for the node with the anchor of that name. -/
  | reference (name : List Char)
  | anchor (name : List Char)
  | tag (t : Tag)
  /-- A scalar, and whether it is plain. -/
  | scalar (plain : Bool) (text : List Char)

/-- Where a key may have begun. -/
structure KeyStart where
  place : Position
  /-- The tokens before it. -/
  index : Nat
  /-- Whether nothing but a key may stand there. -/
  required : Bool

/-- Whether it is too late at a place for the key to end: it must on its line and within 1024
bytes. -/
def KeyStart.isStale (k : KeyStart) (p : Position) : Bool :=
  k.place.line < p.line || k.place.offset + 1024 < p.offset

/-- The state between two tokens. -/
structure Scan where
  cursor : Cursor
  tokens : Array Token := #[]
  /-- The columns of the open block collections, innermost first. -/
  blocks : List Nat := []
  /-- Where a key may have begun between the innermost brackets. -/
  key : Option KeyStart := none
  /-- The same for the levels around them, innermost first. -/
  outerKeys : List (Option KeyStart) := []
  /-- Whether a key may begin here. -/
  keyAllowed : Bool := true

namespace Scan

/-- Whether some bracket or brace is open. -/
def inFlow (s : Scan) : Bool :=
  !s.outerKeys.isEmpty

/-- One more than the column of the innermost block collection. -/
def least (s : Scan) : Nat :=
  match s.blocks with
  | [] => 0
  | column :: _ => column + 1

/-! ## Steps that most tokens share -/

/-- Adds a token and goes past its characters. -/
def emit (s : Scan) (t : Token) (length : Nat) : Scan :=
  { s with tokens := s.tokens.push t, cursor := s.cursor.advance length }

/-- Opens a block collection in a column, in front of the token with an index, unless brackets are
open or one stands there already. -/
def openBlock (s : Scan) (column index : Nat) (t : Token) : Scan :=
  if s.inFlow || column < s.least then s
  else { s with
    tokens := s.tokens.insertIdxIfInBounds index t
    blocks := column :: s.blocks }

/-- Closes the block collections in a column and further right. -/
def closeBlocks (s : Scan) (column : Nat) : Scan :=
  if s.inFlow then s
  else { s with
    tokens := s.tokens ++ ((s.blocks.takeWhile (column ≤ ·)).map fun _ => Token.blockEnd).toArray
    blocks := s.blocks.dropWhile (column ≤ ·) }

/-- Gives up the key that may have begun. -/
def dropKey (s : Scan) : Option Scan :=
  if s.key.any (·.required) then none else some { s with key := none }

/-- Remembers that a key may begin here. In the column of a block collection nothing else can. -/
def saveKey (s : Scan) : Option Scan :=
  if s.keyAllowed then
    s.dropKey.map fun s => { s with
      key := some {
        place := s.cursor.toPosition
        index := s.tokens.size
        required := !s.inFlow && s.least == s.cursor.column + 1 } }
  else some s

/-- Gives up the keys that began too far back. -/
def dropStaleKeys (s : Scan) : Option Scan :=
  let stale (k : KeyStart) : Bool := k.isStale s.cursor.toPosition
  let keys := s.key :: s.outerKeys
  if keys.any (·.any fun k => stale k && k.required) then none
  else
    let keep (key : Option KeyStart) := key.filter (!stale ·)
    some { s with key := keep s.key, outerKeys := s.outerKeys.map keep }

/-- Goes to the next token: passes what lies in between and closes the block collections that
stand further right. -/
def settle (s : Scan) : Option Scan := do
  let (cursor, keyAllowed) :=
    skipGaps s.inFlow false s.keyAllowed s.cursor.toPosition s.cursor.rest
  let s ← dropStaleKeys { s with cursor, keyAllowed }
  return s.closeBlocks (cursor.column + 1)

/-! ## Tokens -/

/-- Reads a directive and the end of its line. -/
def directive (s : Scan) : Option Scan := do
  let line := s.cursor.rest.takeWhile (!isBreak ·)
  let d ← readDirective (line.drop 1)
  let s ← (s.closeBlocks 0).dropKey
  return { s.emit (.directive d) (line.length + 1) with keyAllowed := false }

/-- Reads the mark of a document. -/
def mark (s : Scan) (t : Token) : Option Scan := do
  let s ← (s.closeBlocks 0).dropKey
  return { s.emit t 3 with keyAllowed := false }

/-- Reads an opening bracket or brace. -/
def openFlow (s : Scan) (t : Token) : Option Scan := do
  let s ← s.saveKey
  return { s.emit t 1 with key := none, outerKeys := s.key :: s.outerKeys, keyAllowed := true }

/-- Reads a closing bracket or brace. -/
def closeFlow (s : Scan) (t : Token) : Option Scan := do
  let s ← s.dropKey
  let s := s.emit t 1
  match s.outerKeys with
  | [] => return { s with keyAllowed := false }
  | key :: outer => return { s with key, outerKeys := outer, keyAllowed := false }

/-- Reads a comma. -/
def comma (s : Scan) : Option Scan := do
  let s ← s.dropKey
  return { s.emit .comma 1 with keyAllowed := true }

/-- Reads a dash or a question mark that stands alone. Each begins an entry of a block
collection. -/
def entry (s : Scan) (collection t : Token) (keyAllowed : Bool) : Option Scan := do
  if !s.inFlow && !s.keyAllowed then none
  else
    let s ← (s.openBlock s.cursor.column s.tokens.size collection).dropKey
    return { s.emit t 1 with keyAllowed }

/-- Reads the colon of a field. What may have been a key is one; otherwise the key was introduced by
a question mark or is left out. -/
def colon (s : Scan) : Option Scan :=
  match s.key with
  | some k =>
    let s := { s with tokens := s.tokens.insertIdxIfInBounds k.index .key, key := none }
    let s := s.openBlock k.place.column k.index .blockMap
    some { s.emit .value 1 with keyAllowed := false }
  | none =>
    if !s.inFlow && !s.keyAllowed then none
    else
      let s := s.openBlock s.cursor.column s.tokens.size .blockMap
      some { s.emit .value 1 with keyAllowed := !s.inFlow }

/-- Reads the name behind `*` or `&`. -/
def name (s : Scan) (token : List Char → Token) : Option Scan := do
  let s ← s.saveKey
  let name := (s.cursor.rest.drop 1).takeWhile isNameChar
  let behind := s.cursor.rest.drop (name.length + 1)
  if name.isEmpty ||
      !(endsWord behind || behind.head?.any ("?:,]\x7d%@\x60".toList.contains ·)) then none
  else return { s.emit (token name) (name.length + 1) with keyAllowed := false }

/-- Reads a tag. -/
def tag (s : Scan) : Option Scan := do
  let s ← s.saveKey
  let (t, length) ← readTag s.cursor.rest
  let behind := s.cursor.rest.drop length
  if endsWord behind || (s.inFlow && behind.head? == some ',') then
    return { s.emit (.tag t) length with keyAllowed := false }
  else none

/-- Reads a block scalar. -/
def block (s : Scan) (folded : Bool) : Option Scan := do
  let s ← s.dropKey
  let (text, cursor) ← readBlock folded s.least (s.cursor.advance 1)
  return { s with cursor, tokens := s.tokens.push (.scalar false text), keyAllowed := true }

/-- Reads a text in quotes. -/
def quoted (s : Scan) (read : Position → List Char → Option (List Char × Cursor)) :
    Option Scan := do
  let s ← s.saveKey
  let start := s.cursor.advance 1
  let (text, cursor) ← read start.toPosition start.rest
  return { s with cursor, tokens := s.tokens.push (.scalar false text), keyAllowed := false }

/-- Reads a plain scalar. -/
def plain (s : Scan) : Option Scan := do
  let s ← s.saveKey
  let (text, crossedLine, cursor) ←
    readPlain s.inFlow s.least [] .nothing s.cursor.toPosition s.cursor.rest
  return { s with
    cursor, tokens := s.tokens.push (.scalar true text), keyAllowed := crossedLine }

/-- Reads the token at the cursor. -/
def token (s : Scan) : Option Scan :=
  match s.cursor.rest with
  | [] => none
  | c :: rest =>
    let alone := s.inFlow || endsWord rest
    if s.cursor.column == 0 && c == '%' then s.directive
    else if s.cursor.atMark then s.mark (if c == '-' then .documentStart else .documentEnd)
    else if c == '[' then s.openFlow .flowList
    else if c == '\x7b' then s.openFlow .flowMap
    else if c == ']' then s.closeFlow .flowListEnd
    else if c == '\x7d' then s.closeFlow .flowMapEnd
    else if c == ',' then s.comma
    else if c == '-' && endsWord rest then s.entry .blockList .item true
    else if c == '?' && alone then s.entry .blockMap .key (!s.inFlow)
    else if c == ':' && alone then s.colon
    else if c == '*' then s.name .reference
    else if c == '&' then s.name .anchor
    else if c == '!' then s.tag
    else if c == '|' && !s.inFlow then s.block false
    else if c == '>' && !s.inFlow then s.block true
    else if c == '\'' then s.quoted (readSingle [] .nothing)
    else if c == '"' then s.quoted (readDouble 0 [] .nothing)
    else if startsPlain s.inFlow s.cursor.rest then s.plain
    else none

/-- Reads tokens up to the end of the text; each of them takes at least one character. -/
def run : Nat → Scan → Option (Array Token)
  | 0, _ => none
  | fuel + 1, s => do
    let s ← s.settle
    if s.cursor.rest.isEmpty then
      let s ← (s.closeBlocks 0).dropKey
      return s.tokens
    else run fuel (← s.token)

end Scan

/-- The tokens of a text. -/
def Token.ofText? (s : List Char) : Option (List Token) :=
  if s.all isAllowed then
    (Scan.run (s.length + 1) { cursor := ⟨{}, unifyLineEnds s⟩ }).map Array.toList
  else none

end ApiSurface.Document.Yaml
