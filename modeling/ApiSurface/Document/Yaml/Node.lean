import ApiSurface.Document.Yaml.Token

/-!
# Nodes of a YAML text

The tokens of a text make up at most one document, which is a tree of nodes. An alias stands for the
node with its anchor. Anchors are kept in slots: each takes the slot that is numbered by how many
names have been in use before it, and a later anchor in a slot replaces the earlier one even for the
aliases that precede it.
-/

namespace ApiSurface.Document.Yaml

/-- A node. Tags are written in full. -/
inductive Node where
  | scalar (tag : Option (List Char)) (plain : Bool) (text : List Char)
  | list (tag : Option (List Char)) (items : List Node)
  | map (tag : Option (List Char)) (fields : List (Node × Node))
  /-- A node with an anchor, in its slot. -/
  | anchored (slot : Nat) (node : Node)
  /-- An alias of the anchor in a slot. -/
  | reference (slot : Nat)

namespace Node

/-- A node that is left out. -/
def empty : Node :=
  scalar none true []

/-! ## Walks over a document -/

mutual

/-- The number of marks in a document: one for a scalar or an alias, and two around a
collection. -/
def size : Node → Nat
  | scalar _ _ _ => 1
  | list _ items => 2 + itemsSize items
  | map _ fields => 2 + fieldsSize fields
  | anchored _ node => node.size
  | reference _ => 1

/-- The same for the items of a list. -/
def itemsSize : List Node → Nat
  | [] => 0
  | item :: items => item.size + itemsSize items

/-- The same for the fields of a mapping. -/
def fieldsSize : List (Node × Node) → Nat
  | [] => 0
  | (key, value) :: fields => key.size + value.size + fieldsSize fields

end

mutual

/-- The nodes with anchors and their slots, in the order in which they begin. -/
def anchors : Node → List (Nat × Node)
  | scalar _ _ _ => []
  | list _ items => itemsAnchors items
  | map _ fields => fieldsAnchors fields
  | anchored slot node => (slot, node) :: node.anchors
  | reference _ => []

/-- The same for the items of a list. -/
def itemsAnchors : List Node → List (Nat × Node)
  | [] => []
  | item :: items => item.anchors ++ itemsAnchors items

/-- The same for the fields of a mapping. -/
def fieldsAnchors : List (Node × Node) → List (Nat × Node)
  | [] => []
  | (key, value) :: fields => key.anchors ++ value.anchors ++ fieldsAnchors fields

end

/-! ## Reading -/

/-- What is left to read of a document. -/
structure Source where
  tokens : List Token
  /-- The names of anchors so far, with their slots. -/
  names : List (List Char × Nat) := []
  /-- What the handles of tags stand for. -/
  handles : List (List Char × List Char)

/-- A step of reading that may find the tokens wrong. -/
abbrev Reader := StateT Source Option

/-- The next token. -/
def peek : Reader (Option Token) := do
  return (← get).tokens.head?

/-- Goes past the next token. -/
def drop : Reader Unit :=
  modify fun s => { s with tokens := s.tokens.drop 1 }

/-- The slot of the anchor with a name. -/
def slotOf (name : List Char) : Reader Nat := do
  match (← get).names.lookup name with
  | some slot => return slot
  | none => failure

/-- Takes a slot for an anchor. -/
def takeSlot (name : List Char) : Reader Nat := do
  let names := (← get).names
  let slot := names.length
  modify fun s => { s with names := (name, slot) :: names.filter (·.1 != name) }
  return slot

/-- A tag in full. -/
def fullTag (t : Tag) : Reader (List Char) := do
  if t.handle.isEmpty then return t.suffix
  else match (← get).handles.lookup t.handle with
    | some expansion => return expansion ++ t.suffix
    | none => failure

/-- Reads the anchor and the tag in front of a node, in either order. -/
def readProperties : Reader (Option (List Char) × Option (List Char)) := do
  match ← peek with
  | some (.anchor name) => do
    drop
    match ← peek with
    | some (.tag t) => do
      drop
      return (some name, some (← fullTag t))
    | _ => return (some name, none)
  | some (.tag t) => do
    drop
    match ← peek with
    | some (.anchor name) => do
      drop
      return (some name, some (← fullTag t))
    | _ => return (none, some (← fullTag t))
  | _ => return (none, none)

/-- Whether the next token is one that can only follow a node of block style which is left out. -/
def endsBlockEntry : Option Token → Bool
  | some .key => true
  | some .value => true
  | some .blockEnd => true
  | _ => false

/-- A node with what stands in front of it. -/
def withAnchor (slot : Option Nat) (node : Node) : Node :=
  match slot with
  | some slot => anchored slot node
  | none => node

mutual

/-- Reads a node. Collections of block style are read if `block` says so, and lists in the column of
their key if `inColumn` does. -/
def read : Nat → Bool → Bool → Reader Node
  | 0, _, _ => failure
  | fuel + 1, block, inColumn => do
    match ← peek with
    | some (.reference name) => do
      drop
      return reference (← slotOf name)
    | _ =>
      let (anchor, tag) ← readProperties
      let slot ← anchor.mapM takeSlot
      let next ← peek
      let node ← match next, block, inColumn with
        | some .item, _, true => return withAnchor slot (list tag (← readColumnItems fuel))
        | some (.scalar plain text), _, _ => do
          drop
          let tag := tag.filter (· != ['!'])
          pure (scalar tag plain text)
        | some .flowList, _, _ => do
          drop
          pure (list tag (← readFlowItems fuel true))
        | some .flowMap, _, _ => do
          drop
          pure (map tag (← readFlowFields fuel true))
        | some .blockList, true, _ => do
          drop
          pure (list tag (← readItems fuel))
        | some .blockMap, true, _ => do
          drop
          pure (map tag (← readFields fuel))
        | _, _, _ =>
          if anchor.isSome || tag.isSome then pure (scalar tag true []) else failure
      return withAnchor slot node

/-- Reads the items of a list of block style and its end. -/
def readItems : Nat → Reader (List Node)
  | 0 => failure
  | fuel + 1 => do
    match ← peek with
    | some .item => do
      drop
      let item ← match ← peek with
        | some .item => pure empty
        | some .blockEnd => pure empty
        | _ => read fuel true false
      return item :: (← readItems fuel)
    | some .blockEnd => do
      drop
      return []
    | _ => failure

/-- Reads the items of a list in the column of its key, which nothing closes. -/
def readColumnItems : Nat → Reader (List Node)
  | 0 => failure
  | fuel + 1 => do
    match ← peek with
    | some .item => do
      drop
      let next ← peek
      let item ←
        if endsBlockEntry next || next matches some .item then pure empty else read fuel true false
      return item :: (← readColumnItems fuel)
    | _ => return []

/-- Reads the fields of a mapping of block style and its end. -/
def readFields : Nat → Reader (List (Node × Node))
  | 0 => failure
  | fuel + 1 => do
    match ← peek with
    | some .key => do
      drop
      let key ← if endsBlockEntry (← peek) then pure empty else read fuel true true
      let value ← match ← peek with
        | some .value => do
          drop
          if endsBlockEntry (← peek) then pure empty else read fuel true true
        | _ => pure empty
      return (key, value) :: (← readFields fuel)
    | some .blockEnd => do
      drop
      return []
    | _ => failure

/-- Reads the items of a list in brackets and the closing bracket. An item that begins with a key is
a mapping with that field alone. -/
def readFlowItems : Nat → Bool → Reader (List Node)
  | 0, _ => failure
  | fuel + 1, first => do
    match first, ← peek with
    | _, some .flowListEnd => do
      drop
      return []
    | false, some .comma => drop
    | false, _ => failure
    | true, _ => pure ()
    match ← peek with
    | some .flowListEnd => do
      drop
      return []
    | some .key => do
      drop
      let field ← readFlowPair fuel
      return map none [field] :: (← readFlowItems fuel false)
    | _ => do
      let item ← read fuel false false
      return item :: (← readFlowItems fuel false)

/-- Reads the field that an item in brackets consists of. A key that is left out takes the colon
with it. -/
def readFlowPair : Nat → Reader (Node × Node)
  | 0 => failure
  | fuel + 1 => do
    let key ← match ← peek with
      | some .value => do
        drop
        pure empty
      | some .comma => do
        drop
        pure empty
      | some .flowListEnd => do
        drop
        pure empty
      | _ => read fuel false false
    let value ← match ← peek with
      | some .value => do
        drop
        match ← peek with
        | some .comma => pure empty
        | some .flowListEnd => pure empty
        | _ => read fuel false false
      | _ => pure empty
    return (key, value)

/-- Reads the fields of a mapping in braces and the closing brace. A node alone is a key without a
value. -/
def readFlowFields : Nat → Bool → Reader (List (Node × Node))
  | 0, _ => failure
  | fuel + 1, first => do
    match first, ← peek with
    | _, some .flowMapEnd => do
      drop
      return []
    | false, some .comma => drop
    | false, _ => failure
    | true, _ => pure ()
    match ← peek with
    | some .flowMapEnd => do
      drop
      return []
    | some .key => do
      drop
      let key ← match ← peek with
        | some .value => pure empty
        | some .comma => pure empty
        | some .flowMapEnd => pure empty
        | _ => read fuel false false
      let value ← match ← peek with
        | some .value => do
          drop
          match ← peek with
          | some .comma => pure empty
          | some .flowMapEnd => pure empty
          | _ => read fuel false false
        | _ => pure empty
      return (key, value) :: (← readFlowFields fuel false)
    | _ => do
      let key ← read fuel false false
      return (key, empty) :: (← readFlowFields fuel false)

end

/-! ## Documents -/

/-- What the directives in front of a document declare, with the two handles that need no
declaration. The version may be given once, as 1.1 or 1.2, and each handle once. -/
def declared? (directives : List Directive) : Option (List (List Char × List Char)) := do
  let versions := directives.filterMap fun
    | .version major minor => some (major, minor)
    | .handle _ _ => none
  let handles := directives.filterMap fun
    | .version _ _ => none
    | .handle handle expansion => some (handle, expansion)
  let distinct := (handles.map (·.1)).eraseDups.length == handles.length
  if versions.length ≤ 1 && versions.all ([(1, 1), (1, 2)].contains ·) && distinct then
    some (handles ++ [(['!'], ['!']), (['!', '!'], "tag:yaml.org,2002:".toList)])
  else none

/-- The directives in front of a list of tokens. -/
def directivesOf : List Token → List Directive
  | .directive d :: rest => d :: directivesOf rest
  | _ => []

/-- Whether no node stands in front of these tokens. -/
def startsEmpty : List Token → Bool
  | [] => true
  | .directive _ :: _ => true
  | .documentStart :: _ => true
  | .documentEnd :: _ => true
  | _ => false

/-- Whether a document ends here, and no other one follows. -/
def isLast : List Token → Bool
  | [] => true
  | .documentEnd :: rest => isLast rest
  | _ => false

/-- The only document that tokens make up, or that there is none. -/
def ofTokens? (tokens : List Token) : Option (Option Node) := do
  let directives := directivesOf tokens
  let handles ← declared? directives
  let rest := tokens.drop directives.length
  let fuel := 2 * tokens.length + 2
  let document (content : List Token) : Option (Option Node) := do
    let (node, source) ← (read fuel true false).run { tokens := content, handles }
    if isLast source.tokens then some (some node) else none
  match directives, rest with
  | _, .documentStart :: content =>
    if !startsEmpty content then document content
    else if isLast content then some (some empty)
    else none
  | [], [] => some none
  | [], content => document content
  | _, _ => none

end Node

end ApiSurface.Document.Yaml
