import ApiSurface.Document.Yaml.Node
import ApiSurface.Document.Yaml.Scalar

/-!
# Reading YAML

A text holds at most one document, whose node is a mapping; a text without one and an empty document
are empty mappings. Keys are scalars and count as texts, whatever they would mean as values. A plain
scalar means what it spells, any other one is a text, and a tag may say otherwise. Collections may
be nested 128 deep, and aliases may be followed a hundred times as often as the document has marks.
-/

namespace ApiSurface.Document.Yaml

/-- The nodes with anchors, the one that a slot holds at the end first. -/
abbrev Slots := List (Nat × Node)

/-- The node that stands somewhere: of an alias, the one with its anchor. The state counts the
aliases that may still be followed. -/
def follow (slots : Slots) : Node → StateT Nat Option Node
  | .reference slot => do
    let room ← get
    if room = 0 then failure
    else
      set (room - 1)
      match slots.lookup slot with
      | some node => return node
      | none => failure
  | .anchored _ node => return node
  | node => return node

/-- The text of a key. -/
def keyText (slots : Slots) (key : Node) : StateT Nat Option String := do
  match ← follow slots key with
  | .scalar _ _ text => return String.ofList text
  | _ => failure

/-- Whether a tag belongs to the document alone. -/
def isOwnTag (tag : Option (List Char)) : Bool :=
  (tag.bind List.head?) == some '!'

/-- The value of a node, with the levels of nesting that are left. -/
def valueOf (slots : Slots) : Nat → Node → StateT Nat Option Value
  | room, node => do
    match room, ← follow slots node with
    | _, .scalar none true text => return resolve text
    | _, .scalar none false text => return .text (String.ofList text)
    | _, .scalar (some tag) _ text =>
      match resolveTagged? tag text with
      | some v => return v
      | none => failure
    | room + 1, .list tag items =>
      if isOwnTag tag then failure
      else return .list (← items.mapM fun item => valueOf slots room item)
    | room + 1, .map tag fields =>
      if isOwnTag tag then failure
      else
        let fields ← fields.mapM fun (key, value) => do
          return (← keyText slots key, ← valueOf slots room value)
        return .map (ofFields fields)
    | _, _ => failure

/-- The mapping that a document consists of; its own tag does not matter. -/
def valueOfDocument (node : Node) : Option Value := do
  let slots := node.anchors.reverse
  let (top, _) ← (follow slots node).run 0
  match top with
  | .scalar _ _ [] => some (.map [])
  | .map _ fields => (valueOf slots 128 (.map none fields)).run' (100 * node.size)
  | _ => none

/-- Reads a whole text. -/
def read? (s : List Char) : Option Value := do
  let tokens ← Token.ofText? s
  match ← Node.ofTokens? tokens with
  | none => some (.map [])
  | some node => valueOfDocument node

end ApiSurface.Document.Yaml
