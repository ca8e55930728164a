/-!
# Document values

Descriptions, settings and front matter are documents: trees of texts, numbers, flags, lists and
mappings, whatever format they are written in. A mapping keeps its fields in order and holds each
key once; writing a key again replaces its value.
-/

namespace ApiSurface.Document

/-- A node of a document. -/
inductive Value where
  /-- The absent value. -/
  | null
  | bool (b : Bool)
  | integer (n : Int)
  /-- A number that is no integer of the format, kept as it was written. -/
  | real (written : String)
  | text (s : String)
  | list (items : List Value)
  | map (fields : List (String × Value))
deriving Inhabited

/-- Sets a key of a mapping: in its place when the key is there, at the end otherwise. -/
def put {α : Type} (key : String) (value : α) : List (String × α) → List (String × α)
  | [] => [(key, value)]
  | (k, v) :: rest => if k = key then (k, value) :: rest else (k, v) :: put key value rest

/-- The mapping of a list of fields in which the last of equal keys counts. -/
def ofFields {α : Type} (fields : List (String × α)) : List (String × α) :=
  fields.foldl (fun acc (k, v) => put k v acc) []

/-- A mapping sorted by its keys. -/
def sortFields {α : Type} (fields : List (String × α)) : List (String × α) :=
  fields.mergeSort fun a b => decide (a.1 ≤ b.1)

mutual

/-- Lays one value over another: mappings key by key at every depth, and anything else in place of
what was there. -/
def Value.overlay : Value → Value → Value
  | .map base, .map upper => .map (overlayFields base upper)
  | _, upper => upper

/-- Lays the fields of one mapping over another. -/
def overlayFields (base : List (String × Value)) :
    List (String × Value) → List (String × Value)
  | [] => base
  | (key, upper) :: rest =>
    let value := match base.lookup key with
      | some under => under.overlay upper
      | none => upper
    overlayFields (put key value base) rest

end

end ApiSurface.Document
