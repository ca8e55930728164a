import ApiSurface.Descriptor
import ApiSurface.Document.Value

/-!
# Descriptors as documents

A descriptor is decoded field by field into a record that starts with every field left out. Types
are strict: a text is never made from a number or a flag. The absent value stands for a text or an
allow-list that is left out and for nothing else. Unknown fields are passed over.

A member and the notes on a parameter may also be given as the list of their fields in order. In a
descriptor such a list may go on behind the last field; a member that stands alone is `closed`, so
its lists may not.
-/

namespace ApiSurface

open Document (Value)

namespace Document.Value

/-- A text. -/
def text? : Value → Option String
  | .text s => some s
  | _ => none

/-- A text or the absent value. -/
def optionalText? : Value → Option (Option String)
  | .null => some none
  | .text s => some (some s)
  | _ => none

/-- A flag. -/
def bool? : Value → Option Bool
  | .bool b => some b
  | _ => none

/-- A list of texts. -/
def texts? : Value → Option (List String)
  | .list items => items.mapM text?
  | _ => none

/-- A mapping to texts, in the order of keys. -/
def textFields? : Value → Option (List (String × String))
  | .map fields =>
    (fields.mapM fun (field : String × Value) => field.2.text?.map (field.1, ·)).map
      Document.sortFields
  | _ => none

/-- An allow-list of languages or the absent value. -/
def languages? : Value → Option (Option LanguageSet)
  | .null => some none
  | value => value.texts?.map fun tags => some (LanguageSet.ofTags tags)

end Document.Value

/-- The fields of a member in order. -/
def Member.keys : List String :=
  ["signature", "callback", "property", "name", "lang", "description", "detail", "lang_detail",
    "parameters", "abstract", "optional"]

/-- The fields of the notes on a parameter in order. -/
def ParameterEntry.keys : List String :=
  ["description", "properties"]

section

variable (closed : Bool)

mutual

/-- Decodes a member. -/
def Member.decode : Value → Option Member
  | .map fields => decodeMemberFields {} fields
  | .list items => decodeMemberItems {} Member.keys items
  | _ => none

/-- Sets the fields of a member from a mapping. -/
def decodeMemberFields (m : Member) : List (String × Value) → Option Member
  | [] => some m
  | (key, value) :: rest => do decodeMemberFields (← decodeMemberField m key value) rest

/-- Sets the fields of a member from a list. -/
def decodeMemberItems (m : Member) : List String → List Value → Option Member
  | key :: keys, value :: rest => do decodeMemberItems (← decodeMemberField m key value) keys rest
  | [], _ :: _ => if closed then none else some m
  | _, [] => some m

/-- Sets one field of a member. -/
def decodeMemberField (m : Member) (key : String) (value : Value) : Option Member :=
  match key with
  | "signature" => value.optionalText?.map ({ m with signature := · })
  | "callback" => value.optionalText?.map ({ m with callback := · })
  | "property" => value.optionalText?.map ({ m with property := · })
  | "name" => value.optionalText?.map ({ m with name := · })
  | "lang" => value.languages?.map ({ m with languages := · })
  | "description" => value.optionalText?.map ({ m with description := · })
  | "detail" => value.optionalText?.map ({ m with detail := · })
  | "lang_detail" => value.textFields?.map ({ m with languageDetail := · })
  | "parameters" =>
    match value with
    | .map fields =>
      (decodeParameterEntries fields).map ({ m with parameters := Document.sortFields · })
    | _ => none
  | "abstract" => value.bool?.map ({ m with isAbstract := · })
  | "optional" => value.bool?.map ({ m with isOptional := · })
  | _ => some m

/-- Decodes the notes on parameters. -/
def decodeParameterEntries :
    List (String × Value) → Option (List (String × ParameterEntry Member))
  | [] => some []
  | (key, value) :: rest => do
    let doc ← match value with
      | .map fields => decodeParameterEntryFields {} fields
      | .list items => decodeParameterEntryItems {} ParameterEntry.keys items
      | _ => none
    return (key, doc) :: (← decodeParameterEntries rest)

/-- Sets the fields of the notes on a parameter from a mapping. -/
def decodeParameterEntryFields (d : ParameterEntry Member) :
    List (String × Value) → Option (ParameterEntry Member)
  | [] => some d
  | (key, value) :: rest => do
    decodeParameterEntryFields (← decodeParameterEntryField d key value) rest

/-- Sets the fields of the notes on a parameter from a list. -/
def decodeParameterEntryItems (d : ParameterEntry Member) :
    List String → List Value → Option (ParameterEntry Member)
  | key :: keys, value :: rest => do
    decodeParameterEntryItems (← decodeParameterEntryField d key value) keys rest
  | [], _ :: _ => if closed then none else some d
  | _, [] => some d

/-- Sets one field of the notes on a parameter. -/
def decodeParameterEntryField (d : ParameterEntry Member) (key : String) (value : Value) :
    Option (ParameterEntry Member) :=
  match key with
  | "description" => value.optionalText?.map ({ d with description := · })
  | "properties" =>
    match value with
    | .list items => (decodeMembers items).map ({ d with properties := · })
    | _ => none
  | _ => some d

/-- Decodes a list of members. -/
def decodeMembers : List Value → Option (List Member)
  | [] => some []
  | value :: rest => do return (← Member.decode value) :: (← decodeMembers rest)

end

end

/-- Sets one field of a descriptor. -/
def decodeDescriptorField (d : Descriptor) (key : String) (value : Value) : Option Descriptor :=
  match key with
  | "name" => value.text?.map ({ d with name := · })
  | "type" => value.text?.map ({ d with kind := · })
  | "component" => value.optionalText?.map ({ d with component := · })
  | "header" => value.optionalText?.map ({ d with header := · })
  | "namespace" => value.optionalText?.map ({ d with scope := · })
  | "inherit" => value.optionalText?.map ({ d with base := · })
  | "lang" => value.languages?.map ({ d with languages := · })
  | "description" => value.optionalText?.map ({ d with description := · })
  | "detail" => value.optionalText?.map ({ d with detail := · })
  | "lang_detail" => value.textFields?.map ({ d with languageDetail := · })
  | "singleton" => value.bool?.map ({ d with isSingleton := · })
  | _ =>
    match Category.ofKey? key with
    | none => some d
    | some c =>
      match value with
      | .list items =>
        (decodeMembers false items).map fun ms => { d with members := d.members.set c ms }
      | _ => none

/-- Decodes a descriptor: a mapping that has at least a name. -/
def Descriptor.decode : Value → Option Descriptor
  | .map fields => do
    let name ← (fields.lookup "name").bind (·.text?)
    fields.foldlM (fun d (key, value) => decodeDescriptorField d key value) { name }
  | _ => none

end ApiSurface
