import ApiSurface.Document.Json
import ApiSurface.View

/-!
# Views as documents

Types, signatures, parameters, members and entities are written as mappings in a fixed order of
fields. Absent options, flags that are off and empty lists are left out, apart from the list of
parameters of a signature, which is always there.
-/

namespace ApiSurface

open Document (Value)

/-- A field that is left out when there is nothing to write. -/
def optionField (key : String) (value : Option Value) : List (String × Value) :=
  match value with
  | none => []
  | some v => [(key, v)]

/-- A text field. -/
def textField (key value : String) : List (String × Value) :=
  [(key, .text value)]

/-- A text field that is left out when there is no text. -/
def optionalTextField (key : String) (value : Option String) : List (String × Value) :=
  optionField key (value.map .text)

/-- A flag that is left out when it is off. -/
def flagField (key : String) (value : Bool) : List (String × Value) :=
  if value then [(key, .bool true)] else []

/-- A list that is left out when it is empty. -/
def listField (key : String) (items : List Value) : List (String × Value) :=
  if items.isEmpty then [] else [(key, .list items)]

mutual

/-- A type as a document. -/
def MappedType.toValue : MappedType → Value
  | ⟨name, id, nullable, element, args⟩ =>
    .map (textField "name" name ++ optionalTextField "id" id ++ flagField "nullable" nullable
      ++ elementField element ++ listField "args" (typeValues args))

/-- The element type of a sequence as a field. -/
def elementField : Option MappedType → List (String × Value)
  | none => []
  | some t => [("elementType", t.toValue)]

/-- Types as documents. -/
def typeValues : List MappedType → List Value
  | [] => []
  | t :: rest => t.toValue :: typeValues rest

end

mutual

/-- A member as a document. -/
def MemberView.toValue : MemberView → Value
  | ⟨id, name, type, signature, callback, description, detail, isAbstract, isOptional⟩ =>
    .map (optionalTextField "id" id ++ optionalTextField "name" name
      ++ optionField "type" (type.map MappedType.toValue)
      ++ signatureField "signature" signature ++ signatureField "callback" callback
      ++ optionalTextField "description" description ++ optionalTextField "detail" detail
      ++ flagField "abstract" isAbstract ++ flagField "optional" isOptional)

/-- An optional signature as a field. -/
def signatureField (key : String) : Option (Signature MemberView) → List (String × Value)
  | none => []
  | some s => [(key, signatureValue s)]

/-- A signature as a document. -/
def signatureValue : Signature MemberView → Value
  | ⟨name, parameters, returnType, display⟩ =>
    .map (textField "name" name ++ [("parameters", .list (parameterValues parameters))]
      ++ optionField "returnType" (returnType.map MappedType.toValue) ++ textField "str" display)

/-- Parameters as documents. -/
def parameterValues : List (Parameter MemberView) → List Value
  | [] => []
  | p :: rest => parameterValue p :: parameterValues rest

/-- A parameter as a document. -/
def parameterValue : Parameter MemberView → Value
  | ⟨type, name, description, properties⟩ =>
    .map ([("type", type.toValue)] ++ textField "name" name
      ++ optionalTextField "description" description
      ++ listField "properties" (memberValues properties))

/-- Members as documents. -/
def memberValues : List MemberView → List Value
  | [] => []
  | m :: rest => m.toValue :: memberValues rest

end

/-- The members of an entity as fields, by category. -/
def sectionFields (s : Sections MemberView) : List (String × Value) :=
  Category.all.flatMap fun c => listField c.key (memberValues (s.get c))

/-- An entity as a document. -/
def EntityView.toValue (v : EntityView) : Value :=
  .map (textField "id" v.id ++ textField "name" v.name ++ textField "type" v.kind
    ++ optionalTextField "component" v.component ++ optionalTextField "module" v.module
    ++ optionalTextField "header" v.header ++ optionalTextField "namespace" v.scope
    ++ optionField "inherit" (v.base.map MappedType.toValue)
    ++ optionalTextField "description" v.description ++ optionalTextField "detail" v.detail
    ++ flagField "singleton" v.isSingleton ++ sectionFields v.members)

/-- An entity as JSON text. -/
def EntityView.json (v : EntityView) : String :=
  Document.Json.pretty v.toValue

mutual

/-- Reads a type from a document. Only the name is required. -/
def MappedType.decode : Value → Option MappedType
  | .map fields => do
    let name ← match fields.lookup "name" with
      | some (.text s) => some s
      | _ => none
    decodeTypeFields { name } fields
  | _ => none

/-- Sets the fields of a type from a mapping. -/
def decodeTypeFields (t : MappedType) : List (String × Value) → Option MappedType
  | [] => some t
  | (key, value) :: rest => do
    let t ← match key, value with
      | "id", .text s => some { t with id := some s }
      | "id", .null => some { t with id := none }
      | "id", _ => none
      | "nullable", .bool b => some { t with nullable := b }
      | "nullable", _ => none
      | "elementType", .null => some { t with element := none }
      | "elementType", v => (MappedType.decode v).map ({ t with element := some · })
      | "args", .list items => (decodeTypes items).map ({ t with args := · })
      | "args", _ => none
      | _, _ => some t
    decodeTypeFields t rest

/-- Reads types from a list of documents. -/
def decodeTypes : List Value → Option (List MappedType)
  | [] => some []
  | v :: rest => do return (← MappedType.decode v) :: (← decodeTypes rest)

end

end ApiSurface
