import ApiSurface.Category
import ApiSurface.Language

/-!
# Descriptors

A descriptor describes one entity of an API — a class, a plain data object, an enumeration — for all
languages at once. Its members carry a signature, the declaration of a property or only a name, as
canonical text that is read when a view is made. Any node can be limited to some languages.
-/

namespace ApiSurface

/-- What is written about one parameter of a function. -/
structure ParameterEntry (Member : Type) where
  description : Option String := none
  /-- The keys that the parameter accepts, when it is a dictionary. -/
  properties : List Member := []

/-- A member of an entity: a function, a property or an enumerated value. -/
structure Member where
  /-- The signature of a function. -/
  signature : Option String := none
  /-- The signature of a member that is a callback. -/
  callback : Option String := none
  /-- The declaration `Type name` of a property. -/
  property : Option String := none
  /-- The name of an enumerated value. -/
  name : Option String := none
  languages : Option LanguageSet := none
  description : Option String := none
  detail : Option String := none
  /-- More detail for single languages, by tag. -/
  languageDetail : List (String × String) := []
  /-- What is written about parameters, by name and in the order of names. -/
  parameters : List (String × ParameterEntry Member) := []
  /-- Whether the embedding program has to provide the member. -/
  isAbstract : Bool := false
  /-- Whether a property may be left out. -/
  isOptional : Bool := false

/-- What defines a member. -/
inductive MemberDefinition where
  | signature (text : String)
  | callback (text : String)
  | property (text : String)
  /-- Nothing but perhaps a name. -/
  | plain
deriving DecidableEq, Repr

/-- A signature counts before a property, and a property before a callback. -/
def Member.definition (m : Member) : MemberDefinition :=
  match m.signature, m.property, m.callback with
  | some text, _, _ => .signature text
  | none, some text, _ => .property text
  | none, none, some text => .callback text
  | none, none, none => .plain

/-- The description of one entity. -/
structure Descriptor where
  /-- The name, which may be scoped. -/
  name : String
  /-- What the entity is in C++: `class`, `refcounted`, `enum class`, `struct` and so on. -/
  kind : String := ""
  /-- The component that modules are named after. -/
  component : Option String := none
  header : Option String := none
  scope : Option String := none
  /-- The base type, as a canonical type. -/
  base : Option String := none
  languages : Option LanguageSet := none
  description : Option String := none
  detail : Option String := none
  /-- More detail for single languages, by tag. -/
  languageDetail : List (String × String) := []
  /-- Whether scripts see exactly one object of the class. -/
  isSingleton : Bool := false
  members : Sections Member := {}

/-- A descriptor with the id that pages and files are named by. -/
structure Entity where
  id : String
  descriptor : Descriptor

end ApiSurface
