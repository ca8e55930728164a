import ApiSurface.Category
import ApiSurface.Signature

/-!
# Views of entities

A view is what one language sees of an entity: the members that exist in it, with names converted,
types mapped and signatures read. Scripting languages know four kinds of entities, and a view for
one of them names its kind by a label; a view for C++ keeps what the descriptor says.
-/

namespace ApiSurface

/-- What an entity is to scripts. -/
inductive EntityKind where
  /-- An object of the native side. -/
  | classType
  /-- A value passed as a string. -/
  | string
  /-- A value passed as an integer. -/
  | integer
  /-- Plain data. -/
  | object
deriving DecidableEq, Repr

namespace EntityKind

/-- The label of a kind in a language; C++ views have no labels. -/
def label (k : EntityKind) (l : Language) : String :=
  match k, l with
  | .classType, _ => "Class"
  | .string, .lua => "string"
  | .string, _ => "String"
  | .integer, .lua => "integer"
  | .integer, _ => "Integer"
  | .object, .lua => "table"
  | .object, _ => "Object"

/-- The kind that a label of either scripting language names. -/
def ofLabel? (s : String) : Option EntityKind :=
  if s = "Class" then some .classType
  else if s = "String" ∨ s = "string" then some .string
  else if s = "Integer" ∨ s = "integer" then some .integer
  else if s = "Object" ∨ s = "table" then some .object
  else none

@[simp] theorem ofLabel?_label (k : EntityKind) (l : Language) :
    ofLabel? (k.label l) = some k := by
  cases k <;> cases l <;> decide

end EntityKind

/-- What one language sees of a member. -/
structure MemberView where
  /-- The anchor, the same in all languages. -/
  id : Option String := none
  /-- The name of a property or an enumerated value. -/
  name : Option String := none
  /-- The type of a property. -/
  type : Option MappedType := none
  signature : Option (Signature MemberView) := none
  callback : Option (Signature MemberView) := none
  description : Option String := none
  detail : Option String := none
  isAbstract : Bool := false
  isOptional : Bool := false

namespace MemberView

/-- The function that a member is or takes. -/
def callable (m : MemberView) : Option (Signature MemberView) :=
  m.signature.or m.callback

/-- The name to display, whatever the member is. -/
def shownName (m : MemberView) : String :=
  match m.callable with
  | some s => s.name
  | none => m.name.getD ""

end MemberView

/-- What one language sees of an entity. -/
structure EntityView where
  id : String
  name : String
  /-- The label of the kind, or what a descriptor says in C++. -/
  kind : String
  component : Option String := none
  /-- The script module that exports the entity. -/
  module : Option String := none
  header : Option String := none
  scope : Option String := none
  base : Option MappedType := none
  description : Option String := none
  detail : Option String := none
  isSingleton : Bool := false
  members : Sections MemberView := {}

namespace EntityView

/-- The kind of the entity, when the label names one. -/
def kind? (v : EntityView) : Option EntityKind :=
  EntityKind.ofLabel? v.kind

/-- Whether the entity has members of its own rather than of its objects. -/
def hasStatics (v : EntityView) : Bool :=
  !v.members.classMethods.isEmpty || !v.members.classProperties.isEmpty

end EntityView

end ApiSurface
