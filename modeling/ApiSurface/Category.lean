/-!
# Categories of members

The members of an entity are listed under nine categories. Everything that goes through all members
goes through the categories in one order, that of documents and of output.
-/

namespace ApiSurface

/-- What kind of member a list holds. -/
inductive Category where
  /-- Free functions that belong with the entity. -/
  | globalFunctions
  | constructors
  /-- Static properties. -/
  | classProperties
  /-- Static methods. -/
  | classMethods
  | properties
  | methods
  /-- Signals that the entity emits. -/
  | events
  /-- Single callbacks that the entity asks. -/
  | delegates
  /-- Enumerated values. -/
  | enums
deriving DecidableEq, Repr

namespace Category

/-- The categories in order. -/
def all : List Category :=
  [globalFunctions, constructors, classProperties, classMethods, properties, methods, events,
    delegates, enums]

/-- The key of a category in documents. -/
def key : Category → String
  | globalFunctions => "global_functions"
  | constructors => "constructors"
  | classProperties => "class_properties"
  | classMethods => "class_methods"
  | properties => "properties"
  | methods => "methods"
  | events => "events"
  | delegates => "delegates"
  | enums => "enums"

/-- The category of a key. -/
def ofKey? (key : String) : Option Category :=
  all.find? (·.key == key)

/-- The heading of a category on a page. -/
def title : Category → String
  | globalFunctions => "Functions"
  | constructors => "Constructors"
  | classProperties => "Class properties"
  | classMethods => "Class methods"
  | properties => "Properties"
  | methods => "Methods"
  | events => "Events"
  | delegates => "Delegates"
  | enums => "Values"

end Category

/-- The members of an entity by category. -/
structure Sections (α : Type) where
  globalFunctions : List α := []
  constructors : List α := []
  classProperties : List α := []
  classMethods : List α := []
  properties : List α := []
  methods : List α := []
  events : List α := []
  delegates : List α := []
  enums : List α := []

namespace Sections

variable {α β ε : Type}

/-- The members of a category. -/
def get (s : Sections α) : Category → List α
  | .globalFunctions => s.globalFunctions
  | .constructors => s.constructors
  | .classProperties => s.classProperties
  | .classMethods => s.classMethods
  | .properties => s.properties
  | .methods => s.methods
  | .events => s.events
  | .delegates => s.delegates
  | .enums => s.enums

/-- Replaces the members of a category. -/
def set (s : Sections α) (c : Category) (members : List α) : Sections α :=
  match c with
  | .globalFunctions => { s with globalFunctions := members }
  | .constructors => { s with constructors := members }
  | .classProperties => { s with classProperties := members }
  | .classMethods => { s with classMethods := members }
  | .properties => { s with properties := members }
  | .methods => { s with methods := members }
  | .events => { s with events := members }
  | .delegates => { s with delegates := members }
  | .enums => { s with enums := members }

/-- Treats the lists one after another in the order of categories; the first fault counts. -/
def mapM (f : List α → Except ε (List β)) (s : Sections α) : Except ε (Sections β) := do
  let globalFunctions ← f s.globalFunctions
  let constructors ← f s.constructors
  let classProperties ← f s.classProperties
  let classMethods ← f s.classMethods
  let properties ← f s.properties
  let methods ← f s.methods
  let events ← f s.events
  let delegates ← f s.delegates
  let enums ← f s.enums
  return { globalFunctions, constructors, classProperties, classMethods, properties, methods,
           events, delegates, enums }

@[simp] theorem get_set_self (s : Sections α) (c : Category) (members : List α) :
    (s.set c members).get c = members := by
  cases c <;> rfl

end Sections

end ApiSurface
