import ApiSurface.Descriptor
import ApiSurface.View

/-!
# Rules for scripting views

What an entity is to scripts follows from what it is in C++ and from three sets of names. The module
that exports it follows from its component.
-/

namespace ApiSurface

/-- The names and modules that scripting views depend on. -/
structure ViewRules where
  /-- Entities exposed as classes. -/
  wrappedTypes : List String := ["App", "Lifetime", "Painter", "Signal"]
  /-- Entities exposed as strings. -/
  stringTypes : List String := ["Accelerator", "Font::Weight", "KeyboardCode"]
  /-- Entities exposed as integers. -/
  integerTypes : List String := ["Color"]
  /-- The module of each component by tag of language. -/
  modules : List (String × List (String × String)) := [("gui", [("js", "gui"), ("lua", "yue.gui")])]
deriving Repr

namespace ViewRules

/-- What an entity of this C++ kind and name is to scripts. -/
def kindOf (r : ViewRules) (kind name : String) : EntityKind :=
  if kind = "refcounted" ∨ r.wrappedTypes.contains name then .classType
  else if kind = "enum class" ∨ r.stringTypes.contains name then .string
  else if kind = "enum" ∨ r.integerTypes.contains name then .integer
  else .object

/-- The module that exports the entities of a component. -/
def module? (r : ViewRules) (component : Option String) (l : Language) : Option String := do
  (← r.modules.lookup (← component)).lookup l.tag

end ViewRules

end ApiSurface
