import ApiSurface.Signature

/-!
# Anchors of members

The anchor of a member is the same in every language, because it is always made from the Lua names.
Types take no part in it: overloads that differ in types alone share an anchor.
-/

namespace ApiSurface.Anchor

/-- Stands between the name of a function and each name of a parameter. -/
def separator : String := "-"

/-- The anchor of a function, `name-param1-param2`. -/
def ofSignature (text : String) : Except ParseError String := do
  let s : Signature Empty ← Signature.parse .lua text
  return separator.intercalate (s.name :: s.parameters.map (·.name))

/-- The anchor of a property. -/
def ofProperty (text : String) : Except ParseError String := do
  let p : Parameter Empty ← Parameter.parse .lua text
  return p.name

end ApiSurface.Anchor
