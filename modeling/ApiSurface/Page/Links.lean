import ApiSurface.Document.Value
import ApiSurface.View

/-!
# Links between pages

Every documented entity has a page named by its id. A type links to the page of its id; where there
is none the name stands as code, which is a gap in the documentation and no fault.
-/

namespace ApiSurface

/-- The pages of one language and the path that leads to them. -/
structure Links where
  /-- The names of entities by id. -/
  pages : List (String × String) := []
  /-- What stands before a link. -/
  lead : String := ""

namespace Links

/-- Links to the pages of entities. Of two entities with one id the later one counts. -/
def ofViews (vs : List EntityView) : Links :=
  { pages := Document.ofFields (vs.map fun v => (v.id, v.name)) }

/-- The same links from a page elsewhere, to which `lead` leads. -/
def leadingTo (links : Links) (lead : String) : Links :=
  { links with lead }

/-- The name of the entity with this id. -/
def name? (links : Links) (id : String) : Option String :=
  links.pages.lookup id

/-- The path of the page for an id. -/
def href? (links : Links) (id : String) : Option String :=
  (links.name? id).map fun _ => links.lead ++ id ++ ".md"

/-- The name of a type, as a link when its id has a page. -/
def nameText (links : Links) (name : String) (id : Option String) : String :=
  match id.bind links.href? with
  | some href => "[" ++ name ++ "](" ++ href ++ ")"
  | none => "`" ++ name ++ "`"

/-- What stands in angle brackets behind a type: the type of elements, or else the types in a
tuple. -/
def arguments (element : Option String) (args : List String) : String :=
  match element with
  | some text => "<" ++ text ++ ">"
  | none => if args.isEmpty then "" else "<" ++ ", ".intercalate args ++ ">"

mutual

/-- A type with links for all its parts that have pages. -/
def typeText (links : Links) : MappedType → String
  | ⟨name, id, nullable, element, args⟩ =>
    links.nameText name id ++ arguments (elementText links element) (typeTexts links args)
      ++ (if nullable then "?" else "")

/-- The type of elements with links. -/
def elementText (links : Links) : Option MappedType → Option String
  | none => none
  | some t => some (typeText links t)

/-- Types with links. -/
def typeTexts (links : Links) : List MappedType → List String
  | [] => []
  | t :: rest => typeText links t :: typeTexts links rest

end

end Links

end ApiSurface
