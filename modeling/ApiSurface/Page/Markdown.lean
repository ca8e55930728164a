import ApiSurface.Guide
import ApiSurface.Page.Links

/-!
# Pages in Markdown

Documentation of one language has an index, a page for each entity and a page for each guide. The
index links to all the others; pages of entities link to each other.
-/

namespace ApiSurface.Page

/-- The directory of pages of entities. -/
def entityDirectory : String := "api"

/-- The directory of pages of guides. -/
def guideDirectory : String := "guides"

/-- The extension of pages. -/
def extension : String := "md"

/-- A text with the blanks around it taken away, as a paragraph; nothing for a text of blanks. -/
def paragraph (text : Option String) : String :=
  match text.map Text.trimmed with
  | none => ""
  | some "" => ""
  | some text => text ++ "\n\n"

/-- A description behind a mark. -/
def remark (mark : String) (description : Option String) : String :=
  match description with
  | none => ""
  | some text => mark ++ Text.trimmed text

/-- A line of a list for one key that a parameter accepts. -/
def keyLine (links : Links) (m : MemberView) : String :=
  let type := (m.type.map links.typeText).getD ""
  "  - `" ++ m.shownName ++ "`: " ++ type ++ remark ". " m.description ++ "\n"

/-- The lines of a list for one parameter. -/
def parameterLines (links : Links) (p : Parameter MemberView) : String :=
  "- `" ++ p.name ++ "`: " ++ links.typeText p.type ++ remark ". " p.description ++ "\n"
    ++ String.join (p.properties.map (keyLine links))

/-- The parameters and the result of a function. -/
def signatureText (links : Links) (s : Signature MemberView) : String :=
  let parameters :=
    if s.parameters.isEmpty then ""
    else "Parameters:\n\n" ++ String.join (s.parameters.map (parameterLines links)) ++ "\n"
  let result := match s.returnType with
    | some t => "Returns " ++ links.typeText t ++ "\n\n"
    | none => ""
  parameters ++ result

/-- A line of a list for an enumerated value. -/
def valueLine (m : MemberView) : String :=
  "- `" ++ m.shownName ++ "`" ++ remark ": " m.description ++ "\n"

/-- What a page says about a member that is no enumerated value. -/
def memberText (links : Links) (m : MemberView) : String :=
  let anchor := match m.id with
    | some id => "<a id=\"" ++ id ++ "\"></a>\n"
    | none => ""
  let prose := paragraph m.description ++ paragraph m.detail
  match m.callable with
  | some s => anchor ++ "### `" ++ s.display ++ "`\n\n" ++ prose ++ signatureText links s
  | none =>
    let type := match m.type with
      | some t =>
        "Type: " ++ links.typeText t ++ (if m.isOptional then " (optional)" else "") ++ "\n\n"
      | none => ""
    anchor ++ "### `" ++ m.shownName ++ "`\n\n" ++ type ++ prose

/-- The part of a page for one category; nothing for a category without members. -/
def sectionText (links : Links) (c : Category) (members : List MemberView) : String :=
  if members.isEmpty then ""
  else
    let body :=
      if c = .enums then String.join (members.map valueLine) ++ "\n"
      else String.join (members.map (memberText links))
    "## " ++ c.title ++ "\n\n" ++ body

/-- The facts at the head of a page. -/
def facts (links : Links) (v : EntityView) : List String :=
  let optional (label : String) (value : Option String) : List String :=
    (value.map (label ++ ·)).toList
  let code (text : String) : String := "`" ++ text ++ "`"
  ["Type: " ++ code v.kind]
    ++ optional "Module: " ((v.module.or v.component).map code)
    ++ optional "Header: " (v.header.map code)
    ++ optional "Namespace: " (v.scope.map code)
    ++ optional "Inherits: " (v.base.map links.typeText)
    ++ (if v.isSingleton then ["Singleton"] else [])

/-- The page of an entity. -/
def entityText (links : Links) (v : EntityView) : String :=
  "# " ++ v.name ++ "\n\n"
    ++ String.join ((facts links v).map fun fact => "- " ++ fact ++ "\n") ++ "\n"
    ++ paragraph v.description ++ paragraph v.detail
    ++ String.join (Category.all.map fun c => sectionText links c (v.members.get c))

/-- The page of a guide. -/
def guideText (g : Guide) : String :=
  g.content

/-- The title of an index unless another one is given. -/
def defaultTitle : String := "API reference"

/-- The index of the pages of a language. -/
def indexText (title : Option String) (l : Language) (links : Links) (vs : List EntityView)
    (guides : List Guide) : String :=
  let guideLine (g : Guide) : String :=
    "- [" ++ g.name ++ "](" ++ guideDirectory ++ "/" ++ g.id ++ ".md)\n"
  let entityLine (v : EntityView) : String :=
    let href := ((links.leadingTo (entityDirectory ++ "/")).href? v.id).getD ""
    "- [" ++ v.name ++ "](" ++ href ++ ")" ++ remark ": " v.description ++ "\n"
  "# " ++ title.getD defaultTitle ++ " (" ++ l.tag ++ ")\n\n"
    ++ (if guides.isEmpty then ""
        else "## Guides\n\n" ++ String.join (guides.map guideLine) ++ "\n")
    ++ "## Types\n\n" ++ String.join (vs.map entityLine)

end ApiSurface.Page
