import ApiSurface.Anchor
import ApiSurface.View.Rules

/-!
# Views of descriptors

`Entity.view` makes the view of an entity for a language, and `Entity.views` those of a list. A node
that does not exist in the language is dropped before anything in it is read, so malformed text
there is no fault.

Notes on parameters are attached to the parameters of a signature by name, spelled either as in the
signature or converted to the language.
-/

namespace ApiSurface

/-- Detail with what is added for one language. -/
def detailFor (detail : Option String) (more : List (String × String)) (l : Language) :
    Option String :=
  match detail, more.lookup l.tag with
  | detail, none => detail
  | none, some extra => some ("\n" ++ extra)
  | some detail, some extra => some (detail ++ "\n" ++ extra)

/-- What is to be attached to a parameter. The keys it accepts count only if there is such a
parameter, so a fault in them is kept until then. -/
structure ParameterNote where
  description : Option String
  properties : Except ParseError (List MemberView)

/-- Attaches a note to the first parameter whose name is the key or its converted form; without such
a parameter nothing changes. -/
def attachNote (l : Language) (key : String) (note : ParameterNote) :
    List (Parameter MemberView) → Except ParseError (List (Parameter MemberView))
  | [] => .ok []
  | p :: rest =>
    if p.name = key ∨ p.name = Identifier.converted l key then do
      let properties ← note.properties
      return { p with description := note.description, properties } :: rest
    else do return p :: (← attachNote l key note rest)

/-- Reads a signature and attaches the notes one after another. -/
def readDocumented (l : Language) (text : String) (notes : List (String × ParameterNote)) :
    Except ParseError (Signature MemberView) := do
  let s ← Signature.parse l text
  let parameters ← notes.foldlM (fun ps (key, note) => attachNote l key note ps) s.parameters
  return { s with parameters }

/-- Makes the view of a member from it and the notes on its parameters. -/
def viewWithNotes (l : Language) (m : Member) (notes : List (String × ParameterNote)) :
    Except ParseError MemberView :=
  let v : MemberView :=
    { description := m.description
      detail := detailFor m.detail m.languageDetail l
      isAbstract := m.isAbstract
      isOptional := m.isOptional }
  match m.definition with
  | .signature text => do
    let id ← Anchor.ofSignature text
    let s ← readDocumented l text notes
    return { v with id := some id, signature := some s }
  | .callback text => do
    let id ← Anchor.ofSignature text
    let s ← readDocumented l text notes
    return { v with id := some id, callback := some s }
  | .property text => do
    let id ← Anchor.ofProperty text
    let p : Parameter MemberView ← Parameter.parse l text
    return { v with id := some id, name := some p.name, type := some p.type }
  | .plain => .ok { v with name := m.name }

mutual

/-- The view of a member, whatever languages it exists in. -/
def Member.view (l : Language) (m : Member) : Except ParseError MemberView :=
  match m with
  | ⟨signature, callback, property, name, languages, description, detail, languageDetail,
      parameters, isAbstract, isOptional⟩ =>
    viewWithNotes l
      ⟨signature, callback, property, name, languages, description, detail, languageDetail,
        parameters, isAbstract, isOptional⟩
      (parameterNotes l parameters)

/-- The notes on parameters, viewed. -/
def parameterNotes (l : Language) :
    List (String × ParameterEntry Member) → List (String × ParameterNote)
  | [] => []
  | (key, ⟨description, properties⟩) :: rest =>
    (key, ⟨description, memberViews l properties⟩) :: parameterNotes l rest

/-- The views of those members in a list that exist in the language. -/
def memberViews (l : Language) : List Member → Except ParseError (List MemberView)
  | [] => .ok []
  | m :: rest =>
    if retained m.languages l then do
      let v ← Member.view l m
      return v :: (← memberViews l rest)
    else memberViews l rest

end

namespace Entity

/-- The kind and the module that a view of a descriptor shows. -/
def placement (r : ViewRules) (l : Language) (d : Descriptor) : String × Option String :=
  if l.isScripting then ((r.kindOf d.kind d.name).label l, r.module? d.component l)
  else (d.kind, none)

/-- The view of an entity; none when it does not exist in the language. -/
def view (r : ViewRules) (l : Language) (e : Entity) : Except ParseError (Option EntityView) :=
  let d := e.descriptor
  if retained d.languages l then do
    let (kind, module) := placement r l d
    let base ← d.base.mapM (MappedType.ofToken l)
    let members ← d.members.mapM (memberViews l)
    return some
      { id := e.id
        name := d.name
        kind
        component := d.component
        module
        header := d.header
        scope := d.scope
        base
        description := d.description
        detail := detailFor d.detail d.languageDetail l
        isSingleton := d.isSingleton
        members }
  else .ok none

/-- The views of those entities that exist in the language, in their order; the first fault
counts. -/
def views (r : ViewRules) (l : Language) (es : List Entity) : Except ParseError (List EntityView) :=
  (es.mapM (view r l)).map (List.filterMap fun v => v)

end Entity

end ApiSurface
