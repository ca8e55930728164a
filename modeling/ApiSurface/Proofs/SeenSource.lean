import ApiSurface.View.OfDescriptor

/-!
# What a language sees of a description

A description says things for other languages: entities, members and keys of parameters whose
allow-list leaves the language out, and detail under another tag. `Entity.allSeen` is a list
of entities without all of that, at every depth. Making views of it comes to the same as making
views of the whole, faults included (`views_allSeen`), so nothing that is said for other languages,
however malformed, shows in a view or keeps it from being made.
-/

namespace ApiSurface

/-! ## The part that is seen -/

/-- The additional detail for a language. -/
def seenDetail (l : Language) (more : List (String × String)) : List (String × String) :=
  more.filter fun entry => entry.1 == l.tag

mutual

/-- A member that exists in a language, without what is for others. -/
def Member.seen (l : Language) : Member → Member
  | ⟨signature, callback, property, name, languages, description, detail, languageDetail,
      parameters, isAbstract, isOptional⟩ =>
    ⟨signature, callback, property, name, languages, description, detail,
      seenDetail l languageDetail, seenEntries l parameters, isAbstract, isOptional⟩

/-- What is written about parameters, with the keys that are not for the language left out. -/
def seenEntries (l : Language) :
    List (String × ParameterEntry Member) → List (String × ParameterEntry Member)
  | [] => []
  | (name, ⟨description, properties⟩) :: rest =>
    (name, ⟨description, seenMembers l properties⟩) :: seenEntries l rest

/-- The members that exist in a language. -/
def seenMembers (l : Language) : List Member → List Member
  | [] => []
  | m :: rest =>
    if retained m.languages l then Member.seen l m :: seenMembers l rest else seenMembers l rest

end

/-- Treats the lists of all categories alike. -/
def Sections.map {α β : Type} (f : List α → List β) (s : Sections α) : Sections β :=
  { globalFunctions := f s.globalFunctions
    constructors := f s.constructors
    classProperties := f s.classProperties
    classMethods := f s.classMethods
    properties := f s.properties
    methods := f s.methods
    events := f s.events
    delegates := f s.delegates
    enums := f s.enums }

/-- A descriptor that exists in a language, without what is for others. -/
def Descriptor.seen (l : Language) (d : Descriptor) : Descriptor :=
  { d with
    languageDetail := seenDetail l d.languageDetail
    members := d.members.map (seenMembers l) }

namespace Entity

/-- An entity that exists in a language, without what is for others. -/
def seen (l : Language) (e : Entity) : Entity :=
  { e with descriptor := e.descriptor.seen l }

/-- The entities that exist in a language. -/
def allSeen (l : Language) (es : List Entity) : List Entity :=
  (es.filter fun e => retained e.descriptor.languages l).map (seen l)

end Entity

/-! ## Views of it -/

/-- Detail comes from the language's own entry. -/
theorem detailFor_seenDetail (l : Language) (detail : Option String)
    (more : List (String × String)) :
    detailFor detail (seenDetail l more) l = detailFor detail more l := by
  have hlookup : (seenDetail l more).lookup l.tag = more.lookup l.tag := by
    induction more with
    | nil => rfl
    | cons entry more ih =>
      obtain ⟨tag, text⟩ := entry
      by_cases htag : tag = l.tag
      · simp [seenDetail, htag]
      · have htag' : (l.tag == tag) = false := by simpa using Ne.symm htag
        rw [List.lookup_cons, htag', ← ih]
        simp [seenDetail, htag]
  unfold detailFor
  rw [hlookup]

theorem Member.seen_eq (l : Language) (m : Member) :
    m.seen l =
      { m with
        languageDetail := seenDetail l m.languageDetail
        parameters := seenEntries l m.parameters } := by
  cases m
  rw [seen]

/-- Apart from detail, a member is viewed by what is seen from every language. -/
theorem viewWithNotes_seen (l : Language) (m : Member) (notes : List (String × ParameterNote)) :
    viewWithNotes l (m.seen l) notes = viewWithNotes l m notes := by
  rw [Member.seen_eq]
  unfold viewWithNotes
  simp only [detailFor_seenDetail]
  rfl

mutual

theorem view_seen (l : Language) (m : Member) : (m.seen l).view l = m.view l := by
  match m with
  | ⟨signature, callback, property, name, languages, description, detail, languageDetail,
      parameters, isAbstract, isOptional⟩ =>
    have hnotes := viewWithNotes_seen l ⟨signature, callback, property, name, languages,
      description, detail, languageDetail, parameters, isAbstract, isOptional⟩
    -- notes are the same before any is attached, with the faults that are kept in them
    rw [Member.seen] at hnotes ⊢
    rw [Member.view, parameterNotes_seen, hnotes, Member.view]

theorem parameterNotes_seen (l : Language) (entries : List (String × ParameterEntry Member)) :
    parameterNotes l (seenEntries l entries) = parameterNotes l entries := by
  match entries with
  | [] => rw [seenEntries]
  | (name, ⟨description, properties⟩) :: rest =>
    rw [seenEntries, parameterNotes, memberViews_seen, parameterNotes_seen, parameterNotes]

theorem memberViews_seen (l : Language) (members : List Member) :
    memberViews l (seenMembers l members) = memberViews l members := by
  match members with
  | [] => rw [seenMembers]
  | m :: rest =>
    rw [seenMembers, memberViews]
    split
    · next hretained =>
      rw [memberViews, Member.seen_eq, if_pos hretained, ← Member.seen_eq, view_seen,
        memberViews_seen]
    · exact memberViews_seen l rest

end

theorem Sections.mapM_map {α β γ ε : Type} (f : List β → Except ε (List γ)) (g : List α → List β)
    (s : Sections α) : (s.map g).mapM f = s.mapM fun members => f (g members) :=
  rfl

namespace Entity

variable (r : ViewRules) (l : Language)

/-- An entity that exists in a language is viewed alike without what is for others. -/
theorem view_seen (e : Entity) : view r l (e.seen l) = view r l e := by
  unfold view seen Descriptor.seen
  simp only [detailFor_seenDetail, Sections.mapM_map, memberViews_seen]
  rfl

/-- Entities are viewed one after another, and those without a view are left out. -/
theorem views_cons (e : Entity) (es : List Entity) :
    views r l (e :: es) =
      view r l e >>= fun v => (views r l es).map fun vs => (v.map (· :: vs)).getD vs := by
  unfold views
  rw [List.mapM_cons]
  cases view r l e with
  | error fault => rfl
  | ok v =>
    cases es.mapM (view r l) with
    | error fault => rfl
    | ok vs => cases v <;> rfl

/-- The views of entities are those of what the language sees of them; where they cannot be made,
the fault is the same. -/
theorem views_allSeen (es : List Entity) : views r l (allSeen l es) = views r l es := by
  induction es with
  | nil => rfl
  | cons e es ih =>
    by_cases hretained : retained e.descriptor.languages l = true
    · have hseen : allSeen l (e :: es) = e.seen l :: allSeen l es := by simp [allSeen, hretained]
      rw [hseen, views_cons, views_cons, view_seen, ih]
    · have hseen : allSeen l (e :: es) = allSeen l es := by simp [allSeen, hretained]
      have hnone : view r l e = .ok none := if_neg hretained
      rw [hseen, ih, views_cons, hnone]
      show views r l es = (views r l es).map fun vs => vs
      cases views r l es <;> rfl

/-- A signature that cannot be read does not matter where it is not seen. -/
example :
    let broken : Member := { signature := some "Broken(", languages := some { js := true } }
    let options : Member :=
      { signature := some "Open(const Options& options)"
        parameters := [("options", { properties := [broken] })] }
    let e : Entity := ⟨"window", { name := "Window", members := { methods := [options, broken] } }⟩
    ((allSeen .lua [e]).flatMap (·.descriptor.members.methods)).map (·.signature) =
      [some "Open(const Options& options)"] := by
  rfl

end Entity

end ApiSurface
