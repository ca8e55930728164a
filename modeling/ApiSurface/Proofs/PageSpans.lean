import Mathlib.Data.List.Basic
import ApiSurface.Page.Markdown

/-!
# Pages as spans

A page is written as one text. Here it is put together from spans once more, so that its links and
its anchors can be told from the words around them. Each part of a page has its spans, and what they
say in Markdown is the text of that part (`entityText_eq`, `indexText_eq`).

On the page of an entity there are, besides words, the links of types, at any depth of elements and
tuples, and the anchors of members (`mem_entitySpans`). Each link leads to an id that has a page,
and the anchors are the ids of the members that are no enumerated values (`anchors_entitySpans`).
-/

namespace ApiSurface

namespace Page

/-- A part of a page. -/
inductive Span where
  | text (s : String)
  /-- A link, by the path that leads from the page to where it points. -/
  | link (label target : String)
  /-- A place in a page that links can point to. -/
  | anchor (id : String)
deriving DecidableEq, Repr

def Span.markdown : Span → String
  | text s => s
  | link label target => "[" ++ label ++ "](" ++ target ++ ")"
  | anchor id => "<a id=\"" ++ id ++ "\"></a>\n"

/-- What spans say in Markdown. -/
def markdown (spans : List Span) : String :=
  String.join (spans.map Span.markdown)

variable {α : Type}

@[simp]
theorem markdown_nil : markdown [] = "" := rfl

@[simp]
theorem markdown_cons (span : Span) (spans : List Span) :
    markdown (span :: spans) = span.markdown ++ markdown spans := by
  simp [markdown]

@[simp]
theorem markdown_append (spans more : List Span) :
    markdown (spans ++ more) = markdown spans ++ markdown more := by
  simp [markdown]

/-- Texts that spans say, one after another. -/
theorem join_map_eq {f : α → String} {g : α → List Span} (h : ∀ a, f a = markdown (g a))
    (items : List α) : String.join (items.map f) = markdown (items.flatMap g) := by
  induction items with
  | nil => rfl
  | cons a items ih => simp [ih, h]

/-- Spans with others between them. -/
theorem markdown_intercalate (separator : List Span) (parts : List (List Span)) :
    markdown (separator.intercalate parts) =
      (markdown separator).intercalate (parts.map markdown) := by
  induction parts with
  | nil => rfl
  | cons part parts ih =>
    cases parts with
    | nil => simp
    | cons part' parts =>
      rw [List.intercalate_cons_cons, markdown_append, markdown_append, ih, List.map_cons,
        List.map_cons, List.map_cons, String.intercalate_cons_cons]

end Page

/-! ## Types -/

namespace Links

open Page (Span markdown)

/-- The name of a type, as a link when its id has a page. -/
def nameSpan (links : Links) (name : String) (id : Option String) : Span :=
  match id.bind links.href? with
  | some href => .link name href
  | none => .text ("`" ++ name ++ "`")

/-- What stands in angle brackets behind a type. -/
def argumentSpans (element : Option (List Span)) (args : List (List Span)) : List Span :=
  match element with
  | some spans => .text "<" :: (spans ++ [.text ">"])
  | none =>
    if args.isEmpty then [] else .text "<" :: ([Span.text ", "].intercalate args ++ [.text ">"])

mutual

/-- A type with links for all its parts that have pages. -/
def typeSpans (links : Links) : MappedType → List Span
  | ⟨name, id, nullable, element, args⟩ =>
    links.nameSpan name id :: (argumentSpans (elementSpans links element) (typesSpans links args)
      ++ if nullable then [.text "?"] else [])

/-- The type of elements with links. -/
def elementSpans (links : Links) : Option MappedType → Option (List Span)
  | none => none
  | some t => some (typeSpans links t)

/-- Types with links. -/
def typesSpans (links : Links) : List MappedType → List (List Span)
  | [] => []
  | t :: rest => typeSpans links t :: typesSpans links rest

end

variable (links : Links)

theorem nameText_eq (name : String) (id : Option String) :
    links.nameText name id = (links.nameSpan name id).markdown := by
  rw [nameText, nameSpan]
  cases id.bind links.href? <;> rfl

theorem arguments_eq (element : Option (List Span)) (args : List (List Span)) :
    arguments (element.map markdown) (args.map markdown) =
      markdown (argumentSpans element args) := by
  cases element with
  | some spans => simp [arguments, argumentSpans, Span.markdown, String.append_assoc]
  | none =>
    cases args with
    | nil => rfl
    | cons arg args =>
      simp [arguments, argumentSpans, Span.markdown, Page.markdown_intercalate, String.append_assoc]

mutual

theorem typeText_eq : ∀ t : MappedType, links.typeText t = markdown (links.typeSpans t)
  | ⟨name, id, nullable, element, args⟩ => by
    rw [typeText, typeSpans, elementText_eq element, typeTexts_eq args, arguments_eq, nameText_eq]
    cases nullable <;> simp [Span.markdown, String.append_assoc]

theorem elementText_eq : ∀ element : Option MappedType,
    links.elementText element = (links.elementSpans element).map markdown
  | none => rfl
  | some t => by
    rw [elementText, elementSpans, typeText_eq t, Option.map_some]

theorem typeTexts_eq : ∀ args : List MappedType,
    links.typeTexts args = (links.typesSpans args).map markdown
  | [] => rfl
  | t :: rest => by
    rw [typeTexts, typesSpans, typeText_eq t, typeTexts_eq rest, List.map_cons]

end

end Links

/-! ## Parts of pages -/

namespace Page

variable (links : Links)

/-- A line of a list for one key that a parameter accepts. -/
def keySpans (m : MemberView) : List Span :=
  .text ("  - `" ++ m.shownName ++ "`: ") ::
    ((m.type.map links.typeSpans).getD [] ++ [.text (remark ". " m.description ++ "\n")])

/-- The lines of a list for one parameter. -/
def parameterSpans (p : Parameter MemberView) : List Span :=
  .text ("- `" ++ p.name ++ "`: ") ::
    (links.typeSpans p.type ++ .text (remark ". " p.description ++ "\n") ::
      p.properties.flatMap (keySpans links))

/-- The parameters and the result of a function. -/
def signatureSpans (s : Signature MemberView) : List Span :=
  let parameters :=
    if s.parameters.isEmpty then []
    else .text "Parameters:\n\n" :: (s.parameters.flatMap (parameterSpans links) ++ [.text "\n"])
  let result := match s.returnType with
    | some t => .text "Returns " :: (links.typeSpans t ++ [.text "\n\n"])
    | none => []
  parameters ++ result

/-- A line of a list for an enumerated value. -/
def valueSpans (m : MemberView) : List Span :=
  [.text (valueLine m)]

/-- What a page says about a member that is no enumerated value. -/
def memberSpans (m : MemberView) : List Span :=
  let anchor := m.id.toList.map .anchor
  let prose : Span := .text (paragraph m.description ++ paragraph m.detail)
  match m.callable with
  | some s => anchor ++ .text ("### `" ++ s.display ++ "`\n\n") :: prose :: signatureSpans links s
  | none =>
    let type := match m.type with
      | some t => .text "Type: " ::
          (links.typeSpans t ++ [.text ((if m.isOptional then " (optional)" else "") ++ "\n\n")])
      | none => []
    anchor ++ .text ("### `" ++ m.shownName ++ "`\n\n") :: (type ++ [prose])

/-- The part of a page for one category; nothing for a category without members. -/
def sectionSpans (c : Category) (members : List MemberView) : List Span :=
  if members.isEmpty then []
  else
    let body :=
      if c = .enums then members.flatMap valueSpans ++ [.text "\n"]
      else members.flatMap (memberSpans links)
    .text ("## " ++ c.title ++ "\n\n") :: body

/-- The facts at the head of a page. -/
def factSpans (v : EntityView) : List (List Span) :=
  let optional (label : String) (value : Option (List Span)) : List (List Span) :=
    (value.map (.text label :: ·)).toList
  let code (text : String) : List Span := [.text ("`" ++ text ++ "`")]
  [.text "Type: " :: code v.kind]
    ++ optional "Module: " ((v.module.or v.component).map code)
    ++ optional "Header: " (v.header.map code)
    ++ optional "Namespace: " (v.scope.map code)
    ++ optional "Inherits: " (v.base.map links.typeSpans)
    ++ (if v.isSingleton then [[.text "Singleton"]] else [])

/-- The page of an entity. -/
def entitySpans (v : EntityView) : List Span :=
  .text ("# " ++ v.name ++ "\n\n") ::
    ((factSpans links v).flatMap (fun fact => .text "- " :: (fact ++ [.text "\n"])) ++
      .text ("\n" ++ paragraph v.description ++ paragraph v.detail) ::
        Category.all.flatMap fun c => sectionSpans links c (v.members.get c))

/-- The line of an index for a guide. -/
def guideSpans (g : Guide) : List Span :=
  [.text "- ", .link g.name (guideDirectory ++ "/" ++ g.id ++ ".md"), .text "\n"]

/-- The line of an index for an entity. -/
def entityLineSpans (v : EntityView) : List Span :=
  [.text "- ",
    .link v.name (((links.leadingTo (entityDirectory ++ "/")).href? v.id).getD ""),
    .text (remark ": " v.description ++ "\n")]

/-- The index of the pages of a language. -/
def indexSpans (title : Option String) (l : Language) (vs : List EntityView)
    (guides : List Guide) : List Span :=
  .text ("# " ++ title.getD defaultTitle ++ " (" ++ l.tag ++ ")\n\n") ::
    ((if guides.isEmpty then []
      else .text "## Guides\n\n" :: (guides.flatMap guideSpans ++ [.text "\n"])) ++
      .text "## Types\n\n" :: vs.flatMap (entityLineSpans links))

/-! ## What the spans say -/

theorem keyLine_eq (m : MemberView) : keyLine links m = markdown (keySpans links m) := by
  cases htype : m.type <;>
    simp [keyLine, keySpans, htype, links.typeText_eq, Span.markdown, String.append_assoc]

theorem parameterLines_eq (p : Parameter MemberView) :
    parameterLines links p = markdown (parameterSpans links p) := by
  simp [parameterLines, parameterSpans, links.typeText_eq, join_map_eq (keyLine_eq links),
    Span.markdown, String.append_assoc]

theorem signatureText_eq (s : Signature MemberView) :
    signatureText links s = markdown (signatureSpans links s) := by
  rw [signatureText, signatureSpans, join_map_eq (parameterLines_eq links)]
  by_cases hnone : s.parameters.isEmpty = true
  · cases hresult : s.returnType <;>
      simp [hnone, links.typeText_eq, Span.markdown, String.append_assoc]
  · cases hresult : s.returnType <;>
      simp [hnone, links.typeText_eq, Span.markdown, String.append_assoc]

theorem memberText_eq (m : MemberView) : memberText links m = markdown (memberSpans links m) := by
  have hend (text : String) : "\"></a>\n" ++ ("### `" ++ text) = "\"></a>\n### `" ++ text :=
    String.append_assoc.symm
  rw [memberText, memberSpans]
  cases m.callable with
  | some s => cases m.id <;> simp [hend, signatureText_eq, Span.markdown, String.append_assoc]
  | none =>
    cases m.id <;> cases m.type <;>
      simp [hend, links.typeText_eq, Span.markdown, String.append_assoc]

theorem sectionText_eq (c : Category) (members : List MemberView) :
    sectionText links c members = markdown (sectionSpans links c members) := by
  have hvalue (m : MemberView) : valueLine m = markdown (valueSpans m) := by
    simp [valueSpans, Span.markdown]
  rw [sectionText, sectionSpans, join_map_eq (memberText_eq links), join_map_eq hvalue]
  by_cases hnone : members.isEmpty = true
  · simp [hnone]
  · by_cases henums : c = .enums <;>
      simp [hnone, henums, Span.markdown, String.append_assoc]

theorem facts_eq (v : EntityView) : facts links v = (factSpans links v).map markdown := by
  have hoptional (label : String) (value : Option (List Span)) :
      (value.map (Span.text label :: ·)).toList.map markdown =
        ((value.map markdown).map (label ++ ·)).toList := by
    cases value <;> simp [Span.markdown]
  have hcode (value : Option String) :
      (value.map fun text => "`" ++ text ++ "`") =
        (value.map fun text => [Span.text ("`" ++ text ++ "`")]).map markdown := by
    cases value <;> simp [Span.markdown]
  have hbase : v.base.map links.typeText = (v.base.map links.typeSpans).map markdown := by
    cases v.base <;> simp [links.typeText_eq]
  have hkind : "Type: " ++ ("`" ++ v.kind ++ "`") =
      markdown [.text "Type: ", .text ("`" ++ v.kind ++ "`")] := by
    simp [Span.markdown]
  have hsingleton : (if v.isSingleton then ["Singleton"] else []) =
      (if v.isSingleton then [[Span.text "Singleton"]] else []).map markdown := by
    cases v.isSingleton <;> simp [Span.markdown]
  simp only [facts, factSpans, hcode, hbase, hkind, hsingleton, hoptional, List.map_append,
    List.map_cons, List.map_nil]

theorem entityText_eq (v : EntityView) : entityText links v = markdown (entitySpans links v) := by
  have hfacts : String.join ((facts links v).map fun fact => "- " ++ fact ++ "\n") =
      markdown ((factSpans links v).flatMap fun fact =>
        .text "- " :: (fact ++ [.text "\n"])) := by
    rw [facts_eq, List.map_map]
    exact join_map_eq (fun fact => by simp [Span.markdown, String.append_assoc]) _
  have hsections : String.join (Category.all.map fun c => sectionText links c (v.members.get c)) =
      markdown (Category.all.flatMap fun c => sectionSpans links c (v.members.get c)) :=
    join_map_eq (fun c => sectionText_eq links c _) _
  rw [entityText, entitySpans, hfacts, hsections]
  simp [Span.markdown, String.append_assoc]

theorem guideLine_eq (g : Guide) :
    "- [" ++ g.name ++ "](" ++ guideDirectory ++ "/" ++ g.id ++ ".md)\n" =
      markdown (guideSpans g) := by
  have hopen (text : String) : "- " ++ ("[" ++ text) = "- [" ++ text := String.append_assoc.symm
  simp [guideSpans, hopen, Span.markdown, String.append_assoc]

theorem entityLine_eq (v : EntityView) :
    "- [" ++ v.name ++ "](" ++
        ((links.leadingTo (entityDirectory ++ "/")).href? v.id).getD "" ++ ")" ++
        remark ": " v.description ++ "\n" =
      markdown (entityLineSpans links v) := by
  have hopen (text : String) : "- " ++ ("[" ++ text) = "- [" ++ text := String.append_assoc.symm
  simp [entityLineSpans, hopen, Span.markdown, String.append_assoc]

theorem indexText_eq (title : Option String) (l : Language) (vs : List EntityView)
    (guides : List Guide) :
    indexText title l links vs guides = markdown (indexSpans links title l vs guides) := by
  have htypes (text : String) : "\n" ++ ("## Types\n\n" ++ text) = "\n## Types\n\n" ++ text :=
    String.append_assoc.symm
  have htypes' (text : String) :
      ")\n\n" ++ ("## Types\n\n" ++ text) = ")\n\n## Types\n\n" ++ text :=
    String.append_assoc.symm
  rw [indexText, indexSpans]
  dsimp only
  rw [join_map_eq guideLine_eq, join_map_eq (entityLine_eq links)]
  cases guides.isEmpty <;> simp [htypes, htypes', Span.markdown, String.append_assoc]

end Page

/-! ## Links and anchors -/

namespace Links

open Page (Span)

/-- A span that a type is written with: words, or a link to an id that has a page. -/
inductive TypeSpan (links : Links) : Span → Prop
  | text (s : String) : TypeSpan links (.text s)
  | link {label target : String} (id : String) : links.href? id = some target →
      TypeSpan links (.link label target)

variable (links : Links)

theorem typeSpan_nameSpan (name : String) (id : Option String) :
    links.TypeSpan (links.nameSpan name id) := by
  rw [nameSpan]
  split
  · next href hhref =>
    obtain ⟨id, -, hid⟩ := Option.bind_eq_some_iff.mp hhref
    exact .link id hid
  · exact .text _

variable {links}

theorem typeSpan_argumentSpans {element : Option (List Span)} {args : List (List Span)}
    (helement : ∀ spans ∈ element, ∀ span ∈ spans, links.TypeSpan span)
    (hargs : ∀ spans ∈ args, ∀ span ∈ spans, links.TypeSpan span) :
    ∀ span ∈ argumentSpans element args, links.TypeSpan span := by
  have hbetween : ∀ span ∈ [Span.text ", "].intercalate args, links.TypeSpan span := by
    induction args with
    | nil => simp
    | cons spans args ih =>
      obtain ⟨hspans, hrest⟩ := List.forall_mem_cons.mp hargs
      cases args with
      | nil => simpa using hspans
      | cons spans' args =>
        rw [List.intercalate_cons_cons]
        refine List.forall_mem_append.mpr ⟨List.forall_mem_append.mpr ⟨hspans, ?_⟩, ih hrest⟩
        exact List.forall_mem_singleton.mpr (.text _)
  have hbrackets {spans : List Span} (h : ∀ span ∈ spans, links.TypeSpan span) :
      ∀ span ∈ .text "<" :: (spans ++ [.text ">"]), links.TypeSpan span :=
    List.forall_mem_cons.mpr ⟨.text _,
      List.forall_mem_append.mpr ⟨h, List.forall_mem_singleton.mpr (.text _)⟩⟩
  cases element with
  | some spans => exact hbrackets (helement spans rfl)
  | none =>
    rw [argumentSpans]
    split
    · exact List.forall_mem_nil _
    · exact hbrackets hbetween

mutual

theorem typeSpan_typeSpans : ∀ (t : MappedType), ∀ span ∈ links.typeSpans t, links.TypeSpan span
  | ⟨name, id, nullable, element, args⟩ => by
    rw [typeSpans]
    refine List.forall_mem_cons.mpr ⟨links.typeSpan_nameSpan name id,
      List.forall_mem_append.mpr ⟨?_, ?_⟩⟩
    · exact typeSpan_argumentSpans (typeSpan_elementSpans element) (typeSpan_typesSpans args)
    · cases nullable with
      | false => exact List.forall_mem_nil _
      | true => exact List.forall_mem_singleton.mpr (.text _)

theorem typeSpan_elementSpans : ∀ (element : Option MappedType),
    ∀ spans ∈ links.elementSpans element, ∀ span ∈ spans, links.TypeSpan span
  | none => by
    rw [elementSpans]
    exact fun _ h => nomatch h
  | some t => by
    rw [elementSpans]
    rintro _ ⟨⟩
    exact typeSpan_typeSpans t

theorem typeSpan_typesSpans : ∀ (args : List MappedType),
    ∀ spans ∈ links.typesSpans args, ∀ span ∈ spans, links.TypeSpan span
  | [] => by
    rw [typesSpans]
    exact List.forall_mem_nil _
  | t :: rest => by
    rw [typesSpans]
    exact List.forall_mem_cons.mpr ⟨typeSpan_typeSpans t, typeSpan_typesSpans rest⟩

end

end Links

namespace Page

variable {links : Links}

theorem typeSpan_keySpans (m : MemberView) : ∀ span ∈ keySpans links m, links.TypeSpan span := by
  have htype : ∀ span ∈ (m.type.map links.typeSpans).getD [], links.TypeSpan span := by
    cases m.type with
    | none => exact List.forall_mem_nil _
    | some t => exact Links.typeSpan_typeSpans t
  exact List.forall_mem_cons.mpr ⟨.text _, List.forall_mem_append.mpr
    ⟨htype, List.forall_mem_singleton.mpr (.text _)⟩⟩

theorem typeSpan_parameterSpans (p : Parameter MemberView) :
    ∀ span ∈ parameterSpans links p, links.TypeSpan span := by
  refine List.forall_mem_cons.mpr ⟨.text _, List.forall_mem_append.mpr
    ⟨Links.typeSpan_typeSpans p.type, List.forall_mem_cons.mpr ⟨.text _, fun span hspan => ?_⟩⟩⟩
  obtain ⟨m, -, hspan⟩ := List.mem_flatMap.mp hspan
  exact typeSpan_keySpans m span hspan

theorem typeSpan_signatureSpans (s : Signature MemberView) :
    ∀ span ∈ signatureSpans links s, links.TypeSpan span := by
  refine List.forall_mem_append.mpr ⟨?_, ?_⟩
  · split
    · exact List.forall_mem_nil _
    · refine List.forall_mem_cons.mpr ⟨.text _, List.forall_mem_append.mpr
        ⟨fun span hspan => ?_, List.forall_mem_singleton.mpr (.text _)⟩⟩
      obtain ⟨p, -, hspan⟩ := List.mem_flatMap.mp hspan
      exact typeSpan_parameterSpans p span hspan
  · split
    · exact List.forall_mem_cons.mpr ⟨.text _, List.forall_mem_append.mpr
        ⟨Links.typeSpan_typeSpans _, List.forall_mem_singleton.mpr (.text _)⟩⟩
    · exact List.forall_mem_nil _

/-- A member begins with its anchor. -/
theorem exists_memberSpans (links : Links) (m : MemberView) :
    ∃ rest, memberSpans links m = m.id.toList.map .anchor ++ rest ∧
      ∀ span ∈ rest, links.TypeSpan span := by
  rw [memberSpans]
  cases m.callable with
  | some s =>
    exact ⟨_, rfl, List.forall_mem_cons.mpr ⟨.text _, List.forall_mem_cons.mpr
      ⟨.text _, typeSpan_signatureSpans s⟩⟩⟩
  | none =>
    refine ⟨_, rfl, List.forall_mem_cons.mpr ⟨.text _, List.forall_mem_append.mpr
      ⟨?_, List.forall_mem_singleton.mpr (.text _)⟩⟩⟩
    cases m.type with
    | none => exact List.forall_mem_nil _
    | some t =>
      exact List.forall_mem_cons.mpr ⟨.text _, List.forall_mem_append.mpr
        ⟨Links.typeSpan_typeSpans t, List.forall_mem_singleton.mpr (.text _)⟩⟩

theorem typeSpan_factSpans (v : EntityView) :
    ∀ fact ∈ factSpans links v, ∀ span ∈ fact, links.TypeSpan span := by
  have hoptional (label : String) {value : Option (List Span)}
      (h : ∀ spans ∈ value, ∀ span ∈ spans, links.TypeSpan span) :
      ∀ fact ∈ (value.map (Span.text label :: ·)).toList, ∀ span ∈ fact, links.TypeSpan span := by
    cases value with
    | none => exact List.forall_mem_nil _
    | some spans =>
      exact List.forall_mem_singleton.mpr (List.forall_mem_cons.mpr ⟨.text _, h spans rfl⟩)
  have hcode (value : Option String) :
      ∀ spans ∈ value.map fun text => [Span.text ("`" ++ text ++ "`")],
        ∀ span ∈ spans, links.TypeSpan span := by
    cases value with
    | none => exact fun _ h => nomatch h
    | some text =>
      rintro _ ⟨⟩
      exact List.forall_mem_singleton.mpr (.text _)
  have hbase : ∀ spans ∈ v.base.map links.typeSpans, ∀ span ∈ spans, links.TypeSpan span := by
    cases v.base with
    | none => exact fun _ h => nomatch h
    | some t =>
      rintro _ ⟨⟩
      exact Links.typeSpan_typeSpans t
  have hkind : ∀ span ∈ [Span.text "Type: ", .text ("`" ++ v.kind ++ "`")],
      links.TypeSpan span :=
    List.forall_mem_cons.mpr ⟨.text _, List.forall_mem_singleton.mpr (.text _)⟩
  have hsingleton : ∀ fact ∈ if v.isSingleton then [[Span.text "Singleton"]] else [],
      ∀ span ∈ fact, links.TypeSpan span := by
    split
    · exact List.forall_mem_singleton.mpr (List.forall_mem_singleton.mpr (.text _))
    · exact List.forall_mem_nil _
  simp only [factSpans, List.forall_mem_append]
  exact ⟨⟨⟨⟨⟨List.forall_mem_singleton.mpr hkind, hoptional _ (hcode _)⟩, hoptional _ (hcode _)⟩,
    hoptional _ (hcode _)⟩, hoptional _ hbase⟩, hsingleton⟩

theorem mem_memberSpans {m : MemberView} {span : Span} (h : span ∈ memberSpans links m) :
    links.TypeSpan span ∨ ∃ id, span = .anchor id := by
  obtain ⟨rest, hspans, hrest⟩ := exists_memberSpans links m
  rw [hspans] at h
  rcases List.mem_append.mp h with h | h
  · obtain ⟨id, -, rfl⟩ := List.mem_map.mp h
    exact .inr ⟨id, rfl⟩
  · exact .inl (hrest span h)

theorem mem_sectionSpans {c : Category} {members : List MemberView} {span : Span}
    (h : span ∈ sectionSpans links c members) :
    links.TypeSpan span ∨ ∃ id, span = .anchor id := by
  rw [sectionSpans] at h
  split at h
  · cases h
  · rcases List.mem_cons.mp h with rfl | h
    · exact .inl (.text _)
    · split at h
      · rcases List.mem_append.mp h with h | h
        · obtain ⟨m, -, h⟩ := List.mem_flatMap.mp h
          obtain rfl := List.mem_singleton.mp h
          exact .inl (.text _)
        · obtain rfl := List.mem_singleton.mp h
          exact .inl (.text _)
      · obtain ⟨m, -, h⟩ := List.mem_flatMap.mp h
        exact mem_memberSpans h

/-- The page of an entity is what is said of it and then the sections of its members. -/
theorem exists_entitySpans (links : Links) (v : EntityView) :
    ∃ front, entitySpans links v =
        front ++ Category.all.flatMap (fun c => sectionSpans links c (v.members.get c)) ∧
      ∀ span ∈ front, links.TypeSpan span := by
  have hfacts : ∀ span ∈ (factSpans links v).flatMap fun fact =>
      .text "- " :: (fact ++ [.text "\n"]), links.TypeSpan span := by
    intro span hspan
    obtain ⟨fact, hfact, hspan⟩ := List.mem_flatMap.mp hspan
    refine List.forall_mem_cons.mpr ⟨.text _, List.forall_mem_append.mpr
      ⟨typeSpan_factSpans v fact hfact, List.forall_mem_singleton.mpr (.text _)⟩⟩ span hspan
  refine ⟨.text _ :: ((factSpans links v).flatMap (fun fact => .text "- " :: (fact ++ [.text "\n"]))
    ++ [.text _]), by rw [entitySpans, List.cons_append, List.append_assoc]; rfl, ?_⟩
  exact List.forall_mem_cons.mpr ⟨.text _, List.forall_mem_append.mpr
    ⟨hfacts, List.forall_mem_singleton.mpr (.text _)⟩⟩

/-- On the page of an entity there is nothing but anchors and what types are written with. -/
theorem mem_entitySpans {v : EntityView} {span : Span} (h : span ∈ entitySpans links v) :
    links.TypeSpan span ∨ ∃ id, span = .anchor id := by
  obtain ⟨front, hspans, hfront⟩ := exists_entitySpans links v
  rw [hspans] at h
  rcases List.mem_append.mp h with h | h
  · exact .inl (hfront span h)
  · obtain ⟨c, -, h⟩ := List.mem_flatMap.mp h
    exact mem_sectionSpans h

/-! ### Anchors -/

def Span.anchor? : Span → Option String
  | anchor id => some id
  | _ => none

/-- The anchors among spans. -/
def anchors (spans : List Span) : List String :=
  spans.filterMap Span.anchor?

theorem anchors_append (spans more : List Span) :
    anchors (spans ++ more) = anchors spans ++ anchors more :=
  List.filterMap_append

theorem anchors_flatMap {α : Type} (f : α → List Span) (items : List α) :
    anchors (items.flatMap f) = items.flatMap fun a => anchors (f a) :=
  List.filterMap_flatMap

/-- Types have no anchors. -/
theorem anchors_eq_nil {spans : List Span} (h : ∀ span ∈ spans, links.TypeSpan span) :
    anchors spans = [] := by
  refine List.filterMap_eq_nil_iff.mpr fun span hspan => ?_
  cases h span hspan with
  | text s => rfl
  | link id hid => rfl

/-- The anchor of a member is its id. -/
theorem anchors_memberSpans (m : MemberView) : anchors (memberSpans links m) = m.id.toList := by
  obtain ⟨rest, hspans, hrest⟩ := exists_memberSpans links m
  rw [hspans, anchors_append, anchors_eq_nil hrest, List.append_nil]
  cases m.id <;> rfl

/-- The anchors of a category: none for enumerated values. -/
def sectionAnchors (c : Category) (members : List MemberView) : List String :=
  if c = .enums then [] else members.filterMap (·.id)

theorem anchors_sectionSpans (c : Category) (members : List MemberView) :
    anchors (sectionSpans links c members) = sectionAnchors c members := by
  rw [sectionSpans, sectionAnchors]
  cases members with
  | nil => simp [anchors]
  | cons m members =>
    rw [if_neg (by simp)]
    show anchors (if c = .enums then _ else _) = _
    split
    · have hvalues : anchors ((m :: members).flatMap valueSpans) = [] := by
        rw [anchors_flatMap]
        exact List.flatMap_eq_nil_iff.mpr fun m _ => rfl
      rw [anchors_append, hvalues]
      rfl
    · rw [anchors_flatMap, List.filterMap_eq_flatMap_toList]
      exact congrArg (List.flatMap · _) (funext fun m => anchors_memberSpans m)

/-- The anchors of a page are the ids of the members on it that are no enumerated values. -/
theorem anchors_entitySpans (v : EntityView) :
    anchors (entitySpans links v) =
      Category.all.flatMap fun c => sectionAnchors c (v.members.get c) := by
  obtain ⟨front, hspans, hfront⟩ := exists_entitySpans links v
  rw [hspans, anchors_append, anchors_eq_nil hfront, List.nil_append, anchors_flatMap]
  exact congrArg (List.flatMap · _) (funext fun c => anchors_sectionSpans c _)

end Page

end ApiSurface
