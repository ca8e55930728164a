import ApiSurface.Proofs.DeclarationParts
import ApiSurface.Proofs.OneLineTexts
import ApiSurface.Proofs.SharedAnchors

/-!
# Members in the declaration file

Between its braces a declaration has one line for each of certain members, category by category and
in the order of the descriptor (`listed`): those that exist in JavaScript, without abstract
methods and without methods and callbacks that have no signature to write. Nothing else stands there
but the constructor of a class (`entityText?_lists`).

That no line is lost or broken in two rests on there being no line feed in the texts of the
descriptor. Lines are indented after they are joined, and what is cut at line feeds there are the
lines again (`indent_unlines`).
-/

namespace ApiSurface

open Text (OneLine)

/-! ## Lines -/

namespace Declaration

/-- A text on one line that is not blank. -/
structure IsLine (line : String) : Prop where
  single : OneLine line.toList
  visible : ∃ c ∈ line.toList, Text.isBlank c = false

variable {lines : List String}

theorem lineRuns_unlines (h : ∀ line ∈ lines, IsLine line) :
    Text.lineRuns (unlines lines).toList = lines.map fun line => line.toList ++ ['\n'] := by
  induction lines with
  | nil => rfl
  | cons line lines ih =>
    obtain ⟨hline, hlines⟩ := List.forall_mem_cons.mp h
    have htext : (unlines (line :: lines)).toList
        = line.toList ++ '\n' :: (unlines lines).toList := by
      simp [unlines]
    rw [htext, Text.lineRuns_append hline.single, ih hlines, List.map_cons]

/-- A line as it stands between braces. -/
def indented (line : String) : String :=
  "  " ++ line ++ "\n"

/-- Joined lines are indented one by one. -/
theorem indent_unlines (h : ∀ line ∈ lines, IsLine line) :
    indent (unlines lines) = String.join (lines.map indented) := by
  rw [← String.toList_inj, indent, String.toList_ofList, lineRuns_unlines h, List.flatMap_map,
    String.toList_join, List.flatMap_map]
  refine List.flatMap_congr fun line hline => ?_
  -- a run with no more than blanks would stay as it is
  obtain ⟨c, hc, hblank⟩ := (h line hline).visible
  have hvisible := Text.trim_ne_nil (List.mem_append_left ['\n'] hc) hblank
  simp [indented, hvisible]

/-! ## The lines of a view -/

/-- The categories whose members a declaration lists, in its order. -/
def listedCategories : List Category :=
  [.classProperties, .classMethods, .methods, .properties, .delegates, .events]

/-- What a line in a category begins with. -/
def staticMark : Category → String
  | .classProperties | .classMethods => "static "
  | _ => ""

/-- What a line for a member says behind that, if the member has a line. -/
def bareLine? (r : TypeTextRules) (c : Category) (v : MemberView) : Option String :=
  match c with
  | .classProperties | .properties => some (propertyLine r v)
  | .classMethods => methodLine? r v
  | .methods => if v.isAbstract then none else methodLine? r v
  | .delegates => delegateLine? r v
  | .events => some (eventLine v)
  | .globalFunctions | .constructors | .enums => none

/-- The line for a member of a category, if it has one. -/
def lineIn? (r : TypeTextRules) (c : Category) (v : MemberView) : Option String :=
  (bareLine? r c v).map (staticMark c ++ ·)

variable {r : TypeTextRules}

theorem lineIn?_of_staticMark {c : Category} (h : staticMark c = "") :
    lineIn? r c = bareLine? r c := by
  funext v
  simp [lineIn?, h]

/-- The lines of members are written category by category. -/
theorem memberLines_eq (members : Sections MemberView) :
    memberLines r members =
      listedCategories.flatMap fun c => (members.get c).filterMap (lineIn? r c) := by
  have hclassProperties : members.classProperties.map (fun v => "static " ++ propertyLine r v)
      = members.classProperties.filterMap (lineIn? r .classProperties) := by
    rw [← List.filterMap_eq_map]
    rfl
  have hclassMethods : (members.classMethods.filterMap (methodLine? r)).map ("static " ++ ·)
      = members.classMethods.filterMap (lineIn? r .classMethods) :=
    List.map_filterMap
  have hmethods : (members.methods.filter (!·.isAbstract)).filterMap (methodLine? r)
      = members.methods.filterMap (lineIn? r .methods) := by
    rw [lineIn?_of_staticMark rfl, List.filterMap_filter]
    refine List.filterMap_congr fun v _ => ?_
    rw [bareLine?]
    cases v.isAbstract <;> rfl
  have hproperties : members.properties.map (propertyLine r)
      = members.properties.filterMap (lineIn? r .properties) := by
    rw [lineIn?_of_staticMark rfl, ← List.filterMap_eq_map]
    rfl
  have hdelegates : members.delegates.filterMap (delegateLine? r)
      = members.delegates.filterMap (lineIn? r .delegates) := by
    rw [lineIn?_of_staticMark rfl]
    rfl
  have hevents : members.events.map eventLine
      = members.events.filterMap (lineIn? r .events) := by
    rw [lineIn?_of_staticMark rfl, ← List.filterMap_eq_map]
    rfl
  rw [memberLines, hclassProperties, hclassMethods, hmethods, hproperties, hdelegates, hevents]
  -- both sides now are the same six lists, joined
  simp only [listedCategories, List.flatMap_cons, List.flatMap_nil, List.append_nil,
    List.append_assoc]
  rfl

/-! ## What a line says -/

theorem isLine_semicolon {text : String} (h : OneLine text.toList) : IsLine (text ++ ";") := by
  refine ⟨?_, ';', by simp, by decide⟩
  rw [String.toList_append, Text.oneLine_append_iff]
  exact ⟨h, by decide⟩

/-- The text `line` is `name` with more on the same line behind it. -/
def Extends (name line : String) : Prop :=
  ∃ rest, line = name ++ rest ∧ IsLine rest

variable {v : MemberView} {line : String}

theorem propertyLine_extends (hr : r.OneLine) (hv : v.OneLine) :
    Extends v.shownName (propertyLine r v) := by
  obtain ⟨type, htype, hline⟩ : ∃ type : String, OneLine type.toList ∧ propertyLine r v =
      v.shownName ++ (if v.isOptional then "?" else "") ++ ": " ++ type ++ ";" := by
    unfold propertyLine
    cases h : v.type with
    | none => exact ⟨"any", by decide, rfl⟩
    | some t => exact ⟨_, TypeTextRules.typeText_oneLine hr (hv.type t h), rfl⟩
  refine ⟨(if v.isOptional then "?" else "") ++ ": " ++ type ++ ";", ?_, isLine_semicolon ?_⟩
  · rw [hline]
    simp only [String.append_assoc]
  · simp only [String.toList_append, Text.oneLine_append_iff]
    exact ⟨⟨by cases v.isOptional <;> decide, by decide⟩, htype⟩

theorem eventLine_extends : Extends v.shownName (eventLine v) :=
  ⟨": any;", rfl, by decide, ';', by decide, by decide⟩

theorem methodLine?_extends (hr : r.OneLine) (hv : v.OneLine) (h : methodLine? r v = some line) :
    Extends v.shownName line := by
  obtain ⟨s, hs, rfl⟩ := Option.map_eq_some_iff.mp h
  have hcallable : v.callable = some s := by rw [MemberView.callable, hs, Option.some_or]
  rw [MemberView.shownName, hcallable]
  refine ⟨_, String.append_assoc, isLine_semicolon ?_⟩
  exact TypeTextRules.methodText_oneLine hr (hv.callable s hcallable)

theorem delegateLine?_extends (hr : r.OneLine) (hv : v.OneLine)
    (h : delegateLine? r v = some line) : Extends v.shownName line := by
  obtain ⟨s, hs, rfl⟩ := Option.map_eq_some_iff.mp h
  rw [MemberView.shownName, hs]
  refine ⟨": " ++ r.arrowText s ++ ";", by simp only [String.append_assoc], isLine_semicolon ?_⟩
  rw [String.toList_append, Text.oneLine_append_iff]
  exact ⟨by decide, TypeTextRules.arrowText_oneLine hr (hv.callable s hs)⟩

/-- A line begins with the name that is shown of the member. -/
theorem bareLine?_extends (hr : r.OneLine) (hv : v.OneLine) {c : Category}
    (h : bareLine? r c v = some line) : Extends v.shownName line := by
  cases c with
  | classProperties | properties =>
    obtain rfl := Option.some.inj h
    exact propertyLine_extends hr hv
  | classMethods => exact methodLine?_extends hr hv h
  | methods =>
    have h : (if v.isAbstract then none else methodLine? r v) = some line := h
    split at h
    · cases h
    · exact methodLine?_extends hr hv h
  | delegates => exact delegateLine?_extends hr hv h
  | events =>
    obtain rfl := Option.some.inj h
    exact eventLine_extends
  | globalFunctions | constructors | enums => cases h

end Declaration

/-! ## The members of a descriptor -/

/-- The name under which a language shows a member: the canonical name of a function or a property
in its own case, and the plain name of any other member. -/
inductive Member.ShownAs (l : Language) (m : Member) : String → Prop
  | function {text : String} {c : Signature Empty} : m.definition.functionText? = some text →
      Signature.parse .cpp text = .ok c → m.ShownAs l (Identifier.converted l c.name)
  | property {text : String} {c : Parameter Empty} : m.definition = .property text →
      Parameter.parse .cpp text = .ok c → m.ShownAs l (Identifier.converted l c.name)
  | plain : m.definition = .plain → m.ShownAs l (m.name.getD "")

variable {l : Language} {m : Member}

theorem readDocumented_shows {text : String} {notes : List (String × ParameterNote)}
    {s : Signature MemberView} (h : readDocumented l text notes = .ok s) :
    ∃ c : Signature Empty, Signature.parse .cpp text = .ok c ∧
      s.name = Identifier.converted l c.name := by
  rw [readDocumented_eq] at h
  obtain ⟨plain, hplain, h⟩ := bind_eq_ok.mp h
  obtain ⟨ps, -, rfl⟩ := map_eq_ok.mp h
  obtain ⟨c, hc, hshows⟩ := Signature.exists_parse_cpp Empty hplain
  exact ⟨c, hc, hshows.name⟩

theorem Member.shownAs_of_view {v : MemberView} (h : m.view l = .ok v) :
    m.ShownAs l v.shownName := by
  cases viewedAs h with
  | signature hdefinition _ hs | callback hdefinition _ hs =>
    obtain ⟨c, hc, hname⟩ := readDocumented_shows hs
    have hshown := ShownAs.function (l := l) (congrArg _ hdefinition) hc
    rwa [← hname] at hshown
  | property hdefinition _ hp =>
    obtain ⟨c, hc, hname⟩ := Parameter.exists_parse_cpp Empty hp
    have hshown := ShownAs.property (l := l) hdefinition hc
    rwa [← hname] at hshown
  | plain hdefinition => exact .plain hdefinition

/-- A signature counts before everything else. -/
theorem Member.signature_eq (m : Member) :
    m.signature = match m.definition with
      | .signature text => some text
      | _ => none := by
  rw [definition]
  cases m.signature <;> cases m.property <;> cases m.callback <;> rfl

/-- A view keeps what its member is. -/
theorem Member.isSome_of_view {v : MemberView} (h : m.view l = .ok v) :
    v.signature.isSome = m.signature.isSome ∧
      v.callable.isSome = m.definition.functionText?.isSome ∧ v.isAbstract = m.isAbstract := by
  rw [m.signature_eq]
  cases viewedAs h with
  | signature hdefinition _ _ | callback hdefinition _ _ | property hdefinition _ _
  | plain hdefinition =>
    rw [hdefinition]
    exact ⟨rfl, rfl, rfl⟩

namespace Declaration

/-- Whether a declaration lists a member of a category. What the member is counts, so a callback
that is given beside a property is none. -/
def isListed (c : Category) (m : Member) : Bool :=
  match c with
  | .classProperties | .properties | .events => true
  | .classMethods => m.signature.isSome
  | .methods => m.signature.isSome && !m.isAbstract
  | .delegates => m.definition.functionText?.isSome
  | .globalFunctions | .constructors | .enums => false

variable {r : TypeTextRules} {c : Category} {v : MemberView} {line : String}

/-- The members that are listed are those that have a line. -/
theorem isSome_lineIn? (h : m.view .js = .ok v) : (lineIn? r c v).isSome = isListed c m := by
  obtain ⟨hsignature, hcallable, habstract⟩ := Member.isSome_of_view h
  have hmethod : (methodLine? r v).isSome = m.signature.isSome := by
    rw [methodLine?, Option.isSome_map, hsignature]
  rw [lineIn?, Option.isSome_map]
  cases c with
  | classProperties | properties | events => rfl
  | classMethods => exact hmethod
  | methods =>
    unfold bareLine? isListed
    rw [habstract, ← hmethod]
    cases m.isAbstract <;> simp
  | delegates =>
    unfold bareLine? isListed
    rw [delegateLine?, Option.isSome_map, hcallable]
  | globalFunctions | constructors | enums => rfl

/-- The text `line` is the line of a member of a category: a single one, written for its view, and
beginning with the name that JavaScript shows. -/
structure IsLineOf (r : TypeTextRules) (c : Category) (m : Member) (line : String) : Prop where
  written : ∃ v name rest, m.view .js = .ok v ∧ lineIn? r c v = some line ∧
    line = staticMark c ++ (name ++ rest) ∧ name = v.shownName ∧ m.ShownAs .js name
  isLine : IsLine line

theorem isLineOf_of_view (hr : r.OneLine) (hm : m.OneLine) (h : m.view .js = .ok v)
    (hline : lineIn? r c v = some line) : IsLineOf r c m line := by
  obtain ⟨bare, hbare, rfl⟩ := Option.map_eq_some_iff.mp hline
  have hv := Member.view_oneLine hm h
  obtain ⟨rest, rfl, hrest⟩ := bareLine?_extends hr hv hbare
  refine ⟨⟨v, v.shownName, rest, h, hline, rfl, rfl, Member.shownAs_of_view h⟩, ?_, ?_⟩
  · simp only [String.toList_append, Text.oneLine_append_iff]
    exact ⟨by cases c <;> decide, hv.shownName, hrest.single⟩
  · obtain ⟨d, hd, hblank⟩ := hrest.visible
    exact ⟨d, by simp [hd], hblank⟩

/-! ## The declaration of a descriptor -/

/-- The members that the declaration of an entity lists, each with its category: of those that exist
in JavaScript, category by category and in their order. -/
def listed (e : Entity) : List (Category × Member) :=
  listedCategories.flatMap fun c =>
    ((retainedMembers .js (e.descriptor.members.get c)).filter (isListed c)).map (c, ·)

/-- Lists are related when what is kept of one is related to what is made of the other. -/
theorem forall₂_filter {α β γ : Type} {R : α → β → Prop} {p : α → Bool} {f : β → Option γ}
    {P : α → γ → Prop} {as : List α} {bs : List β} (h : List.Forall₂ R as bs)
    (hkept : ∀ a b, R a b → (f b).isSome = p a)
    (hP : ∀ a ∈ as, ∀ b c, R a b → f b = some c → P a c) :
    List.Forall₂ P (as.filter p) (bs.filterMap f) := by
  induction h with
  | nil => exact .nil
  | @cons a b as bs hab _ ih =>
    obtain ⟨hhead, htail⟩ := List.forall_mem_cons.mp hP
    have hkept := hkept a b hab
    rw [List.filter_cons, List.filterMap_cons]
    cases hf : f b with
    | none =>
      rw [hf] at hkept
      rw [if_neg (by simp [← hkept])]
      exact ih htail
    | some c =>
      rw [hf] at hkept
      rw [if_pos (by simp [← hkept])]
      exact .cons (hhead b c hab hf) (ih htail)

theorem forall₂_flatMap {ι α β : Type} {P : α → β → Prop} {f : ι → List α} {g : ι → List β}
    (h : ∀ i, List.Forall₂ P (f i) (g i)) (is : List ι) :
    List.Forall₂ P (is.flatMap f) (is.flatMap g) := by
  induction is with
  | nil => exact .nil
  | cons i is ih => exact List.rel_append (h i) ih

end Declaration

/-- An entity whose members have canonical texts and names on one line. -/
def Entity.OneLine (e : Entity) : Prop :=
  ∀ c, ∀ m ∈ e.descriptor.members.get c, m.OneLine

namespace Declaration

variable {rules : ViewRules} {e : Entity} {w : EntityView}

/-- There is one line for each listed member. -/
theorem forall₂_listed (hr : r.OneLine) (he : e.OneLine)
    (h : e.view rules .js = .ok (some w)) :
    List.Forall₂ (fun member line => IsLineOf r member.1 member.2 line)
      (listed e) (memberLines r w.members) := by
  rw [memberLines_eq, listed]
  refine forall₂_flatMap (fun c => ?_) listedCategories
  rw [List.forall₂_map_left_iff]
  refine forall₂_filter (Entity.forall₂_view h c) (fun m v hv => isSome_lineIn? hv) ?_
  intro m hm v line hv hline
  exact isLineOf_of_view hr (he c m (List.mem_of_mem_filter hm)) hv hline

/-- A declaration with these lines between its braces. -/
def textWith (isInterface : Bool) (v : EntityView) (lines : List String) : String :=
  partsText (headingParts isInterface v)
    ++ (bracesText (String.join (lines.map indented)) ++ partsText (constantParts v))

theorem structureText_eq_textWith (isInterface : Bool)
    (h : ∀ line ∈ memberLines r w.members, IsLine line) :
    structureText r isInterface w
      = textWith isInterface w (constructorLines isInterface ++ memberLines r w.members) := by
  have hconstructor : ∀ line ∈ constructorLines isInterface, IsLine line := by
    cases isInterface with
    | true => exact fun line hline => (nomatch hline)
    | false =>
      refine List.forall_mem_singleton.mpr ⟨by decide, ';', by decide, by decide⟩
  rw [structureText_eq, structureParts, partsText_append, partsText_cons, textWith, bodyLines,
    indent_unlines (List.forall_mem_append.mpr ⟨hconstructor, h⟩)]
  rfl

/-- An entity with members of its own rather than of its objects has them in JavaScript. -/
theorem hasStatics_iff (h : e.view rules .js = .ok (some w)) :
    w.hasStatics = false ↔
      retainedMembers .js (e.descriptor.members.get .classMethods) = [] ∧
        retainedMembers .js (e.descriptor.members.get .classProperties) = [] := by
  have hmethods := (Entity.forall₂_view h .classMethods).length_eq
  have hproperties := (Entity.forall₂_view h .classProperties).length_eq
  rw [EntityView.hasStatics, Bool.or_eq_false_iff, Bool.not_eq_false', Bool.not_eq_false',
    List.isEmpty_iff, List.isEmpty_iff, ← List.length_eq_zero_iff, ← List.length_eq_zero_iff,
    ← List.length_eq_zero_iff, ← List.length_eq_zero_iff, hmethods, hproperties]
  rfl

/-- **A declaration lists the members that exist in JavaScript**: let an entity be a class or plain
data to scripts, and not the one that the interface of signals stands for. Then between the braces
of its declaration stand the constructor, if it is declared as a class, and one line for each listed
member; and it is declared as a class unless it is plain data without static members. -/
theorem entityText?_lists (hr : r.OneLine) (he : e.OneLine) (hname : e.descriptor.name ≠ signalName)
    (hkind : rules.kindOf e.descriptor.kind e.descriptor.name = .classType ∨
      rules.kindOf e.descriptor.kind e.descriptor.name = .object)
    (h : e.view rules .js = .ok (some w)) :
    ∃ isInterface lines,
      entityText? r w = some (textWith isInterface w (constructorLines isInterface ++ lines)) ∧
      List.Forall₂ (fun member line => IsLineOf r member.1 member.2 line) (listed e) lines ∧
      (isInterface = true ↔
        rules.kindOf e.descriptor.kind e.descriptor.name = .object ∧
          retainedMembers .js (e.descriptor.members.get .classMethods) = [] ∧
          retainedMembers .js (e.descriptor.members.get .classProperties) = []) := by
  have hviewed := Entity.viewedAs h
  have hlines := forall₂_listed hr he h
  have hisLine : ∀ line ∈ memberLines r w.members, IsLine line :=
    ((List.forall₂_and_left _ _).mp (hlines.flip.imp fun _ _ hline => ⟨hline.isLine, hline⟩)).1
  have hkind? : w.kind? = some (rules.kindOf e.descriptor.kind e.descriptor.name) := by
    rw [EntityView.kind?, hviewed.kind]
    exact EntityKind.ofLabel?_label _ .js
  rw [entityText?, if_neg (hviewed.name ▸ hname), hkind?]
  rcases hkind with hkind | hkind
  · rw [hkind]
    exact ⟨false, _, congrArg some (structureText_eq_textWith false hisLine), hlines, by simp⟩
  · rw [hkind]
    refine ⟨!w.hasStatics, _, congrArg some (structureText_eq_textWith _ hisLine), hlines, ?_⟩
    rw [Bool.not_eq_true', hasStatics_iff h, eq_self_iff_true, true_and]

/-- Of a class with a constructor, an abstract method and a method for other languages, a static
method, one other method and an event are listed. -/
theorem entityText?_lists_button :
    let native : LanguageSet := { lua := true }
    let e : Entity := ⟨"button",
      { name := "Button"
        kind := "refcounted"
        members :=
          { constructors := [{ signature := some "Button()" }]
            classMethods := [{ signature := some "void Create()" }]
            methods :=
              [{ signature := some "void Draw()", isAbstract := true },
                { signature := some "void Set_Title()" },
                { signature := some "void Native()", languages := some native }]
            events := [{ signature := some "void on_click()" }] } }⟩
    ∃ v isInterface lines, e.view {} .js = .ok (some v) ∧
      entityText? {} v = some (textWith isInterface v (constructorLines isInterface ++ lines)) ∧
      List.Forall₂ (fun member line => IsLineOf {} member.1 member.2 line) (listed e) lines ∧
      (listed e).map (fun member => (member.1, member.2.signature)) =
        [(.classMethods, some "void Create()"), (.methods, some "void Set_Title()"),
          (.events, some "void on_click()")] := by
  intro native e
  have hrules : TypeTextRules.OneLine {} := by
    intro position
    cases position <;> decide
  have he : e.OneLine := by
    have hmembers : ∀ c, ∀ m ∈ e.descriptor.members.get c,
        m.callback = none ∧ m.property = none ∧ m.name = none ∧
          ∀ text ∈ m.signature, OneLine text.toList := by
      intro c
      cases c <;> decide
    intro c m hm
    obtain ⟨hcallback, hproperty, hplain, hsignature⟩ := hmembers c m hm
    exact ⟨hsignature, by simp [hcallback], by simp [hproperty], by simp [hplain]⟩
  obtain ⟨v, hv⟩ : ∃ v, e.view {} .js = .ok (some v) := ⟨_, rfl⟩
  obtain ⟨isInterface, lines, htext, hlines, -⟩ :=
    entityText?_lists hrules he (by decide) (.inl (by decide)) hv
  exact ⟨v, isInterface, lines, hv, htext, hlines, by rfl⟩

end Declaration

end ApiSurface
