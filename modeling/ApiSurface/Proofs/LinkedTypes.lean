import ApiSurface.Proofs.LinkedPages
import ApiSurface.Proofs.TypeMapping

/-!
# Links of types that name an entity

A type that stands for a name, whatever marks, smart pointers and optionals there are around it,
maps to the id that is made from the name. Pages have the stems of files for ids. So the type links
to the page of an entity exactly when the file of the entity has the id of the name for its stem
(`linked_iff_stem`); a name that no file was called by stands as code.
-/

namespace ApiSurface

variable {l : Language} {n : ScopedName} {t : TypeExpr} {m : MappedType}

/-! ## Types that stand for a name -/

/-- A type that is a name inside any number of smart pointers and optionals. -/
inductive TypeExpr.Denotes (n : ScopedName) : TypeExpr → Prop
  | name (q : Qualifiers) : Denotes n (.name q n)
  | smartPointer (q : Qualifiers) (head : Head (some .smartPointer)) {inner : TypeExpr} :
      Denotes n inner → Denotes n (.smartPointer q head inner)
  | optional (q : Qualifiers) (head : Head (some .optional)) {inner : TypeExpr} :
      Denotes n inner → Denotes n (.optional q head inner)

/-- A type that is known by an id alone. -/
structure MappedType.RefersTo (m : MappedType) (id : String) : Prop where
  id : m.id = some id
  element : m.element = none
  args : m.args = []

theorem MappedType.RefersTo.displayAs {id : String} (h : m.RefersTo id) (l : Language)
    (written : List Char) : (displayAs l written m).RefersTo id := by
  rw [ApiSurface.displayAs]
  split
  · exact ⟨h.id, h.element, h.args⟩
  · exact h

/-- A type that stands for a name which is not built in maps to the id of the name. -/
theorem TypeExpr.Denotes.exists_mapToken (h : t.Denotes n)
    (hrow : Vocabulary.row? (String.ofList n.text) = none) (l : Language) :
    ∃ m, mapToken l t.text = .ok m ∧ m.RefersTo (String.ofList (Identifier.typeId n.text)) := by
  -- at each level the text around a core does not matter
  have houter {e : TypeExpr} {m : MappedType} (hcore : mapCore l e.core = .ok m)
      (hm : m.RefersTo (String.ofList (Identifier.typeId n.text))) :
      ∃ m, mapToken l e.text = .ok m ∧
        m.RefersTo (String.ofList (Identifier.typeId n.text)) := by
    refine ⟨_, ?_, hm.displayAs l (Text.trim e.text)⟩
    rw [mapToken_text_eq, hcore]
    rfl
  induction h with
  | name q =>
    have hmeaning : nameMeaning l n.text = .linked n.text := by
      unfold nameMeaning
      rw [hrow]
    refine houter (m := .linked n.text) ?_ ⟨rfl, rfl, rfl⟩
    rw [mapCore, TypeExpr.core, n.outermost?]
    exact congrArg Except.ok ((mapName_eq l n.text).trans hmeaning)
  | @smartPointer q head inner _ ih =>
    obtain ⟨m, hinner, hm⟩ := ih
    refine houter (m := m) ?_ hm
    show mapCore l (head.applied inner.text) = _
    rw [head.mapCore_applied l (TypeExpr.balanced_anywhere inner.balanced_text)]
    exact mapToken_trim hinner
  | @optional q head inner _ ih =>
    obtain ⟨m, hinner, hm⟩ := ih
    refine houter (m := { m with nullable := true }) ?_ ⟨hm.id, hm.element, hm.args⟩
    show mapCore l (head.applied inner.text) = _
    rw [head.mapCore_applied l (TypeExpr.balanced_anywhere inner.balanced_text)]
    simp only [mapToken_trim hinner]
    rfl

/-! ## Links -/

namespace Links

variable {links : Links} {id target : String}

/-- A type is written as a link, with a question mark behind it if the value may be absent. -/
def IsLinkTo (links : Links) (m : MappedType) (target : String) : Prop :=
  links.typeText m = "[" ++ m.name ++ "](" ++ target ++ ")" ++ (if m.nullable then "?" else "")

/-- A type is written as code, with a question mark behind it if the value may be absent. -/
def IsCode (links : Links) (m : MappedType) : Prop :=
  links.typeText m = "`" ++ m.name ++ "`" ++ (if m.nullable then "?" else "")

/-- A type that is known by an id is written as its name. -/
theorem typeText_of_refersTo (h : m.RefersTo id) :
    links.typeText m = links.nameText m.name (some id) ++ (if m.nullable then "?" else "") := by
  obtain ⟨name, id', nullable, element, args⟩ := m
  obtain ⟨rfl, rfl, rfl⟩ := h
  rw [typeText, elementText, typeTexts, arguments]
  simp

theorem not_isLinkTo_of_isCode (h : links.IsCode m) : ¬ links.IsLinkTo m target := by
  intro hlink
  have htext := congrArg (fun text => text.toList.head?) (h.symm.trans hlink)
  simp [String.toList_append] at htext

theorem isCode_of_href?_eq_none (h : m.RefersTo id) (hhref : links.href? id = none) :
    links.IsCode m := by
  rw [IsCode, typeText_of_refersTo h, nameText, Option.bind_some, hhref]

/-- A type that is known by an id links to where the id has its page, and nowhere else. -/
theorem isLinkTo_iff (h : m.RefersTo id) :
    links.IsLinkTo m target ↔ links.href? id = some target := by
  cases hhref : links.href? id with
  | none => simp [not_isLinkTo_of_isCode (isCode_of_href?_eq_none h hhref)]
  | some href =>
    rw [IsLinkTo, typeText_of_refersTo h, nameText, Option.bind_some, hhref, ← String.toList_inj]
    simp [String.toList_append, String.toList_inj]

end Links

/-! ## Pages of entities -/

namespace Entity

variable {rules : ViewRules} {files : FileTree} {input : String} {es : List Entity}
  {vs : List EntityView} {e : Entity}

/-- **Which page a name links to**: a type that stands for a name which is not built in links to the
pages of those retained entities whose files have the id of the name for their stem. It stands as
code if there are none. -/
theorem linked_iff_stem (hload : load files input = .ok es) (hviews : views rules l es = .ok vs)
    (hrow : Vocabulary.row? (String.ofList n.text) = none) (ht : t.Denotes n) :
    ∃ m, mapToken l t.text = .ok m ∧
      (∀ target, (Links.ofViews vs).IsLinkTo m target ↔
        ∃ e ∈ es, e.isRetained l = true ∧ e.id = String.ofList (Identifier.typeId n.text) ∧
          target = e.id ++ ".md") ∧
      (∀ e ∈ es, e.isRetained l = true → e.descriptor.name = String.ofList n.text →
        ∃ path, loadFile files path = .ok e ∧
          ((Links.ofViews vs).IsLinkTo m (e.id ++ ".md") ↔
            Path.stem path = String.ofList (Identifier.typeId n.text))) ∧
      ((∀ target, ¬ (Links.ofViews vs).IsLinkTo m target) → (Links.ofViews vs).IsCode m) := by
  obtain ⟨m, hm, hrefers⟩ := ht.exists_mapToken hrow l
  have hids : ∀ id, id ∈ vs.map (·.id) ↔ ∃ e ∈ es, e.isRetained l = true ∧ e.id = id := by
    intro id
    rw [ids_of_views hviews, List.mem_map]
    simp only [List.mem_filter, and_assoc]
  have hlink (target : String) : (Links.ofViews vs).IsLinkTo m target ↔
      ∃ e ∈ es, e.isRetained l = true ∧ e.id = String.ofList (Identifier.typeId n.text) ∧
        target = e.id ++ ".md" := by
    rw [Links.isLinkTo_iff hrefers, Links.href?_ofViews_eq_some_iff, hids]
    constructor
    · rintro ⟨⟨e, he, hretained, hid⟩, rfl⟩
      exact ⟨e, he, hretained, hid, by rw [hid]⟩
    · rintro ⟨e, he, hretained, hid, rfl⟩
      exact ⟨⟨e, he, hretained, hid⟩, by rw [hid]⟩
  refine ⟨m, hm, hlink, fun e he hretained _ => ?_, fun hnone => ?_⟩
  · obtain ⟨path, hpath⟩ := exists_loadFile hload he
    refine ⟨path, hpath, ?_⟩
    rw [hlink, ← id_of_loadFile hpath]
    constructor
    · rintro ⟨e', -, -, hid, htarget⟩
      have hids := congrArg String.toList htarget
      rw [String.toList_append, String.toList_append, List.append_cancel_right_eq,
        String.toList_inj] at hids
      exact hids.trans hid
    · exact fun hid => ⟨e, he, hretained, hid, rfl⟩
  · refine Links.isCode_of_href?_eq_none hrefers (Option.eq_none_iff_forall_ne_some.mpr ?_)
    exact fun target hhref => hnone target ((Links.isLinkTo_iff hrefers).mpr hhref)

/-- The page of a view in a file called by its name. -/
theorem linked_iff_stem_view :
    let files : FileTree := { entries :=
      [(["view.json"], .file "\x7b\"name\": \"View\", \"type\": \"class\"\x7d")] }
    let n : ScopedName := ⟨["View".toList], by decide, by decide, by decide⟩
    let t : TypeExpr := .optional {}
      ⟨⟨["std".toList, "optional".toList], by decide, by simp; decide, by decide⟩, 0, rfl⟩
      (.name { isConst := true, marks := [.pointer] } n)
    ∃ es vs m, load files "view.json" = .ok es ∧ views {} .js es = .ok vs ∧
      es.map (·.descriptor.name) = ["View"] ∧
      String.ofList t.text = "std::optional<const View*>" ∧ mapToken .js t.text = .ok m ∧
      (Links.ofViews vs).IsLinkTo m "view.md" := by
  intro files n t
  have hload := eq_ok_of_isOk (r := load files "view.json") (by decide +kernel) []
  have hviews := eq_ok_of_isOk
    (r := views {} .js ((load files "view.json").toOption.getD [])) (by decide +kernel) []
  have hids : (((load files "view.json").toOption.getD []).filter (isRetained .js)).map (·.id) =
      ["view"] := by
    decide +kernel
  obtain ⟨m, hm, hlink, -⟩ :=
    linked_iff_stem hload hviews (n := n) (t := t) (by decide) (.optional _ _ (.name _))
  obtain ⟨e, hmem, hid⟩ := List.mem_map.mp (hids ▸ List.mem_singleton_self "view")
  obtain ⟨he, hretained⟩ := List.mem_filter.mp hmem
  refine ⟨_, _, m, hload, hviews, by decide +kernel, rfl, hm, (hlink _).mpr ?_⟩
  exact ⟨e, he, hretained, hid, by rw [hid]; rfl⟩

/-- A name that no file was called by, and a qualifier behind a mark. -/
theorem linked_iff_stem_without :
    let files : FileTree := { entries :=
      [(["rect_f.json"], .file "\x7b\"name\": \"RectF\", \"type\": \"struct\"\x7d")] }
    let files' : FileTree := { entries :=
      [(["view.json"], .file "\x7b\"name\": \"View\", \"type\": \"class\"\x7d")] }
    (∃ es vs m, load files "rect_f.json" = .ok es ∧ views {} .js es = .ok vs ∧
      (es.filter (isRetained .js)).map (·.descriptor.name) = ["RectF"] ∧
      Vocabulary.row? "RectF" = none ∧ mapToken .js "RectF".toList = .ok m ∧
      (Links.ofViews vs).typeText m = "`RectF`" ∧
      ∀ target, ¬ (Links.ofViews vs).IsLinkTo m target) ∧
    ∃ es vs m, load files' "view.json" = .ok es ∧ views {} .js es = .ok vs ∧
      (es.filter (isRetained .js)).map (·.descriptor.name) = ["View"] ∧
      Vocabulary.row? "View" = none ∧ mapToken .js "View* const".toList = .ok m ∧
      (Links.ofViews vs).typeText m = "`View* const`" ∧
      ∀ target, ¬ (Links.ofViews vs).IsLinkTo m target := by
  intro files files'
  have hlinked (token : List Char) (hcore : dropQualifiers (Text.trim token) = token)
      (hempty : token.isEmpty = false) (hcut : Nesting.outermost? token = .ok none)
      (hname : mapName .js token = .linked token) :
      mapToken .js token = .ok (.linked token) := by
    rw [mapToken_eq, hcore]
    simp only [hempty, Bool.false_eq_true, if_false, mapCore, hcut, hname]
    rfl
  have hrect := eq_ok_of_isOk (r := load files "rect_f.json") (by decide +kernel) []
  have hview := eq_ok_of_isOk (r := load files' "view.json") (by decide +kernel) []
  refine ⟨⟨_, _, _, hrect, eq_ok_of_isOk (by decide +kernel) [], by decide +kernel, by decide,
    hlinked "RectF".toList rfl rfl rfl rfl, by decide +kernel, fun _ => ?_⟩, _, _, _, hview,
    eq_ok_of_isOk (by decide +kernel) [], by decide +kernel, by decide,
    hlinked "View* const".toList rfl rfl rfl rfl, by decide +kernel, fun _ => ?_⟩
  · refine Links.not_isLinkTo_of_isCode (m := .linked "RectF".toList) ?_
    unfold Links.IsCode
    decide +kernel
  · refine Links.not_isLinkTo_of_isCode (m := .linked "View* const".toList) ?_
    unfold Links.IsCode
    decide +kernel

end Entity

end ApiSurface
