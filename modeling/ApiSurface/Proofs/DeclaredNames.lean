import ApiSurface.Proofs.DeclarationParts
import ApiSurface.Proofs.LowercaseForms
import ApiSurface.Proofs.TypeGrammar

/-!
# Names in the declaration file

A declaration is made of parts: names behind a keyword, and other text (`Part`). Which names it has
depends on the entity alone: its own name and that of its base without the separators of scopes, and
for a singleton the name of a constant, which is its name in lowercase (`partNames_parts`).

Two properties of a module hang on these names. Classes and constants must have distinct names, but
only the names of classes are compared, and as they stand in descriptors (`moduleNames_nodup_iff`).
And a name must not have the separators of scopes in it, which the name of a constant keeps
(`names_plain_iff`).
-/

namespace ApiSurface

/-! ## Scoped names -/

namespace Identifier

/-- A name made of identifiers with `::` between them. -/
def IsScoped (name : String) : Prop :=
  ∃ parts : List (List Char), parts ≠ [] ∧ (∀ part ∈ parts, isName part = true) ∧
    name.toList = scopeSeparator.intercalate parts

/-- A name without separators of scopes. -/
def IsPlain (name : String) : Prop :=
  name ≠ "" ∧ ':' ∉ name.toList

variable {joint : List Char}

theorem joinScopes_cons {c : Char} (hc : c ≠ ':') (rest : List Char) :
    joinScopes joint (c :: rest) = c :: joinScopes joint rest := by
  cases rest with
  | nil => rfl
  | cons d rest => simp [joinScopes, hc]

theorem joinScopes_append {front : List Char} (h : ':' ∉ front) (rest : List Char) :
    joinScopes joint (front ++ rest) = front ++ joinScopes joint rest := by
  induction front with
  | nil => rfl
  | cons c front ih =>
    obtain ⟨hc, hfront⟩ := not_or.mp (mt List.mem_cons.mpr h)
    rw [List.cons_append, joinScopes_cons (Ne.symm hc), ih hfront, List.cons_append]

/-- Scopes are joined by writing the joint between the parts of a name. -/
theorem joinScopes_intercalate {parts : List (List Char)} (h : ∀ part ∈ parts, ':' ∉ part) :
    joinScopes joint (scopeSeparator.intercalate parts) = joint.intercalate parts := by
  induction parts with
  | nil => rfl
  | cons part parts ih =>
    obtain ⟨hpart, hparts⟩ := List.forall_mem_cons.mp h
    cases parts with
    | nil =>
      have hjoin : joinScopes joint (part ++ []) = part ++ [] := joinScopes_append hpart []
      rw [List.append_nil] at hjoin
      simpa [List.intercalate_singleton] using hjoin
    | cons part' parts =>
      have hseparator (rest : List Char) :
          joinScopes joint (scopeSeparator ++ rest) = joint ++ joinScopes joint rest := by
        simp [scopeSeparator, joinScopes]
      rw [List.intercalate_cons_cons, List.append_assoc, joinScopes_append hpart, hseparator,
        ih hparts, List.intercalate_cons_cons, List.append_assoc]

theorem colon_notMem_of_isName {part : List Char} (h : isName part = true) : ':' ∉ part := by
  intro hmem
  simp only [isName, Bool.and_eq_true, List.all_eq_true] at h
  exact absurd (h.2 ':' hmem) (by decide)

theorem ne_nil_of_isName {part : List Char} (h : isName part = true) : part ≠ [] := by
  rintro rfl
  cases h

namespace IsScoped

variable {name : String}

theorem toList_ne_nil (h : IsScoped name) : name.toList ≠ [] := by
  obtain ⟨parts, hne, hnames, heq⟩ := h
  obtain ⟨part, parts, rfl⟩ := List.exists_cons_of_ne_nil hne
  have hpart := ne_nil_of_isName (hnames part List.mem_cons_self)
  rw [heq]
  exact intercalate_ne_nil hpart

/-- A declared name has no separators. -/
theorem isPlain_declaredName (h : IsScoped name) : IsPlain (declaredName name) := by
  obtain ⟨parts, hne, hnames, heq⟩ := h
  have hcolon : ∀ part ∈ parts, ':' ∉ part := fun part hpart =>
    colon_notMem_of_isName (hnames part hpart)
  have hdeclared : (declaredName name).toList = List.intercalate [] parts := by
    rw [declaredName, String.toList_ofList, heq, joinScopes_intercalate hcolon]
  refine ⟨fun hempty => ?_, fun hmem => ?_⟩
  · obtain ⟨part, parts, rfl⟩ := List.exists_cons_of_ne_nil hne
    have hpart := ne_nil_of_isName (hnames part List.mem_cons_self)
    rw [hempty] at hdeclared
    exact intercalate_ne_nil hpart hdeclared.symm
  · rw [hdeclared] at hmem
    obtain hmem | ⟨part, hpart, hmem⟩ := mem_intercalate hmem
    · exact List.not_mem_nil hmem
    · exact hcolon part hpart hmem

/-- A name in lowercase has no separators when the name has none. -/
theorem isPlain_lowercased_iff (h : IsScoped name) :
    IsPlain (Text.lowercased name) ↔ ':' ∉ name.toList := by
  have hcolon : Text.lowerChar ':' = [':'] := by decide +kernel
  have hmem := Text.mem_lowercase_iff (by decide) hcolon name.toList
  rw [IsPlain, Text.lowercased, String.toList_ofList, hmem, and_iff_right]
  intro hempty
  refine Text.lowercase_ne_nil h.toList_ne_nil ?_
  simpa using congrArg String.toList hempty

end IsScoped

end Identifier

namespace Declaration

/-! ## The names of an entity -/

/-- The names in a declaration as a class or as an interface. -/
def structureNames (isInterface : Bool) (v : EntityView) : List (Keyword × String) :=
  (structureKeyword isInterface, Identifier.declaredName v.name) ::
    v.base.toList.map (fun base => (.extending, Identifier.declaredName base.name))
    ++ if v.isSingleton then [(.exportConst, Text.lowercased v.name)] else []

/-- The names in the declaration of an entity. -/
def Shape.names (v : EntityView) : Shape → List (Keyword × String)
  | asClass => structureNames false v
  | asInterface => structureNames true v
  | asUnion => [(.exportType, Identifier.declaredName v.name)]

/-- All names in the declarations of a file. -/
def declaredNames (parts : List (List Part)) : List (Keyword × String) :=
  parts.flatMap partNames

variable {r : TypeTextRules} {module text : String} {vs : List EntityView} {v : EntityView}
  {parts : List (List Part)}

theorem partNames_structureParts (isInterface : Bool) :
    partNames (structureParts r isInterface v) = structureNames isInterface v := by
  rw [partNames, structureParts, headingParts, constantParts, structureNames]
  cases v.base <;> cases v.isSingleton <;> rfl

theorem partNames_parts (s : Shape) : partNames (s.parts r v) = s.names v := by
  cases s with
  | asClass => exact partNames_structureParts false
  | asInterface => exact partNames_structureParts true
  | asUnion => rfl

/-- The names in the declaration of an entity, none if it has no declaration. -/
def namesOf (v : EntityView) : List (Keyword × String) :=
  (shape? v).elim [] (·.names v)

theorem declaredNames_declaredParts (r : TypeTextRules) (vs : List EntityView) :
    declaredNames (declaredParts r vs) = vs.flatMap namesOf := by
  induction vs with
  | nil => rfl
  | cons v vs ih =>
    rw [declaredNames, declaredParts] at ih ⊢
    rw [List.flatMap_cons, List.filterMap_cons, ← ih, namesOf]
    cases shape? v with
    | none => rfl
    | some s =>
      rw [Option.elim_some, ← partNames_parts (r := r)]
      rfl

/-- The names in a file are those of its entities, in another order. -/
theorem WrittenIn.perm_declaredNames (h : WrittenIn r module vs text parts) :
    (declaredNames parts).Perm (vs.flatMap namesOf) := by
  obtain ⟨order, horder, rfl⟩ := h.ordered
  rw [declaredNames_declaredParts]
  exact (Order.perm_of_ok horder).flatMap_right namesOf

/-! ## Distinct names -/

/-- Whether a name is that of a class or of a constant. -/
def inModule (named : Keyword × String) : Bool :=
  named.1 = .exportClass || named.1 = .exportConst

/-- The names of the classes and constants of a module. -/
def moduleNames (parts : List (List Part)) : List String :=
  ((declaredNames parts).filter inModule).map (·.2)

/-- The name of the class that an entity is declared as. -/
def className? (v : EntityView) : Option String :=
  if shape? v = some .asClass then some (Identifier.declaredName v.name) else none

/-- Whether a constant is declared for an entity. -/
def declaresConstant (v : EntityView) : Bool :=
  v.isSingleton && (shape? v = some .asClass || shape? v = some .asInterface)

/-- The name of the constant that is declared for an entity. -/
def constantName? (v : EntityView) : Option String :=
  if declaresConstant v then some (Text.lowercased v.name) else none

theorem filter_namesOf (v : EntityView) :
    ((namesOf v).filter inModule).map (·.2)
      = (className? v).toList ++ (constantName? v).toList := by
  rw [namesOf, className?, constantName?, declaresConstant]
  cases hshape : shape? v with
  | none => cases v.isSingleton <;> rfl
  | some s =>
    cases s <;> cases hbase : v.base <;> cases hsingleton : v.isSingleton <;>
      simp [Shape.names, structureNames, structureKeyword, inModule, hbase, hsingleton]

/-- The classes and constants of a module are those of its entities, in another order. -/
theorem WrittenIn.perm_moduleNames (h : WrittenIn r module vs text parts) :
    (moduleNames parts).Perm (vs.filterMap className? ++ vs.filterMap constantName?) := by
  -- entity by entity a class comes before its constant; here all classes come first
  have hnames := (h.perm_declaredNames.filter inModule).map (·.2)
  rw [List.filter_flatMap, List.map_flatMap] at hnames
  simp only [filter_namesOf] at hnames
  rw [List.filterMap_eq_flatMap_toList, List.filterMap_eq_flatMap_toList]
  exact hnames.trans (List.flatMap_append_perm vs _ _).symm

/-- The entities `vs` are declared under distinct names: no two classes under one name, no two
constants under one, and no constant under the name of a class. -/
structure Distinct (vs : List EntityView) : Prop where
  classes : (vs.filterMap className?).Nodup
  constants : (vs.filterMap constantName?).Nodup
  apart : (vs.filterMap className?).Disjoint (vs.filterMap constantName?)

/-- **When the classes and constants of a module have distinct names**: exactly when those of its
entities do, written as they are declared. That the file is written at all does not rule out that
they clash. -/
theorem moduleNames_nodup_iff (h : file r module vs = .ok text) :
    ∃ parts, WrittenIn r module vs text parts ∧ ((moduleNames parts).Nodup ↔ Distinct vs) := by
  obtain ⟨parts, hparts⟩ := exists_writtenIn h
  refine ⟨parts, hparts, ?_⟩
  rw [hparts.perm_moduleNames.nodup_iff, List.nodup_append']
  exact ⟨fun ⟨hclasses, hconstants, hapart⟩ => ⟨hclasses, hconstants, hapart⟩,
    fun hdistinct => ⟨hdistinct.classes, hdistinct.constants, hdistinct.apart⟩⟩

/-- A singleton and another class have three names between them. -/
theorem moduleNames_nodup_iff_app :
    let app : EntityView := { id := "app", name := "App", kind := "Class", isSingleton := true }
    let view : EntityView := { id := "view", name := "View", kind := "Class" }
    ∃ text parts, file {} "gui" [app, view] = .ok text ∧
      WrittenIn {} "gui" [app, view] text parts ∧ (moduleNames parts).Nodup := by
  intro app view
  have horder : declarationOrder [app, view] = .ok [app, view] := by cbv
  obtain ⟨text, h⟩ : ∃ text, file {} "gui" [app, view] = .ok text := exists_file horder
  have hclasses : [app, view].filterMap className? = ["App", "View"] := by cbv
  have hconstants : [app, view].filterMap constantName? = ["app"] := by cbv
  have hdistinct : Distinct [app, view] := by
    refine ⟨?_, ?_, ?_⟩
    · simp [hclasses]
    · simp [hconstants]
    · simp [hclasses, hconstants]
  obtain ⟨parts, hparts, hiff⟩ := moduleNames_nodup_iff h
  exact ⟨text, parts, h, hparts, hiff.mpr hdistinct⟩

/-- Two classes are declared as `FontWeight`: one has this name and one is scoped. -/
theorem moduleNames_clash :
    let nested : Entity := ⟨"font_weight", { name := "Font::Weight", kind := "refcounted" }⟩
    let flat : Entity := ⟨"fontweight", { name := "FontWeight", kind := "refcounted" }⟩
    ∃ vs text, Entity.views {} .js [nested, flat] = .ok vs ∧ file {} "gui" vs = .ok text ∧
      ∀ parts, WrittenIn {} "gui" vs text parts → ¬ (moduleNames parts).Nodup := by
  intro nested flat
  let nestedView : EntityView := { id := "font_weight", name := "Font::Weight", kind := "Class" }
  let flatView : EntityView := { id := "fontweight", name := "FontWeight", kind := "Class" }
  have hnested : Entity.view {} .js nested = .ok (some nestedView) := by cbv
  have hflat : Entity.view {} .js flat = .ok (some flatView) := by cbv
  have hviews : Entity.views {} .js [nested, flat] = .ok [nestedView, flatView] := by
    rw [Entity.views, List.mapM_cons, hnested, List.mapM_cons, hflat]
    rfl
  have horder : declarationOrder [nestedView, flatView] = .ok [nestedView, flatView] := by cbv
  obtain ⟨text, h⟩ : ∃ text, file {} "gui" [nestedView, flatView] = .ok text := exists_file horder
  have hclasses : [nestedView, flatView].filterMap className? = ["FontWeight", "FontWeight"] := by
    cbv
  refine ⟨_, text, hviews, h, fun parts hparts hnodup => ?_⟩
  have hnames := hparts.perm_moduleNames.nodup_iff.mp hnodup
  rw [hclasses] at hnames
  exact absurd (List.nodup_append.mp hnames).1 (by decide)

/-! ## Plain names -/

section Plain

variable (hname : Identifier.IsScoped v.name)
  (hbase : ∀ base, v.base = some base → Identifier.IsScoped base.name)

include hname hbase

/-- The names of a class or an interface are plain, apart from that of a constant, which keeps the
separators. -/
theorem structureNames_plain_iff (isInterface : Bool) :
    (∀ named ∈ structureNames isInterface v, Identifier.IsPlain named.2) ↔
      (v.isSingleton = true → ':' ∉ v.name.toList) := by
  have hbases : ∀ base ∈ v.base.toList, Identifier.IsPlain (Identifier.declaredName base.name) :=
    fun base hmem => (hbase base (Option.mem_toList.mp hmem)).isPlain_declaredName
  rw [structureNames, List.forall_mem_append, List.forall_mem_cons, List.forall_mem_map]
  rw [and_iff_right ⟨hname.isPlain_declaredName, hbases⟩, ← hname.isPlain_lowercased_iff]
  cases v.isSingleton <;> simp

theorem namesOf_plain_iff :
    (∀ named ∈ namesOf v, Identifier.IsPlain named.2) ↔
      (declaresConstant v = true → ':' ∉ v.name.toList) := by
  have hstructure := structureNames_plain_iff hname hbase
  rw [namesOf, declaresConstant]
  cases shape? v with
  | none => simp
  | some s =>
    cases s with
    | asClass => simpa [Shape.names] using hstructure false
    | asInterface => simpa [Shape.names] using hstructure true
    | asUnion => simpa [Shape.names] using hname.isPlain_declaredName

end Plain

/-- **When the names in a declaration file are plain**: for entities and bases with scoped names,
exactly when no constant is declared for an entity whose name has a separator. -/
theorem names_plain_iff (h : file r module vs = .ok text)
    (hnames : ∀ v ∈ vs, Identifier.IsScoped v.name)
    (hbases : ∀ v ∈ vs, ∀ base, v.base = some base → Identifier.IsScoped base.name) :
    ∃ parts, WrittenIn r module vs text parts ∧
      ((∀ named ∈ declaredNames parts, Identifier.IsPlain named.2) ↔
        ∀ v ∈ vs, declaresConstant v = true → ':' ∉ v.name.toList) := by
  obtain ⟨parts, hparts⟩ := exists_writtenIn h
  refine ⟨parts, hparts, ?_⟩
  have hperm (named : Keyword × String) :
      named ∈ declaredNames parts ↔ named ∈ vs.flatMap namesOf :=
    hparts.perm_declaredNames.mem_iff
  simp only [hperm, List.forall_mem_flatMap]
  exact forall₂_congr fun v hv => namesOf_plain_iff (hnames v hv) (hbases v hv)

/-- A class with a scoped name and a singleton derived from it are declared under plain names. -/
theorem names_plain_iff_app :
    let view : EntityView := { id := "ui_view", name := "Ui::View", kind := "Class" }
    let app : EntityView :=
      { id := "app", name := "App", kind := "Class", base := some (.named "Ui::View"),
        isSingleton := true }
    ∃ text parts, file {} "gui" [view, app] = .ok text ∧
      WrittenIn {} "gui" [view, app] text parts ∧
        ∀ named ∈ declaredNames parts, Identifier.IsPlain named.2 := by
  intro view app
  have horder : declarationOrder [view, app] = .ok [view, app] := by cbv
  obtain ⟨text, h⟩ : ∃ text, file {} "gui" [view, app] = .ok text := exists_file horder
  have hview : Identifier.IsScoped "Ui::View" :=
    ⟨["Ui".toList, "View".toList], by decide, by decide, by decide⟩
  have happ : Identifier.IsScoped "App" := ⟨["App".toList], by decide, by decide, by decide⟩
  obtain ⟨parts, hparts, hiff⟩ := names_plain_iff h
    (by simpa [view, app] using ⟨hview, happ⟩)
    (by simpa [view, app, MappedType.named] using hview)
  refine ⟨text, parts, h, hparts, hiff.mpr ?_⟩
  simp [view, app, declaresConstant]

/-- The constant of a singleton with a scoped name keeps the separator. -/
theorem declaredNames_scoped_constant :
    let app : Entity :=
      ⟨"ui_app", { name := "Ui::App", kind := "refcounted", isSingleton := true }⟩
    ∃ vs text, Entity.views {} .js [app] = .ok vs ∧ file {} "gui" vs = .ok text ∧
      ∀ parts, WrittenIn {} "gui" vs text parts →
        ¬ ∀ named ∈ declaredNames parts, Identifier.IsPlain named.2 := by
  intro app
  let appView : EntityView :=
    { id := "ui_app", name := "Ui::App", kind := "Class", isSingleton := true }
  have happ : Entity.view {} .js app = .ok (some appView) := by cbv
  have hviews : Entity.views {} .js [app] = .ok [appView] := by
    rw [Entity.views, List.mapM_cons, happ]
    rfl
  have horder : declarationOrder [appView] = .ok [appView] := by cbv
  obtain ⟨text, h⟩ : ∃ text, file {} "gui" [appView] = .ok text := exists_file horder
  have hnames : [appView].flatMap namesOf
      = [(.exportClass, "UiApp"), (.exportConst, "ui::app")] := by cbv
  refine ⟨_, text, hviews, h, fun parts hparts hplain => ?_⟩
  have hconstant : (.exportConst, "ui::app") ∈ declaredNames parts :=
    hparts.perm_declaredNames.mem_iff.mpr (by simp [hnames])
  exact (hplain _ hconstant).2 (by decide)

end Declaration

end ApiSurface
