import ApiSurface.Proofs.DeclarationParts
import ApiSurface.Proofs.OthersAnywhere

/-!
# Bases of plain data in the declaration file

Plain data may have a base as classes have, and its declaration extends it. But it is declared among
the other entities, which follow the classes sorted by their keys, whatever they are derived from.
So a base that is a class is always declared in front of it, and another base only if it comes first
by its key (`exists_order_split`). The file declares the base at all exactly when one of the
entities has its name and a declaration (`file_dataBases`).
-/

namespace ApiSurface

/-! ## What is ordered in front of plain data -/

namespace Order

variable {vs sorted given rest order : List EntityView} {v w : EntityView}

/-- A sorted list is cut by a key into what is below it, what has it and what is above it. -/
theorem filter_sortKey_append (h : sorted.Pairwise fun v w => sortKey v ≤ sortKey w)
    (w : EntityView) :
    sorted.filter (sortKey · < sortKey w) ++ (sorted.filter (sortKey · = sortKey w)
      ++ sorted.filter (sortKey w < sortKey ·)) = sorted := by
  induction sorted with
  | nil => rfl
  | cons v sorted ih =>
    obtain ⟨hv, hsorted⟩ := List.pairwise_cons.mp h
    have hbelow (hle : sortKey w ≤ sortKey v) : sorted.filter (sortKey · < sortKey w) = [] := by
      refine List.filter_eq_nil_iff.mpr fun u hu => ?_
      simpa using hle.trans (hv u hu)
    have ih := ih hsorted
    obtain hlt | heq | hgt := lt_trichotomy (sortKey v) (sortKey w)
    · simpa [hlt, hlt.ne, hlt.not_gt] using ih
    · rw [hbelow heq.ge] at ih
      simpa [heq, hbelow heq.ge] using ih
    · have hequal : sorted.filter (sortKey · = sortKey w) = [] := by
        refine List.filter_eq_nil_iff.mpr fun u hu => ?_
        simpa using (hgt.trans_le (hv u hu)).ne'
      rw [hbelow hgt.le, hequal] at ih
      simpa [hgt, hgt.ne', hgt.not_gt, hbelow hgt.le, hequal] using ih

/-- In front of an entity a stable sort has those of smaller keys, and those of the same key that
were in front of it before. -/
theorem StablySorted.exists_split (h : StablySorted (given ++ v :: rest) sorted) :
    ∃ before after, sorted = before ++ v :: after ∧
      ∀ w, w ∈ before ↔
        w ∈ given ∧ sortKey w ≤ sortKey v ∨ w ∈ rest ∧ sortKey w < sortKey v := by
  have hties := h.ties (sortKey v)
  rw [List.filter_append, List.filter_cons_of_pos (by simp)] at hties
  have hsorted := filter_sortKey_append h.ascending v
  rw [hties, List.append_assoc, List.cons_append, ← List.append_assoc] at hsorted
  refine ⟨_, _, hsorted.symm, fun w => ?_⟩
  rw [List.mem_append, List.mem_filter, List.mem_filter, h.mem_iff, List.mem_append,
    List.mem_cons, decide_eq_true_iff, decide_eq_true_iff, le_iff_lt_or_eq]
  have hself : w = v → ¬ sortKey w < sortKey v := by
    rintro rfl
    exact lt_irrefl _
  tauto

/-- Entities that are placed alike and of one kind are sorted by name. -/
theorem sortKey_lt_of_lowercased (hplaced : isPlaced v = isPlaced w) (hkind : v.kind? = w.kind?)
    (h : Text.lowercased v.name < Text.lowercased w.name) : sortKey v < sortKey w := by
  rw [sortKey, sortKey, hplaced, hkind]
  simp only [Prod.Lex.toLex_lt_toLex, true_and]
  exact .inr (.inr (.inl h))

/-- Whether `w` is declared in front of `v`, which stands behind `given` and in front of `rest` and
is no class: it is a class, has a smaller key, or has the same key and was in front of it before. -/
def ComesBefore (given rest : List EntityView) (v w : EntityView) : Prop :=
  if w.isClass then w ∈ given ++ rest
  else w ∈ given ∧ sortKey w ≤ sortKey v ∨ w ∈ rest ∧ sortKey w < sortKey v

theorem ComesBefore.mem (h : ComesBefore given rest v w) : w ∈ given ++ rest := by
  rw [ComesBefore] at h
  split at h
  · exact h
  · obtain ⟨hmem, -⟩ | ⟨hmem, -⟩ := h
    · exact List.mem_append_left _ hmem
    · exact List.mem_append_right _ hmem

/-- What is no class and has a greater key comes later, unless it was in front before. -/
theorem not_comesBefore (hclass : w.isClass = false) (hgiven : w ∉ given)
    (h : sortKey v < sortKey w) : ¬ ComesBefore given rest v w := by
  rw [ComesBefore, if_neg (by simp [hclass])]
  rintro (⟨hmem, -⟩ | ⟨-, hlt⟩)
  · exact hgiven hmem
  · exact lt_asymm h hlt

/-- What is ordered in front of an entity that is no class. -/
theorem exists_order_split (h : declarationOrder (given ++ v :: rest) = .ok order)
    (hv : v.isClass = false) :
    ∃ before after, order = before ++ v :: after ∧
      ∀ w, w ∈ before ↔ ComesBefore given rest v w := by
  obtain ⟨front, rfl, hperm, -⟩ := exists_traversal_of_ok h
  have hstable := others_stablySorted (given ++ v :: rest)
  rw [List.filter_append, List.filter_cons_of_pos (by simp [hv])] at hstable
  obtain ⟨before, after, hothers, hbefore⟩ := hstable.exists_split
  refine ⟨front ++ before, after, by rw [hothers, List.append_assoc], fun w => ?_⟩
  rw [List.mem_append, hperm.mem_iff, hbefore, mem_classesOf, ComesBefore, List.mem_filter,
    List.mem_filter]
  cases hw : w.isClass with
  | false => simp
  | true =>
    have hne : w ≠ v := by
      rintro rfl
      rw [hv] at hw
      cases hw
    simp [hne]

end Order

namespace Declaration

variable {r : TypeTextRules} {module text name code : String} {vs given rest : List EntityView}
  {v : EntityView} {base : MappedType}

/-! ## Declarations by the name of their entity -/

/-- The file has a declaration of an entity with this name. -/
def Declares (r : TypeTextRules) (module : String) (vs : List EntityView) (text name : String) :
    Prop :=
  ∃ p ∈ vs, p.name = name ∧ ∃ front code, StandsBehind r module vs text front p code

/-- The file has such a declaration in the text `front` that it begins with. -/
def DeclaresIn (r : TypeTextRules) (module : String) (vs : List EntityView)
    (text front name : String) : Prop :=
  ∃ p ∈ vs, p.name = name ∧ ∃ before code between, StandsBehind r module vs text before p code ∧
    front = before ++ (block code ++ between)

theorem exists_code_iff : (∃ code, entityText? r v = some code) ↔ (shape? v).isSome = true := by
  rw [entityText?_eq_map, ← Option.isSome_iff_exists, Option.isSome_map]

/-- The entities that are declared are those that have a shape. -/
theorem declares_iff (h : file r module vs = .ok text) :
    Declares r module vs text name ↔ ∃ p ∈ vs, p.name = name ∧ (shape? p).isSome = true := by
  refine exists_congr fun p => and_congr_right fun hp => and_congr_right fun _ => ?_
  rw [← exists_code_iff (r := r)]
  constructor
  · rintro ⟨front, code, hstands⟩
    exact ⟨code, hstands.declared⟩
  · rintro ⟨code, hcode⟩
    obtain ⟨order, horder, -⟩ := file_eq_ok_iff.mp h
    obtain ⟨before, after, rfl⟩ := List.append_of_mem ((Order.perm_of_ok horder).mem_iff.mpr hp)
    exact ⟨_, code, standsBehind_of_order h horder hcode⟩

theorem blocks_append (vs ws : List EntityView) :
    blocks r (vs ++ ws) = blocks r vs ++ blocks r ws := by
  rw [blocks, List.filterMap_append, List.map_append, String.join_append, ← blocks, ← blocks]

/-- An entity whose block begins earlier is ordered in front. -/
theorem mem_of_length_blocks_lt {before after before' after' : List EntityView} {p : EntityView}
    (horder : before ++ p :: after = before' ++ v :: after')
    (hlength : (blocks r before).length < (blocks r before').length) : p ∈ before' := by
  obtain ⟨middle, rfl, hmiddle⟩ | ⟨middle, rfl, -⟩ := List.append_eq_append_iff.mp horder
  · cases middle with
    | nil =>
      rw [List.append_nil] at hlength
      exact absurd hlength (lt_irrefl _)
    | cons u middle =>
      obtain ⟨rfl, -⟩ := List.cons.inj hmiddle
      simp
  · rw [blocks_append, String.length_append] at hlength
    omega

/-- What is declared in front of an entity is what is ordered in front of it and has a
declaration. -/
theorem declaresIn_iff {before after : List EntityView} (h : file r module vs = .ok text)
    (horder : declarationOrder vs = .ok (before ++ v :: after)) :
    DeclaresIn r module vs text (heading module ++ blocks r before) name ↔
      ∃ p ∈ before, p.name = name ∧ (shape? p).isSome = true := by
  constructor
  · rintro ⟨p, -, hname, front, code, between, hstands, hfront⟩
    obtain ⟨before', after', horder', rfl⟩ := hstands.ordered
    refine ⟨p, ?_, hname, exists_code_iff.mp ⟨code, hstands.declared⟩⟩
    refine mem_of_length_blocks_lt (r := r) (Except.ok.inj (horder'.symm.trans horder)) ?_
    have hlength := congrArg String.length hfront
    have hblock : (block code).length = (indent code).length + 2 := by
      rw [block, String.length_append]
      rfl
    simp only [String.length_append, hblock] at hlength
    omega
  · rintro ⟨p, hp, hname, hshape⟩
    obtain ⟨code, hcode⟩ := exists_code_iff.mpr hshape
    have hmem : p ∈ vs := (Order.perm_of_ok horder).mem_iff.mp (List.mem_append_left _ hp)
    obtain ⟨first, second, rfl⟩ := List.append_of_mem hp
    refine ⟨p, hmem, hname, _, code, blocks r second, standsBehind_of_order h
      (by rw [horder, List.append_assoc, List.cons_append]) hcode, ?_⟩
    rw [blocks_around hcode]
    simp only [String.append_assoc]

/-- What is declared in front of an entity that is no class. -/
theorem exists_front (h : file r module vs = .ok text) (hvs : vs = given ++ v :: rest)
    (hclass : v.isClass = false) (hcode : entityText? r v = some code) :
    ∃ front, StandsBehind r module vs text front v code ∧
      ∀ name, DeclaresIn r module vs text front name ↔
        ∃ p, p.name = name ∧ (shape? p).isSome = true ∧ Order.ComesBefore given rest v p := by
  obtain ⟨order, horder, -⟩ := file_eq_ok_iff.mp h
  obtain ⟨before, after, rfl, hbefore⟩ := Order.exists_order_split (hvs ▸ horder) hclass
  refine ⟨_, standsBehind_of_order h horder hcode, fun name => ?_⟩
  rw [declaresIn_iff h horder]
  refine exists_congr fun p => ?_
  rw [hbefore]
  tauto

/-! ## Plain data with a base -/

theorem entityText?_object (hobject : v.kind? = some .object) (hname : v.name ≠ signalName) :
    entityText? r v = some (structureText r (!v.hasStatics) v) := by
  rw [entityText?, if_neg hname, hobject]

theorem isClass_of_object (hobject : v.kind? = some .object) : v.isClass = false := by
  simp [EntityView.isClass, hobject]

/-- What a declaration of an entity with a base begins with. -/
theorem structureText_extends (hbase : v.base = some base) (isInterface : Bool) :
    ∃ body, structureText r isInterface v =
      partsText
        [.naming (structureKeyword isInterface) (Identifier.declaredName v.name), .other " ",
          .naming .extending (Identifier.declaredName base.name), .other " "] ++ body := by
  rw [structureText_eq, structureParts, headingParts, hbase, partsText_append]
  exact ⟨_, rfl⟩

/-- **Where plain data has its base declared.** Plain data is declared as a class or as an interface
that extends its base. The file declares an entity with the name of the base exactly when there is
one that has a declaration, and does so in front of the plain data exactly when such an entity is a
class or comes first by its key. -/
theorem file_dataBases (h : file r module vs = .ok text) (hvs : vs = given ++ v :: rest)
    (hobject : v.kind? = some .object) (hname : v.name ≠ signalName) (hbase : v.base = some base) :
    ∃ front code, StandsBehind r module vs text front v code ∧
      (∃ body, code = partsText
        [.naming (structureKeyword (!v.hasStatics)) (Identifier.declaredName v.name), .other " ",
          .naming .extending (Identifier.declaredName base.name), .other " "] ++ body) ∧
      (Declares r module vs text base.name ↔
        ∃ p ∈ vs, p.name = base.name ∧ (shape? p).isSome = true) ∧
      (DeclaresIn r module vs text front base.name ↔
        ∃ p, p.name = base.name ∧ (shape? p).isSome = true ∧
          Order.ComesBefore given rest v p) := by
  obtain ⟨front, hstands, hfront⟩ :=
    exists_front h hvs (isClass_of_object hobject) (entityText?_object hobject hname)
  exact ⟨front, _, hstands, structureText_extends hbase _, declares_iff h, hfront base.name⟩

/-- The base comes first by name, and is given last. -/
theorem file_dataBases_zone :
    let view : EntityView := { id := "view", name := "View", kind := "Class" }
    let area : EntityView := { id := "area", name := "Area", kind := "Object" }
    let zone : EntityView := { area with name := "Zone", base := some (.named "Area") }
    ∃ text front code, file {} "gui" [zone, view, area] = .ok text ∧
      StandsBehind {} "gui" [zone, view, area] text front zone code ∧
        DeclaresIn {} "gui" [zone, view, area] text front "Area" := by
  intro view area zone
  have hclasses : Order.classOrder (Order.classesOf [zone, view, area]) = .ok [view] := by cbv
  obtain ⟨text, h⟩ : ∃ text, file {} "gui" [zone, view, area] = .ok text :=
    exists_file (Order.declarationOrder_of_classOrder hclasses)
  have hgiven : [zone, view, area] = [] ++ zone :: [view, area] := rfl
  have hbase : zone.base = some (.named "Area") := rfl
  obtain ⟨front, code, hstands, -, -, hiff⟩ :=
    file_dataBases h hgiven (by decide) (by decide) hbase
  have hkey : Order.sortKey area < Order.sortKey zone := by
    have harea : Text.lowercased area.name = "area" := by cbv
    have hzone : Text.lowercased zone.name = "zone" := by cbv
    exact Order.sortKey_lt_of_lowercased rfl rfl (by rw [harea, hzone]; decide)
  refine ⟨text, front, code, h, hstands, hiff.mpr ⟨area, rfl, by decide, ?_⟩⟩
  rw [Order.ComesBefore, if_neg (by decide)]
  exact .inr ⟨by simp, hkey⟩

/-- The bases of plain data are declared in the file. -/
def DataBasesDeclared (r : TypeTextRules) (module : String) (vs : List EntityView)
    (text : String) : Prop :=
  ∀ v base front code, v.kind? = some .object → v.base = some base →
    StandsBehind r module vs text front v code → Declares r module vs text base.name

/-- The bases of plain data that is declared as a class are declared in front of it. -/
def DataBasesInFront (r : TypeTextRules) (module : String) (vs : List EntityView)
    (text : String) : Prop :=
  ∀ v base front code, v.kind? = some .object → v.base = some base →
    StandsBehind r module vs text front v code → v.hasStatics = true →
      DeclaresIn r module vs text front base.name

/-- Plain data that is declared as a class comes in front of its base when it comes first by name,
and a base that no entity has is not declared at all. -/
theorem file_dataBases_late :
    let alpha : Entity :=
      ⟨"alpha",
        { name := "Alpha", kind := "struct", base := some "Beta"
          members := { classProperties := [{ name := some "count" }] } }⟩
    let beta : Entity := ⟨"beta", { name := "Beta", kind := "struct", base := some "Gone" }⟩
    ∃ vs text, Entity.views {} .js [alpha, beta] = .ok vs ∧ file {} "gui" vs = .ok text ∧
      ¬ DataBasesDeclared {} "gui" vs text ∧ ¬ DataBasesInFront {} "gui" vs text := by
  intro alpha beta
  let alphaView : EntityView :=
    { id := "alpha", name := "Alpha", kind := "Object", base := some (.linked "Beta".toList)
      members := { classProperties := [{ name := some "count" }] } }
  let betaView : EntityView :=
    { id := "beta", name := "Beta", kind := "Object", base := some (.linked "Gone".toList) }
  have hbase {name : String} (hname : mapToken .js name.toList = .ok (.linked name.toList)) :
      (some name).mapM (MappedType.ofToken .js) = .ok (some (.linked name.toList)) := by
    rw [Option.mapM_some, MappedType.ofToken, hname]
    rfl
  have halpha : Entity.view {} .js alpha = .ok (some alphaView) := by
    rw [Entity.view, if_pos (by rfl), hbase (by rw [mapToken_eq]; cbv)]
    cbv
  have hbeta : Entity.view {} .js beta = .ok (some betaView) := by
    rw [Entity.view, if_pos (by rfl), hbase (by rw [mapToken_eq]; cbv)]
    cbv
  have hviews : Entity.views {} .js [alpha, beta] = .ok [alphaView, betaView] := by
    rw [Entity.views, List.mapM_cons, halpha, List.mapM_cons, hbeta]
    rfl
  have hclasses : Order.classOrder (Order.classesOf [alphaView, betaView]) = .ok [] := by cbv
  obtain ⟨text, h⟩ : ∃ text, file {} "gui" [alphaView, betaView] = .ok text :=
    exists_file (Order.declarationOrder_of_classOrder hclasses)
  refine ⟨_, text, hviews, h, fun hdeclared => ?_, fun hinFront => ?_⟩
  · have hgiven : [alphaView, betaView] = [alphaView] ++ betaView :: [] := rfl
    obtain ⟨front, hstands, -⟩ := exists_front h hgiven (by decide) rfl
    have hgone := hdeclared betaView _ front _ (by decide) rfl hstands
    rw [declares_iff h] at hgone
    simp [alphaView, betaView, MappedType.linked] at hgone
  · have hgiven : [alphaView, betaView] = [] ++ alphaView :: [betaView] := rfl
    obtain ⟨front, hstands, hfront⟩ := exists_front h hgiven (by decide) rfl
    have hbeta := hinFront alphaView _ front _ (by decide) rfl hstands (by decide)
    obtain ⟨p, hp, -, hbefore⟩ := (hfront _).mp hbeta
    have hkey : Order.sortKey alphaView < Order.sortKey betaView := by
      have halphaName : Text.lowercased alphaView.name = "alpha" := by cbv
      have hbetaName : Text.lowercased betaView.name = "beta" := by cbv
      exact Order.sortKey_lt_of_lowercased rfl rfl (by rw [halphaName, hbetaName]; decide)
    obtain rfl : p = betaView := List.mem_singleton.mp hbefore.mem
    exact Order.not_comesBefore rfl List.not_mem_nil hkey hbefore

end Declaration

end ApiSurface
