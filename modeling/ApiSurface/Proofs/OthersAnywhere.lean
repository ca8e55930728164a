import ApiSurface.Declaration
import ApiSurface.Proofs.DeclarationOrder

/-!
# Entities that are no classes may stand anywhere

The order of declarations takes the classes as they come and sorts everything else. So of the
entities that are no classes it does not matter where they stand in the input: the classes alone
decide whether there is an order and what fault there is otherwise (`declarationOrder_eq_map`), and
sorting gives the same keys, names included, for every arrangement (`map_sortKey_others`).

Entities with one key have one name. Where names are distinct, sorting gives the same entities, and
the declaration file is the same text.
-/

namespace ApiSurface.Order

open Declaration (file)

variable {vs ws : List EntityView}

/-! ## Classes -/

/-- The order of classes among themselves. -/
def classOrder (classes : List EntityView) : Except OrderError (List EntityView) :=
  match firstRepeat? [] classes with
  | some name => .error (.duplicateClass name)
  | none =>
    match walk (rootsOf classes) (derivedOf classes) with
    | (ordered, []) => .ok ordered
    | (_, v :: _) => .error (stranded classes v)

/-- Classes are ordered without regard to what else there is, which follows them. -/
theorem declarationOrder_eq_map (vs : List EntityView) :
    declarationOrder vs = (classOrder (classesOf vs)).map (· ++ others vs) := by
  rw [declarationOrder_eq, classOrder]
  cases firstRepeat? [] (classesOf vs) with
  | some name => rfl
  | none =>
    obtain ⟨ordered, left⟩ := walk (rootsOf (classesOf vs)) (derivedOf (classesOf vs))
    cases left <;> rfl

/-- Where the classes have an order, the entities have one. -/
theorem declarationOrder_of_classOrder {front : List EntityView}
    (h : classOrder (classesOf vs) = .ok front) :
    declarationOrder vs = .ok (front ++ others vs) := by
  rw [declarationOrder_eq_map, h]
  rfl

/-! ## Other entities -/

theorem others_perm (h : (vs.filter (!·.isClass)).Perm (ws.filter (!·.isClass))) :
    (others vs).Perm (others ws) :=
  (List.mergeSort_perm _ _).trans (h.trans (List.mergeSort_perm _ _).symm)

/-- However they were arranged, other entities are sorted to the same sequence of keys. -/
theorem map_sortKey_others (h : (vs.filter (!·.isClass)).Perm (ws.filter (!·.isClass))) :
    (others vs).map sortKey = (others ws).map sortKey := by
  have hascending (us : List EntityView) : ((others us).map sortKey).Pairwise (· ≤ ·) :=
    List.pairwise_map.mpr (others_stablySorted us).ascending
  exact ((others_perm h).map sortKey).eq_of_pairwise (fun _ _ _ _ => le_antisymm)
    (hascending vs) (hascending ws)

/-- The name is part of the key. -/
theorem name_eq_of_sortKey {v w : EntityView} (h : sortKey v = sortKey w) : v.name = w.name :=
  congrArg (fun key => (ofLex (ofLex (ofLex key).2).2).2) h

theorem map_name_others (h : (vs.filter (!·.isClass)).Perm (ws.filter (!·.isClass))) :
    (others vs).map (·.name) = (others ws).map (·.name) := by
  have hkeys := map_sortKey_others h
  rw [← List.forall₂_eq_eq_eq, List.forall₂_map_left_iff, List.forall₂_map_right_iff] at hkeys ⊢
  exact hkeys.imp fun _ _ => name_eq_of_sortKey

/-- Other entities of distinct names are sorted to the same list. -/
theorem others_eq (h : (vs.filter (!·.isClass)).Perm (ws.filter (!·.isClass)))
    (hnames : ((vs.filter (!·.isClass)).map (·.name)).Nodup) : others vs = others ws := by
  refine (others_perm h).eq_of_pairwise (fun v w hv hw hle hge => ?_)
    (others_stablySorted vs).ascending (others_stablySorted ws).ascending
  have hv' : v ∈ vs.filter (!·.isClass) := (List.mergeSort_perm _ _).mem_iff.mp hv
  have hw' : w ∈ vs.filter (!·.isClass) := h.mem_iff.mpr ((List.mergeSort_perm _ _).mem_iff.mp hw)
  exact List.inj_on_of_nodup_map hnames hv' hw' (name_eq_of_sortKey (le_antisymm hle hge))

/-! ## Both together -/

/-- Two lists with the same classes in the same order, and between them the same other entities in
any arrangement. -/
structure SameEntities (vs ws : List EntityView) : Prop where
  classes : classesOf vs = classesOf ws
  others : (vs.filter (!·.isClass)).Perm (ws.filter (!·.isClass))

/-- **Where other entities stand does not matter**: there is the same fault, or an order with the
same names; and when the names of the other entities are distinct, the same declaration file. -/
theorem declarations_of_sameEntities (h : SameEntities vs ws) :
    (declarationOrder vs).map (List.map (·.name)) = (declarationOrder ws).map (List.map (·.name)) ∧
      (((vs.filter (!·.isClass)).map (·.name)).Nodup →
        ∀ r module, file r module vs = file r module ws) := by
  refine ⟨?_, fun hnames r module => ?_⟩
  · rw [declarationOrder_eq_map, declarationOrder_eq_map, ← h.classes]
    cases classOrder (classesOf vs) with
    | error e => rfl
    | ok ordered =>
      show Except.ok ((ordered ++ others vs).map (·.name)) = .ok ((ordered ++ others ws).map _)
      rw [List.map_append, List.map_append, map_name_others h.others]
  · have horder : declarationOrder vs = declarationOrder ws := by
      rw [declarationOrder_eq_map, declarationOrder_eq_map, ← h.classes,
        others_eq h.others hnames]
    rw [file, file, horder]

/-- Plain data and an enumeration on either side of a class. -/
theorem declarations_of_sameEntities_view :
    let view : EntityView := { id := "view", name := "View", kind := "Class" }
    let options : EntityView := { id := "options", name := "Options", kind := "Object" }
    let align : EntityView := { id := "align", name := "Align", kind := "String" }
    SameEntities [align, view, options] [options, view, align] ∧
      ([align, options].map (·.name)).Nodup ∧
      ∃ text, file {} "gui" [align, view, options] = .ok text ∧
        file {} "gui" [options, view, align] = .ok text := by
  intro view options align
  have hsame : SameEntities [align, view, options] [options, view, align] :=
    ⟨rfl, List.Perm.swap options align []⟩
  have hnames : ([align, options].map (·.name)).Nodup := by decide
  have hclasses : classOrder (classesOf [align, view, options]) = .ok [view] := by cbv
  have horder := declarationOrder_eq_map [align, view, options]
  rw [hclasses] at horder
  refine ⟨hsame, hnames, _, congrArg _ horder, ?_⟩
  rw [← (declarations_of_sameEntities hsame).2 hnames {} "gui"]
  exact congrArg _ horder

end ApiSurface.Order
