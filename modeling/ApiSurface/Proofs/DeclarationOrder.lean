import Mathlib
import ApiSurface.Proofs.InheritanceForest

/-!
# Declarations in order

The order of declarations is the traversal of the forest of classes followed by all other entities,
sorted. Both halves are stated without the program: the first by `Traversal`, the second by what it
means to be sorted by a key with ties left in place. Each determines its list, so `ForestOrder`
holds of one list at most, and `declarationOrder` gives that list whenever it gives one.
-/

namespace ApiSurface

open Relation (ReflTransGen)

namespace Order

/-! ## Other entities, sorted -/

/-- What entities that are no classes are sorted by: those of a component or module first, plain
data before the rest, then the name in lowercase, then the name. -/
def sortKey (v : EntityView) : Bool ×ₗ Bool ×ₗ String ×ₗ String :=
  toLex (!isPlaced v, toLex (v.kind? != some .object, toLex (Text.lowercased v.name, v.name)))

/-- The comparison of entities is the lexicographic one of their keys. -/
theorem isLE_compareEntities (v w : EntityView) :
    (compareEntities v w).isLE = true ↔ sortKey v ≤ sortKey w := by
  rw [compareEntities, Ordering.isLE_then_iff_or, Ordering.isLE_then_iff_or,
    Ordering.isLE_then_iff_or, Ordering.isLE_iff_ne_gt, ← ne_eq, compare_le_iff_le]
  simp only [compare_lt_iff_lt, compare_eq_iff_eq, sortKey, Prod.Lex.le_iff, ofLex_toLex]

/-- `sorted` holds the entities of `vs` by ascending keys, those of one key in the order they have
in `vs`. -/
structure StablySorted (vs sorted : List EntityView) : Prop where
  ascending : sorted.Pairwise fun v w => sortKey v ≤ sortKey w
  ties : ∀ key, sorted.filter (sortKey · = key) = vs.filter (sortKey · = key)

/-- What is sorted stably holds the same entities. -/
theorem StablySorted.mem_iff {vs sorted : List EntityView} (h : StablySorted vs sorted)
    (v : EntityView) : v ∈ sorted ↔ v ∈ vs := by
  have hties := congrArg (v ∈ ·) (h.ties (sortKey v))
  simpa using hties

/-- The head of a sorted list has the least key. -/
theorem StablySorted.head_le {vs sorted : List EntityView} {v w : EntityView}
    (h : StablySorted vs (v :: sorted)) (hw : w ∈ vs) : sortKey v ≤ sortKey w := by
  rcases List.mem_cons.mp ((h.mem_iff w).mpr hw) with rfl | hw
  · exact le_refl _
  · exact (List.pairwise_cons.mp h.ascending).1 w hw

/-- There is only one way to sort stably. -/
theorem StablySorted.unique {vs sorted sorted' : List EntityView} (h : StablySorted vs sorted)
    (h' : StablySorted vs sorted') : sorted = sorted' := by
  induction sorted generalizing vs sorted' with
  | nil =>
    refine (List.eq_nil_iff_forall_not_mem.mpr fun v hv => ?_).symm
    exact List.not_mem_nil ((h.mem_iff v).mpr ((h'.mem_iff v).mp hv))
  | cons v rest ih =>
    cases sorted' with
    | nil =>
      exact absurd ((h'.mem_iff v).mpr ((h.mem_iff v).mp List.mem_cons_self)) List.not_mem_nil
    | cons v' rest' =>
      -- both heads have the least key, and are the first entity of that key
      have hkey : sortKey v = sortKey v' :=
        le_antisymm (h.head_le ((h'.mem_iff v').mp List.mem_cons_self))
          (h'.head_le ((h.mem_iff v).mp List.mem_cons_self))
      have hsame := (h.ties (sortKey v)).trans (h'.ties (sortKey v)).symm
      rw [List.filter_cons_of_pos (by simp), List.filter_cons_of_pos (by simp [hkey]),
        List.cons.injEq] at hsame
      obtain ⟨rfl, -⟩ := hsame
      refine congrArg (v :: ·) (ih ⟨(List.pairwise_cons.mp h.ascending).2, fun _ => rfl⟩
        ⟨(List.pairwise_cons.mp h'.ascending).2, fun key => ?_⟩)
      have hties := (h'.ties key).trans (h.ties key).symm
      by_cases hv : sortKey v = key
      · rw [List.filter_cons_of_pos (by simpa using hv),
          List.filter_cons_of_pos (by simpa using hv)] at hties
        exact (List.cons.inj hties).2
      · rwa [List.filter_cons_of_neg (by simpa using hv),
          List.filter_cons_of_neg (by simpa using hv)] at hties

/-- Sorting leaves entities alone that are in order already, wherever they stand. -/
theorem filter_mergeSort {α : Type} {le : α → α → Bool} {p : α → Bool} {xs : List α}
    (htrans : ∀ x y z, le x y = true → le y z = true → le x z = true)
    (htotal : ∀ x y, (le x y || le y x) = true)
    (h : (xs.filter p).Pairwise fun x y => le x y = true) :
    (xs.mergeSort le).filter p = xs.filter p := by
  have hsub := (List.sublist_mergeSort htrans htotal h List.filter_sublist).filter p
  rw [List.filter_filter] at hsub
  simp only [Bool.and_self] at hsub
  exact (hsub.eq_of_length ((List.mergeSort_perm _ _).filter _).length_eq.symm).symm

/-- The entities that are no classes are sorted stably. -/
theorem others_stablySorted (vs : List EntityView) :
    StablySorted (vs.filter (!·.isClass)) (others vs) := by
  have htrans : ∀ u v w, (compareEntities u v).isLE = true → (compareEntities v w).isLE = true →
      (compareEntities u w).isLE = true := by
    intro u v w huv hvw
    rw [isLE_compareEntities] at huv hvw ⊢
    exact huv.trans hvw
  have htotal : ∀ v w, ((compareEntities v w).isLE || (compareEntities w v).isLE) = true := by
    intro v w
    rw [Bool.or_eq_true, isLE_compareEntities, isLE_compareEntities]
    exact le_total _ _
  refine ⟨(List.pairwise_mergeSort htrans htotal _).imp fun h => (isLE_compareEntities _ _).mp h,
    fun key => ?_⟩
  -- the entities of one key are in order already, so sorting leaves them as they are
  have hties : ((vs.filter (!·.isClass)).filter (sortKey · = key)).Pairwise
      fun v w => (compareEntities v w).isLE = true := by
    refine List.pairwise_of_forall_mem_list fun v hv w hw => ?_
    have hv : sortKey v = key := by simpa using (List.mem_filter.mp hv).2
    have hw : sortKey w = key := by simpa using (List.mem_filter.mp hw).2
    rw [isLE_compareEntities, hv, hw]
  exact filter_mergeSort htrans htotal hties

/-! ## The whole order -/

/-- The order that the forest of classes and the keys of the others prescribe. -/
def ForestOrder (vs order : List EntityView) : Prop :=
  ∃ front back, order = front ++ back ∧
    Traversal (classesOf vs) (rootsOf (classesOf vs)) front ∧
    StablySorted (vs.filter (!·.isClass)) back

/-- Only one order is prescribed. -/
theorem ForestOrder.unique {vs order order' : List EntityView} (h : ForestOrder vs order)
    (h' : ForestOrder vs order') : order = order' := by
  obtain ⟨front, back, rfl, hfront, hback⟩ := h
  obtain ⟨front', back', rfl, hfront', hback'⟩ := h'
  rw [hfront.unique hfront', hback.unique hback']

/-- A name repeats exactly when the names are not distinct. -/
theorem firstRepeat?_eq_none_iff {seen : List String} {vs : List EntityView} :
    firstRepeat? seen vs = none ↔ (vs.map (·.name)).Nodup ∧ ∀ v ∈ vs, v.name ∉ seen := by
  induction vs generalizing seen with
  | nil => simp [firstRepeat?]
  | cons v rest ih =>
    rw [firstRepeat?, List.map_cons, List.nodup_cons]
    by_cases hseen : seen.contains v.name = true
    · rw [if_pos hseen]
      simp [List.contains_iff_mem.mp hseen]
    · rw [if_neg hseen, ih]
      rw [List.contains_iff_mem] at hseen
      constructor
      · rintro ⟨hnodup, hfresh⟩
        refine ⟨⟨?_, hnodup⟩, ?_⟩
        · intro hv
          obtain ⟨u, hu, hname⟩ := List.mem_map.mp hv
          exact hfresh u hu (hname ▸ List.mem_cons_self)
        · intro u hu
          rcases List.mem_cons.mp hu with rfl | hu
          · exact hseen
          · exact fun h => hfresh u hu (List.mem_cons_of_mem _ h)
      · rintro ⟨⟨hv, hnodup⟩, hfresh⟩
        refine ⟨hnodup, fun u hu h => ?_⟩
        rcases List.mem_cons.mp h with hname | h
        · exact hv (hname ▸ List.mem_map_of_mem hu)
        · exact hfresh u (List.mem_cons_of_mem _ hu) h

/-- Whether names are distinct is what the search for a repeated one decides. -/
theorem names_nodup_iff {vs : List EntityView} :
    (vs.map (·.name)).Nodup ↔ firstRepeat? [] vs = none := by
  simp [firstRepeat?_eq_none_iff]

/-- The name that is found is the first one that an earlier entity has. -/
theorem firstRepeat?_eq_some {seen : List String} {vs : List EntityView} {name : String}
    (h : firstRepeat? seen vs = some name) :
    ∃ before v after, vs = before ++ v :: after ∧ v.name = name ∧
      (before.map (·.name)).Nodup ∧ (∀ u ∈ before, u.name ∉ seen) ∧
        (name ∈ seen ∨ name ∈ before.map (·.name)) := by
  induction vs generalizing seen with
  | nil => simp [firstRepeat?] at h
  | cons v rest ih =>
    rw [firstRepeat?] at h
    split at h
    · next hseen =>
      cases h
      exact ⟨[], v, rest, rfl, rfl, by simp, by simp, .inl (List.contains_iff_mem.mp hseen)⟩
    · next hseen =>
      rw [List.contains_iff_mem] at hseen
      obtain ⟨before, w, after, rfl, hname, hnodup, hfresh, hmem⟩ := ih h
      refine ⟨v :: before, w, after, rfl, hname, ?_, ?_, ?_⟩
      · rw [List.map_cons, List.nodup_cons]
        refine ⟨fun hv => ?_, hnodup⟩
        obtain ⟨u, hu, hname⟩ := List.mem_map.mp hv
        exact hfresh u hu (hname ▸ List.mem_cons_self)
      · intro u hu
        rcases List.mem_cons.mp hu with rfl | hu
        · exact hseen
        · exact fun hmem => hfresh u hu (List.mem_cons_of_mem _ hmem)
      · rcases hmem with hmem | hmem
        · rcases List.mem_cons.mp hmem with rfl | hmem
          · exact .inr List.mem_cons_self
          · exact .inl hmem
        · exact .inr (List.mem_cons_of_mem _ hmem)

/-- The steps of ordering: names are compared, the walk starts at the roots, and a class that it
leaves is explained. -/
theorem declarationOrder_eq (vs : List EntityView) :
    declarationOrder vs =
      match firstRepeat? [] (classesOf vs) with
      | some name => .error (.duplicateClass name)
      | none =>
        match walk (rootsOf (classesOf vs)) (derivedOf (classesOf vs)) with
        | (ordered, []) => .ok (ordered ++ others vs)
        | (_, v :: _) => .error (stranded (classesOf vs) v) := by
  rw [declarationOrder, List.partition_eq_filter_filter]
  rfl

/-- When an order is found: names are distinct and the walk leaves nothing. -/
theorem declarationOrder_ok_iff {vs order : List EntityView} :
    declarationOrder vs = .ok order ↔
      ((classesOf vs).map (·.name)).Nodup ∧
        (walk (rootsOf (classesOf vs)) (derivedOf (classesOf vs))).2 = [] ∧
        order = (walk (rootsOf (classesOf vs)) (derivedOf (classesOf vs))).1 ++ others vs := by
  rw [declarationOrder_eq]
  cases hrepeat : firstRepeat? [] (classesOf vs) with
  | some name =>
    have hnodup := mt names_nodup_iff.mp (hrepeat ▸ Option.some_ne_none name)
    simp [hnodup]
  | none =>
    have hnodup := names_nodup_iff.mpr hrepeat
    obtain ⟨ordered, left⟩ := walk (rootsOf (classesOf vs)) (derivedOf (classesOf vs))
    cases left with
    | nil => simp [hnodup, eq_comm]
    | cons v rest => simp

/-- When no order is found: a name repeats, or the walk leaves a class behind. -/
theorem declarationOrder_error_iff {vs : List EntityView} {e : OrderError} :
    declarationOrder vs = .error e ↔
      (∃ name, firstRepeat? [] (classesOf vs) = some name ∧ e = .duplicateClass name) ∨
        ((classesOf vs).map (·.name)).Nodup ∧
          ∃ v rest, (walk (rootsOf (classesOf vs)) (derivedOf (classesOf vs))).2 = v :: rest ∧
            e = stranded (classesOf vs) v := by
  rw [declarationOrder_eq]
  cases hrepeat : firstRepeat? [] (classesOf vs) with
  | some name =>
    have hnodup := mt names_nodup_iff.mp (hrepeat ▸ Option.some_ne_none name)
    simp [hnodup, eq_comm (a := e)]
  | none =>
    have hnodup := names_nodup_iff.mpr hrepeat
    obtain ⟨ordered, left⟩ := walk (rootsOf (classesOf vs)) (derivedOf (classesOf vs))
    cases left with
    | nil => simp
    | cons v rest => simp [hnodup, eq_comm (a := e)]

/-- An order lists the classes in front, by their branches, and all other entities behind them. -/
theorem exists_traversal_of_ok {vs order : List EntityView} (h : declarationOrder vs = .ok order) :
    ∃ front, order = front ++ others vs ∧ front.Perm (classesOf vs) ∧
      Traversal (classesOf vs) (rootsOf (classesOf vs)) front := by
  obtain ⟨hnodup, hleft, rfl⟩ := declarationOrder_ok_iff.mp h
  refine ⟨_, rfl, ?_, walk_traversal (pending_init hnodup)⟩
  have hwalk := walk_perm (rootsOf (classesOf vs)) (derivedOf (classesOf vs))
  rw [hleft, List.append_nil] at hwalk
  exact hwalk.trans (rootsOf_append_derivedOf_perm _)

/-- An order holds every entity once. -/
theorem perm_of_ok {vs order : List EntityView} (h : declarationOrder vs = .ok order) :
    order.Perm vs := by
  obtain ⟨front, rfl, hperm, -⟩ := exists_traversal_of_ok h
  exact (hperm.append (List.mergeSort_perm _ _)).trans (List.filter_append_perm _ _)

/-- An order puts every class with a base behind a class that it is derived from. -/
theorem exists_base_before_of_ok {vs before after : List EntityView} {v : EntityView}
    (h : declarationOrder vs = .ok (before ++ v :: after)) (hclass : v.isClass = true)
    (hbase : v.base ≠ none) : ∃ p ∈ before, p.isClass = true ∧ v.derivesFrom p = true := by
  obtain ⟨front, hsplit, hperm, htraversal⟩ := exists_traversal_of_ok h
  have hother : ∀ w ∈ others vs, w ≠ v := by
    rintro w hw rfl
    simpa [hclass] using (List.mem_filter.mp ((List.mergeSort_perm _ _).mem_iff.mp hw)).2
  -- a class stands in the front half, so the cut at `v` is a cut of that half
  obtain ⟨after', rfl⟩ : ∃ after', front = before ++ v :: after' := by
    obtain ⟨middle, rfl, hback⟩ | ⟨middle, -, hback⟩ := List.append_eq_append_iff.mp hsplit
    · cases middle with
      | nil => exact absurd rfl (hother v (by simp [← show v :: after = others vs from hback]))
      | cons w middle => exact ⟨middle, by rw [(List.cons.inj hback).1]⟩
    · exact absurd rfl (hother v (by simp [hback]))
  rcases htraversal.base_before rfl with hroot | ⟨p, hp, hderives⟩
  · exact absurd (mem_rootsOf.mp hroot).2 hbase
  · exact ⟨p, hp, (mem_classesOf.mp (hperm.mem_iff.mp (List.mem_append_left _ hp))).2, hderives⟩

/-- What can be relied on in the order of declarations: it is the only one prescribed, holds every
entity once, puts every class with a base behind that base, and keeps every class in one piece with
all that is derived from it. -/
structure Arranged (vs order : List EntityView) : Prop where
  forest : ForestOrder vs order
  only : ∀ order', ForestOrder vs order' → order' = order
  perm : order.Perm vs
  base_before : ∀ before v after, order = before ++ v :: after → v.isClass = true →
    v.base ≠ none → ∃ p ∈ before, p.isClass = true ∧ v.derivesFrom p = true
  branch : ∀ v ∈ vs, v.isClass = true → ∃ before branch after,
    order = before ++ branch ++ after ∧ Traversal (classesOf vs) [v] branch ∧
      ∀ w, w ∈ branch ↔ w ∈ classesOf vs ∧ ReflTransGen (Derives (classesOf vs)) w v

/-- **The order of declarations.** Whenever an order is found, it is the one that the forest of
classes and the keys of the others prescribe. -/
theorem declarationOrder_arranged {vs order : List EntityView}
    (h : declarationOrder vs = .ok order) : Arranged vs order := by
  obtain ⟨hnodup, hleft, rfl⟩ := declarationOrder_ok_iff.mp h
  set front := (walk (rootsOf (classesOf vs)) (derivedOf (classesOf vs))).1 with hfront
  have htraversal : Traversal (classesOf vs) (rootsOf (classesOf vs)) front :=
    walk_traversal (pending_init hnodup)
  have hperm : front.Perm (classesOf vs) := by
    have hwalk := walk_perm (rootsOf (classesOf vs)) (derivedOf (classesOf vs))
    rw [hleft, List.append_nil] at hwalk
    exact hwalk.trans (rootsOf_append_derivedOf_perm _)
  have hothers : (others vs).Perm (vs.filter (!·.isClass)) := List.mergeSort_perm _ _
  have hforest : ForestOrder vs (front ++ others vs) :=
    ⟨front, others vs, rfl, htraversal, others_stablySorted vs⟩
  refine ⟨hforest, fun order' h' => h'.unique hforest, ?_, ?_, ?_⟩
  · exact (hperm.append hothers).trans (List.filter_append_perm _ _)
  · intro before v after hsplit hclass hbase
    -- `v` is a class, so it does not stand among the others
    have hv : v ∉ others vs := fun hv => by
      simpa [hclass] using (List.mem_filter.mp (hothers.mem_iff.mp hv)).2
    obtain ⟨after', hsplit⟩ : ∃ after', front = before ++ v :: after' := by
      obtain ⟨middle, -, hback⟩ | ⟨middle, hfront, hback⟩ := List.append_eq_append_iff.mp hsplit
      · exact absurd (hback ▸ List.mem_append_right _ List.mem_cons_self) hv
      · rw [List.cons_eq_append_iff] at hback
        obtain ⟨-, hothers⟩ | ⟨middle, rfl, -⟩ := hback
        · exact absurd (hothers ▸ List.mem_cons_self) hv
        · exact ⟨middle, hfront⟩
    rcases htraversal.base_before hsplit with hroot | ⟨p, hp, hderives⟩
    · exact absurd (mem_rootsOf.mp hroot).2 hbase
    · have hp' : p ∈ classesOf vs :=
        hperm.mem_iff.mp (hsplit ▸ List.mem_append_left _ hp)
      exact ⟨p, hp, (mem_classesOf.mp hp').2, hderives⟩
  · intro v hv hclass
    have hv' : v ∈ classesOf vs := mem_classesOf.mpr ⟨hv, hclass⟩
    obtain ⟨before, branch, after, hsplit, hbranch⟩ :=
      htraversal.exists_branch (hperm.mem_iff.mpr hv')
    refine ⟨before, branch, after ++ others vs, ?_, hbranch, hbranch.mem_branch_iff hv'⟩
    rw [hsplit, List.append_assoc, List.append_assoc]

/-- Branches given backwards with others between them. -/
theorem declarationOrder_arranged_branches :
    let view : EntityView := { id := "view", name := "View", kind := "Class" }
    let mode : EntityView := { id := "mode", name := "Mode", kind := "String" }
    let rect : EntityView := { id := "rect", name := "Rect", kind := "Object" }
    let pane : EntityView := { view with name := "Pane", base := some (.named "View") }
    let button : EntityView := { view with name := "Button", base := some (.named "View") }
    let scroll : EntityView := { view with name := "Scroll", base := some (.named "Pane") }
    declarationOrder [scroll, mode, pane, view, rect, button] =
        .ok [view, pane, scroll, button, rect, mode] ∧
      Arranged [scroll, mode, pane, view, rect, button]
        [view, pane, scroll, button, rect, mode] := by
  intro view mode rect pane button scroll
  have horder : declarationOrder [scroll, mode, pane, view, rect, button] =
      .ok [view, pane, scroll, button, rect, mode] := by cbv
  exact ⟨horder, declarationOrder_arranged horder⟩

end Order

end ApiSurface
