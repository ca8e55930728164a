import Mathlib.Data.List.Nodup
import Mathlib.Logic.Relation
import ApiSurface.Declaration.Order

/-!
# The forest of classes

Each class names at most one base, so classes form chains upwards and branches downwards.
`Traversal` lists the branches of some classes one after another, each class in front of the classes
derived from it, and says nothing of how such a list is found.

`walk` finds it. What carries the walk is `Pending`: whatever is derived from a class that has not
been declared is itself among the unmet classes, so cutting the unmet ones at each step loses
nothing.
-/

namespace ApiSurface.Order

open Relation (ReflTransGen)

/-- The classes among some entities. -/
def classesOf (vs : List EntityView) : List EntityView :=
  vs.filter (·.isClass)

/-- The classes without a base. -/
def rootsOf (classes : List EntityView) : List EntityView :=
  classes.filter (·.base.isNone)

/-- The classes with a base. -/
def derivedOf (classes : List EntityView) : List EntityView :=
  classes.filter (!·.base.isNone)

theorem mem_classesOf {vs : List EntityView} {v : EntityView} :
    v ∈ classesOf vs ↔ v ∈ vs ∧ v.isClass = true :=
  List.mem_filter

theorem mem_rootsOf {classes : List EntityView} {v : EntityView} :
    v ∈ rootsOf classes ↔ v ∈ classes ∧ v.base = none := by
  simp [rootsOf]

theorem mem_derivedOf {classes : List EntityView} {v : EntityView} :
    v ∈ derivedOf classes ↔ v ∈ classes ∧ v.base ≠ none := by
  simp [derivedOf, ← Option.isSome_iff_ne_none]

theorem mem_below {v w : EntityView} {vs : List EntityView} :
    w ∈ below v vs ↔ w ∈ vs ∧ w.derivesFrom v = true :=
  List.mem_filter

theorem derivesFrom_iff {v p : EntityView} :
    v.derivesFrom p = true ↔ v.parentName? = some p.name := by
  simp [EntityView.derivesFrom]

/-- A class without a base is derived from nothing. -/
theorem base_ne_none_of_derivesFrom {v p : EntityView} (h : v.derivesFrom p = true) :
    v.base ≠ none := by
  intro hnone
  simp [EntityView.derivesFrom, EntityView.parentName?, hnone] at h

/-- Every class is a root or derived, and not both. -/
theorem rootsOf_append_derivedOf_perm (classes : List EntityView) :
    (rootsOf classes ++ derivedOf classes).Perm classes :=
  List.filter_append_perm _ _

/-- One step up: a class that an entity is derived from. -/
def Derives (classes : List EntityView) (v p : EntityView) : Prop :=
  p ∈ classes ∧ v.derivesFrom p = true

/-- The way up from a class stays among the classes and ends at one without a base. -/
def Rooted (classes : List EntityView) (v : EntityView) : Prop :=
  ∃ root, ReflTransGen (Derives classes) v root ∧ root.base = none

theorem Rooted.of_derives {classes : List EntityView} {v p : EntityView}
    (hp : Rooted classes p) (h : Derives classes v p) : Rooted classes v := by
  obtain ⟨root, hup, hroot⟩ := hp
  exact ⟨root, hup.head h, hroot⟩

/-! ## Branches in front of each other -/

/-- `Traversal classes vs order`: `order` lists the branches of the entities `vs` one after another,
each entity followed by the branches of the classes derived from it. -/
inductive Traversal (classes : List EntityView) : List EntityView → List EntityView → Prop
  | nil : Traversal classes [] []
  | cons {v : EntityView} {vs branches rest : List EntityView} :
      Traversal classes (below v classes) branches → Traversal classes vs rest →
        Traversal classes (v :: vs) (v :: branches ++ rest)

namespace Traversal

variable {classes vs order : List EntityView}

/-- Two lists of branches stand behind each other exactly when their roots do. -/
theorem append_inv {us : List EntityView} (h : Traversal classes (us ++ vs) order) :
    ∃ front back, order = front ++ back ∧ Traversal classes us front ∧
      Traversal classes vs back := by
  induction us generalizing order with
  | nil => exact ⟨[], order, rfl, .nil, h⟩
  | cons u us ih =>
    cases h with
    | cons hbranches hrest =>
      obtain ⟨front, back, rfl, hfront, hback⟩ := ih hrest
      exact ⟨_, back, (List.append_assoc ..).symm, .cons hbranches hfront, hback⟩

/-- There is only one traversal. -/
theorem unique {order' : List EntityView} (h : Traversal classes vs order)
    (h' : Traversal classes vs order') : order = order' := by
  induction h generalizing order' with
  | nil =>
    cases h'
    rfl
  | cons _ _ ihbranches ihrest =>
    cases h' with
    | cons hbranches' hrest' => rw [ihbranches hbranches', ihrest hrest']

/-- The roots of the branches are listed. -/
theorem subset (h : Traversal classes vs order) : vs ⊆ order := by
  induction h with
  | nil => exact List.Subset.refl _
  | cons _ _ _ ihrest =>
    intro w hw
    rcases List.mem_cons.mp hw with rfl | hw
    · exact List.mem_cons_self
    · exact List.mem_append_right _ (ihrest hw)

/-- With a class all classes derived from it are listed. -/
theorem derived_subset (h : Traversal classes vs order) {v : EntityView} (hv : v ∈ order) :
    Order.below v classes ⊆ order := by
  induction h with
  | nil => cases hv
  | cons hbranches _ ihbranches ihrest =>
    rw [List.cons_append, List.mem_cons, List.mem_append] at hv
    intro w hw
    rcases hv with rfl | hv | hv
    · exact List.mem_cons_of_mem _ (List.mem_append_left _ (hbranches.subset hw))
    · exact List.mem_cons_of_mem _ (List.mem_append_left _ (ihbranches hv hw))
    · exact List.mem_append_right _ (ihrest hv hw)

/-- What is listed lies on a branch: the way up from it meets a root of the branches. -/
theorem exists_reach (h : Traversal classes vs order) (hvs : vs ⊆ classes) {w : EntityView}
    (hw : w ∈ order) : w ∈ classes ∧ ∃ v ∈ vs, ReflTransGen (Derives classes) w v := by
  induction h with
  | nil => cases hw
  | @cons v vs branches rest _ _ ihbranches ihrest =>
    have hv : v ∈ classes := hvs List.mem_cons_self
    have hrest : vs ⊆ classes := fun u hu => hvs (List.mem_cons_of_mem _ hu)
    rw [List.cons_append, List.mem_cons, List.mem_append] at hw
    rcases hw with rfl | hw | hw
    · exact ⟨hv, w, List.mem_cons_self, .refl⟩
    · obtain ⟨hmem, u, hu, hup⟩ := ihbranches (fun u hu => (mem_below.mp hu).1) hw
      exact ⟨hmem, v, List.mem_cons_self, hup.tail ⟨hv, (mem_below.mp hu).2⟩⟩
    · obtain ⟨hmem, u, hu, hup⟩ := ihrest hrest hw
      exact ⟨hmem, u, List.mem_cons_of_mem _ hu, hup⟩

/-- Every class from which the way up meets a listed class is listed. -/
theorem mem_of_reach (h : Traversal classes vs order) {w v : EntityView} (hw : w ∈ classes)
    (hup : ReflTransGen (Derives classes) w v) (hv : v ∈ order) : w ∈ order := by
  induction hup using ReflTransGen.head_induction_on with
  | refl => exact hv
  | head hstep _ ih => exact h.derived_subset (ih hstep.1) (mem_below.mpr ⟨hw, hstep.2⟩)

/-- The branch of a class holds that class and whatever the way up leads to it from. -/
theorem mem_branch_iff {v : EntityView} {branch : List EntityView} (hv : v ∈ classes)
    (h : Traversal classes [v] branch) (w : EntityView) :
    w ∈ branch ↔ w ∈ classes ∧ ReflTransGen (Derives classes) w v := by
  constructor
  · intro hw
    obtain ⟨hmem, u, hu, hup⟩ := h.exists_reach (by simpa using hv) hw
    rw [List.mem_singleton] at hu
    exact ⟨hmem, hu ▸ hup⟩
  · rintro ⟨hmem, hup⟩
    exact h.mem_of_reach hmem hup (h.subset List.mem_cons_self)

/-- A listed class is a root of the branches or comes behind a class it is derived from. -/
theorem base_before (h : Traversal classes vs order) {before after : List EntityView}
    {w : EntityView} (hsplit : order = before ++ w :: after) :
    w ∈ vs ∨ ∃ p ∈ before, w.derivesFrom p = true := by
  induction h generalizing before after with
  | nil => simp at hsplit
  | @cons v vs branches rest _ _ ihbranches ihrest =>
    rw [List.cons_append, List.cons_eq_append_iff] at hsplit
    obtain ⟨rfl, hw⟩ | ⟨before, rfl, hsplit⟩ := hsplit
    · exact .inl (List.mem_cons.mpr (.inl (List.cons.inj hw).1))
    rw [List.append_eq_append_iff] at hsplit
    obtain ⟨middle, rfl, hrest⟩ | ⟨middle, hbranches, htail⟩ := hsplit
    · -- `w` stands in the branches behind those of `v`
      rcases ihrest hrest with hw | ⟨p, hp, hderives⟩
      · exact .inl (List.mem_cons_of_mem _ hw)
      · exact .inr ⟨p, List.mem_cons_of_mem _ (List.mem_append_right _ hp), hderives⟩
    · rw [List.cons_eq_append_iff] at htail
      obtain ⟨rfl, hrest⟩ | ⟨middle, rfl, htail⟩ := htail
      · rcases ihrest (show rest = [] ++ w :: after from hrest) with hw | ⟨p, hp, -⟩
        · exact .inl (List.mem_cons_of_mem _ hw)
        · cases hp
      · -- `w` stands in the branches of `v`
        rcases ihbranches hbranches with hw | ⟨p, hp, hderives⟩
        · exact .inr ⟨v, List.mem_cons_self, (mem_below.mp hw).2⟩
        · exact .inr ⟨p, List.mem_cons_of_mem _ hp, hderives⟩

/-- The branch of each listed class stands in one piece. -/
theorem exists_branch (h : Traversal classes vs order) {v : EntityView} (hv : v ∈ order) :
    ∃ before branch after, order = before ++ branch ++ after ∧ Traversal classes [v] branch := by
  induction h with
  | nil => cases hv
  | @cons u vs branches rest hbranches _ ihbranches ihrest =>
    rw [List.cons_append, List.mem_cons, List.mem_append] at hv
    rcases hv with rfl | hv | hv
    · refine ⟨[], v :: branches, rest, rfl, ?_⟩
      simpa using Traversal.cons hbranches .nil
    · obtain ⟨before, branch, after, rfl, hbranch⟩ := ihbranches hv
      exact ⟨u :: before, branch, after ++ rest, by simp, hbranch⟩
    · obtain ⟨before, branch, after, rfl, hbranch⟩ := ihrest hv
      exact ⟨u :: branches ++ before, branch, after, by simp, hbranch⟩

end Traversal

/-! ## The walk -/

theorem walk_nil (unmet : List EntityView) : walk [] unmet = ([], unmet) := by
  rw [walk]

theorem walk_cons (v : EntityView) (waiting unmet : List EntityView) :
    walk (v :: waiting) unmet =
      (v :: (walk (below v unmet ++ waiting) (apart v unmet)).1,
        (walk (below v unmet ++ waiting) (apart v unmet)).2) := by
  rw [walk]

/-- A step of the walk takes one class away and moves others. -/
theorem below_append_apart_perm (v : EntityView) (waiting unmet : List EntityView) :
    (below v unmet ++ waiting ++ apart v unmet).Perm (waiting ++ unmet) := by
  have hsplit : (below v unmet ++ apart v unmet).Perm unmet := List.filter_append_perm _ _
  calc (below v unmet ++ waiting ++ apart v unmet).Perm
        (waiting ++ below v unmet ++ apart v unmet) := List.perm_append_comm.append_right _
    _ = waiting ++ (below v unmet ++ apart v unmet) := List.append_assoc ..
    List.Perm _ (waiting ++ unmet) := hsplit.append_left _

/-- The walk neither loses nor repeats a class. -/
theorem walk_perm (waiting unmet : List EntityView) :
    ((walk waiting unmet).1 ++ (walk waiting unmet).2).Perm (waiting ++ unmet) := by
  induction waiting, unmet using walk.induct with
  | case1 unmet => rw [walk_nil]
  | case2 v waiting unmet _ _ _ ih =>
    rw [walk_cons]
    exact (ih.trans (below_append_apart_perm v waiting unmet)).cons v

/-- The classes that are not reached keep their order. -/
theorem walk_left_sublist (waiting unmet : List EntityView) :
    (walk waiting unmet).2.Sublist unmet := by
  induction waiting, unmet using walk.induct with
  | case1 unmet =>
    exact (walk_nil unmet).symm ▸ List.Sublist.refl unmet
  | case2 v waiting unmet _ _ _ ih =>
    rw [walk_cons]
    exact ih.trans List.filter_sublist

/-- What every step of the walk keeps: no two classes of one name are on the way, and what is
derived from any of them has not been met. -/
structure Pending (classes waiting unmet : List EntityView) : Prop where
  nodup : ((waiting ++ unmet).map (·.name)).Nodup
  below_eq : ∀ v ∈ waiting ++ unmet, below v unmet = below v classes

/-- The walk starts with the roots waiting. -/
theorem pending_init {classes : List EntityView} (hnodup : (classes.map (·.name)).Nodup) :
    Pending classes (rootsOf classes) (derivedOf classes) := by
  refine ⟨((rootsOf_append_derivedOf_perm classes).map _).nodup_iff.mpr hnodup, ?_⟩
  intro v _
  rw [below, derivedOf, List.filter_filter]
  refine List.filter_congr fun w _ => ?_
  cases hderives : w.derivesFrom v with
  | false => rfl
  | true => simpa [← Option.isSome_iff_ne_none] using base_ne_none_of_derivesFrom hderives

/-- Declaring the first waiting class keeps what the walk relies on. -/
theorem Pending.step {classes waiting unmet : List EntityView} {v : EntityView}
    (h : Pending classes (v :: waiting) unmet) :
    Pending classes (below v unmet ++ waiting) (apart v unmet) := by
  have hperm := below_append_apart_perm v waiting unmet
  have hnodup := h.nodup
  rw [List.cons_append, List.map_cons, List.nodup_cons] at hnodup
  refine ⟨(hperm.map _).nodup_iff.mpr hnodup.2, ?_⟩
  intro u hu
  have hu : u ∈ waiting ++ unmet := hperm.mem_iff.mp hu
  have hname : u.name ≠ v.name := fun he => hnodup.1 (he ▸ List.mem_map_of_mem hu)
  rw [← h.below_eq u (List.mem_cons_of_mem _ hu), below, apart, List.filter_filter]
  refine List.filter_congr fun w _ => ?_
  cases hderives : w.derivesFrom u with
  | false => rfl
  | true =>
    have hparent := derivesFrom_iff.mp hderives
    simp [EntityView.derivesFrom, hparent, hname]

/-- The walk declares the branches of the waiting classes one after another. -/
theorem walk_traversal {classes waiting unmet : List EntityView}
    (h : Pending classes waiting unmet) :
    Traversal classes waiting (walk waiting unmet).1 := by
  induction waiting, unmet using walk.induct with
  | case1 unmet =>
    rw [walk_nil]
    exact .nil
  | case2 v waiting unmet _ _ _ ih =>
    obtain ⟨branches, rest, horder, hbranches, hrest⟩ := (ih h.step).append_inv
    rw [walk_cons, horder]
    rw [h.below_eq v List.mem_cons_self] at hbranches
    exact .cons hbranches hrest

/-! ## What the walk reaches -/

/-- The way down from the roots, which the walk takes, reaches exactly the classes from which the
way up ends at a root. -/
theorem mem_walk_iff_rooted {classes : List EntityView} (hnodup : (classes.map (·.name)).Nodup)
    {v : EntityView} (hv : v ∈ classes) :
    v ∈ (walk (rootsOf classes) (derivedOf classes)).1 ↔ Rooted classes v := by
  have htraversal := walk_traversal (pending_init hnodup)
  constructor
  · intro hreached
    obtain ⟨-, root, hroot, hup⟩ :=
      htraversal.exists_reach (fun u hu => (mem_rootsOf.mp hu).1) hreached
    exact ⟨root, hup, (mem_rootsOf.mp hroot).2⟩
  · rintro ⟨root, hup, hroot⟩
    refine htraversal.mem_of_reach hv hup (htraversal.subset (mem_rootsOf.mpr ⟨?_, hroot⟩))
    cases hup.cases_tail with
    | inl heq => exact heq ▸ hv
    | inr hstep =>
      obtain ⟨_, _, hstep⟩ := hstep
      exact hstep.1

/-- A class is left exactly when it is not reached. -/
theorem mem_walk_left_iff {classes : List EntityView} (hnodup : (classes.map (·.name)).Nodup)
    {v : EntityView} (hv : v ∈ classes) :
    v ∈ (walk (rootsOf classes) (derivedOf classes)).2 ↔ ¬ Rooted classes v := by
  rw [← mem_walk_iff_rooted hnodup hv]
  have hperm := (walk_perm (rootsOf classes) (derivedOf classes)).trans
    (rootsOf_append_derivedOf_perm classes)
  obtain ⟨-, -, hdisjoint⟩ :=
    List.nodup_append.mp (hperm.nodup_iff.mpr (List.Nodup.of_map _ hnodup))
  constructor
  · intro hleft hreached
    exact hdisjoint v hreached v hleft rfl
  · intro hreached
    exact (List.mem_append.mp (hperm.mem_iff.mpr hv)).resolve_left hreached

end ApiSurface.Order
