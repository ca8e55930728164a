import Mathlib.Data.List.Chain
import ApiSurface.Proofs.DeclarationOrder

/-!
# Classes that cannot be ordered

An order exists exactly when class names are distinct and the way up from every class ends at a
class without a base. The walk that looks for an order goes down from the roots, while the error
follows bases upwards from the first class that was left; `mem_walk_left_iff` joins the two, so the
way up can only end outside the classes or come back to itself.

`Climbing` is what holds at every step of the way up. It fixes the classes met so far as a chain
without repetition, which is at the end cut where the repeated class stands.
-/

namespace ApiSurface.Order

/-- The first class from which the way up does not end at a class without a base. -/
def FirstUnrooted (classes : List EntityView) (v : EntityView) : Prop :=
  ∃ before after, classes = before ++ v :: after ∧ (∀ u ∈ before, Rooted classes u) ∧
    ¬ Rooted classes v

/-- What an error says about the classes. -/
inductive Explains (classes : List EntityView) : OrderError → Prop
  /-- The named class is the first one whose name an earlier class has. -/
  | duplicateClass {before after : List EntityView} {v : EntityView} :
      classes = before ++ v :: after → (before.map (·.name)).Nodup →
        v.name ∈ before.map (·.name) → Explains classes (.duplicateClass v.name)
  /-- The way up from the first unrooted class ends at a class whose base is no class. -/
  | danglingBase {v last : EntityView} {way : List EntityView} {base : String} :
      (classes.map (·.name)).Nodup → FirstUnrooted classes v →
        (way ++ [last]).head? = some v → (way ++ [last]).IsChain (Derives classes) →
        last.parentName? = some base → (∀ u ∈ classes, u.name ≠ base) →
          Explains classes (.danglingBase last.name base)
  /-- The way up from the first unrooted class leads into a cycle, entered at its first member. -/
  | inheritanceCycle {v first : EntityView} {way more : List EntityView} :
      (classes.map (·.name)).Nodup → FirstUnrooted classes v →
        (way ++ first :: more).head? = some v →
        (way ++ first :: more ++ [first]).IsChain (Derives classes) →
        ((way ++ first :: more).map (·.name)).Nodup →
          Explains classes (.inheritanceCycle ((first :: more).map (·.name)))

/-- An unrooted class names a base. -/
theorem exists_parentName {classes : List EntityView} {v : EntityView}
    (h : ¬ Rooted classes v) : ∃ base, v.parentName? = some base := by
  cases hbase : v.base with
  | none => exact absurd ⟨v, .refl, hbase⟩ h
  | some base => exact ⟨base.name, by simp [EntityView.parentName?, hbase]⟩

/-! ## The way up -/

/-- The way up from `start` has met the classes `visited` and stands at `v`; the classes `unseen`
are those it has not met. -/
structure Climbing (classes : List EntityView) (start : EntityView)
    (visited unseen : List EntityView) (v : EntityView) : Prop where
  head_eq : (visited ++ [v]).head? = some start
  chain : (visited ++ [v]).IsChain (Derives classes)
  nodup : ((visited ++ [v]).map (·.name)).Nodup
  subset : visited ++ [v] ⊆ classes
  unrooted : ¬ Rooted classes v
  unseen_iff : ∀ u, u ∈ unseen ↔ u ∈ classes ∧ u.name ∉ (visited ++ [v]).map (·.name)

/-- The way up starts at an unrooted class. -/
theorem climbing_init {classes : List EntityView} {v : EntityView} (hv : v ∈ classes)
    (hunrooted : ¬ Rooted classes v) : Climbing classes v [] (otherThan v.name classes) v := by
  refine ⟨rfl, List.isChain_singleton v, by simp, by simpa using hv, hunrooted, fun u => ?_⟩
  simp [otherThan]

/-- A step up to a class that has not been met. -/
theorem Climbing.step {classes visited unseen : List EntityView} {start v next : EntityView}
    (h : Climbing classes start visited unseen v) (hnext : next ∈ unseen)
    (hbase : v.parentName? = some next.name) :
    Climbing classes start (visited ++ [v]) (otherThan next.name unseen) next := by
  obtain ⟨hmem, hfresh⟩ := (h.unseen_iff next).mp hnext
  have hderives : Derives classes v next := ⟨hmem, derivesFrom_iff.mpr hbase⟩
  refine ⟨?_, ?_, ?_, ?_, fun hrooted => h.unrooted (hrooted.of_derives hderives), fun u => ?_⟩
  · rw [List.head?_append, h.head_eq, Option.some_or]
  · rw [List.append_assoc, List.singleton_append, List.isChain_split]
    exact ⟨h.chain, List.isChain_pair.mpr hderives⟩
  · rw [List.map_append, List.nodup_append_comm]
    exact List.nodup_cons.mpr ⟨hfresh, h.nodup⟩
  · exact List.append_subset.mpr ⟨h.subset, by simpa using hmem⟩
  · rw [otherThan, List.mem_filter, h.unseen_iff, List.map_append, List.mem_append, not_or]
    simp [and_assoc]

/-- The members of the cycle are what the way up has met from the repeated class on. -/
theorem Climbing.cycle {classes visited unseen : List EntityView} {start v : EntityView}
    {base : String} (h : Climbing classes start visited unseen v)
    (hbase : v.parentName? = some base) (hseen : base ∈ (visited ++ [v]).map (·.name)) :
    ∃ way first more, visited ++ [v] = way ++ first :: more ∧
      ((visited ++ [v]).map (·.name)).dropWhile (· != base) = (first :: more).map (·.name) ∧
      (way ++ first :: more ++ [first]).IsChain (Derives classes) := by
  obtain ⟨first, hfirst, hname⟩ := List.mem_map.mp hseen
  obtain ⟨way, more, hsplit⟩ := List.append_of_mem hfirst
  have hderives : Derives classes v first :=
    ⟨h.subset hfirst, derivesFrom_iff.mpr (hname ▸ hbase)⟩
  refine ⟨way, first, more, hsplit, ?_, ?_⟩
  · have hnodup := h.nodup
    rw [hsplit, List.map_append, List.nodup_append] at hnodup
    rw [hsplit, List.map_append, List.dropWhile_append_of_pos, List.map_cons,
      List.dropWhile_cons_of_neg (by simp [hname])]
    intro u hu
    have := hnodup.2.2 u hu first.name List.mem_cons_self
    simpa [hname] using this
  · rw [← hsplit, List.append_assoc, List.singleton_append, List.isChain_split]
    exact ⟨h.chain, List.isChain_pair.mpr hderives⟩

/-- A base that was met closes a cycle. -/
theorem climb_of_mem {path : List String} {unseen : List EntityView} {v : EntityView}
    {base : String} (hbase : v.parentName? = some base) (hseen : base ∈ path) :
    climb path unseen v = .inheritanceCycle (path.dropWhile (· != base)) := by
  rw [climb, hbase, Option.getD_some, if_pos (List.contains_iff_mem.mpr hseen)]

/-- A base that is no class ends the way up. -/
theorem climb_of_find?_none {path : List String} {unseen : List EntityView} {v : EntityView}
    {base : String} (hbase : v.parentName? = some base) (hseen : base ∉ path)
    (hnone : unseen.find? (·.name == base) = none) :
    climb path unseen v = .danglingBase v.name base := by
  rw [climb, hbase, Option.getD_some, if_neg (fun h => hseen (List.contains_iff_mem.mp h))]
  split
  · rfl
  · next hnext => cases hnone.symm.trans hnext

/-- A base that has not been met is gone up to. -/
theorem climb_of_find?_some {path : List String} {unseen : List EntityView} {v next : EntityView}
    {base : String} (hbase : v.parentName? = some base) (hseen : base ∉ path)
    (hnext : unseen.find? (·.name == base) = some next) :
    climb path unseen v = climb (path ++ [base]) (otherThan base unseen) next := by
  rw [climb, hbase, Option.getD_some, if_neg (fun h => hseen (List.contains_iff_mem.mp h))]
  split
  · next hnone => cases hnext.symm.trans hnone
  · next next' hnext' =>
    cases hnext.symm.trans hnext'
    rfl

/-- The way up ends with an error that explains why its start is unrooted. -/
theorem Climbing.explains {classes : List EntityView} {start : EntityView}
    (hnodup : (classes.map (·.name)).Nodup) (hstart : FirstUnrooted classes start)
    {visited unseen : List EntityView} {v : EntityView}
    (h : Climbing classes start visited unseen v) :
    Explains classes (climb ((visited ++ [v]).map (·.name)) unseen v) := by
  -- every step up leaves fewer classes unseen
  induction hlength : unseen.length using Nat.strong_induction_on generalizing visited unseen v with
  | _ n ih =>
    obtain ⟨base, hbase⟩ := exists_parentName h.unrooted
    by_cases hseen : base ∈ (visited ++ [v]).map (·.name)
    · rw [climb_of_mem hbase hseen]
      obtain ⟨way, first, more, hsplit, hcycle, hchain⟩ := h.cycle hbase hseen
      rw [hcycle]
      exact .inheritanceCycle hnodup hstart (hsplit ▸ h.head_eq) hchain (hsplit ▸ h.nodup)
    cases hnext : unseen.find? (·.name == base) with
    | none =>
      rw [climb_of_find?_none hbase hseen hnext]
      refine .danglingBase hnodup hstart h.head_eq h.chain hbase fun u hu hname => ?_
      have hu : u ∈ unseen := (h.unseen_iff u).mpr ⟨hu, hname ▸ hseen⟩
      exact List.find?_eq_none.mp hnext u hu (by simpa using hname)
    | some next =>
      rw [climb_of_find?_some hbase hseen hnext]
      have hmem : next ∈ unseen := List.mem_of_find?_eq_some hnext
      obtain rfl : next.name = base := by simpa using List.find?_some hnext
      have hshorter : (otherThan next.name unseen).length < n :=
        hlength ▸ length_otherThan_lt hmem rfl
      simpa using ih _ hshorter (h.step hmem hbase) rfl

/-! ## The walk and the way up agree -/

/-- The first class that the walk leaves is the first unrooted one. -/
theorem firstUnrooted_of_walk_left {classes rest : List EntityView} {v : EntityView}
    (hnodup : (classes.map (·.name)).Nodup)
    (hleft : (walk (rootsOf classes) (derivedOf classes)).2 = v :: rest) :
    v ∈ classes ∧ FirstUnrooted classes v := by
  have hsub : (v :: rest).Sublist classes :=
    hleft ▸ (walk_left_sublist _ _).trans List.filter_sublist
  have hmem : v ∈ classes := hsub.subset List.mem_cons_self
  obtain ⟨front, back, rfl, hv, hrest⟩ := List.cons_sublist_iff.mp hsub
  obtain ⟨before, after, rfl⟩ := List.append_of_mem hv
  refine ⟨hmem, before, after ++ back, by simp, fun u hu => ?_, ?_⟩
  · by_contra hunrooted
    have hclass : u ∈ before ++ v :: after ++ back := by simp [hu]
    have hu' := (mem_walk_left_iff hnodup hclass).mpr hunrooted
    -- `u` stands before `v`, and what is left does not
    have hdistinct := List.Nodup.of_map _ hnodup
    rw [List.append_assoc, List.nodup_append] at hdistinct
    refine hdistinct.2.2 u hu u ?_ rfl
    rw [hleft] at hu'
    rcases List.mem_cons.mp hu' with rfl | hu'
    · simp
    · exact List.mem_append_right _ (hrest.subset hu')
  · exact (mem_walk_left_iff hnodup hmem).mp (hleft ▸ List.mem_cons_self)

/-- **When classes can be ordered, and what is said when they cannot.** -/
theorem declarationOrder_explained (vs : List EntityView) :
    ((∃ order, declarationOrder vs = .ok order) ↔
      ((classesOf vs).map (·.name)).Nodup ∧ ∀ v ∈ classesOf vs, Rooted (classesOf vs) v) ∧
      ∀ e, declarationOrder vs = .error e → Explains (classesOf vs) e := by
  refine ⟨⟨?_, ?_⟩, ?_⟩
  · rintro ⟨order, horder⟩
    obtain ⟨hnodup, hleft, -⟩ := declarationOrder_ok_iff.mp horder
    refine ⟨hnodup, fun v hv => ?_⟩
    by_contra hunrooted
    have hmem := (mem_walk_left_iff hnodup hv).mpr hunrooted
    exact List.not_mem_nil (hleft ▸ hmem)
  · rintro ⟨hnodup, hrooted⟩
    refine ⟨_, declarationOrder_ok_iff.mpr ⟨hnodup, ?_, rfl⟩⟩
    refine List.eq_nil_iff_forall_not_mem.mpr fun v hv => ?_
    have hclass : v ∈ classesOf vs :=
      (mem_derivedOf.mp ((walk_left_sublist _ _).subset hv)).1
    exact (mem_walk_left_iff hnodup hclass).mp hv (hrooted v hclass)
  · intro e he
    obtain ⟨name, hrepeat, rfl⟩ | ⟨hnodup, v, rest, hleft, rfl⟩ := declarationOrder_error_iff.mp he
    · obtain ⟨before, v, after, hsplit, rfl, hnodup, -, hmem⟩ := firstRepeat?_eq_some hrepeat
      exact .duplicateClass hsplit hnodup (hmem.resolve_left List.not_mem_nil)
    · obtain ⟨hmem, hfirst⟩ := firstUnrooted_of_walk_left hnodup hleft
      obtain ⟨-, -, -, -, hunrooted⟩ := id hfirst
      exact (climbing_init hmem hunrooted).explains hnodup hfirst

/-- A class outside a cycle explains the cycle by its members alone. -/
example :
    let a : EntityView := { id := "a", name := "A", kind := "Class", base := some (.named "B") }
    let b : EntityView := { id := "b", name := "B", kind := "Class", base := some (.named "C") }
    let c : EntityView := { id := "c", name := "C", kind := "Class", base := some (.named "B") }
    declarationOrder [a, b, c] = .error (.inheritanceCycle ["B", "C"]) := by
  cbv

end ApiSurface.Order
