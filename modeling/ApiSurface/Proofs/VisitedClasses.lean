import ApiSurface.Proofs.OrderFaults

/-!
# Which classes are visited

Classes are ordered by two loops that follow names and keep nothing of the classes they have yet to
meet: one goes down from the roots with a stack of waiting classes (`Descent`), the other up from
the first class that was not declared (`Ascent`). `walk` and `climb` take every class that they meet
out of a list, so they end by what they are. The loops look every name up among all classes, and
that they end is a fact about the forest.

Going down, the classes on the stack and those declared are different ones, because no two classes
have one name and each is derived from at most one: `Descent.Along` ties each round to a step of
`walk`. Going up, no class is met that the way down has declared, since from those the way up leads
to a root; so there is a base to go on to at every class (`Ascent.Unrooted`).
-/

namespace ApiSurface.Order

/-! ## The loops -/

/-- Where the way down stands: the classes declared so far, and those that wait on a stack. -/
structure Descent where
  declared : List EntityView
  waiting : List EntityView

namespace Descent

/-- A round of the way down: the class on top of the stack is declared, and all classes derived from
it come on top. -/
def next? (classes : List EntityView) (d : Descent) : Option Descent :=
  match d.waiting with
  | [] => none
  | v :: waiting => some ⟨d.declared ++ [v], below v classes ++ waiting⟩

/-- What the way down comes to. It starts with the roots on the stack, once no name of a class has
been found twice. -/
inductive Reached (vs : List EntityView) : Descent → Prop
  | start : ((classesOf vs).map (·.name)).Nodup → Reached vs ⟨[], rootsOf (classesOf vs)⟩
  | next {d d' : Descent} : Reached vs d → d.next? (classesOf vs) = some d' → Reached vs d'

/-- The way down ends with these classes declared. -/
inductive EndsWith (classes : List EntityView) : Descent → List EntityView → Prop
  | stop {d : Descent} : d.next? classes = none → EndsWith classes d d.declared
  | next {d d' : Descent} {declared : List EntityView} : d.next? classes = some d' →
      EndsWith classes d' declared → EndsWith classes d declared

end Descent

/-- Where the way up stands: the classes it has visited, and the one it has come to. -/
structure Ascent where
  visited : List EntityView
  current : EntityView

namespace Ascent

/-- A round of the way up: a name that has been met ends it, and so does a base that is no class.
Where a class has no base, the empty name is looked up in its place. -/
def next (classes : List EntityView) (a : Ascent) : Except OrderError Ascent :=
  let path := a.visited.map (·.name)
  let name := a.current.name
  if path.contains name then .error (.inheritanceCycle (path.dropWhile (· != name)))
  else
    let base := a.current.parentName?.getD ""
    match classes.find? (·.name == base) with
    | some parent => .ok ⟨a.visited ++ [a.current], parent⟩
    | none => .error (.danglingBase name base)

/-- Where the way up starts: when the way down has ended and not declared all classes, at the first
class of a name that was not declared. -/
def StartsAt (vs : List EntityView) (v : EntityView) : Prop :=
  ∃ declared, Descent.Reached vs ⟨declared, []⟩ ∧ declared.length ≠ (classesOf vs).length ∧
    (classesOf vs).find? (fun w => !(declared.map (·.name)).contains w.name) = some v

/-- What the way up comes to. -/
inductive Reached (vs : List EntityView) : Ascent → Prop
  | start {v : EntityView} : StartsAt vs v → Reached vs ⟨[], v⟩
  | next {a a' : Ascent} : Reached vs a → a.next (classesOf vs) = .ok a' → Reached vs a'

/-- The way up ends with this error. -/
inductive EndsWith (classes : List EntityView) : Ascent → OrderError → Prop
  | stop {a : Ascent} {e : OrderError} : a.next classes = .error e → EndsWith classes a e
  | next {a a' : Ascent} {e : OrderError} : a.next classes = .ok a' → EndsWith classes a' e →
      EndsWith classes a e

end Ascent

/-! ## The way down -/

variable {vs classes : List EntityView}

/-- The classes that a walk has left to meet when the way down stands here. -/
structure Descent.Along (classes : List EntityView) (d : Descent) (unmet : List EntityView) :
    Prop where
  pending : Pending classes d.waiting unmet
  perm : (d.declared ++ (d.waiting ++ unmet)).Perm classes
  declared_eq :
    d.declared ++ (walk d.waiting unmet).1 = (walk (rootsOf classes) (derivedOf classes)).1

namespace Descent

variable {d d' : Descent} {unmet declared : List EntityView}

theorem next?_eq_none : d.next? classes = none ↔ d.waiting = [] := by
  rw [next?]
  split <;> simp_all

theorem next?_eq_some : d.next? classes = some d' ↔
    ∃ v waiting, d.waiting = v :: waiting ∧
      d' = ⟨d.declared ++ [v], below v classes ++ waiting⟩ := by
  rw [next?]
  split <;> simp_all [eq_comm]

theorem along_init (hnodup : (classes.map (·.name)).Nodup) :
    Along classes ⟨[], rootsOf classes⟩ (derivedOf classes) :=
  ⟨pending_init hnodup, rootsOf_append_derivedOf_perm classes, rfl⟩

/-- A round of the way down is a step of the walk. -/
theorem Along.next (h : Along classes d unmet) (hnext : d.next? classes = some d') :
    ∃ left, Along classes d' left := by
  obtain ⟨v, waiting, hwaiting, rfl⟩ := next?_eq_some.mp hnext
  obtain ⟨hpending, hperm, hdeclared⟩ := h
  rw [hwaiting] at hpending hperm hdeclared
  have hbelow : below v unmet = below v classes := hpending.below_eq v List.mem_cons_self
  refine ⟨apart v unmet, ?_, ?_, ?_⟩
  · have hstep := hpending.step
    rwa [hbelow] at hstep
  · have hsplit := below_append_apart_perm v waiting unmet
    rw [hbelow] at hsplit
    rw [List.append_assoc]
    exact ((hsplit.cons v).append_left d.declared).trans hperm
  · rw [walk_cons, hbelow] at hdeclared
    rw [List.append_assoc]
    exact hdeclared

/-- Wherever the way down stands, it ends with what the walk declares. -/
theorem Along.endsWith (h : Along classes d unmet) :
    EndsWith classes d (walk (rootsOf classes) (derivedOf classes)).1 := by
  -- every round declares one more of the classes
  induction hrest : classes.length - d.declared.length using Nat.strong_induction_on
    generalizing d unmet with
  | _ n ih =>
    cases hnext : d.next? classes with
    | none =>
      have hdeclared := h.declared_eq
      rw [next?_eq_none.mp hnext, walk_nil, List.append_nil] at hdeclared
      exact hdeclared ▸ .stop hnext
    | some d' =>
      obtain ⟨left, hleft⟩ := h.next hnext
      have hlength : d'.declared.length = d.declared.length + 1 := by
        obtain ⟨v, waiting, -, rfl⟩ := next?_eq_some.mp hnext
        simp
      have hbound := hleft.perm.length_eq
      rw [List.length_append] at hbound
      exact .next hnext (ih _ (by omega) hleft rfl)

/-- No class that is declared stands on the stack or is declared again. -/
theorem Along.nodup (h : Along classes d unmet) (hnodup : (classes.map (·.name)).Nodup) :
    (d.declared.map (·.name)).Nodup := by
  have hall := (h.perm.map (·.name)).nodup_iff.mpr hnodup
  rw [List.map_append] at hall
  exact (List.nodup_append.mp hall).1

namespace Reached

theorem nodup (h : Reached vs d) : ((classesOf vs).map (·.name)).Nodup := by
  induction h with
  | start hnodup => exact hnodup
  | next _ _ ih => exact ih

theorem along (h : Reached vs d) : ∃ unmet, Along (classesOf vs) d unmet := by
  induction h with
  | start hnodup => exact ⟨_, along_init hnodup⟩
  | next _ hnext ih =>
    obtain ⟨unmet, hunmet⟩ := ih
    exact hunmet.next hnext

/-- Where the way down ends, it has come to. -/
theorem of_endsWith (h : Reached vs d) (hend : EndsWith (classesOf vs) d declared) :
    Reached vs ⟨declared, []⟩ := by
  induction hend with
  | stop hnext => exact next?_eq_none.mp hnext ▸ h
  | next hnext _ ih => exact ih (h.next hnext)

/-- What the way down has declared, the walk declares. -/
theorem subset (h : Reached vs d) :
    d.declared ⊆ (walk (rootsOf (classesOf vs)) (derivedOf (classesOf vs))).1 := by
  obtain ⟨unmet, hunmet⟩ := h.along
  rw [← hunmet.declared_eq]
  exact List.subset_append_left _ _

/-- The way down has declared all that the walk declares when its stack is empty. -/
theorem declared_eq (h : Reached vs ⟨declared, []⟩) :
    declared = (walk (rootsOf (classesOf vs)) (derivedOf (classesOf vs))).1 := by
  obtain ⟨unmet, hunmet⟩ := h.along
  have hdeclared := hunmet.declared_eq
  rwa [walk_nil, List.append_nil] at hdeclared

end Reached

end Descent

/-! ## The way up -/

/-- Names tell classes apart. -/
theorem find?_name {v : EntityView} (hnodup : (classes.map (·.name)).Nodup) (hv : v ∈ classes) :
    classes.find? (·.name == v.name) = some v := by
  cases hfind : classes.find? (·.name == v.name) with
  | none => exact absurd (List.find?_eq_none.mp hfind v hv) (by simp)
  | some w =>
    have hname : w.name = v.name := by simpa using List.find?_some hfind
    rw [List.inj_on_of_nodup_map hnodup (List.mem_of_find?_eq_some hfind) hv hname]

namespace Ascent

variable {a a' : Ascent} {v : EntityView} {e : OrderError}

/-- Which classes the way up can meet: different ones from which no way up ends at a root. -/
structure Unrooted (classes : List EntityView) (a : Ascent) : Prop where
  nodup : (a.visited.map (·.name)).Nodup
  unrooted : ∀ v ∈ a.visited ++ [a.current], v ∈ classes ∧ ¬ Rooted classes v

/-- A class from which no way up ends at a root has a base. -/
theorem base_ne_none (h : ¬ Rooted classes v) : v.base ≠ none :=
  fun hnone => h ⟨v, .refl, hnone⟩

/-- Where a round goes on, it goes on to the base of a class that has not been visited. -/
theorem next_eq_ok (hbase : a.current.base ≠ none) (h : a.next classes = .ok a') :
    a.current.name ∉ a.visited.map (·.name) ∧ a'.visited = a.visited ++ [a.current] ∧
      Derives classes a.current a'.current := by
  obtain ⟨base, hbase⟩ := Option.ne_none_iff_exists'.mp hbase
  have hparent : a.current.parentName? = some base.name := by simp [EntityView.parentName?, hbase]
  rw [next, hparent] at h
  dsimp only at h
  split at h
  · cases h
  · next hfresh =>
    split at h
    · next parent hfind =>
      cases h
      have hname : parent.name = base.name := by simpa using List.find?_some hfind
      exact ⟨by simpa using hfresh, rfl, List.mem_of_find?_eq_some hfind,
        derivesFrom_iff.mpr (hname ▸ hparent)⟩
    · cases h

/-- A round goes up to a class from which no way up ends at a root either. -/
theorem Unrooted.next (h : Unrooted classes a) (hnext : a.next classes = .ok a') :
    Unrooted classes a' := by
  obtain ⟨hmem, hcurrent⟩ := h.unrooted a.current (by simp)
  obtain ⟨hfresh, hvisited, hderives⟩ := next_eq_ok (base_ne_none hcurrent) hnext
  refine ⟨?_, ?_⟩
  · rw [hvisited, List.map_append, List.nodup_append_comm]
    exact List.nodup_cons.mpr ⟨hfresh, h.nodup⟩
  · rw [hvisited]
    intro v hv
    rcases List.mem_append.mp hv with hv | hv
    · exact h.unrooted v hv
    · rw [List.mem_singleton.mp hv]
      exact ⟨hderives.1, fun hrooted => hcurrent (hrooted.of_derives hderives)⟩

/-- The names of what the walk declares tell from which classes a way up ends at a root. -/
theorem contains_name_iff (hnodup : (classes.map (·.name)).Nodup) (hv : v ∈ classes) :
    ((walk (rootsOf classes) (derivedOf classes)).1.map (·.name)).contains v.name = true ↔
      Rooted classes v := by
  have hperm := (walk_perm (rootsOf classes) (derivedOf classes)).trans
    (rootsOf_append_derivedOf_perm classes)
  rw [← mem_walk_iff_rooted hnodup hv, List.contains_iff_mem, List.mem_map]
  constructor
  · rintro ⟨w, hw, hname⟩
    have hw' : w ∈ classes := hperm.mem_iff.mp (List.mem_append_left _ hw)
    rwa [← List.inj_on_of_nodup_map hnodup hw' hv hname]
  · exact fun hmem => ⟨v, hmem, rfl⟩

/-- The first class of a name that the walk has not declared is the first that it leaves. -/
theorem find?_undeclared (hnodup : (classes.map (·.name)).Nodup) :
    classes.find? (fun w =>
        !((walk (rootsOf classes) (derivedOf classes)).1.map (·.name)).contains w.name) =
      (walk (rootsOf classes) (derivedOf classes)).2.head? := by
  cases hleft : (walk (rootsOf classes) (derivedOf classes)).2 with
  | nil =>
    refine List.find?_eq_none.mpr fun w hw => ?_
    have hrooted : Rooted classes w := by
      by_contra hunrooted
      exact List.not_mem_nil (hleft ▸ (mem_walk_left_iff hnodup hw).mpr hunrooted)
    simpa using (contains_name_iff hnodup hw).mpr hrooted
  | cons v rest =>
    obtain ⟨hv, before, after, hsplit, hbefore, hunrooted⟩ :=
      firstUnrooted_of_walk_left hnodup hleft
    refine List.find?_eq_some_iff_append.mpr ⟨?_, before, after, hsplit, fun w hw => ?_⟩
    · simpa using mt (contains_name_iff hnodup hv).mp hunrooted
    · have hw' : w ∈ classes := by simp [hsplit, hw]
      simpa using (contains_name_iff hnodup hw').mpr (hbefore w hw)

/-- The way up starts at the first class that the walk leaves. -/
theorem startsAt_iff : StartsAt vs v ↔ ((classesOf vs).map (·.name)).Nodup ∧
    (walk (rootsOf (classesOf vs)) (derivedOf (classesOf vs))).2.head? = some v := by
  constructor
  · rintro ⟨declared, hreached, -, hfind⟩
    rw [hreached.declared_eq, find?_undeclared hreached.nodup] at hfind
    exact ⟨hreached.nodup, hfind⟩
  · rintro ⟨hnodup, hleft⟩
    refine ⟨_, (Descent.Reached.start hnodup).of_endsWith (Descent.along_init hnodup).endsWith, ?_,
      by rw [find?_undeclared hnodup, hleft]⟩
    have hlength := ((walk_perm (rootsOf (classesOf vs)) (derivedOf (classesOf vs))).trans
      (rootsOf_append_derivedOf_perm _)).length_eq
    have hpos := List.length_pos_of_mem (List.mem_of_mem_head? (Option.mem_def.mpr hleft))
    rw [List.length_append] at hlength
    omega

/-- From a class where it starts, the way up goes to different classes from which no way up ends at
a root. -/
theorem Reached.unrooted (h : Reached vs a) : Unrooted (classesOf vs) a := by
  induction h with
  | start hstart =>
    obtain ⟨hnodup, hleft⟩ := startsAt_iff.mp hstart
    refine ⟨List.nodup_nil, fun v hv => ?_⟩
    obtain rfl := List.mem_singleton.mp hv
    have hmem := List.mem_of_mem_head? (Option.mem_def.mpr hleft)
    have hclass := (mem_derivedOf.mp ((walk_left_sublist _ _).subset hmem)).1
    exact ⟨hclass, (mem_walk_left_iff hnodup hclass).mp hmem⟩
  | next _ hnext ih => exact ih.next hnext

/-! ## Where the way up ends -/

theorem next_of_mem (hmet : a.current.name ∈ a.visited.map (·.name)) :
    a.next classes = .error (.inheritanceCycle
      ((a.visited.map (·.name)).dropWhile (· != a.current.name))) := by
  rw [next, if_pos (List.contains_iff_mem.mpr hmet)]

theorem next_of_find?_none {base : String} (hfresh : a.current.name ∉ a.visited.map (·.name))
    (hbase : a.current.parentName? = some base)
    (hnone : classes.find? (·.name == base) = none) :
    a.next classes = .error (.danglingBase a.current.name base) := by
  rw [next, if_neg (mt List.contains_iff_mem.mp hfresh), hbase]
  dsimp only [Option.getD_some]
  rw [hnone]

theorem next_of_find?_some {base : String} {parent : EntityView}
    (hfresh : a.current.name ∉ a.visited.map (·.name))
    (hbase : a.current.parentName? = some base)
    (hparent : classes.find? (·.name == base) = some parent) :
    a.next classes = .ok ⟨a.visited ++ [a.current], parent⟩ := by
  rw [next, if_neg (mt List.contains_iff_mem.mp hfresh), hbase]
  dsimp only [Option.getD_some]
  rw [hparent]

/-- Of a round and what follows there is one end. -/
theorem EndsWith.of_next (h : EndsWith classes a e) (hnext : a.next classes = .ok a') :
    EndsWith classes a' e := by
  cases h with
  | stop hstop => cases hstop.symm.trans hnext
  | next hnext' hend =>
    cases hnext'.symm.trans hnext
    exact hend

/-- The way up ends with the error that the climb comes to. -/
theorem endsWith_climb {start v : EntityView} {visited unseen : List EntityView}
    (hnodup : (classes.map (·.name)).Nodup) (h : Climbing classes start visited unseen v) :
    EndsWith classes ⟨visited, v⟩ (climb ((visited ++ [v]).map (·.name)) unseen v) := by
  -- every class gone up to is one that the climb has not seen
  induction hlength : unseen.length using Nat.strong_induction_on generalizing visited unseen v with
  | _ n ih =>
    obtain ⟨base, hbase⟩ := exists_parentName h.unrooted
    have hfresh : v.name ∉ visited.map (·.name) := by
      have hnames := h.nodup
      rw [List.map_append, List.nodup_append_comm] at hnames
      exact (List.nodup_cons.mp hnames).1
    by_cases hseen : base ∈ (visited ++ [v]).map (·.name)
    · -- the loop goes up to the class once more, and finds its name among those visited
      rw [climb_of_mem hbase hseen]
      obtain ⟨u, hu, rfl⟩ := List.mem_map.mp hseen
      exact .next (next_of_find?_some hfresh hbase (find?_name hnodup (h.subset hu)))
        (.stop (next_of_mem hseen))
    cases hnext : unseen.find? (·.name == base) with
    | none =>
      rw [climb_of_find?_none hbase hseen hnext]
      refine .stop (next_of_find?_none hfresh hbase (List.find?_eq_none.mpr fun u hu hname => ?_))
      rw [beq_iff_eq] at hname
      have hu : u ∈ unseen := (h.unseen_iff u).mpr ⟨hu, hname ▸ hseen⟩
      exact List.find?_eq_none.mp hnext u hu (beq_iff_eq.mpr hname)
    | some parent =>
      rw [climb_of_find?_some hbase hseen hnext]
      have hmem : parent ∈ unseen := List.mem_of_find?_eq_some hnext
      obtain rfl : parent.name = base := by simpa using List.find?_some hnext
      have hshorter : (otherThan parent.name unseen).length < n :=
        hlength ▸ length_otherThan_lt hmem rfl
      have hparent := find?_name hnodup ((h.unseen_iff parent).mp hmem).1
      refine .next (next_of_find?_some hfresh hbase hparent) ?_
      simpa using ih _ hshorter (h.step hmem hbase) rfl

/-- From where it starts, the way up ends with what is said about the class. -/
theorem endsWith_of_startsAt (h : StartsAt vs v) :
    EndsWith (classesOf vs) ⟨[], v⟩ (stranded (classesOf vs) v) ∧
      declarationOrder vs = .error (stranded (classesOf vs) v) := by
  obtain ⟨hnodup, hleft⟩ := startsAt_iff.mp h
  obtain ⟨hmem, hunrooted⟩ := (Reached.start h).unrooted.unrooted v List.mem_cons_self
  obtain ⟨rest, hrest⟩ := List.head?_eq_some_iff.mp hleft
  exact ⟨endsWith_climb hnodup (climbing_init hmem hunrooted),
    declarationOrder_error_iff.mpr (.inr ⟨hnodup, v, rest, hrest, rfl⟩)⟩

theorem Reached.endsWith (h : Reached vs a) :
    ∃ e, EndsWith (classesOf vs) a e ∧ declarationOrder vs = .error e := by
  induction h with
  | start hstart => exact ⟨_, endsWith_of_startsAt hstart⟩
  | next _ hnext ih =>
    obtain ⟨e, hend, horder⟩ := ih
    exact ⟨e, hend.of_next hnext, horder⟩

end Ascent

/-! ## Both ways -/

/-- What can be relied on in the two loops, whatever the entities. -/
structure WaysEnd (vs : List EntityView) : Prop where
  /-- The way down takes each class from the stack at most once. -/
  down_once : ∀ d, Descent.Reached vs d →
    d.declared ⊆ classesOf vs ∧ (d.declared.map (·.name)).Nodup
  /-- It ends, with the classes that come first in the order where there is one. -/
  down_ends : ∀ d, Descent.Reached vs d → ∃ declared, Descent.EndsWith (classesOf vs) d declared ∧
    ∀ order, declarationOrder vs = .ok order → order = declared ++ others vs
  /-- The way up visits classes that the way down never comes to. -/
  up_undeclared : ∀ a, Ascent.Reached vs a → ∀ v ∈ a.visited ++ [a.current],
    v ∈ classesOf vs ∧ ∀ d, Descent.Reached vs d → v ∉ d.declared
  /-- All of them have a base, so the empty name is never looked up in the place of one. -/
  up_derived : ∀ a, Ascent.Reached vs a → ∀ v ∈ a.visited ++ [a.current], v.base ≠ none
  /-- The way up visits each class at most once. -/
  up_once : ∀ a, Ascent.Reached vs a → (a.visited.map (·.name)).Nodup
  /-- It ends, with the error that is reported. -/
  up_ends : ∀ a, Ascent.Reached vs a →
    ∃ e, Ascent.EndsWith (classesOf vs) a e ∧ declarationOrder vs = .error e
  /-- Every error but that of a repeated name comes from a way up. -/
  up_starts : ∀ e, declarationOrder vs = .error e →
    (∃ name, e = .duplicateClass name) ∨ ∃ v, Ascent.StartsAt vs v

/-- **Both ways end.** Going down takes each class from the stack once at most, cyclic or not; going
up visits each class once at most, none that the way down has come to and none without a base. -/
theorem order_waysEnd (vs : List EntityView) : WaysEnd vs where
  down_once d hd := by
    obtain ⟨unmet, hunmet⟩ := hd.along
    refine ⟨fun v hv => hunmet.perm.mem_iff.mp (List.mem_append_left _ hv), ?_⟩
    exact hunmet.nodup hd.nodup
  down_ends d hd := by
    obtain ⟨unmet, hunmet⟩ := hd.along
    exact ⟨_, hunmet.endsWith, fun order horder => (declarationOrder_ok_iff.mp horder).2.2⟩
  up_undeclared a ha v hv := by
    obtain ⟨hclass, hunrooted⟩ := ha.unrooted.unrooted v hv
    exact ⟨hclass, fun d hd hdeclared =>
      hunrooted ((mem_walk_iff_rooted hd.nodup hclass).mp (hd.subset hdeclared))⟩
  up_derived a ha v hv := Ascent.base_ne_none (ha.unrooted.unrooted v hv).2
  up_once a ha := ha.unrooted.nodup
  up_ends a ha := ha.endsWith
  up_starts e he := by
    obtain ⟨name, -, rfl⟩ | ⟨hnodup, v, rest, hleft, -⟩ := declarationOrder_error_iff.mp he
    · exact .inl ⟨name, rfl⟩
    · exact .inr ⟨v, Ascent.startsAt_iff.mpr ⟨hnodup, by rw [hleft]; rfl⟩⟩

end ApiSurface.Order
