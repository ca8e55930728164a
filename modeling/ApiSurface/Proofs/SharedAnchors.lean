import Mathlib.Data.List.Flatten
import ApiSurface.Proofs.PageSpans
import ApiSurface.Proofs.ParameterNotes

/-!
# Anchors that languages share

A view has one member for each member of the descriptor that exists in its language, in the order of
the descriptor (`forall₂_view`). Whatever the language, the id of that member is made from canonical
text alone (`hasAnchor_of_view`): for a function it is the anchor of its signature, for a property
the Lua form of its canonical name. Two views leave out different members, so their members are not
those of the same places in two lists. Going through the descriptor, the members that both have are
met in the same order in both, and with the same ids (`map_id_viewsIn`).

On the pages of an entity these ids are the anchors of members that are no enumerated values, so
what points to one of them in one language points to it in the other (`view_sharesAnchors`).
-/

namespace ApiSurface

variable {a b l : Language} {m : Member}

/-! ## The anchor of a member -/

/-- What defines a member gives it this id in every language; there is none for an enumerated
value. -/
inductive MemberDefinition.HasAnchor : MemberDefinition → Option String → Prop
  | signature {text anchor : String} : Anchor.ofSignature text = .ok anchor →
      HasAnchor (.signature text) (some anchor)
  | callback {text anchor : String} : Anchor.ofSignature text = .ok anchor →
      HasAnchor (.callback text) (some anchor)
  | property {text : String} {p : Parameter Empty} : Parameter.parse .cpp text = .ok p →
      HasAnchor (.property text) (some (Identifier.converted .lua p.name))
  | plain : HasAnchor .plain none

theorem MemberDefinition.HasAnchor.unique {d : MemberDefinition} {id id' : Option String}
    (h : d.HasAnchor id) (h' : d.HasAnchor id') : id = id' := by
  cases h with
  | signature hanchor =>
    cases h' with
    | signature hanchor' => rw [Except.ok.inj (hanchor.symm.trans hanchor')]
  | callback hanchor =>
    cases h' with
    | callback hanchor' => rw [Except.ok.inj (hanchor.symm.trans hanchor')]
  | property hp =>
    cases h' with
    | property hp' => rw [Except.ok.inj (hp.symm.trans hp')]
  | plain =>
    cases h' with
    | plain => rfl

/-- The anchor of a property is the Lua form of its canonical name. -/
theorem Anchor.exists_of_ofProperty {text anchor : String} (h : ofProperty text = .ok anchor) :
    ∃ p : Parameter Empty, Parameter.parse .cpp text = .ok p ∧
      anchor = Identifier.converted .lua p.name := by
  obtain ⟨p, hp, heq⟩ := bind_eq_ok.mp h
  cases heq
  exact Parameter.exists_parse_cpp Empty hp

/-- The id of a view does not depend on the language. -/
theorem Member.hasAnchor_of_view {v : MemberView} (h : m.view l = .ok v) :
    m.definition.HasAnchor v.id := by
  cases Member.viewedAs h with
  | signature hdefinition hanchor _ => exact hdefinition ▸ .signature hanchor
  | callback hdefinition hanchor _ => exact hdefinition ▸ .callback hanchor
  | property hdefinition hanchor _ =>
    obtain ⟨c, hc, rfl⟩ := Anchor.exists_of_ofProperty hanchor
    exact hdefinition ▸ .property hc
  | plain hdefinition => exact hdefinition ▸ .plain

/-! ## The members of two views -/

/-- The members of a list that exist in a language. -/
def retainedMembers (l : Language) (members : List Member) : List Member :=
  members.filter (retained ·.languages l)

theorem retainedMembers_cons (l : Language) (m : Member) (members : List Member) :
    retainedMembers l (m :: members) =
      if retained m.languages l then m :: retainedMembers l members
      else retainedMembers l members :=
  List.filter_cons

/-- The views of retained members: one for each, in their order. -/
theorem memberViews_eq_mapM (l : Language) (members : List Member) :
    memberViews l members = (retainedMembers l members).mapM (Member.view l) := by
  induction members with
  | nil =>
    rw [memberViews]
    rfl
  | cons m members ih =>
    rw [memberViews, retainedMembers_cons]
    split
    · rw [List.mapM_cons, ih]
    · exact ih

theorem Sections.get_of_mapM {α β ε : Type} {f : List α → Except ε (List β)} {s : Sections α}
    {s' : Sections β} (h : s.mapM f = .ok s') (c : Category) : f (s.get c) = .ok (s'.get c) := by
  obtain ⟨globalFunctions, hglobalFunctions, h⟩ := bind_eq_ok.mp h
  obtain ⟨constructors, hconstructors, h⟩ := bind_eq_ok.mp h
  obtain ⟨classProperties, hclassProperties, h⟩ := bind_eq_ok.mp h
  obtain ⟨classMethods, hclassMethods, h⟩ := bind_eq_ok.mp h
  obtain ⟨properties, hproperties, h⟩ := bind_eq_ok.mp h
  obtain ⟨methods, hmethods, h⟩ := bind_eq_ok.mp h
  obtain ⟨events, hevents, h⟩ := bind_eq_ok.mp h
  obtain ⟨delegates, hdelegates, h⟩ := bind_eq_ok.mp h
  obtain ⟨enums, henums, h⟩ := bind_eq_ok.mp h
  cases h
  cases c <;> assumption

/-- A view has, in each category, the views of the retained members in their order. -/
theorem Entity.forall₂_view {r : ViewRules} {e : Entity} {v : EntityView}
    (h : e.view r l = .ok (some v)) (c : Category) :
    List.Forall₂ (fun m view => m.view l = .ok view)
      (retainedMembers l (e.descriptor.members.get c)) (v.members.get c) := by
  have hviews := Sections.get_of_mapM (viewedAs h).members c
  rw [memberViews_eq_mapM] at hviews
  exact mapM_eq_ok_iff.mp hviews

/-- Of the views of the members in a list, those of members that exist in a language. -/
def viewsIn (l : Language) (members : List Member) (views : List MemberView) : List MemberView :=
  ((members.zip views).filter (retained ·.1.languages l)).map (·.2)

theorem viewsIn_cons (l : Language) (m : Member) (members : List Member) (v : MemberView)
    (views : List MemberView) :
    viewsIn l (m :: members) (v :: views) =
      if retained m.languages l then v :: viewsIn l members views else viewsIn l members views := by
  rw [viewsIn, List.zip_cons_cons, List.filter_cons]
  split <;> rfl

/-- Two languages give the members that both have the same ids in the same order. -/
theorem map_id_viewsIn {members : List Member} {views views' : List MemberView}
    (h : List.Forall₂ (fun m v => m.definition.HasAnchor v.id) (retainedMembers a members) views)
    (h' : List.Forall₂ (fun m v => m.definition.HasAnchor v.id) (retainedMembers b members)
      views') :
    (viewsIn b (retainedMembers a members) views).map (·.id) =
      (viewsIn a (retainedMembers b members) views').map (·.id) := by
  -- on the descriptor: a member that one language leaves out adds nothing on either side
  induction members generalizing views views' with
  | nil => rfl
  | cons m members ih =>
    rw [retainedMembers_cons] at h h' ⊢
    rw [retainedMembers_cons]
    by_cases ha : retained m.languages a = true
    · rw [if_pos ha] at h ⊢
      obtain - | ⟨hview, hviews⟩ := h
      rw [viewsIn_cons]
      by_cases hb : retained m.languages b = true
      · rw [if_pos hb] at h' ⊢
        obtain - | ⟨hview', hviews'⟩ := h'
        rw [if_pos hb, viewsIn_cons, if_pos ha, List.map_cons, List.map_cons, ih hviews hviews',
          hview.unique hview']
      · rw [if_neg hb] at h' ⊢
        rw [if_neg hb]
        exact ih hviews h'
    · rw [if_neg ha] at h ⊢
      by_cases hb : retained m.languages b = true
      · rw [if_pos hb] at h' ⊢
        obtain - | ⟨hview', hviews'⟩ := h'
        rw [viewsIn_cons, if_neg ha]
        exact ih h hviews'
      · rw [if_neg hb] at h' ⊢
        exact ih h h'

/-- The views of some members are among all of them. -/
theorem viewsIn_sublist (l : Language) (members : List Member) (views : List MemberView) :
    (viewsIn l members views).Sublist views := by
  induction members generalizing views with
  | nil => exact List.nil_sublist views
  | cons m members ih =>
    cases views with
    | nil => exact List.Sublist.refl []
    | cons v views =>
      rw [viewsIn_cons]
      split
      · exact (ih views).cons_cons v
      · exact (ih views).cons v

/-! ## Pages -/

namespace Page

/-- Members with the same ids have the same anchors. -/
theorem sectionAnchors_congr (c : Category) {members members' : List MemberView}
    (h : members.map (·.id) = members'.map (·.id)) :
    sectionAnchors c members = sectionAnchors c members' := by
  have hmap (members : List MemberView) :
      members.filterMap (·.id) = (members.map (·.id)).filterMap id := by
    rw [List.filterMap_map]
    rfl
  rw [sectionAnchors, sectionAnchors, hmap, hmap, h]

/-- Fewer members have fewer anchors. -/
theorem sectionAnchors_sublist (c : Category) {members members' : List MemberView}
    (h : members.Sublist members') :
    (sectionAnchors c members).Sublist (sectionAnchors c members') := by
  rw [sectionAnchors, sectionAnchors]
  split
  · exact List.Sublist.refl []
  · exact h.filterMap _

end Page

namespace Entity

variable {r : ViewRules} {e : Entity} {v w : EntityView}

/-- The views of the members in a category that another language has too. -/
def commonViews (a b : Language) (e : Entity) (v : EntityView) (c : Category) : List MemberView :=
  viewsIn b (retainedMembers a (e.descriptor.members.get c)) (v.members.get c)

/-- What a page says of these members, as far as it can be pointed to. -/
def commonAnchors (a b : Language) (links : Links) (e : Entity) (v : EntityView) : List String :=
  Category.all.flatMap fun c => Page.anchors (Page.sectionSpans links c (commonViews a b e v c))

theorem commonAnchors_eq (links : Links) :
    commonAnchors a b links e v =
      Category.all.flatMap fun c => Page.sectionAnchors c (commonViews a b e v c) :=
  congrArg (List.flatMap · _) (funext fun c => Page.anchors_sectionSpans c _)

/-- They are anchors of the page, in the order of the page. -/
theorem commonAnchors_sublist (a b : Language) (links : Links) (e : Entity) (v : EntityView) :
    (commonAnchors a b links e v).Sublist (Page.anchors (Page.entitySpans links v)) := by
  rw [commonAnchors_eq, Page.anchors_entitySpans]
  exact List.Sublist.flatMap_right Category.all
    fun c _ => Page.sectionAnchors_sublist c (viewsIn_sublist b _ _)

/-- A view has one member for each member that exists in the language, in their order, with the
anchor that it has in all languages. -/
def ViewsMembers (l : Language) (e : Entity) (v : EntityView) : Prop :=
  ∀ c, List.Forall₂ (fun m view => m.view l = .ok view ∧ m.definition.HasAnchor view.id)
    (retainedMembers l (e.descriptor.members.get c)) (v.members.get c)

/-- The page of a view carries the anchors of the members that another language has too. -/
def PageCarriesCommon (a b : Language) (e : Entity) (v : EntityView) : Prop :=
  ∀ links, Page.entityText links v = Page.markdown (Page.entitySpans links v) ∧
    (commonAnchors a b links e v).Sublist (Page.anchors (Page.entitySpans links v))

/-- What the views of an entity in two languages have in common. -/
structure SharesAnchors (a b : Language) (e : Entity) (v w : EntityView) : Prop where
  left : ViewsMembers a e v
  right : ViewsMembers b e w
  ids : ∀ c, (commonViews a b e v c).map (·.id) = (commonViews b a e w c).map (·.id)
  anchors : ∀ links links', commonAnchors a b links e v = commonAnchors b a links' e w
  leftPage : PageCarriesCommon a b e v
  rightPage : PageCarriesCommon b a e w

theorem viewsMembers_of_view (h : e.view r l = .ok (some v)) : ViewsMembers l e v :=
  fun c => (forall₂_view h c).imp fun _ _ hview => ⟨hview, Member.hasAnchor_of_view hview⟩

theorem pageCarriesCommon (a b : Language) (e : Entity) (v : EntityView) :
    PageCarriesCommon a b e v :=
  fun links => ⟨Page.entityText_eq links v, commonAnchors_sublist a b links e v⟩

/-- **Anchors are shared**: the views of an entity in two languages give the members that both have
the same ids, in the order of the descriptor, and so do the pages with their anchors. -/
theorem view_sharesAnchors (hv : e.view r a = .ok (some v)) (hw : e.view r b = .ok (some w)) :
    SharesAnchors a b e v w := by
  have hleft := viewsMembers_of_view hv
  have hright := viewsMembers_of_view hw
  have hids (c : Category) :
      (commonViews a b e v c).map (·.id) = (commonViews b a e w c).map (·.id) :=
    map_id_viewsIn ((hleft c).imp fun _ _ h => h.2) ((hright c).imp fun _ _ h => h.2)
  refine ⟨hleft, hright, hids, fun links links' => ?_, pageCarriesCommon a b e v,
    pageCarriesCommon b a e w⟩
  rw [commonAnchors_eq, commonAnchors_eq]
  exact congrArg (List.flatMap · _) (funext fun c => Page.sectionAnchors_congr c (hids c))

/-- A constructor that JavaScript leaves out, in front of one that both languages have. -/
theorem view_sharesAnchors_menu :
    let hidden : Member := { signature := some "Native()", languages := some { lua := true } }
    let shared : Member := { signature := some "New_Menu()" }
    let e : Entity := ⟨"menu", { name := "Menu", members := { constructors := [hidden, shared] } }⟩
    ∃ v w, e.view {} .js = .ok (some v) ∧ e.view {} .lua = .ok (some w) ∧
      v.members.constructors.map (·.id) = [some "newmenu"] ∧
      w.members.constructors.map (·.id) = [some "native", some "newmenu"] ∧
      (commonViews .lua .js e w .constructors).map (·.id) = [some "newmenu"] ∧
      SharesAnchors .js .lua e v w := by
  intro hidden shared e
  exact ⟨_, _, rfl, rfl, rfl, rfl, rfl, view_sharesAnchors rfl rfl⟩

end Entity

end ApiSurface
