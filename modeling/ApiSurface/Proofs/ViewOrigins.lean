import ApiSurface.Proofs.Outcomes
import ApiSurface.View.OfDescriptor

/-!
# Where views come from

A view is made only in certain ways: that of a member by the text that defines the member
(`Member.ViewedAs`), that of an entity part by part (`Entity.ViewedAs`). So what holds of a view is
shown for each of these ways, and no proof takes apart how views are made.
-/

namespace ApiSurface

variable {l : Language}

/-! ## Members -/

namespace Member

variable {m : Member}

/-- The view of a member is made from the member and the notes on its parameters. -/
theorem view_eq (l : Language) (m : Member) :
    m.view l = viewWithNotes l m (parameterNotes l m.parameters) := by
  cases m
  rw [view]

/-- What the view of a member says whatever defines the member. -/
def baseView (l : Language) (m : Member) : MemberView :=
  { description := m.description
    detail := detailFor m.detail m.languageDetail l
    isAbstract := m.isAbstract
    isOptional := m.isOptional }

/-- A view of a member, with what is read from the text that defines the member. -/
inductive ViewedAs (l : Language) (m : Member) : MemberView → Prop
  | signature {text anchor : String} {s : Signature MemberView} :
      m.definition = .signature text → Anchor.ofSignature text = .ok anchor →
      readDocumented l text (parameterNotes l m.parameters) = .ok s →
      ViewedAs l m { m.baseView l with id := some anchor, signature := some s }
  | callback {text anchor : String} {s : Signature MemberView} :
      m.definition = .callback text → Anchor.ofSignature text = .ok anchor →
      readDocumented l text (parameterNotes l m.parameters) = .ok s →
      ViewedAs l m { m.baseView l with id := some anchor, callback := some s }
  | property {text anchor : String} {p : Parameter MemberView} :
      m.definition = .property text → Anchor.ofProperty text = .ok anchor →
      Parameter.parse l text = .ok p →
      ViewedAs l m { m.baseView l with id := some anchor, name := some p.name, type := some p.type }
  | plain : m.definition = .plain → ViewedAs l m { m.baseView l with name := m.name }

theorem viewedAs {v : MemberView} (h : m.view l = .ok v) :
    m.ViewedAs l v := by
  rw [view_eq] at h
  unfold viewWithNotes at h
  cases hdefinition : m.definition with
  | signature text =>
    rw [hdefinition] at h
    obtain ⟨anchor, hanchor, h⟩ := bind_eq_ok.mp h
    obtain ⟨s, hs, h⟩ := bind_eq_ok.mp h
    cases h
    exact .signature hdefinition hanchor hs
  | callback text =>
    rw [hdefinition] at h
    obtain ⟨anchor, hanchor, h⟩ := bind_eq_ok.mp h
    obtain ⟨s, hs, h⟩ := bind_eq_ok.mp h
    cases h
    exact .callback hdefinition hanchor hs
  | property text =>
    rw [hdefinition] at h
    obtain ⟨anchor, hanchor, h⟩ := bind_eq_ok.mp h
    obtain ⟨p, hp, h⟩ := bind_eq_ok.mp h
    cases h
    exact .property hdefinition hanchor hp
  | plain =>
    rw [hdefinition] at h
    cases h
    exact .plain hdefinition

end Member

/-! ## Entities -/

namespace Entity

variable {r : ViewRules} {e : Entity} {v : EntityView}

/-- A view of an entity that exists in the language. -/
structure ViewedAs (r : ViewRules) (l : Language) (e : Entity) (v : EntityView) : Prop where
  retained : retained e.descriptor.languages l = true
  id : v.id = e.id
  name : v.name = e.descriptor.name
  kind : v.kind = (placement r l e.descriptor).1
  base : e.descriptor.base.mapM (MappedType.ofToken l) = .ok v.base
  isSingleton : v.isSingleton = e.descriptor.isSingleton
  members : e.descriptor.members.mapM (memberViews l) = .ok v.members

theorem viewedAs (h : e.view r l = .ok (some v)) : e.ViewedAs r l v := by
  rw [view] at h
  dsimp only at h
  split at h
  · next hretained =>
    obtain ⟨base, hbase, h⟩ := bind_eq_ok.mp h
    obtain ⟨members, hmembers, h⟩ := bind_eq_ok.mp h
    cases h
    exact ⟨hretained, rfl, rfl, rfl, hbase, rfl, hmembers⟩
  · cases h

end Entity

end ApiSurface
