import ApiSurface.Proofs.Outcomes
import ApiSurface.Signature

/-!
# What a signature that can be read is made of

For each reader of signatures, the cuts and the checks that lie behind what it comes to. A name is
shown only once it has passed the check for identifiers, on every path: the name of a function with
and without a return type, and the name of a parameter once its marks have gone to the type
(`readSignature_showsNames`).
-/

namespace ApiSurface

variable {Member : Type} {l : Language}

/-- A parameter comes from an item with a blank at the top. -/
theorem readParameter_eq_ok {context text : List Char} {p : Parameter Member}
    (h : readParameter l context text = .ok p) :
    ∃ before after mapped, Nesting.splitLast? (Text.trim text) = .ok (some (before, after)) ∧
      Identifier.isName (moveMarkers before after).2 = true ∧
      mapToken l (moveMarkers before after).1 = .ok mapped ∧
      p = { type := mapped,
            name := String.ofList (Identifier.convert l (moveMarkers before after).2) } := by
  rw [readParameter_eq] at h
  simp only [] at h
  split at h
  · cases h
  · cases h
  · next before after hcut =>
    split at h
    · cases h
    · next hcheck =>
      obtain ⟨mapped, hmapped, rfl⟩ := map_eq_ok.mp h
      refine ⟨before, after, mapped, hcut, ?_, hmapped, rfl⟩
      simp only [Bool.or_eq_true, not_or, Bool.not_eq_true, Bool.not_eq_false'] at hcheck
      exact hcheck.1

/-- Parameters come one by one from the pieces between commas, and a blank list has none. -/
theorem readParameters_eq_ok {source list : List Char} {ps : List (Parameter Member)}
    (h : readParameters l source list = .ok ps) :
    (Text.trim list = [] ∧ ps = []) ∨
      ∃ items, Nesting.split ',' list = .ok items ∧
        List.Forall₂ (fun item p => readParameter l source item = .ok p) items ps := by
  rw [readParameters_eq] at h
  split at h
  · next hblank =>
    cases h
    exact .inl ⟨List.isEmpty_iff.mp hblank, rfl⟩
  · split at h
    · cases h
    · next items hitems =>
      refine .inr ⟨items, hitems, (mapM_eq_ok_iff.mp h).imp fun item p hp => ?_⟩
      split at hp
      · cases hp
      · exact hp

/-- Each parameter comes from a piece of the list. -/
theorem exists_item_of_readParameters {source list : List Char} {ps : List (Parameter Member)}
    {p : Parameter Member} (h : readParameters l source list = .ok ps) (hp : p ∈ ps) :
    ∃ items item, Nesting.split ',' list = .ok items ∧ item ∈ items ∧
      readParameter l source item = .ok p := by
  obtain ⟨-, rfl⟩ | ⟨items, hitems, hread⟩ := readParameters_eq_ok h
  · cases hp
  · obtain ⟨item, hitem, hparameter⟩ := exists_mem_of_mapM_eq_ok (mapM_eq_ok_iff.mpr hread) hp
    exact ⟨items, item, hitems, hitem, hparameter⟩

/-- A head is the name of a constructor, or a type and a name with a blank at the top between them,
where the type is mapped unless it is `void`. -/
theorem readHead_eq_ok {source head trailing name : List Char} {returnType : Option MappedType}
    (h : readHead l source head trailing = .ok (returnType, name)) :
    (Nesting.splitLast? head = .ok none ∧ name = head ∧ returnType = none) ∨
      ∃ before after, Nesting.splitLast? head = .ok (some (before, after)) ∧
        name = (moveMarkers before after).2 ∧
        ∀ t, returnType = some t → mapToken l (moveMarkers before after).1 = .ok t := by
  rw [readHead_eq] at h
  split at h
  · cases h
  · next hcut =>
    split at h
    · cases h
      exact .inl ⟨hcut, rfl, rfl⟩
    · cases h
  · next before after hcut =>
    refine .inr ⟨before, after, hcut, ?_⟩
    simp only [] at h
    split at h
    · cases h
      exact ⟨rfl, fun t ht => nomatch ht⟩
    · obtain ⟨mapped, hmapped, h⟩ := map_eq_ok.mp h
      cases h
      exact ⟨rfl, fun t ht => Option.some.inj ht ▸ hmapped⟩

/-- A signature comes from a text that is cut at the first parenthesis at the top and at the end of
the group that it opens. -/
theorem readSignature_eq_ok {text : List Char} {s : Signature Member}
    (h : readSignature l text = .ok s) :
    ∃ before opened list behind name,
      Nesting.find? '(' (Text.trim text) = .ok (some (before, opened)) ∧
      Nesting.enclosed before opened = .ok (list, behind) ∧
      readHead l (Text.trim text) (Text.trimEnd before) (Text.trim behind)
        = .ok (s.returnType, name) ∧
      Identifier.isName name = true ∧ s.name = String.ofList (Identifier.convert l name) ∧
      readParameters l (Text.trim text) list = .ok s.parameters := by
  rw [readSignature_eq] at h
  simp only [] at h
  split at h
  · cases h
  · cases h
  · next before opened hopens =>
    split at h
    · cases h
    · next list behind hcloses =>
      obtain ⟨⟨returnType, name⟩, hhead, h⟩ := bind_eq_ok.mp h
      simp only [] at h
      split at h
      · cases h
      · next hname =>
        obtain ⟨ps, hps, rfl⟩ := map_eq_ok.mp h
        exact ⟨before, opened, list, behind, name, hopens, hcloses, hhead, by simpa using hname,
          rfl, hps⟩

/-! ## Names -/

/-- The form of an identifier in a language. -/
def ShowsName (l : Language) (shown : String) : Prop :=
  ∃ name, Identifier.isName name = true ∧ shown = String.ofList (Identifier.convert l name)

theorem readParameter_showsName {context text : List Char} {p : Parameter Member}
    (h : readParameter l context text = .ok p) : ShowsName l p.name := by
  obtain ⟨before, after, mapped, -, hname, -, rfl⟩ := readParameter_eq_ok h
  exact ⟨_, hname, rfl⟩

/-- All names of a signature are forms of identifiers. -/
theorem readSignature_showsNames {text : List Char} {s : Signature Member}
    (h : readSignature l text = .ok s) :
    ShowsName l s.name ∧ ∀ p ∈ s.parameters, ShowsName l p.name := by
  obtain ⟨-, -, list, -, name, -, -, -, hname, hshown, hps⟩ := readSignature_eq_ok h
  refine ⟨⟨name, hname, hshown⟩, fun p hp => ?_⟩
  obtain ⟨_, _, -, -, hitem⟩ := exists_item_of_readParameters hps hp
  exact readParameter_showsName hitem

end ApiSurface
