import ApiSurface.Proofs.Outcomes
import ApiSurface.Proofs.TypeGrammar

/-!
# What canonical types map to

The mapping of a type follows its grammar: it drops qualifiers, sees through smart pointers, marks
what an optional holds as nullable, and maps the items of a tuple and, where the language asks for
it, the elements of a sequence by themselves. `TypeExpr.translation` says so by recursion on the
type, `mapToken` finds it in the text, and the two agree on every type of the grammar.

The name that a type is displayed under is a parameter of the translation: the scripting languages
keep the one the translation comes to, and C++ puts the text of the type in its place.
-/

namespace ApiSurface

/-! ## Translation -/

/-- What a name without type arguments means: its native name, itself where it is built in, or a
page of its own. -/
def nameMeaning (l : Language) (name : List Char) : MappedType :=
  match Vocabulary.row? (String.ofList name), l with
  | some row, .lua => .named row.lua
  | some row, .js => .named row.js
  | some row, .cpp => if row.inCpp then .named (String.ofList name) else .linked name
  | none, _ => .linked name

namespace TypeExpr

variable (display : List Char → MappedType → MappedType) (l : Language)

mutual

/-- What the core of a type means. The types inside it are displayed by their text. -/
def meaning : TypeExpr → MappedType
  | name _ n => nameMeaning l n.text
  | smartPointer _ _ inner => display inner.text (meaning inner)
  | optional _ _ inner => { display inner.text (meaning inner) with nullable := true }
  | tuple _ _ _ items => { MappedType.named (Vocabulary.tuple l) with args := meanings items }
  | container _ _ inner =>
    { MappedType.named (Vocabulary.sequence l) with
      element := if l = .js then some (display inner.text (meaning inner)) else none }
  | other _ h _ _ => nameMeaning l h.name.text

/-- What types mean. -/
def meanings : List TypeExpr → List MappedType
  | [] => []
  | e :: rest => display e.text (meaning e) :: meanings rest

end

/-- What a type means, displayed by its text. -/
def translation (e : TypeExpr) : MappedType :=
  display e.text (meaning display l e)

theorem meanings_eq_map (items : List TypeExpr) :
    meanings display l items = items.map (translation display l) := by
  induction items with
  | nil => rfl
  | cons e items ih => rw [meanings, ih, List.map_cons, translation]

end TypeExpr

theorem mapName_eq (l : Language) (name : List Char) : mapName l name = nameMeaning l name := by
  unfold mapName nameMeaning
  cases hrow : Vocabulary.row? (String.ofList name) with
  | none => cases l <;> simp [Vocabulary.native?, Vocabulary.contains, hrow]
  | some row => cases l <;> simp [Vocabulary.native?, Vocabulary.contains, hrow]

/-! ## Steps of the mapping -/

/-- Blanks around a token do not matter to what it maps to. -/
theorem mapToken_trim {l : Language} {token : List Char} {t : MappedType}
    (h : mapToken l token = .ok t) : mapToken l (Text.trim token) = .ok t := by
  rw [mapToken_eq] at h ⊢
  rw [Text.trim_trim]
  by_cases hempty : (dropQualifiers (Text.trim token)).isEmpty = true
  · simp [hempty] at h
  · simpa [hempty] using h

/-- A name without brackets is a name. -/
theorem ScopedName.outermost? (n : ScopedName) : Nesting.outermost? n.text = .ok none := by
  refine Nesting.outermost?_plain fun c hc => ?_
  have hchar := not_mem_of_isNameChar (n.isNameChar_of_mem hc)
  simp_all

/-- A name applied to a balanced text falls into the two. -/
theorem Head.outermost? {wraps : Option Wrapper} (h : Head wraps) {inside : List Char}
    (hinside : Nesting.Balanced (fun _ => true) inside) :
    Nesting.outermost? (h.applied inside) = .ok (some (h.name.text, Text.trim inside)) := by
  have houter : ∀ c ∈ h.name.text ++ spaces h.gap, c ≠ '<' := by
    rintro c hc rfl
    rcases List.mem_append.mp hc with hc | hc
    · cases h.name.isNameChar_of_mem hc
    · cases isBlank_of_mem_spaces hc
  have htrim : Text.trim (h.name.text ++ spaces h.gap) = h.name.text := by
    rw [Text.trim_append_blanks fun c hc => isBlank_of_mem_spaces hc]
    exact h.name.isCore.tight.trim
  rw [applied, Nesting.outermost?_applied houter hinside, htrim]

/-- A type maps to what its core maps to, displayed by its text. -/
theorem mapToken_text_eq (l : Language) (e : TypeExpr) :
    mapToken l e.text = (mapCore l e.core).map (displayAs l (Text.trim e.text)) := by
  rw [mapToken_eq, TypeExpr.dropQualifiers_text]
  exact if_neg (by simpa using e.core_ne_nil)

/-- The pieces of the items of a tuple are their texts. -/
theorem mapM_pieces {l : Language} {display : List Char → MappedType → MappedType} (lead : Nat)
    (items : List TypeExpr)
    (h : ∀ i ∈ items, mapToken l i.text = .ok (i.translation display l)) :
    ∃ pieces,
      Nesting.split ',' (Text.trim (spaces lead ++ [','].intercalate (TypeExpr.texts items))) =
        .ok pieces ∧
      (pieces.filter (!·.isEmpty)).mapM (mapToken l) =
        .ok (TypeExpr.meanings display l items) := by
  rw [Text.trim_blanks_append fun c hc => isBlank_of_mem_spaces hc, TypeExpr.texts_eq_map,
    TypeExpr.meanings_eq_map]
  cases items with
  | nil => exact ⟨[[]], rfl, rfl⟩
  | cons i rest =>
    -- there is an item, so there are as many pieces as items and none of them is empty
    generalize hitems : i :: rest = items at h
    have hne : items.map TypeExpr.text ≠ [] := by simp [← hitems]
    refine ⟨_, Nesting.split_intercalate (by decide) (by decide) ?_ hne, ?_⟩
    · exact List.forall_mem_map.mpr fun i _ => i.balanced_text
    · have hnonempty : ∀ piece ∈ (items.map TypeExpr.text).map Text.trim,
          (!piece.isEmpty) = true := by
        rw [List.map_map]
        exact List.forall_mem_map.mpr fun i _ => by simpa using i.trim_text_ne_nil
      rw [List.filter_eq_self.mpr hnonempty, List.map_map, List.mapM_map]
      exact mapM_eq_ok fun i hi => mapToken_trim (h i hi)

/-- What a name applied to a balanced text maps to, by what the name wraps. -/
theorem Head.mapCore_applied {wraps : Option Wrapper} (h : Head wraps) (l : Language)
    {inside : List Char} (hinside : Nesting.Balanced (fun _ => true) inside) :
    mapCore l (h.applied inside) =
      match wraps with
      | none => .ok (mapName l h.name.text)
      | some .smartPointer => mapToken l (Text.trim inside)
      | some .optional => (mapToken l (Text.trim inside)).map ({ · with nullable := true })
      | some .tuple =>
        match Nesting.split ',' (Text.trim inside) with
        | .error e => .error e
        | .ok pieces =>
          Except.map (fun args => { MappedType.named (Vocabulary.tuple l) with args }) <|
            (pieces.filter (!·.isEmpty)).mapM (mapToken l)
      | some .container =>
        if l = .js then
          (mapToken l (Text.trim inside)).map fun element =>
            { MappedType.named (Vocabulary.sequence l) with element := some element }
        else .ok (.named (Vocabulary.sequence l)) := by
  rw [mapCore, h.outermost? hinside]
  simp only [h.ofName?_eq]
  cases wraps with
  | none => rfl
  | some w => cases w <;> rfl

/-- The core of a type maps to its meaning when the types inside it map to theirs. -/
theorem mapCore_core {l : Language} {display : List Char → MappedType → MappedType} {e : TypeExpr}
    (h : ∀ i ∈ e.inside, mapToken l i.text = .ok (i.translation display l)) :
    mapCore l e.core = .ok (e.meaning display l) := by
  cases e with
  | name _ n =>
    rw [mapCore, TypeExpr.core, n.outermost?]
    exact congrArg Except.ok (mapName_eq l n.text)
  | smartPointer _ head inner =>
    have hinner := mapToken_trim (h inner (List.mem_singleton_self _))
    show mapCore l (head.applied inner.text) = _
    rw [head.mapCore_applied l (TypeExpr.balanced_anywhere inner.balanced_text)]
    exact hinner
  | optional _ head inner =>
    have hinner := mapToken_trim (h inner (List.mem_singleton_self _))
    show mapCore l (head.applied inner.text) = _
    rw [head.mapCore_applied l (TypeExpr.balanced_anywhere inner.balanced_text)]
    simp only [hinner]
    rfl
  | container _ head inner =>
    have hinner := mapToken_trim (h inner (List.mem_singleton_self _))
    show mapCore l (head.applied inner.text) = _
    rw [head.mapCore_applied l (TypeExpr.balanced_anywhere inner.balanced_text)]
    simp only [hinner, TypeExpr.meaning]
    by_cases hjs : l = .js
    · rw [if_pos hjs, if_pos hjs]
      rfl
    · rw [if_neg hjs, if_neg hjs]
      rfl
  | tuple _ head lead items =>
    obtain ⟨pieces, hsplit, hargs⟩ := mapM_pieces lead items h
    rw [TypeExpr.core, head.mapCore_applied l (TypeExpr.balanced_items lead items)]
    simp only [hsplit, hargs]
    rfl
  | other _ head inside hinside =>
    rw [TypeExpr.core, head.mapCore_applied l hinside]
    exact congrArg Except.ok (mapName_eq l head.name.text)

/-- How what the text of a type maps to is displayed: C++ shows the text. -/
def displayed (l : Language) (text : List Char) (t : MappedType) : MappedType :=
  match l with
  | .cpp => { t with name := String.ofList (Text.trim text) }
  | .lua => t
  | .js => t

theorem displayAs_trim (l : Language) (text : List Char) :
    displayAs l (Text.trim text) = displayed l text := by
  cases l <;> rfl

/-- A type maps to its translation, which C++ displays as the types are written. -/
theorem mapToken_text (l : Language) (e : TypeExpr) :
    mapToken l e.text = .ok (e.translation (displayed l) l) := by
  induction e using TypeExpr.induct with
  | node e ih =>
    rw [mapToken_text_eq, mapCore_core ih, displayAs_trim]
    rfl

/-- The text of a type and what it means in JavaScript. -/
example :
    let view : TypeExpr := .name { marks := [.pointer] }
      ⟨["View".toList], by decide, by simp; rfl, by decide⟩
    let views : TypeExpr := .container { isConst := true, marks := [.reference] }
      ⟨⟨["std".toList, "vector".toList], by decide, by simp; decide, by decide⟩, 0, rfl⟩ view
    String.ofList views.text = "const std::vector<View*>&" ∧
      views.translation (displayed .js) .js =
        { name := "Array", element := some (.linked "View".toList) } := by
  exact ⟨rfl, rfl⟩

/-- C++ displays a qualifier that the translation has dropped. -/
theorem mapToken_text_const_int :
    ∃ e : TypeExpr, String.ofList e.text = "const int" ∧
      mapToken .cpp e.text = .ok (.named "const int") ∧
      e.translation (fun _ t => t) .cpp = .named "int" ∧
      mapToken .cpp e.text ≠ .ok (e.translation (fun _ t => t) .cpp) := by
  have hmap : mapToken .cpp "const int".toList = .ok (.named "const int") := by
    have hcut : Nesting.outermost? (dropQualifiers (Text.trim "const int".toList)) = .ok none := rfl
    rw [mapToken_eq]
    simp only [mapCore, hcut]
    rfl
  refine ⟨.name { isConst := true } ⟨["int".toList], by decide, by decide, by decide⟩,
    rfl, hmap, rfl, ?_⟩
  intro heq
  have hne : "const int" ≠ "int" := by decide
  exact hne (congrArg MappedType.name (Except.ok.inj (hmap.symm.trans heq)))

end ApiSurface
