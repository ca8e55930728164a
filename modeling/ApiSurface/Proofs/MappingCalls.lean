import Mathlib.Algebra.GroupWithZero.Nat
import Mathlib.Algebra.Order.BigOperators.Group.List
import Mathlib.Algebra.Order.Group.Nat
import ApiSurface.Proofs.TypeForms

/-!
# How often types are mapped

Mapping a token maps texts inside it in turn, and these map others again. `recordToken` keeps a
record of all of them: it maps a token as `mapToken` does (`recordToken_result`) and notes each text
that is mapped, the token itself first and then what is mapped for its parts (`recordToken_parts`).
Pieces of a tuple are mapped one after another until one has a fault, and only JavaScript maps the
elements of a sequence.

Each text is mapped on account of a `<` or a `,` that is not in it any more: a group of brackets
gives up its `<` for its first text, and its commas for the others (`tokenForm_marks`). So those
characters bound how often texts are mapped, and the brackets alone bound how deep the types are
that come out (`mapToken_calls_bounded`).
-/

namespace ApiSurface

/-! ## Recorded readings -/

/-- A reading with a record of the texts that are mapped on the way. -/
structure Recorded (α : Type) where
  texts : List (List Char)
  result : Except ParseError α

namespace Recorded

variable {α β ι κ : Type}

/-- The value in another form. -/
def map (f : α → β) (r : Recorded α) : Recorded β :=
  { r with result := r.result.map f }

/-- Reads items one after another until one has a fault. -/
def mapAll (f : ι → Recorded α) : List ι → Recorded (List α)
  | [] => ⟨[], .ok []⟩
  | i :: rest =>
    match (f i).result with
    | .error e => ⟨(f i).texts, .error e⟩
    | .ok a => ⟨(f i).texts ++ (mapAll f rest).texts, (mapAll f rest).result.map (a :: ·)⟩

theorem mapAll_map (f : ι → Recorded α) (g : κ → ι) (items : List κ) :
    mapAll f (items.map g) = mapAll (fun i => f (g i)) items := by
  induction items with
  | nil => rfl
  | cons i rest ih => rw [List.map_cons, mapAll, mapAll, ih]

theorem mapAll_result {f : ι → Recorded α} {g : ι → Except ParseError α} {items : List ι}
    (h : ∀ i ∈ items, (f i).result = g i) : (mapAll f items).result = items.mapM g := by
  induction items with
  | nil => rfl
  | cons i rest ih =>
    obtain ⟨hi, hrest⟩ := List.forall_mem_cons.mp h
    rw [mapAll, List.mapM_cons, ← ih hrest, ← hi]
    cases (f i).result with
    | error e => rfl
    | ok a => cases (mapAll f rest).result <;> rfl

/-- The items that are read: those up to the first one with a fault, and that one. -/
def untilFault (f : ι → Except ParseError α) : List ι → List ι
  | [] => []
  | i :: rest =>
    match f i with
    | .error _ => [i]
    | .ok _ => i :: untilFault f rest

theorem untilFault_prefix_items (f : ι → Except ParseError α) (items : List ι) :
    untilFault f items <+: items := by
  induction items with
  | nil => exact List.prefix_rfl
  | cons i rest ih =>
    rw [untilFault]
    cases f i with
    | error e => exact List.prefix_append [i] rest
    | ok a => exact (List.prefix_cons_inj i).mpr ih

/-- A fault cuts the record short. -/
theorem mapAll_texts (f : ι → Recorded α) (items : List ι) :
    (mapAll f items).texts =
      (untilFault (fun i => (f i).result) items).flatMap fun i => (f i).texts := by
  induction items with
  | nil => rfl
  | cons i rest ih =>
    rw [mapAll, untilFault]
    cases (f i).result with
    | error e => exact (List.flatMap_singleton (fun i => (f i).texts) i).symm
    | ok a =>
      dsimp only
      rw [List.flatMap_cons, ih]

end Recorded

/-! ## The mapping with its record -/

/-- Maps a token and records every text that is mapped, in the order in which they are. -/
def recordToken (l : Language) (token : List Char) : Recorded MappedType :=
  let inner : Recorded MappedType :=
    match _hform : tokenForm token with
    | .error e => ⟨[], .error e⟩
    | .ok (.name name) => ⟨[], .ok (mapName l name)⟩
    | .ok (.smartPointer inner) => recordToken l inner
    | .ok (.optional inner) => (recordToken l inner).map ({ · with nullable := true })
    | .ok (.tuple pieces) =>
      (Recorded.mapAll (fun ⟨piece, _⟩ => recordToken l piece) pieces.attach).map fun args =>
        { MappedType.named (Vocabulary.tuple l) with args }
    | .ok (.sequence inner) =>
      if l = .js then
        (recordToken l inner).map fun element =>
          { MappedType.named (Vocabulary.sequence l) with element := some element }
      else ⟨[], .ok (.named (Vocabulary.sequence l))⟩
  ⟨token :: inner.texts, inner.result.map (displayAs l (Text.trim token))⟩
termination_by token.length
decreasing_by
  all_goals exact (tokenForm_parts _hform _ (by simp_all [TypeForm.parts])).2

/-- What a language makes of a form, with the record of its parts. -/
def recordForm (l : Language) : TypeForm → Recorded MappedType
  | .name name => ⟨[], .ok (mapName l name)⟩
  | .smartPointer inner => recordToken l inner
  | .optional inner => (recordToken l inner).map ({ · with nullable := true })
  | .tuple pieces =>
    (Recorded.mapAll (recordToken l) pieces).map fun args =>
      { MappedType.named (Vocabulary.tuple l) with args }
  | .sequence inner =>
    if l = .js then
      (recordToken l inner).map fun element =>
        { MappedType.named (Vocabulary.sequence l) with element := some element }
    else ⟨[], .ok (.named (Vocabulary.sequence l))⟩

variable {l : Language} {token : List Char} {form : TypeForm}

theorem recordToken_of_error {e : ParseError} (h : tokenForm token = .error e) :
    recordToken l token = ⟨[token], .error e⟩ := by
  rw [recordToken]
  split <;> simp_all [Except.map]

/-- A token is mapped through its form, and recorded in front of what that has recorded. -/
theorem recordToken_of_form (h : tokenForm token = .ok form) :
    recordToken l token = ⟨token :: (recordForm l form).texts,
      (recordForm l form).result.map (displayAs l (Text.trim token))⟩ := by
  have hpieces (pieces : List (List Char)) :
      Recorded.mapAll (fun piece : { p // p ∈ pieces } => recordToken l piece.1) pieces.attach =
        Recorded.mapAll (recordToken l) pieces := by
    rw [← Recorded.mapAll_map (recordToken l) Subtype.val, List.attach_map_subtype_val]
  rw [recordToken]
  split
  · next herror => cases h.symm.trans herror
  · next hname =>
    cases h.symm.trans hname
    rfl
  · next hpointer =>
    cases h.symm.trans hpointer
    rfl
  · next hoptional =>
    cases h.symm.trans hoptional
    rfl
  · next htuple =>
    cases h.symm.trans htuple
    rw [recordForm, ← hpieces]
  · next hsequence =>
    cases h.symm.trans hsequence
    rfl

theorem recordForm_result (h : ∀ part ∈ form.parts, (recordToken l part).result = mapToken l part) :
    (recordForm l form).result = mapForm l form := by
  cases form with
  | name name => rfl
  | smartPointer inner => exact h inner List.mem_cons_self
  | optional inner =>
    rw [recordForm, mapForm, ← h inner List.mem_cons_self]
    rfl
  | tuple pieces =>
    have hpieces := Recorded.mapAll_result h
    exact congrArg (Except.map _) hpieces
  | sequence inner =>
    rw [recordForm, mapForm, ← h inner List.mem_cons_self]
    split <;> rfl

/-- The record changes nothing about what a token maps to. -/
theorem recordToken_result (l : Language) (token : List Char) :
    (recordToken l token).result = mapToken l token := by
  induction token using token_induction with
  | h token ih =>
    rw [mapToken_eq_form]
    cases hform : tokenForm token with
    | error e =>
      rw [recordToken_of_error hform]
      rfl
    | ok form =>
      rw [recordToken_of_form hform, recordForm_result (ih form hform)]
      rfl

/-- The parts of a form that a language maps. Pieces of a tuple are mapped up to the first one with
a fault, and the elements of a sequence in JavaScript only. -/
def mappedParts (l : Language) : TypeForm → List (List Char)
  | .name _ => []
  | .smartPointer inner => [inner]
  | .optional inner => [inner]
  | .tuple pieces => Recorded.untilFault (mapToken l) pieces
  | .sequence inner => if l = .js then [inner] else []

theorem mappedParts_prefix_parts (l : Language) (form : TypeForm) :
    mappedParts l form <+: form.parts := by
  cases form with
  | name name => exact List.nil_prefix
  | smartPointer inner => exact List.prefix_rfl
  | optional inner => exact List.prefix_rfl
  | tuple pieces => exact Recorded.untilFault_prefix_items _ pieces
  | sequence inner =>
    rw [mappedParts]
    split
    · exact List.prefix_rfl
    · exact List.nil_prefix

/-- What a form has recorded is what its mapped parts have recorded, one after another. -/
theorem recordForm_texts (l : Language) (form : TypeForm) :
    (recordForm l form).texts =
      (mappedParts l form).flatMap fun part => (recordToken l part).texts := by
  cases form with
  | name name => rfl
  | smartPointer inner => simp [recordForm, mappedParts]
  | optional inner => simp [recordForm, mappedParts, Recorded.map]
  | tuple pieces =>
    have htexts := Recorded.mapAll_texts (recordToken l) pieces
    simp only [recordToken_result] at htexts
    exact htexts
  | sequence inner =>
    rw [recordForm, mappedParts]
    split
    · simp [Recorded.map]
    · rfl

/-- The parts of a token that a language maps. -/
def partsOf (l : Language) (token : List Char) : List (List Char) :=
  match tokenForm token with
  | .error _ => []
  | .ok form => mappedParts l form

/-- A token is recorded in front of what its parts have recorded, one after another. -/
theorem recordToken_parts (l : Language) (token : List Char) :
    (recordToken l token).texts =
      token :: (partsOf l token).flatMap fun part => (recordToken l part).texts := by
  rw [partsOf]
  cases hform : tokenForm token with
  | error e =>
    rw [recordToken_of_error hform]
    rfl
  | ok form => rw [recordToken_of_form hform, recordForm_texts]

theorem exists_form_of_mem_partsOf {part : List Char} (h : part ∈ partsOf l token) :
    ∃ form, tokenForm token = .ok form ∧ part ∈ form.parts := by
  rw [partsOf] at h
  cases hform : tokenForm token with
  | error e =>
    rw [hform] at h
    cases h
  | ok form =>
    rw [hform] at h
    exact ⟨form, rfl, (mappedParts_prefix_parts l form).subset h⟩

/-- A record begins with the token, and all behind it stands in the token and is shorter. -/
theorem recordToken_texts (l : Language) (token : List Char) :
    ∃ inner, (recordToken l token).texts = token :: inner ∧
      ∀ text ∈ inner, text <:+: token ∧ text.length < token.length := by
  induction token using token_induction with
  | h token ih =>
    refine ⟨_, recordToken_parts l token, fun text htext => ?_⟩
    obtain ⟨part, hpart, hmem⟩ := List.mem_flatMap.mp htext
    obtain ⟨form, hform, hpart⟩ := exists_form_of_mem_partsOf hpart
    obtain ⟨hwithin, hlength⟩ := tokenForm_parts hform part hpart
    obtain ⟨inner, htexts, hinner⟩ := ih form hform part hpart
    rw [htexts] at hmem
    rcases List.mem_cons.mp hmem with rfl | hmem
    · exact ⟨hwithin, hlength⟩
    · obtain ⟨hwithin', hlength'⟩ := hinner text hmem
      exact ⟨hwithin'.trans hwithin, hlength'.trans hlength⟩

/-! ## Characters that are used up -/

/-- How many characters of a text can begin a text that is mapped in turn. -/
def marks (text : List Char) : Nat :=
  text.count '<' + text.count ','

theorem marks_append (front back : List Char) :
    marks (front ++ back) = marks front + marks back := by
  simp only [marks, List.count_append]
  omega

theorem marks_le {part text : List Char} (h : part <:+: text) : marks part ≤ marks text :=
  Nat.add_le_add (h.sublist.count_le '<') (h.sublist.count_le ',')

/-- Joining texts by commas adds a mark between each two of them. -/
theorem marks_intercalate {texts : List (List Char)} (h : texts ≠ []) :
    marks ([','].intercalate texts) + 1 = (texts.map fun text => 1 + marks text).sum := by
  induction texts with
  | nil => exact absurd rfl h
  | cons first rest ih =>
    cases rest with
    | nil => simp [Nat.add_comm]
    | cons second rest =>
      have hcomma : marks [','] = 1 := rfl
      rw [List.intercalate_cons_cons, List.map_cons, List.sum_cons, ← ih (by simp), marks_append,
        marks_append, hcomma]
      omega

/-- Type arguments stand behind a bracket that they do not hold. -/
theorem outermost?_inside {text outer inner : List Char}
    (h : Nesting.outermost? text = .ok (some (outer, inner))) :
    ∃ inside, inner <:+: inside ∧ '<' :: inside <:+: text := by
  obtain ⟨-, -, hnone⟩ | ⟨before, inside, closing, behind, rfl, -, -, hparts⟩ :=
    Nesting.outermost?_eq_ok h
  · cases hnone
  · split at hparts
    · cases hparts
      exact ⟨inside, Text.trim_within inside, before, closing :: behind, by simp⟩
    · cases hparts

/-- The pieces of a text have its marks but for the commas between them. -/
theorem split_marks {text : List Char} {pieces : List (List Char)}
    (h : Nesting.split ',' text = .ok pieces) :
    (pieces.map fun piece => 1 + marks piece).sum ≤ 1 + marks text := by
  obtain ⟨raw, hraw, rfl⟩ := Option.map_eq_some_iff.mp (Nesting.split_eq_ok_iff.mp h)
  obtain ⟨rfl, first, more, rfl, -⟩ := Nesting.cuts_eq_some hraw
  rw [Nat.add_comm, marks_intercalate (List.cons_ne_nil first more), List.map_map]
  exact List.sum_le_sum fun piece _ => Nat.add_le_add_left (marks_le (Text.trim_within piece)) 1

/-- Each text that is mapped in turn takes a mark of the token away. -/
theorem tokenForm_marks (h : tokenForm token = .ok form) :
    (form.parts.map fun part => 1 + marks part).sum ≤ marks token := by
  have hcore := marks_le (core_within token)
  refine le_trans ?_ hcore
  have hinner {outer inner : List Char}
      (cut : Nesting.outermost? (dropQualifiers (Text.trim token)) = .ok (some (outer, inner))) :
      1 + marks inner ≤ marks (dropQualifiers (Text.trim token)) := by
    obtain ⟨inside, hinner, hinside⟩ := outermost?_inside cut
    have hbracket : marks ('<' :: inside) = 1 + marks inside := marks_append ['<'] inside
    have := marks_le hinner
    have := marks_le hinside
    omega
  cases hasForm_of_tokenForm h with
  | plain _ => exact Nat.zero_le _
  | unknown _ _ => exact Nat.zero_le _
  | smartPointer cut _ => simpa [TypeForm.parts] using hinner cut
  | optional cut _ => simpa [TypeForm.parts] using hinner cut
  | sequence cut _ => simpa [TypeForm.parts] using hinner cut
  | tuple cut _ items =>
    refine le_trans ?_ ((split_marks items).trans (hinner cut))
    exact (List.filter_sublist.map _).sum_le_sum fun _ _ => Nat.zero_le _

/-- Each text that is mapped in turn has fewer opening brackets than the token. -/
theorem tokenForm_brackets (h : tokenForm token = .ok form) :
    ∀ part ∈ form.parts, part.count '<' + 1 ≤ token.count '<' := by
  have hinner {outer inner : List Char}
      (cut : Nesting.outermost? (dropQualifiers (Text.trim token)) = .ok (some (outer, inner))) :
      inner.count '<' + 1 ≤ token.count '<' := by
    obtain ⟨inside, hinner, hinside⟩ := outermost?_inside cut
    have hbracket := (hinside.trans (core_within token)).sublist.count_le '<'
    rw [List.count_cons_self] at hbracket
    have := hinner.sublist.count_le '<'
    omega
  cases hasForm_of_tokenForm h with
  | plain _ => simp [TypeForm.parts]
  | unknown _ _ => simp [TypeForm.parts]
  | smartPointer cut _ => simpa [TypeForm.parts] using hinner cut
  | optional cut _ => simpa [TypeForm.parts] using hinner cut
  | sequence cut _ => simpa [TypeForm.parts] using hinner cut
  | tuple cut _ items =>
    intro piece hpiece
    have hwithin := Nesting.split_within items piece (List.mem_of_mem_filter hpiece)
    have := hwithin.sublist.count_le '<'
    have := hinner cut
    omega

theorem partsOf_marks (l : Language) (token : List Char) :
    ((partsOf l token).map fun part => 1 + marks part).sum ≤ marks token := by
  rw [partsOf]
  cases hform : tokenForm token with
  | error e => exact Nat.zero_le _
  | ok form =>
    refine le_trans ?_ (tokenForm_marks hform)
    exact ((mappedParts_prefix_parts l form).sublist.map _).sum_le_sum fun _ _ => Nat.zero_le _

/-- At most as many texts are mapped as the token has marks, and the token itself. -/
theorem recordToken_length (l : Language) (token : List Char) :
    (recordToken l token).texts.length ≤ 1 + marks token := by
  induction token using token_induction with
  | h token ih =>
    have hparts : ∀ part ∈ partsOf l token, (recordToken l part).texts.length ≤ 1 + marks part := by
      intro part hpart
      obtain ⟨form, hform, hpart⟩ := exists_form_of_mem_partsOf hpart
      exact ih form hform part hpart
    have hsum := List.sum_le_sum hparts
    have hmarks := partsOf_marks l token
    rw [recordToken_parts, List.length_cons, List.length_flatMap]
    omega

/-! ## How deep types are nested -/

mutual

/-- How many types lie around the innermost type in a type. -/
def MappedType.depth : MappedType → Nat
  | ⟨_, _, _, element, args⟩ => max (elementDepth element) (itemsDepth args)

/-- How deep a type of elements is, with the sequence around it. -/
def elementDepth : Option MappedType → Nat
  | none => 0
  | some t => t.depth + 1

/-- How deep the deepest of the types in a tuple is, with the tuple around it. -/
def itemsDepth : List MappedType → Nat
  | [] => 0
  | t :: rest => max (t.depth + 1) (itemsDepth rest)

end

theorem depth_eq (t : MappedType) : t.depth = max (elementDepth t.element) (itemsDepth t.args) := by
  cases t
  rfl

theorem itemsDepth_le {n : Nat} {ts : List MappedType} (h : ∀ t ∈ ts, t.depth + 1 ≤ n) :
    itemsDepth ts ≤ n := by
  induction ts with
  | nil => exact Nat.zero_le n
  | cons t ts ih =>
    obtain ⟨ht, hts⟩ := List.forall_mem_cons.mp h
    rw [itemsDepth]
    exact max_le ht (ih hts)

theorem depth_mapName (l : Language) (name : List Char) : (mapName l name).depth = 0 := by
  rw [mapName]
  split
  · rfl
  · split <;> rfl

/-- The text that a type is displayed by says nothing of what is in it. -/
theorem depth_displayAs (l : Language) (written : List Char) (t : MappedType) :
    (displayAs l written t).depth = t.depth := by
  rw [displayAs]
  split
  · rw [depth_eq, depth_eq]
  · rfl

/-- A form has one more type around its parts. -/
theorem mapForm_depth {n : Nat} {t : MappedType} (h : mapForm l form = .ok t)
    (hparts : ∀ part ∈ form.parts, ∀ t, mapToken l part = .ok t → t.depth + 1 ≤ n) :
    t.depth ≤ n := by
  cases form with
  | name name =>
    cases h
    rw [depth_mapName]
    exact Nat.zero_le n
  | smartPointer inner =>
    exact Nat.le_of_succ_le (hparts inner List.mem_cons_self t h)
  | optional inner =>
    obtain ⟨t, ht, rfl⟩ := map_eq_ok.mp h
    have hinner := hparts inner List.mem_cons_self t ht
    rw [depth_eq] at hinner ⊢
    exact Nat.le_of_succ_le hinner
  | tuple pieces =>
    obtain ⟨ts, hts, rfl⟩ := map_eq_ok.mp h
    have hitems : itemsDepth ts ≤ n := itemsDepth_le fun t ht => by
      obtain ⟨piece, hpiece, ht⟩ := exists_mem_of_mapM_eq_ok hts ht
      exact hparts piece hpiece t ht
    exact max_le (Nat.zero_le n) hitems
  | sequence inner =>
    rw [mapForm] at h
    split at h
    · obtain ⟨t, ht, rfl⟩ := map_eq_ok.mp h
      exact max_le (hparts inner List.mem_cons_self t ht) (Nat.zero_le n)
    · cases h
      exact Nat.zero_le n

/-- A type is no deeper than its token has opening brackets. -/
theorem mapToken_depth {t : MappedType} (h : mapToken l token = .ok t) :
    t.depth ≤ token.count '<' := by
  induction token using token_induction generalizing t with
  | h token ih =>
    rw [mapToken_eq_form] at h
    obtain ⟨form, hform, h⟩ := bind_eq_ok.mp h
    obtain ⟨t, ht, rfl⟩ := map_eq_ok.mp h
    rw [depth_displayAs]
    refine mapForm_depth ht fun part hpart t ht => ?_
    have := ih form hform part hpart ht
    have := tokenForm_brackets hform part hpart
    omega

/-- **Every mapping of a type ends**, and after few calls. The texts that are mapped for a token are
the token and those that are mapped for its parts: the text inside a smart pointer or an optional,
the pieces of a tuple up to the first one with a fault, the element of a sequence in JavaScript. All
but the token itself stand in the token and are shorter; there are no more of them than the token
has `<` and `,` and one more; and no type that comes out is nested deeper than the token has `<`. -/
theorem mapToken_calls_bounded (l : Language) (token : List Char) :
    (recordToken l token).result = mapToken l token ∧
      ((recordToken l token).texts =
        token :: (partsOf l token).flatMap fun part => (recordToken l part).texts) ∧
      (∃ inner, (recordToken l token).texts = token :: inner ∧
        ∀ text ∈ inner, text <:+: token ∧ text.length < token.length) ∧
      (recordToken l token).texts.length ≤ 1 + (token.count '<' + token.count ',') ∧
      ∀ t, mapToken l token = .ok t → t.depth ≤ token.count '<' :=
  ⟨recordToken_result l token, recordToken_parts l token, recordToken_texts l token,
    recordToken_length l token, fun _ => mapToken_depth⟩

/-- Pieces behind a fault are not mapped. -/
example : (recordToken .js "tuple<int, *, Color>".toList).texts =
    ["tuple<int, *, Color>".toList, "int".toList, "*".toList] := by
  decide +kernel

/-- Neither bound can be lowered. -/
example :
    let token := "tuple<int, vector<Color>>".toList
    (recordToken .js token).texts.length = 1 + (token.count '<' + token.count ',') ∧
      (mapToken .js token).toOption.map MappedType.depth = some (token.count '<') := by
  decide +kernel

end ApiSurface
