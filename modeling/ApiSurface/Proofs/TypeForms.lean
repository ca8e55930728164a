import ApiSurface.MappedType
import ApiSurface.Proofs.BracketNesting

/-!
# What a type token is made of

Every language takes a type token apart in the same way. What it finds is a name or one of a few
wrappers with the texts that it wraps (`TypeForm`), or a fault; only what it makes of these differs
(`mapToken_eq_form`). The texts that are mapped in turn stand in the token and are shorter, so that
something holds of all tokens when it holds of each whose parts it holds of (`token_induction`).
-/

namespace ApiSurface

/-! ## Parts of a text -/

namespace Nesting

variable {text outer inner : List Char}

/-- What `outermost?` finds: a text without angle brackets, or one with a group of brackets from its
first angle bracket on, which is taken for type arguments when nothing follows it. -/
theorem outermost?_eq_ok {parts : Option (List Char × List Char)}
    (h : outermost? text = .ok parts) :
    ('<' ∉ text ∧ '>' ∉ text ∧ parts = none) ∨
      ∃ before inside closing behind, text = before ++ '<' :: (inside ++ closing :: behind) ∧
        '<' ∉ before ∧ IsGroup ('<' :: (inside ++ [closing])) ∧
        parts = if behind.isEmpty then some (Text.trim before, Text.trim inside) else none := by
  by_cases hopened : '<' ∈ text
  · obtain ⟨before, rest, rfl, hbefore⟩ := List.eq_append_cons_of_mem hopened
    rw [outermost?_opened hbefore] at h
    obtain ⟨⟨inside, behind⟩, hinside, hparts⟩ := map_eq_ok.mp h
    obtain ⟨closing, rfl, hgroup⟩ := enclosed_group (k := .angles) hinside
    exact .inr ⟨before, inside, closing, behind, rfl, hbefore, hgroup, hparts.symm⟩
  · rw [outermost?_unopened hopened] at h
    split at h
    · cases h
    · next hclosing =>
      cases h
      exact .inl ⟨hopened, hclosing, rfl⟩

theorem outermost?_within (h : outermost? text = .ok (some (outer, inner))) :
    outer <:+: text ∧ inner <:+: text := by
  obtain ⟨-, -, hnone⟩ | ⟨before, inside, closing, behind, rfl, -, -, hparts⟩ := outermost?_eq_ok h
  · cases hnone
  · split at hparts
    · cases hparts
      have hbefore : before <:+: before ++ '<' :: (inside ++ closing :: behind) :=
        (List.prefix_append _ _).isInfix
      have hinside : inside <:+: before ++ '<' :: (inside ++ closing :: behind) :=
        ⟨before ++ ['<'], closing :: behind, by simp⟩
      exact ⟨(Text.trim_within _).trans hbefore, (Text.trim_within _).trans hinside⟩
    · cases hparts

theorem split_within {separator : Char} {items : List (List Char)}
    (h : split separator text = .ok items) : ∀ item ∈ items, item <:+: text := by
  obtain ⟨pieces, hpieces, rfl⟩ := Option.map_eq_some_iff.mp (split_eq_ok_iff.mp h)
  obtain ⟨rfl, -⟩ := cuts_eq_some hpieces
  refine List.forall_mem_map.mpr fun piece hpiece => ?_
  exact (Text.trim_within piece).trans (Text.infix_intercalate hpiece)

end Nesting

/-- In front of what follows the qualifier of a text there is no bracket. -/
theorem exists_front_of_const (text : List Char) :
    ∃ front, (∀ c ∈ front, Nesting.isBracket c = false) ∧
      text = front ++
        if constQualifier.isPrefixOf text then Text.trimStart (text.drop 6) else text := by
  have hplain : ∀ c ∈ constQualifier, Nesting.isBracket c = false := by
    simp [constQualifier, Nesting.isBracket]
  split
  · next hconst =>
    obtain ⟨rest, rfl⟩ := List.isPrefixOf_iff_prefix.mp hconst
    have hdrop : (constQualifier ++ rest).drop 6 = rest := rfl
    refine ⟨constQualifier ++ rest.takeWhile Text.isBlank, fun c hc => ?_, ?_⟩
    · obtain hc | hc := List.mem_append.mp hc
      · exact hplain c hc
      · exact Nesting.isBracket_of_isBlank (List.mem_takeWhile_imp hc)
    · rw [hdrop, List.append_assoc, Text.trimStart, List.takeWhile_append_dropWhile]
  · exact ⟨[], by simp, rfl⟩

/-- What a token has around its core is no bracket. -/
theorem exists_around_core (token : List Char) :
    ∃ front back, token = front ++ dropQualifiers (Text.trim token) ++ back ∧
      (∀ c ∈ front, Nesting.isBracket c = false) ∧ ∀ c ∈ back, Nesting.isBracket c = false := by
  obtain ⟨front, back, hfront, hback, htoken⟩ := Text.exists_blanks token
  obtain ⟨start, hstart, htext⟩ := exists_front_of_const (Text.trim token)
  rw [dropQualifiers, Text.trim_trim]
  set core := if constQualifier.isPrefixOf (Text.trim token) then
    Text.trimStart ((Text.trim token).drop 6) else Text.trim token
  set isMark : Char → Bool := fun c => c == '*' || c == '&' || c == ' '
  have hcore : Text.dropEndWhile isMark core ++ core.rtakeWhile isMark = core :=
    List.rdropWhile_append_rtakeWhile
  refine ⟨front ++ start, core.rtakeWhile isMark ++ back, ?_, fun c hc => ?_, fun c hc => ?_⟩
  · calc token = front ++ (start ++ core) ++ back := by rw [← htext]; exact htoken
      _ = front ++ (start ++ (Text.dropEndWhile isMark core ++ core.rtakeWhile isMark))
          ++ back := by rw [hcore]
      _ = _ := by simp only [List.append_assoc]
  · obtain hc | hc := List.mem_append.mp hc
    · exact Nesting.isBracket_of_isBlank (hfront c hc)
    · exact hstart c hc
  · obtain hc | hc := List.mem_append.mp hc
    · have hmark : isMark c = true := List.mem_rtakeWhile_imp hc
      simp only [isMark, Bool.or_eq_true, beq_iff_eq] at hmark
      rcases hmark with (rfl | rfl) | rfl <;> rfl
    · exact Nesting.isBracket_of_isBlank (hback c hc)

theorem core_within (token : List Char) : dropQualifiers (Text.trim token) <:+: token := by
  obtain ⟨front, back, htoken, -⟩ := exists_around_core token
  exact ⟨front, back, htoken.symm⟩

/-! ## Forms -/

/-- What a token without qualifiers is. -/
inductive TypeForm
  /-- A name that stands for itself. -/
  | name (name : List Char)
  | smartPointer (inner : List Char)
  | optional (inner : List Char)
  | tuple (pieces : List (List Char))
  | sequence (inner : List Char)

/-- The texts in a form that are mapped in turn. -/
def TypeForm.parts : TypeForm → List (List Char)
  | name _ => []
  | smartPointer inner => [inner]
  | optional inner => [inner]
  | tuple pieces => pieces
  | sequence inner => [inner]

/-- The form of a core. -/
def coreForm (core : List Char) : Except ParseError TypeForm :=
  match Nesting.outermost? core with
  | .error e => .error e
  | .ok none => .ok (.name core)
  | .ok (some (outer, inner)) =>
    match Wrapper.ofName? (String.ofList outer) with
    | none => .ok (.name outer)
    | some .smartPointer => .ok (.smartPointer inner)
    | some .optional => .ok (.optional inner)
    | some .tuple => (Nesting.split ',' inner).map fun pieces => .tuple (pieces.filter (!·.isEmpty))
    | some .container => .ok (.sequence inner)

/-- The form of a token. -/
def tokenForm (token : List Char) : Except ParseError TypeForm :=
  let core := dropQualifiers (Text.trim token)
  if core.isEmpty then .error (.emptyType (String.ofList token)) else coreForm core

/-- What a language makes of a form. -/
def mapForm (l : Language) : TypeForm → Except ParseError MappedType
  | .name name => .ok (mapName l name)
  | .smartPointer inner => mapToken l inner
  | .optional inner => (mapToken l inner).map ({ · with nullable := true })
  | .tuple pieces =>
    (pieces.mapM (mapToken l)).map fun args => { MappedType.named (Vocabulary.tuple l) with args }
  | .sequence inner =>
    if l = .js then
      (mapToken l inner).map fun element =>
        { MappedType.named (Vocabulary.sequence l) with element := some element }
    else .ok (.named (Vocabulary.sequence l))

theorem mapCore_eq_form (l : Language) (core : List Char) :
    mapCore l core = coreForm core >>= mapForm l := by
  rw [mapCore, coreForm]
  cases Nesting.outermost? core with
  | error e => rfl
  | ok cut =>
    cases cut with
    | none => rfl
    | some parts =>
      obtain ⟨outer, inner⟩ := parts
      dsimp only
      cases Wrapper.ofName? (String.ofList outer) with
      | none => rfl
      | some w =>
        cases w with
        | smartPointer => rfl
        | optional => rfl
        | container => rfl
        | tuple =>
          dsimp only
          cases Nesting.split ',' inner <;> rfl

/-- A language maps the form of a token, and C++ displays the token. -/
theorem mapToken_eq_form (l : Language) (token : List Char) :
    mapToken l token =
      tokenForm token >>= fun form => (mapForm l form).map (displayAs l (Text.trim token)) := by
  rw [mapToken_eq, tokenForm]
  dsimp only
  split
  · rfl
  · rw [mapCore_eq_form]
    cases coreForm (dropQualifiers (Text.trim token)) <;> rfl

variable {token core : List Char} {form : TypeForm}

theorem mapToken_of_form (h : tokenForm token = .ok form) (l : Language) :
    mapToken l token = (mapForm l form).map (displayAs l (Text.trim token)) := by
  rw [mapToken_eq_form, h]
  rfl

/-- A token without type arguments that are read is a name. -/
theorem mapToken_of_name {name : List Char} (h : tokenForm token = .ok (.name name))
    (l : Language) : mapToken l token = .ok (displayAs l (Text.trim token) (mapName l name)) :=
  mapToken_of_form h l

/-- What is known of a core with a form. -/
inductive HasForm (core : List Char) : TypeForm → Prop
  | plain (cut : Nesting.outermost? core = .ok none) : HasForm core (.name core)
  | unknown {outer inner : List Char} (cut : Nesting.outermost? core = .ok (some (outer, inner)))
    (wrapper : Wrapper.ofName? (String.ofList outer) = none) : HasForm core (.name outer)
  | smartPointer {outer inner : List Char}
    (cut : Nesting.outermost? core = .ok (some (outer, inner)))
    (wrapper : Wrapper.ofName? (String.ofList outer) = some .smartPointer) :
    HasForm core (.smartPointer inner)
  | optional {outer inner : List Char} (cut : Nesting.outermost? core = .ok (some (outer, inner)))
    (wrapper : Wrapper.ofName? (String.ofList outer) = some .optional) :
    HasForm core (.optional inner)
  | tuple {outer inner : List Char} {pieces : List (List Char)}
    (cut : Nesting.outermost? core = .ok (some (outer, inner)))
    (wrapper : Wrapper.ofName? (String.ofList outer) = some .tuple)
    (items : Nesting.split ',' inner = .ok pieces) :
    HasForm core (.tuple (pieces.filter (!·.isEmpty)))
  | sequence {outer inner : List Char} (cut : Nesting.outermost? core = .ok (some (outer, inner)))
    (wrapper : Wrapper.ofName? (String.ofList outer) = some .container) :
    HasForm core (.sequence inner)

theorem hasForm_of_coreForm (h : coreForm core = .ok form) : HasForm core form := by
  rw [coreForm] at h
  split at h
  · cases h
  · next hcut =>
    cases h
    exact .plain hcut
  · next outer inner hcut =>
    split at h
    · next hwrapper =>
      cases h
      exact .unknown hcut hwrapper
    · next hwrapper =>
      cases h
      exact .smartPointer hcut hwrapper
    · next hwrapper =>
      cases h
      exact .optional hcut hwrapper
    · next hwrapper =>
      obtain ⟨pieces, hpieces, rfl⟩ := map_eq_ok.mp h
      exact .tuple hcut hwrapper hpieces
    · next hwrapper =>
      cases h
      exact .sequence hcut hwrapper

theorem hasForm_of_tokenForm (h : tokenForm token = .ok form) :
    HasForm (dropQualifiers (Text.trim token)) form := by
  rw [tokenForm] at h
  split at h
  · cases h
  · exact hasForm_of_coreForm h

namespace HasForm

theorem exists_cut (h : HasForm core form) : ∃ parts, Nesting.outermost? core = .ok parts := by
  cases h <;> exact ⟨_, ‹_›⟩

theorem name_within {name : List Char} (h : HasForm core (.name name)) : name <:+: core := by
  cases h with
  | plain _ => exact List.infix_refl core
  | unknown cut _ => exact (Nesting.outermost?_within cut).1

theorem parts_within (h : HasForm core form) :
    ∀ part ∈ form.parts, part <:+: core ∧ part.length < core.length := by
  have hinner {outer inner : List Char}
      (cut : Nesting.outermost? core = .ok (some (outer, inner))) :
      inner <:+: core ∧ inner.length < core.length :=
    ⟨(Nesting.outermost?_within cut).2, Nesting.length_inner_lt cut⟩
  cases h with
  | plain _ => simp [TypeForm.parts]
  | unknown _ _ => simp [TypeForm.parts]
  | smartPointer cut _ => simpa [TypeForm.parts] using hinner cut
  | optional cut _ => simpa [TypeForm.parts] using hinner cut
  | sequence cut _ => simpa [TypeForm.parts] using hinner cut
  | tuple cut _ items =>
    intro piece hpiece
    obtain ⟨hwithin, hlength⟩ := hinner cut
    have hmem := List.mem_of_mem_filter hpiece
    have hshort := Nesting.length_split items piece hmem
    exact ⟨(Nesting.split_within items piece hmem).trans hwithin, by omega⟩

end HasForm

theorem tokenForm_name {name : List Char} (h : tokenForm token = .ok (.name name)) :
    name <:+: token :=
  (hasForm_of_tokenForm h).name_within.trans (core_within token)

/-- What is mapped in turn stands in the token and is shorter. -/
theorem tokenForm_parts (h : tokenForm token = .ok form) :
    ∀ part ∈ form.parts, part <:+: token ∧ part.length < token.length := by
  intro part hpart
  obtain ⟨hwithin, hlength⟩ := (hasForm_of_tokenForm h).parts_within part hpart
  have hcore := core_within token
  exact ⟨hwithin.trans hcore, lt_of_lt_of_le hlength hcore.length_le⟩

/-- A token with a word in it that names a sequence. -/
def NamesSequence (token : List Char) : Prop :=
  ∃ word ∈ ["vector", "list", "set"], word.toList <:+: token

theorem NamesSequence.mono {part : List Char} (h : NamesSequence part) (hpart : part <:+: token) :
    NamesSequence token := by
  obtain ⟨word, hword, hwithin⟩ := h
  exact ⟨word, hword, hwithin.trans hpart⟩

/-- The names of sequences have such words in them. -/
theorem namesSequence_of_ofName? {outer : List Char}
    (h : Wrapper.ofName? (String.ofList outer) = some .container) : NamesSequence outer := by
  have hmem : String.ofList outer ∈ ["std::vector", "vector", "std::list", "std::set"] := by
    rw [Wrapper.ofName?] at h
    split at h
    · cases h
    split at h
    · cases h
    split at h
    · cases h
    split at h
    · next hcontains => exact List.contains_iff_mem.mp hcontains
    · cases h
  have houter : outer = (String.ofList outer).toList := String.toList_ofList.symm
  simp only [List.mem_cons, List.not_mem_nil, or_false] at hmem
  rw [houter]
  rcases hmem with h | h | h | h
  · exact h ▸ ⟨"vector", by simp, "std::".toList, [], rfl⟩
  · exact h ▸ ⟨"vector", by simp, List.infix_refl _⟩
  · exact h ▸ ⟨"list", by simp, "std::".toList, [], rfl⟩
  · exact h ▸ ⟨"set", by simp, "std::".toList, [], rfl⟩

/-- The form of a sequence has its name in front of the bracket. -/
theorem namesSequence_of_tokenForm {inner : List Char}
    (h : tokenForm token = .ok (.sequence inner)) : NamesSequence token := by
  cases hasForm_of_tokenForm h with
  | sequence cut wrapper =>
    have houter := (Nesting.outermost?_within cut).1.trans (core_within token)
    exact (namesSequence_of_ofName? wrapper).mono houter

/-- What holds of a token when it holds of the parts of its form holds of all tokens. -/
theorem token_induction {P : List Char → Prop}
    (h : ∀ token, (∀ form, tokenForm token = .ok form → ∀ part ∈ form.parts, P part) → P token)
    (token : List Char) : P token := by
  induction hn : token.length using Nat.strongRecOn generalizing token with
  | ind n ih =>
    refine h token fun form hform part hpart => ?_
    have hlength := (tokenForm_parts hform part hpart).2
    exact ih part.length (by omega) part rfl

end ApiSurface
