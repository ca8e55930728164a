import ApiSurface.Identifier
import ApiSurface.Nesting
import ApiSurface.Vocabulary

/-!
# Types mapped to a language

A canonical type is a token such as `const std::vector<View*>&`. Mapping it to a language drops the
qualifiers, sees through the wrappers of `Wrapper` and looks the remaining name up in the
vocabulary; a name that is not built in becomes a type that can be linked to. C++ displays the whole
token whatever it maps to.

Only JavaScript asks what the elements of a sequence are, so only there is a fault inside a sequence
noticed.

The recursion of `mapToken` runs on texts that grow shorter; the lemmas before it say so for the
cuts it uses.
-/

namespace ApiSurface

/-- A canonical type as seen from one language. -/
structure MappedType where
  /-- The name to display. -/
  name : String
  /-- The id to link to, for a type that is not built in. -/
  id : Option String := none
  /-- Whether the value may be absent. -/
  nullable : Bool := false
  /-- The type of the elements of a sequence, where the language asks for it. -/
  element : Option MappedType := none
  /-- The types in a tuple. -/
  args : List MappedType := []

namespace MappedType

/-- A type with only a name. -/
def named (name : String) : MappedType :=
  { name }

/-- A type that is documented on a page of its own. -/
def linked (name : List Char) : MappedType :=
  { name := String.ofList name, id := some (String.ofList (Identifier.typeId name)) }

end MappedType

/-- The qualifier that a canonical type may begin with. -/
def constQualifier : List Char := ['c', 'o', 'n', 's', 't', ' ']

/-- A type token without blanks around it, one leading `const` and the run of `*`, `&` and spaces it
ends with. -/
def dropQualifiers (token : List Char) : List Char :=
  let text := Text.trim token
  let core := if constQualifier.isPrefixOf text then Text.trimStart (text.drop 6) else text
  Text.dropEndWhile (fun c => c == '*' || c == '&' || c == ' ') core

/-- A name without type arguments: its native name, itself where it is built in, or a link. -/
def mapName (l : Language) (name : List Char) : MappedType :=
  let canonical := String.ofList name
  match Vocabulary.native? canonical l with
  | some native => .named native
  | none => if Vocabulary.contains canonical l then .named canonical else .linked name

/-- In C++ a type is displayed as it was written. -/
def displayAs (l : Language) (written : List Char) (t : MappedType) : MappedType :=
  if l = .cpp then { t with name := String.ofList written } else t

/-! ## Cuts make texts shorter -/

theorem length_dropQualifiers_le (token : List Char) :
    (dropQualifiers token).length ≤ token.length := by
  refine Nat.le_trans (Text.length_dropEndWhile_le _ _) ?_
  have h := Text.length_trim_le token
  split
  · exact Nat.le_trans (Text.length_dropWhile_le _ _) (by rw [List.length_drop]; omega)
  · exact h

namespace Nesting

theorem length_closeFrom {d : Depth} {position : Nat} {text before after : List Char}
    (h : closeFrom d position text = .ok (before, after)) :
    before.length + after.length = text.length := by
  induction text generalizing d position before after with
  | nil => simp [closeFrom] at h
  | cons c rest ih =>
    simp only [closeFrom] at h
    split at h
    · simp at h
    · split at h
      · cases h; simp
      · next d' _ _ =>
        cases hr : closeFrom d' (position + c.utf8Size) rest with
        | error e => simp [hr, Except.map] at h
        | ok r =>
          simp only [hr, Except.map, Except.ok.injEq, Prod.mk.injEq] at h
          have := ih hr
          rw [← h.1, ← h.2]
          simp only [List.length_cons]
          omega

theorem length_inner_lt {text outer inner : List Char}
    (h : outermost? text = .ok (some (outer, inner))) : inner.length < text.length := by
  unfold outermost? at h
  split at h
  · split at h <;> simp at h
  · next opened c rest hopened =>
    have hlen := Text.length_dropWhile_le (· != '<') text
    rw [hopened] at hlen
    unfold enclosed at h
    cases hr : closeFrom {} (Text.byteLength (text.takeWhile (· != '<'))) (c :: rest) with
    | error e => simp [hr, Except.map] at h
    | ok r =>
      obtain ⟨before, after⟩ := r
      simp only [hr, inText_ok, Except.map, Except.ok.injEq] at h
      have hb := length_closeFrom hr
      split at h
      · simp only [Option.some.injEq, Prod.mk.injEq] at h
        have ht := Text.length_trim_le (before.drop 1)
        rw [← h.2]
        simp only [List.length_cons] at hb hlen
        rw [List.length_drop] at ht
        omega
      · simp at h

theorem length_splitFrom {separator : Char} {d : Depth} {position : Nat} {text : List Char}
    {pieces : List (List Char)} (h : splitFrom separator d position text = .ok pieces) :
    ∀ piece ∈ pieces, piece.length ≤ text.length := by
  induction text generalizing d position pieces with
  | nil =>
    simp only [splitFrom] at h
    split at h
    · cases h; simp
    · simp at h
  | cons c rest ih =>
    simp only [splitFrom] at h
    split at h
    · cases hr : splitFrom separator d (position + c.utf8Size) rest with
      | error e => simp [hr, Except.map] at h
      | ok r =>
        simp only [hr, Except.map, Except.ok.injEq] at h
        subst h
        intro piece hp
        rcases List.mem_cons.mp hp with rfl | hp
        · simp
        · exact Nat.le_succ_of_le (ih hr piece hp)
    · split at h
      · simp at h
      · next d' _ =>
        cases hr : splitFrom separator d' (position + c.utf8Size) rest with
        | error e => simp [hr, Except.map] at h
        | ok r =>
          simp only [hr, Except.map, Except.ok.injEq] at h
          subst h
          intro piece hp
          cases r with
          | nil => simp_all
          | cons first more =>
            rcases List.mem_cons.mp hp with rfl | hp
            · simpa using ih hr first (by simp)
            · exact Nat.le_succ_of_le (ih hr piece (by simp [hp]))

theorem length_split {separator : Char} {text : List Char} {pieces : List (List Char)}
    (h : split separator text = .ok pieces) : ∀ piece ∈ pieces, piece.length ≤ text.length := by
  unfold split at h
  cases hr : splitFrom separator {} 0 text with
  | error e => simp [hr, Except.map] at h
  | ok r =>
    simp only [hr, inText_ok, Except.map, Except.ok.injEq] at h
    subst h
    intro piece hp
    obtain ⟨raw, hraw, rfl⟩ := List.mem_map.mp hp
    exact Nat.le_trans (Text.length_trim_le raw) (length_splitFrom hr raw hraw)

end Nesting

/-! ## The mapping -/

/-- Maps a canonical type to a language. -/
def mapToken (l : Language) (token : List Char) : Except ParseError MappedType :=
  let written := Text.trim token
  let core := dropQualifiers written
  if core.isEmpty then .error (.emptyType (String.ofList token))
  else Except.map (displayAs l written) <|
    match _hcut : Nesting.outermost? core with
    | .error e => .error e
    | .ok none => .ok (mapName l core)
    | .ok (some (outer, inner)) =>
      match Wrapper.ofName? (String.ofList outer) with
      | none => .ok (mapName l outer)
      | some .smartPointer => mapToken l inner
      | some .optional => (mapToken l inner).map ({ · with nullable := true })
      | some .tuple =>
        match _hpieces : Nesting.split ',' inner with
        | .error e => .error e
        | .ok pieces =>
          Except.map (fun args => { MappedType.named (Vocabulary.tuple l) with args }) <|
            (pieces.filter (!·.isEmpty)).attach.mapM fun ⟨piece, _⟩ => mapToken l piece
      | some .container =>
        if l = .js then
          (mapToken l inner).map fun element =>
            { MappedType.named (Vocabulary.sequence l) with element := some element }
        else .ok (.named (Vocabulary.sequence l))
termination_by token.length
decreasing_by
  all_goals
    have hinner := Nesting.length_inner_lt _hcut
    have hcore : core.length ≤ token.length :=
      Nat.le_trans (length_dropQualifiers_le _) (Text.length_trim_le token)
  · omega
  · omega
  · next hpiece =>
    have := Nesting.length_split _hpieces piece (List.mem_filter.mp hpiece).1
    omega
  · omega

/-- What a token without qualifiers maps to, before it is displayed as it was written. -/
def mapCore (l : Language) (core : List Char) : Except ParseError MappedType :=
  match Nesting.outermost? core with
  | .error e => .error e
  | .ok none => .ok (mapName l core)
  | .ok (some (outer, inner)) =>
    match Wrapper.ofName? (String.ofList outer) with
    | none => .ok (mapName l outer)
    | some .smartPointer => mapToken l inner
    | some .optional => (mapToken l inner).map ({ · with nullable := true })
    | some .tuple =>
      match Nesting.split ',' inner with
      | .error e => .error e
      | .ok pieces =>
        Except.map (fun args => { MappedType.named (Vocabulary.tuple l) with args }) <|
          (pieces.filter (!·.isEmpty)).mapM (mapToken l)
    | some .container =>
      if l = .js then
        (mapToken l inner).map fun element =>
          { MappedType.named (Vocabulary.sequence l) with element := some element }
      else .ok (.named (Vocabulary.sequence l))

/-- The recursion of `mapToken` without the facts that let it end. -/
theorem mapToken_eq (l : Language) (token : List Char) :
    mapToken l token =
      let core := dropQualifiers (Text.trim token)
      if core.isEmpty then .error (.emptyType (String.ofList token))
      else (mapCore l core).map (displayAs l (Text.trim token)) := by
  rw [mapToken]
  refine ite_congr rfl (fun _ => rfl) fun _ => congrArg _ ?_
  unfold mapCore
  split
  · next hcut => rw [hcut]
  · next hcut => rw [hcut]
  · next outer inner hcut =>
    simp only [hcut]
    cases Wrapper.ofName? (String.ofList outer) with
    | none => rfl
    | some w =>
      cases w with
      | smartPointer => rfl
      | optional => rfl
      | container => rfl
      | tuple =>
        simp only []
        split
        · next hpieces => rw [hpieces]
        · next hpieces =>
          rw [hpieces]
          refine congrArg _ ?_
          simp

/-- The mapping on strings. -/
def MappedType.ofToken (l : Language) (token : String) : Except ParseError MappedType :=
  mapToken l token.toList

end ApiSurface
