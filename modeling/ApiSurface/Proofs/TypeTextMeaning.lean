import ApiSurface.Declaration.TypeText
import ApiSurface.Proofs.TypeReading

/-!
# What the text of a type says

A type has a meaning that does not depend on how it is written (`denoted`): a list of what its
elements mean, a tuple of what its items mean, a replaced name what its replacement says, and one
more alternative where the value may be absent. Its text says something (`written`), and the two are
compared part by part.

They agree unless a name in the text is no name, or the elements of a list are written as a union
without parentheses: `typeText` puts them only around elements that may be absent, not around a
replacement such as `string | number`.
-/

namespace ApiSurface

/-- Induction on a type through the type of its elements and the types in it. -/
theorem MappedType.induct {motive : MappedType → Prop}
    (node : ∀ t : MappedType, (∀ e, t.element = some e → motive e) → (∀ a ∈ t.args, motive a) →
      motive t) : ∀ t : MappedType, motive t
  | ⟨_, _, _, _, _⟩ =>
    node _ (fun e _ => MappedType.induct node e) (fun a _ => MappedType.induct node a)
termination_by t => sizeOf t
decreasing_by
  · next he =>
    obtain rfl : _ = some e := he
    simp +arith
  · next ha =>
    have hlt := List.sizeOf_lt_of_mem ha
    simp only [MappedType.mk.sizeOf_spec] at hlt ⊢
    omega

namespace TypeTextRules

open TypeReading (TypeTerm Union Reads readSplit readType)

/-! ## Meaning -/

/-- How a name is written. -/
inductive Form where
  /-- As the rules say. -/
  | replaced (text : String)
  /-- As one name. -/
  | word (text : String)
  /-- As a list of its elements. -/
  | list
  /-- As a tuple of its items. -/
  | tuple

/-- How a name is written in a position. -/
def form (r : TypeTextRules) (position : TypePosition) (name : String) : Form :=
  match r.replaced? position name with
  | some text => .replaced text
  | none =>
    match nativeText? name with
    | some text => .word text
    | none =>
      if name = "Array" then .list
      else if name = "Tuple" then .tuple
      else .word (Identifier.declaredName name)

/-- The name that is written as this text. -/
def wordTerm (text : String) : TypeTerm :=
  .name text.toList

mutual

/-- What a type means in a position. -/
def denoted (r : TypeTextRules) (position : TypePosition) : MappedType → Union
  | ⟨name, _, nullable, element, args⟩ =>
    let base :=
      match r.form position name with
      | .replaced text => (readType text.toList).getD []
      | .word text => [wordTerm text]
      | .list => [.array (denotedElement r position element)]
      | .tuple => [.tuple (denotedItems r position args)]
    if nullable then base ++ [wordTerm "null"] else base

/-- What the elements of a list mean. -/
def denotedElement (r : TypeTextRules) (position : TypePosition) : Option MappedType → Union
  | none => [wordTerm "any"]
  | some t => denoted r position t

/-- What the items of a tuple mean. -/
def denotedItems (r : TypeTextRules) (position : TypePosition) : List MappedType → List Union
  | [] => []
  | t :: rest => denoted r position t :: denotedItems r position rest

end

/-! ## Text -/

/-- What a text says with `| null` behind it where the value may be absent. -/
def orNull (nullable : Bool) (split : Union × Union) : Union × Union :=
  if nullable then (split.1 ++ split.2, [wordTerm "null"]) else split

mutual

/-- What the text of a type says: the alternatives up to its last `|`, and the operand behind it. -/
def written (r : TypeTextRules) (position : TypePosition) : MappedType → Union × Union
  | ⟨name, _, nullable, element, args⟩ =>
    let base :=
      match r.form position name with
      | .replaced text => (readSplit text.toList).getD ([], [])
      | .word text => ([], [wordTerm text])
      | .list => writtenList r position element
      | .tuple => ([], [.tuple (writtenItems r position args)])
    orNull nullable base

/-- What the text of a list says. Without parentheses, its mark takes the last operand of the
elements alone. -/
def writtenList (r : TypeTextRules) (position : TypePosition) :
    Option MappedType → Union × Union
  | none => ([], [.array [wordTerm "any"]])
  | some t =>
    let element := written r position t
    if t.nullable then ([], [.array (element.1 ++ element.2)])
    else (element.1, [.array element.2])

/-- What the texts of the items of a tuple say. -/
def writtenItems (r : TypeTextRules) (position : TypePosition) : List MappedType → List Union
  | [] => []
  | t :: rest =>
    ((written r position t).1 ++ (written r position t).2) :: writtenItems r position rest

end

theorem denotedItems_eq_map (r : TypeTextRules) (position : TypePosition)
    (ts : List MappedType) : r.denotedItems position ts = ts.map (r.denoted position) := by
  induction ts with
  | nil => rfl
  | cons t ts ih => rw [denotedItems, ih, List.map_cons]

theorem writtenItems_eq_map (r : TypeTextRules) (position : TypePosition)
    (ts : List MappedType) : r.writtenItems position ts =
      ts.map fun t => (r.written position t).1 ++ (r.written position t).2 := by
  induction ts with
  | nil => rfl
  | cons t ts ih => rw [writtenItems, ih, List.map_cons]

theorem typeTexts_eq_map (r : TypeTextRules) (position : TypePosition) (ts : List MappedType) :
    r.typeTexts position ts = ts.map (r.typeText position) := by
  induction ts with
  | nil => rfl
  | cons t ts ih => rw [typeTexts, ih, List.map_cons]

/-- The text of a type by the form of its name. -/
theorem typeText_eq (r : TypeTextRules) (position : TypePosition) (t : MappedType) :
    r.typeText position t =
      let base := match r.form position t.name with
        | .replaced text => text
        | .word text => text
        | .list => r.arrayText position t.element
        | .tuple => "[" ++ ", ".intercalate (t.args.map (r.typeText position)) ++ "]"
      if t.nullable then base ++ " | null" else base := by
  obtain ⟨name, id, nullable, element, args⟩ := t
  rw [typeText, typeTexts_eq_map]
  unfold form
  cases r.replaced? position name with
  | some text => rfl
  | none =>
    cases nativeText? name with
    | some text => rfl
    | none =>
      by_cases harray : name = "Array"
      · simp only [if_pos harray]
      · simp only [if_neg harray]
        by_cases htuple : name = "Tuple"
        · simp only [if_pos htuple]
        · simp only [if_neg htuple]

theorem written_eq (r : TypeTextRules) (position : TypePosition) (t : MappedType) :
    r.written position t =
      let base := match r.form position t.name with
        | .replaced text => (readSplit text.toList).getD ([], [])
        | .word text => ([], [wordTerm text])
        | .list => r.writtenList position t.element
        | .tuple =>
          ([], [.tuple (t.args.map fun a => (r.written position a).1 ++ (r.written position a).2)])
      orNull t.nullable base := by
  obtain ⟨name, id, nullable, element, args⟩ := t
  rw [written, writtenItems_eq_map]

theorem denoted_eq (r : TypeTextRules) (position : TypePosition) (t : MappedType) :
    r.denoted position t =
      let base : Union := match r.form position t.name with
        | .replaced text => (readType text.toList).getD []
        | .word text => [wordTerm text]
        | .list => [.array (r.denotedElement position t.element)]
        | .tuple => [.tuple (t.args.map (r.denoted position))]
      if t.nullable then base ++ [wordTerm "null"] else base := by
  obtain ⟨name, id, nullable, element, args⟩ := t
  rw [denoted, denotedItems_eq_map]

/-! ## Parts -/

section

variable {r : TypeTextRules} {position : TypePosition}

/-- The types whose texts are part of the text of a type. -/
inductive Part (r : TypeTextRules) (position : TypePosition) : MappedType → MappedType → Prop
  | self (t : MappedType) : Part r position t t
  | element {t e s : MappedType} : r.form position t.name = .list → t.element = some e →
      Part r position e s → Part r position t s
  | item {t a s : MappedType} : r.form position t.name = .tuple → a ∈ t.args →
      Part r position a s → Part r position t s

/-- What holds of all parts holds of the type and of all parts of the types it is made of. -/
theorem forall_part {P : MappedType → Prop} {t : MappedType} :
    (∀ s, Part r position t s → P s) ↔
      P t ∧
      (r.form position t.name = .list → ∀ e, t.element = some e → ∀ s, Part r position e s → P s) ∧
      (r.form position t.name = .tuple → ∀ a ∈ t.args, ∀ s, Part r position a s → P s) := by
  constructor
  · intro h
    refine ⟨h t (.self t), ?_, ?_⟩
    · exact fun hform e he s hs => h s (.element hform he hs)
    · exact fun hform a ha s hs => h s (.item hform ha hs)
  · rintro ⟨hself, helement, hitem⟩ s hs
    cases hs with
    | self => exact hself
    | element hform he hs => exact helement hform _ he s hs
    | item hform ha hs => exact hitem hform _ ha s hs

/-- A type that is written as one name is written as a name. -/
def Named (r : TypeTextRules) (position : TypePosition) (t : MappedType) : Prop :=
  ∀ text, r.form position t.name = .word text → Identifier.isName text.toList = true

/-- A name is replaced by a text with a `|` that stands in no bracket. -/
def BareUnion (r : TypeTextRules) (position : TypePosition) (name : String) : Prop :=
  ∃ text split, r.form position name = .replaced text ∧ readSplit text.toList = some split ∧
    split.1 ≠ []

/-- The elements of a list that are written without parentheses are not written as a union. -/
def Guarded (r : TypeTextRules) (position : TypePosition) (t : MappedType) : Prop :=
  r.form position t.name = .list → ∀ e, t.element = some e →
    e.nullable = true ∨ ¬ r.BareUnion position e.name

/-- Every text that the rules put in place of a name is a type. -/
def Readable (r : TypeTextRules) : Prop :=
  ∀ position name text, r.form position name = .replaced text → ∃ alts u, Reads text.toList alts u

/-! ## Reading the text back -/

/-- `| null` is one more alternative. -/
theorem reads_orNull {text : String} {split : Union × Union}
    (h : Reads text.toList split.1 split.2) (nullable : Bool) :
    Reads (if nullable then text ++ " | null" else text).toList (orNull nullable split).1
      (orNull nullable split).2 := by
  cases nullable with
  | false => exact h
  | true =>
    have hname : Identifier.isName "null".toList = true := by decide
    rw [if_pos rfl, String.toList_append]
    exact h.bar_name hname

/-- The text of a list, from the text of its elements. -/
theorem reads_arrayText {element : Option MappedType}
    (h : ∀ e, element = some e →
      Reads (r.typeText position e).toList (r.written position e).1 (r.written position e).2) :
    Reads (r.arrayText position element).toList (r.writtenList position element).1
      (r.writtenList position element).2 := by
  cases element with
  | none =>
    have hname : Identifier.isName "any".toList = true := by decide
    have htext : "any[]".toList = "any".toList ++ ['[', ']'] := by decide
    rw [arrayText, writtenList, htext]
    exact (TypeReading.reads_name hname).suffix
  | some e =>
    rw [arrayText, writtenList]
    by_cases hnull : e.nullable = true
    · simp only [if_pos hnull, String.toList_append]
      have hparens := (h e rfl).parens.suffix
      simpa using hparens
    · simp only [if_neg hnull, String.toList_append]
      exact (h e rfl).suffix

/-- The text of a tuple, from the texts of its items. -/
theorem reads_items {items : List MappedType}
    (h : ∀ a ∈ items,
      Reads (r.typeText position a).toList (r.written position a).1 (r.written position a).2) :
    Reads ('[' :: TypeReading.comma.intercalate
          (items.map fun a => (r.typeText position a).toList) ++ [']'])
      [] [.tuple (items.map fun a => (r.written position a).1 ++ (r.written position a).2)] := by
  have hitems := TypeReading.reads_tuple (List.forall₂_map_right_iff.mpr
    (List.forall₂_map_left_iff.mpr (List.forall₂_same.mpr h)))
  rwa [List.map_map] at hitems

/-- The text of a type whose names are names says what is written in it. -/
theorem reads_typeText (hr : r.Readable) {t : MappedType}
    (h : ∀ s, Part r position t s → r.Named position s) :
    Reads (r.typeText position t).toList (r.written position t).1 (r.written position t).2 := by
  induction t using MappedType.induct with
  | node t ihelement ihitems =>
    obtain ⟨hself, helement, hitems⟩ := forall_part.mp h
    rw [typeText_eq, written_eq]
    refine reads_orNull ?_ t.nullable
    cases hform : r.form position t.name with
    | replaced text =>
      obtain ⟨alts, u, hreads⟩ := hr position t.name text hform
      simp only [hreads.readSplit, Option.getD_some]
      exact hreads
    | word text => exact TypeReading.reads_name (hself text hform)
    | list => exact reads_arrayText fun e he => ihelement e he (helement hform e he)
    | tuple =>
      have hcomma : ", ".toList = TypeReading.comma := by decide
      -- the text is the list of the items between brackets, character by character
      simp only [String.toList_append, String.toList_intercalate, List.map_map, hcomma]
      refine reads_items fun a ha => ?_
      exact ihitems a ha (hitems hform a ha)

/-! ## Where the text says what the type means -/

/-- An alternative for absent values does not matter to whether a text says what is meant. -/
theorem orNull_eq_iff (nullable : Bool) (split : Union × Union) (u : Union) :
    (orNull nullable split).1 ++ (orNull nullable split).2 =
      (if nullable then u ++ [wordTerm "null"] else u) ↔ split.1 ++ split.2 = u := by
  cases nullable with
  | false => exact Iff.rfl
  | true => exact List.append_left_inj _

/-- Elements that are written as a union and stand in no parentheses have alternatives in front of
their last operand. -/
theorem written_front_ne_nil {e : MappedType} (hnull : ¬ e.nullable = true)
    (h : r.BareUnion position e.name) : (r.written position e).1 ≠ [] := by
  obtain ⟨text, split, hform, hsplit, hfront⟩ := h
  rw [written_eq, orNull]
  simpa only [hform, if_neg hnull, hsplit, Option.getD_some] using hfront

/-- All other elements are one operand. -/
theorem written_front_eq_nil (hr : r.Readable) {e : MappedType} (hnull : ¬ e.nullable = true)
    (hbare : ¬ r.BareUnion position e.name)
    (hguarded : ∀ s, Part r position e s → r.Guarded position s) :
    (r.written position e).1 = [] := by
  induction e using MappedType.induct with
  | node e ihelement _ =>
    obtain ⟨hself, helement, -⟩ := forall_part.mp hguarded
    rw [written_eq, orNull]
    simp only [if_neg hnull]
    cases hform : r.form position e.name with
    | replaced text =>
      obtain ⟨alts, u, hreads⟩ := hr position e.name text hform
      by_contra hfront
      refine hbare ⟨text, (alts, u), hform, hreads.readSplit, ?_⟩
      simpa only [hreads.readSplit, Option.getD_some] using hfront
    | word text => rfl
    | tuple => rfl
    | list =>
      cases he : e.element with
      | none => rfl
      | some e' =>
        simp only [writtenList]
        by_cases hnull' : e'.nullable = true
        · rw [if_pos hnull']
        · rw [if_neg hnull']
          have hbare' := (hself hform e' he).resolve_left hnull'
          exact ihelement e' he hnull' hbare' (helement hform e' he)

/-- The text of a list says what the list means exactly if its elements do and are one operand. -/
theorem writtenList_eq_iff (hr : r.Readable) {e : MappedType}
    (ih : (r.written position e).1 ++ (r.written position e).2 = r.denoted position e ↔
      ∀ s, Part r position e s → r.Guarded position s) :
    (r.writtenList position (some e)).1 ++ (r.writtenList position (some e)).2 =
        [.array (r.denoted position e)] ↔
      (e.nullable = true ∨ ¬ r.BareUnion position e.name) ∧
        ∀ s, Part r position e s → r.Guarded position s := by
  rw [writtenList, ← ih]
  by_cases hnull : e.nullable = true
  · simp [hnull]
  · simp only [if_neg hnull]
    constructor
    · intro heq
      -- the mark takes the last operand alone, so a second alternative would be outside the list
      have hfront : (r.written position e).1 = [] := by
        cases hfront : (r.written position e).1 with
        | nil => rfl
        | cons term terms => simp [hfront] at heq
      rw [hfront] at heq ⊢
      refine ⟨.inr fun hbare => written_front_ne_nil hnull hbare hfront, ?_⟩
      simpa using heq
    · rintro ⟨hbare, heq⟩
      have hfront := written_front_eq_nil hr hnull (hbare.resolve_left hnull) (ih.mp heq)
      rw [hfront, List.nil_append] at heq ⊢
      rw [heq]

/-- The text says what the type means exactly if no elements of a list are a bare union. -/
theorem written_eq_denoted_iff (hr : r.Readable) (t : MappedType) :
    (r.written position t).1 ++ (r.written position t).2 = r.denoted position t ↔
      ∀ s, Part r position t s → r.Guarded position s := by
  induction t using MappedType.induct with
  | node t ihelement ihitems =>
    have hself : r.Guarded position t ↔ (r.form position t.name = .list → ∀ e, t.element = some e →
      e.nullable = true ∨ ¬ r.BareUnion position e.name) := Iff.rfl
    rw [written_eq, denoted_eq, forall_part, hself]
    refine (orNull_eq_iff t.nullable _ _).trans ?_
    -- only in a list can what is written and what is meant differ
    cases hform : r.form position t.name with
    | replaced text =>
      obtain ⟨alts, u, hreads⟩ := hr position t.name text hform
      simp [hreads.readSplit, hreads.readType]
    | word text => simp
    | tuple =>
      simp only [List.nil_append, List.cons.injEq, and_true, TypeTerm.tuple.injEq,
        List.map_inj_left, reduceCtorEq, false_implies, true_and, true_implies]
      exact forall₂_congr ihitems
    | list =>
      cases he : t.element with
      | none => simp [writtenList, denotedElement]
      | some e =>
        simp only [denotedElement, reduceCtorEq, false_implies, and_true, true_implies,
          Option.some.injEq, forall_eq']
        exact writtenList_eq_iff hr (ihelement e he)

/-- An alternative for absent values leaves the other alternatives. -/
theorem plain_of_nullable {nullable : Bool} {u : Union}
    (h : ∀ x ∈ if nullable then u ++ [wordTerm "null"] else u, TypeReading.Plain x) :
    ∀ x ∈ u, TypeReading.Plain x := by
  cases nullable with
  | false => exact h
  | true => exact fun x hx => h x (List.mem_append_left _ hx)

/-- A meaning that can be read off a text names only names. -/
theorem named_of_plain {t : MappedType} (h : ∀ x ∈ r.denoted position t, TypeReading.Plain x) :
    ∀ s, Part r position t s → r.Named position s := by
  induction t using MappedType.induct with
  | node t ihelement ihitems =>
    rw [denoted_eq] at h
    rw [forall_part]
    have hbase := plain_of_nullable h
    refine ⟨?_, ?_, ?_⟩
    · intro text hform
      simp only [hform, List.forall_mem_singleton] at hbase
      cases hbase with
      | name hname => exact hname
    · intro hform e he
      simp only [hform, he, List.forall_mem_singleton] at hbase
      cases hbase with
      | array helement => exact ihelement e he helement
    · intro hform a ha
      simp only [hform, List.forall_mem_singleton] at hbase
      cases hbase with
      | tuple hitems => exact ihitems a ha (hitems _ (List.mem_map_of_mem ha))

/-- The text of a type reads as its meaning exactly if each name in it is a name and each list in it
is guarded. -/
theorem readType_typeText_iff_parts (hr : r.Readable) (t : MappedType) :
    readType (r.typeText position t).toList = some (r.denoted position t) ↔
      ∀ s, Part r position t s → r.Named position s ∧ r.Guarded position s := by
  constructor
  · intro hread
    -- what is read names only names, so the text says what is written in it
    have hnamed := named_of_plain (TypeReading.plain_of_readType hread)
    have hwritten := (reads_typeText hr hnamed).readType
    rw [hread, Option.some.injEq] at hwritten
    have hguarded := (written_eq_denoted_iff hr t).mp hwritten.symm
    exact fun s hs => ⟨hnamed s hs, hguarded s hs⟩
  · intro h
    rw [(reads_typeText hr fun s hs => (h s hs).1).readType]
    rw [(written_eq_denoted_iff hr t).mpr fun s hs => (h s hs).2]

end

/-! ## The rules without settings -/

/-- What the rules put in place of a name when no settings change them. -/
theorem replaced?_default (position : TypePosition) (name : String) :
    replaced? {} position name =
      if name = "Color" then
        some (match position with
          | .input => "string | number"
          | .output => "number")
      else if name = "Accelerator" ∨ name = "KeyboardCode" then some "string" else none := by
  by_cases hcolor : name = "Color"
  · subst hcolor
    cases position <;> rfl
  · have hlookup : (replacements {} position).lookup name = none := by
      cases position <;> simp [replacements, beq_eq_false_iff_ne.mpr hcolor]
    rw [replaced?, hlookup, if_neg hcolor]
    simp

/-- A form is a replacement exactly if the rules replace the name. -/
theorem form_eq_replaced_iff {r : TypeTextRules} {position : TypePosition} {name text : String} :
    r.form position name = .replaced text ↔ r.replaced? position name = some text := by
  unfold form
  cases r.replaced? position name with
  | some text' => simp
  | none =>
    simp only [reduceCtorEq, iff_false]
    split
    · simp
    · split
      · simp
      · split <;> simp

/-- A text without `|`. -/
theorem reads_default_word {text : String} (h : text = "string" ∨ text = "number") :
    Reads text.toList [] [wordTerm text] := by
  refine TypeReading.reads_name ?_
  rcases h with rfl | rfl <;> decide

/-- The text of a color that is taken. -/
theorem reads_default_color :
    Reads "string | number".toList [wordTerm "string"] [wordTerm "number"] := by
  have hname : Identifier.isName "number".toList = true := by decide
  exact (reads_default_word (.inl rfl)).bar_name hname

/-- What the rules put in place of a name is a type, and a bare union for colors that are taken. -/
theorem reads_default {position : TypePosition} {name text : String}
    (h : form {} position name = .replaced text) :
    (position = .input ∧ name = "Color" ∧
        Reads text.toList [wordTerm "string"] [wordTerm "number"]) ∨
      (¬ (position = .input ∧ name = "Color") ∧ Reads text.toList [] [wordTerm text]) := by
  rw [form_eq_replaced_iff, replaced?_default] at h
  split at h
  · next hcolor =>
    subst hcolor
    cases position with
    | input =>
      cases h
      exact .inl ⟨rfl, rfl, reads_default_color⟩
    | output =>
      cases h
      exact .inr ⟨by simp, reads_default_word (.inr rfl)⟩
  · next hcolor =>
    split at h
    · cases h
      exact .inr ⟨fun hc => hcolor hc.2, reads_default_word (.inl rfl)⟩
    · cases h

theorem readable_default : Readable {} := by
  intro position name text h
  obtain ⟨-, -, hreads⟩ | ⟨-, hreads⟩ := reads_default h
  · exact ⟨_, _, hreads⟩
  · exact ⟨_, _, hreads⟩

/-- Only colors that are taken are written as a bare union. -/
theorem bareUnion_default_iff {position : TypePosition} {name : String} :
    BareUnion {} position name ↔ position = .input ∧ name = "Color" := by
  constructor
  · rintro ⟨text, split, hform, hsplit, hfront⟩
    obtain ⟨hposition, hname, -⟩ | ⟨-, hreads⟩ := reads_default hform
    · exact ⟨hposition, hname⟩
    · rw [hreads.readSplit] at hsplit
      cases hsplit
      exact absurd rfl hfront
  · rintro ⟨rfl, rfl⟩
    have hform : form {} .input "Color" = .replaced "string | number" := by
      rw [form_eq_replaced_iff, replaced?_default]
      rfl
    exact ⟨_, _, hform, reads_default_color.readSplit, List.cons_ne_nil _ _⟩

/-- Without settings, the text of a type reads as its meaning exactly if what is written as one name
is a name, and no list has elements that are colors which are taken and never absent. -/
theorem readType_typeText_iff (position : TypePosition) (t : MappedType) :
    readType (typeText {} position t).toList = some (denoted {} position t) ↔
      ∀ s, Part {} position t s →
        (∀ text, form {} position s.name = .word text → Identifier.isName text.toList = true) ∧
        (form {} position s.name = .list → ∀ e, s.element = some e →
          e.nullable = true ∨ ¬ (position = .input ∧ e.name = "Color")) := by
  rw [readType_typeText_iff_parts readable_default]
  refine forall₂_congr fun s _ => and_congr Iff.rfl ?_
  -- the rules without settings leave one bare union to be guarded
  refine forall₃_congr fun _ e _ => or_congr Iff.rfl ?_
  rw [bareUnion_default_iff]

/-- The text of a list of colors that are taken is read as a union with a list in it. -/
theorem readType_typeText_colors :
    ∃ t, MappedType.ofToken .js "std::vector<Color>" = .ok t ∧
      readType (typeText {} .input t).toList =
        some [wordTerm "string", .array [wordTerm "number"]] ∧
      denoted {} .input t = [.array [wordTerm "string", wordTerm "number"]] ∧
      readType (typeText {} .input t).toList ≠ some (denoted {} .input t) := by
  have hcut : Nesting.outermost? (dropQualifiers (Text.trim "std::vector<Color>".toList)) =
      .ok (some ("std::vector".toList, "Color".toList)) := rfl
  have hcolor : Nesting.outermost? (dropQualifiers (Text.trim "Color".toList)) = .ok none := rfl
  have helement : mapToken .js "Color".toList = .ok (.linked "Color".toList) := by
    rw [mapToken_eq]
    simp only [mapCore, hcolor]
    rfl
  have hread : readType "string | number[]".toList =
      some [wordTerm "string", .array [wordTerm "number"]] :=
    reads_default_color.suffix.readType
  have hmeaning : denoted {} .input
      { name := "Array", element := some (.linked "Color".toList) } =
      [.array [wordTerm "string", wordTerm "number"]] := rfl
  refine ⟨{ name := "Array", element := some (.linked "Color".toList) }, ?_, hread, hmeaning, ?_⟩
  · rw [MappedType.ofToken, mapToken_eq]
    simp only [mapCore, hcut, helement]
    rfl
  · rw [hmeaning]
    intro heq
    cases hread.symm.trans heq

end TypeTextRules

end ApiSurface
