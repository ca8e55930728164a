import ApiSurface.MappedType
import ApiSurface.Proofs.NestedText

/-!
# Canonical types and their text

A canonical type is a scoped name by itself or a name applied to something in angle brackets, with
qualifiers around it. What a name is applied to depends on what the name wraps: one type, a list of
types, or any text with properly nested brackets. The text of a type may have spaces in front of a
type and behind it, and so around commas and inside brackets, and in front of a bracket.

Whatever the type, dropping its qualifiers leaves its core (`dropQualifiers_text`), and the text is
balanced with no comma at its top (`balanced_text`).
-/

namespace ApiSurface

/-- Whether a character belongs to a scoped name. -/
def isNameChar (c : Char) : Bool :=
  Text.isAlphanumeric c || c == '_' || c == ':'

/-- The word that a name may not be. -/
def constWord : List Char := ['c', 'o', 'n', 's', 't']

/-- What stands between the parts of a scoped name. -/
def scopeSeparator : List Char := [':', ':']

/-- A name with its scopes, as in `Font::Weight`. -/
structure ScopedName where
  parts : List (List Char)
  nonempty : parts ≠ []
  names : ∀ part ∈ parts, Identifier.isName part = true
  notConst : parts ≠ [constWord]

def ScopedName.text (n : ScopedName) : List Char :=
  scopeSeparator.intercalate n.parts

/-- What may follow a type. -/
inductive Mark where
  | pointer
  | reference
  | space

def Mark.char : Mark → Char
  | .pointer => '*'
  | .reference => '&'
  | .space => ' '

def spaces (n : Nat) : List Char :=
  List.replicate n ' '

/-- What stands around the core of a type. -/
structure Qualifiers where
  /-- The number of spaces in front. -/
  lead : Nat := 0
  isConst : Bool := false
  marks : List Mark := []

/-- A name in front of an angle bracket, and what it wraps. -/
structure Head (wraps : Option Wrapper) where
  name : ScopedName
  /-- The number of spaces in front of the bracket. -/
  gap : Nat := 0
  ofName?_eq : Wrapper.ofName? (String.ofList name.text) = wraps

/-- A canonical type. -/
inductive TypeExpr where
  | name (q : Qualifiers) (name : ScopedName)
  | smartPointer (q : Qualifiers) (head : Head (some .smartPointer)) (inner : TypeExpr)
  | optional (q : Qualifiers) (head : Head (some .optional)) (inner : TypeExpr)
  /-- Types with commas between them, and spaces in front of them all. -/
  | tuple (q : Qualifiers) (head : Head (some .tuple)) (lead : Nat) (items : List TypeExpr)
  | container (q : Qualifiers) (head : Head (some .container)) (inner : TypeExpr)
  /-- A name that wraps nothing, applied to any properly nested text. -/
  | other (q : Qualifiers) (head : Head none) (inside : List Char)
      (balanced : Nesting.Balanced (fun _ => true) inside)

/-! ## Text -/

/-- What stands between the spaces in front of a type and its core. -/
def Qualifiers.front (q : Qualifiers) : List Char :=
  if q.isConst then constQualifier else []

def Qualifiers.around (q : Qualifiers) (core : List Char) : List Char :=
  spaces q.lead ++ (q.front ++ core ++ q.marks.map Mark.char)

def Head.applied {wraps : Option Wrapper} (h : Head wraps) (inside : List Char) : List Char :=
  (h.name.text ++ spaces h.gap) ++ '<' :: (inside ++ ['>'])

namespace TypeExpr

def qualifiers : TypeExpr → Qualifiers
  | name q _ => q
  | smartPointer q _ _ => q
  | optional q _ _ => q
  | tuple q _ _ _ => q
  | container q _ _ => q
  | other q _ _ _ => q

mutual

/-- The text of a type without its qualifiers. -/
def core : TypeExpr → List Char
  | name _ n => n.text
  | smartPointer _ h inner => h.applied (inner.qualifiers.around inner.core)
  | optional _ h inner => h.applied (inner.qualifiers.around inner.core)
  | tuple _ h lead items => h.applied (spaces lead ++ [','].intercalate (texts items))
  | container _ h inner => h.applied (inner.qualifiers.around inner.core)
  | other _ h inside _ => h.applied inside

/-- The texts of types. -/
def texts : List TypeExpr → List (List Char)
  | [] => []
  | e :: rest => e.qualifiers.around e.core :: texts rest

end

/-- The text of a type. -/
def text (e : TypeExpr) : List Char :=
  e.qualifiers.around e.core

theorem texts_eq_map (items : List TypeExpr) : texts items = items.map text := by
  induction items with
  | nil => rfl
  | cons e items ih => rw [texts, ih, List.map_cons, text]

/-- The types inside a type. -/
def inside : TypeExpr → List TypeExpr
  | name _ _ => []
  | smartPointer _ _ inner => [inner]
  | optional _ _ inner => [inner]
  | tuple _ _ _ items => items
  | container _ _ inner => [inner]
  | other _ _ _ _ => []

/-- Induction on a type through the types inside it. -/
theorem induct {motive : TypeExpr → Prop} (node : ∀ e, (∀ i ∈ e.inside, motive i) → motive e)
    (e : TypeExpr) : motive e :=
  node e fun i _ => induct node i
termination_by sizeOf e
decreasing_by
  next hi =>
    cases e <;> simp only [inside, List.mem_singleton, List.not_mem_nil] at hi
    · subst hi; simp +arith
    · subst hi; simp +arith
    · have := List.sizeOf_lt_of_mem hi
      simp only [tuple.sizeOf_spec]
      omega
    · subst hi; simp +arith

end TypeExpr

/-! ## Characters -/

/-- The marks that may follow a type, as characters. -/
def isMark (c : Char) : Bool :=
  c == '*' || c == '&' || c == ' '

theorem isMark_char (m : Mark) : isMark m.char = true := by
  cases m <;> decide

theorem isBlank_of_isNameChar {c : Char} (h : isNameChar c = true) : Text.isBlank c = false := by
  simp only [isNameChar, Bool.or_eq_true, beq_iff_eq] at h
  rcases h with (h | rfl) | rfl
  · exact Text.isBlank_of_isAlphanumeric h
  · decide
  · decide

/-- No character of a name says how a type is read. -/
theorem not_mem_of_isNameChar {c : Char} (h : isNameChar c = true) :
    c ∉ ['*', '&', ' ', '<', '>', '(', ')', ','] := by
  have hmarks : ['*', '&', ' ', '<', '>', '(', ')', ','].all (!isNameChar ·) = true := by decide
  intro hmem
  have hc := List.all_eq_true.mp hmarks c hmem
  simp [h] at hc

theorem isMark_of_isNameChar {c : Char} (h : isNameChar c = true) : isMark c = false := by
  have hc := not_mem_of_isNameChar h
  simp_all [isMark]

theorem isNameChar_of_isMark {c : Char} (h : isMark c = true) : isNameChar c = false := by
  by_contra hname
  cases h.symm.trans (isMark_of_isNameChar (by simpa using hname))

theorem isBracket_of_isNameChar {c : Char} (h : isNameChar c = true) :
    Nesting.isBracket c = false := by
  have hc := not_mem_of_isNameChar h
  simp_all [Nesting.isBracket]

/-- What is joined is made of the separator and what it joins. -/
theorem mem_intercalate {separator : List Char} {texts : List (List Char)} {c : Char}
    (h : c ∈ separator.intercalate texts) : c ∈ separator ∨ ∃ text ∈ texts, c ∈ text := by
  induction texts with
  | nil => exact absurd h List.not_mem_nil
  | cons text texts ih =>
    cases texts with
    | nil =>
      rw [List.intercalate_singleton] at h
      exact .inr ⟨text, List.mem_singleton_self text, h⟩
    | cons text' texts =>
      rw [List.intercalate_cons_cons, List.append_assoc, List.mem_append, List.mem_append] at h
      rcases h with h | h | h
      · exact .inr ⟨text, List.mem_cons_self, h⟩
      · exact .inl h
      · refine (ih h).imp_right ?_
        exact fun ⟨text'', hmem, hc⟩ => ⟨text'', List.mem_cons_of_mem _ hmem, hc⟩

/-- A joined text is at least its first part. -/
theorem intercalate_ne_nil {separator text : List Char} {texts : List (List Char)}
    (h : text ≠ []) : separator.intercalate (text :: texts) ≠ [] := by
  intro hempty
  have hwithin : text <:+: separator.intercalate (text :: texts) :=
    Text.infix_intercalate List.mem_cons_self
  rw [hempty] at hwithin
  exact h (List.infix_nil.mp hwithin)

/-! ## Names -/

namespace ScopedName

variable (n : ScopedName)

theorem isNameChar_of_mem {c : Char} (h : c ∈ n.text) : isNameChar c = true := by
  rcases mem_intercalate h with h | ⟨part, hpart, hc⟩
  · obtain rfl : c = ':' := by simpa [scopeSeparator] using h
    decide
  · have hname := n.names part hpart
    simp only [Identifier.isName, Bool.and_eq_true, List.all_eq_true] at hname
    have hall := hname.2 c hc
    simp only [isNameChar, hall, Bool.true_or]

theorem text_ne_nil : n.text ≠ [] := by
  obtain ⟨part, parts, hparts⟩ := List.exists_cons_of_ne_nil n.nonempty
  have hname := n.names part (hparts ▸ List.mem_cons_self)
  have hpart : part ≠ [] := by
    rintro rfl
    cases hname
  rw [text, hparts]
  exact intercalate_ne_nil hpart

theorem text_ne_const : n.text ≠ constWord := by
  obtain ⟨part, parts, hparts⟩ := List.exists_cons_of_ne_nil n.nonempty
  intro h
  rw [text, hparts] at h
  cases parts with
  | nil =>
    rw [List.intercalate_singleton] at h
    exact n.notConst (by rw [hparts, h])
  | cons part' parts =>
    -- there is a separator in the text, but not in the word
    have hcolon : ':' ∈ constWord := by
      rw [← h, List.intercalate_cons_cons]
      simp [scopeSeparator]
    revert hcolon
    decide

end ScopedName

/-! ## Cores -/

/-- What can stand between qualifiers. -/
structure IsCore (core : List Char) : Prop where
  head : ∀ c ∈ core.head?, Text.isBlank c = false
  last : ∃ front c, core = front ++ [c] ∧ Text.isBlank c = false ∧ isMark c = false
  notConst : core.takeWhile isNameChar ≠ constWord

theorem IsCore.tight {core : List Char} (h : IsCore core) : Text.Tight core := by
  obtain ⟨front, c, hcore, hblank, -⟩ := h.last
  refine ⟨h.head, fun d hd => ?_⟩
  obtain rfl : c = d := by simpa [hcore] using hd
  exact hblank

theorem ScopedName.isCore (n : ScopedName) : IsCore n.text := by
  refine ⟨?_, ?_, ?_⟩
  · intro c hc
    exact isBlank_of_isNameChar (n.isNameChar_of_mem (List.mem_of_head? hc))
  · have hlast := n.isNameChar_of_mem (List.getLast_mem n.text_ne_nil)
    exact ⟨n.text.dropLast, n.text.getLast n.text_ne_nil,
      (List.dropLast_append_getLast n.text_ne_nil).symm, isBlank_of_isNameChar hlast,
      isMark_of_isNameChar hlast⟩
  · rw [List.takeWhile_eq_self_iff.mpr fun c hc => n.isNameChar_of_mem hc]
    exact n.text_ne_const

theorem Head.isCore {wraps : Option Wrapper} (h : Head wraps) (inside : List Char) :
    IsCore (h.applied inside) := by
  obtain ⟨c, rest, htext⟩ := List.exists_cons_of_ne_nil h.name.text_ne_nil
  refine ⟨?_, ?_, ?_⟩
  · have hc := h.name.isNameChar_of_mem (htext ▸ List.mem_cons_self)
    rw [applied, htext]
    simpa using isBlank_of_isNameChar hc
  · have hconcat : h.applied inside = h.name.text ++ spaces h.gap ++ '<' :: inside ++ ['>'] := by
      simp [applied]
    exact ⟨_, '>', hconcat, by decide, by decide⟩
  · have hbehind : (spaces h.gap ++ '<' :: (inside ++ ['>'])).takeWhile isNameChar = [] := by
      have hspace : isNameChar ' ' = false := by decide
      have hopening : isNameChar '<' = false := by decide
      cases h.gap <;> simp [spaces, List.replicate_succ, hspace, hopening]
    rw [applied, List.append_assoc,
      List.takeWhile_append_of_pos fun c hc => h.name.isNameChar_of_mem hc, hbehind,
      List.append_nil]
    exact h.name.text_ne_const

/-! ## Qualifiers -/

theorem isBlank_of_mem_spaces {n : Nat} {c : Char} (h : c ∈ spaces n) : Text.isBlank c = true := by
  obtain rfl := List.eq_of_mem_replicate h
  decide

theorem isMark_of_mem_marks {q : Qualifiers} {c : Char} (h : c ∈ q.marks.map Mark.char) :
    isMark c = true := by
  obtain ⟨m, -, rfl⟩ := List.mem_map.mp h
  exact isMark_char m

/-- Trimming takes the spaces in front of a type and those behind it. -/
theorem trim_around (q : Qualifiers) {core : List Char} (h : IsCore core) :
    ∃ marks, (∀ c ∈ marks, isMark c = true) ∧
      Text.trim (q.around core) = q.front ++ core ++ marks := by
  obtain ⟨front, c, hcore, hblank, -⟩ := h.last
  refine ⟨Text.dropEndWhile Text.isBlank (q.marks.map Mark.char), ?_, ?_⟩
  · intro c hc
    exact isMark_of_mem_marks ((List.rdropWhile_prefix _ _).subset hc)
  · have hstart : Text.trimStart (q.front ++ core ++ q.marks.map Mark.char) =
        q.front ++ core ++ q.marks.map Mark.char := by
      refine Text.trimStart_eq_self fun c hc => ?_
      cases hconst : q.isConst with
      | true =>
        obtain rfl : 'c' = c := by simpa [Qualifiers.front, hconst, constQualifier] using hc
        decide
      | false =>
        refine h.head c ?_
        simpa [Qualifiers.front, hconst, hcore] using hc
    have hend := Text.dropEndWhile_append hblank (q.front ++ front) (q.marks.map Mark.char)
    rw [List.append_assoc q.front, ← hcore] at hend
    rw [Qualifiers.around, Text.trim_blanks_append fun c hc => isBlank_of_mem_spaces hc, Text.trim,
      hstart, Text.trimEnd, hend]

/-- No core with marks behind it begins with `const`. -/
theorem isPrefixOf_const_eq_false {core marks : List Char} (h : IsCore core)
    (hmarks : ∀ c ∈ marks, isMark c = true) :
    constQualifier.isPrefixOf (core ++ marks) = false := by
  rw [← Bool.not_eq_true, List.isPrefixOf_iff_prefix]
  rintro ⟨rest, hrest⟩
  -- the name that the text begins with is `const` on one side and that of the core on the other
  have hleft : (constQualifier ++ rest).takeWhile isNameChar = constWord := by
    have hword : constWord.all isNameChar = true := by decide
    have hspace : isNameChar ' ' = false := by decide
    have hconst : constQualifier ++ rest = constWord ++ ' ' :: rest := rfl
    rw [hconst, List.takeWhile_append_of_pos (List.all_eq_true.mp hword),
      List.takeWhile_cons_of_neg (by simp [hspace]), List.append_nil]
  have hright : (core ++ marks).takeWhile isNameChar = core.takeWhile isNameChar := by
    have hnone : marks.takeWhile isNameChar = [] := by
      cases marks with
      | nil => rfl
      | cons c marks =>
        have hc := isNameChar_of_isMark (hmarks c List.mem_cons_self)
        exact List.takeWhile_cons_of_neg (by simp [hc])
    rw [List.takeWhile_append, hnone]
    split
    · next hlength =>
      rw [List.append_nil]
      exact ((List.takeWhile_prefix _).eq_of_length hlength).symm
    · rfl
  exact h.notConst (hright.symm.trans (hrest ▸ hleft))

/-- Dropping the qualifiers of a type leaves its core. -/
theorem dropQualifiers_around (q : Qualifiers) {core : List Char} (h : IsCore core) :
    dropQualifiers (Text.trim (q.around core)) = core := by
  obtain ⟨marks, hmarks, htrim⟩ := trim_around q h
  obtain ⟨front, c, hcore, hblank, hmark⟩ := h.last
  have hend : Text.dropEndWhile isMark (core ++ marks) = core := by
    have hnone : Text.dropEndWhile isMark marks = [] := List.rdropWhile_eq_nil_iff.mpr hmarks
    rw [hcore, Text.dropEndWhile_append hmark, hnone, List.append_nil]
  unfold dropQualifiers
  rw [Text.trim_trim, htrim]
  cases hconst : q.isConst with
  | true =>
    have hfront : q.front = constQualifier := if_pos hconst
    have hstarts : constQualifier.isPrefixOf (constQualifier ++ (core ++ marks)) = true :=
      List.isPrefixOf_iff_prefix.mpr (List.prefix_append _ _)
    have hdrop : (constQualifier ++ (core ++ marks)).drop 6 = core ++ marks := rfl
    have hstart : Text.trimStart (core ++ marks) = core ++ marks := by
      refine Text.trimStart_eq_self fun d hd => h.head d ?_
      simpa [hcore] using hd
    rw [hfront, List.append_assoc]
    simp only [hstarts, if_true, hdrop, hstart]
    exact hend
  | false =>
    have hfront : q.front = [] := if_neg (by simp [hconst])
    rw [hfront, List.nil_append]
    simp only [isPrefixOf_const_eq_false h hmarks, Bool.false_eq_true, if_false]
    exact hend

/-! ## Brackets -/

open Nesting (Balanced balanced_of_forall)

/-- A text of names and marks has no brackets and no commas. -/
theorem balanced_of_isNameChar_or_isMark {text : List Char}
    (h : ∀ c ∈ text, isNameChar c = true ∨ isMark c = true) : Balanced (· != ',') text := by
  refine balanced_of_forall fun c hc => ?_
  rcases h c hc with hname | hmark
  · have hcomma := not_mem_of_isNameChar hname
    exact ⟨isBracket_of_isNameChar hname, by simp_all⟩
  · simp only [isMark, Bool.or_eq_true, beq_iff_eq] at hmark
    rcases hmark with (rfl | rfl) | rfl <;> decide

theorem ScopedName.balanced (n : ScopedName) : Balanced (· != ',') n.text :=
  balanced_of_isNameChar_or_isMark fun _ hc => .inl (n.isNameChar_of_mem hc)

theorem balanced_spaces (n : Nat) : Balanced (· != ',') (spaces n) :=
  balanced_of_isNameChar_or_isMark fun c hc => .inr (by rw [List.eq_of_mem_replicate hc]; decide)

/-- Qualifiers leave a text balanced. -/
theorem Qualifiers.balanced_around (q : Qualifiers) {core : List Char}
    (h : Balanced (· != ',') core) : Balanced (· != ',') (q.around core) := by
  have hfront : Balanced (· != ',') q.front := by
    have hchars : constQualifier.all (fun c => isNameChar c || isMark c) = true := by decide
    unfold Qualifiers.front
    split
    · exact balanced_of_isNameChar_or_isMark (by simpa using hchars)
    · exact .nil
  have hmarks : Balanced (· != ',') (q.marks.map Mark.char) :=
    balanced_of_isNameChar_or_isMark fun c hc => .inr (isMark_of_mem_marks hc)
  exact (balanced_spaces q.lead).append ((hfront.append h).append hmarks)

/-- A name applied to a balanced text is balanced, and its top is not that of the text. -/
theorem Head.balanced_applied {wraps : Option Wrapper} (h : Head wraps) {inside : List Char}
    (hinside : Balanced (fun _ => true) inside) : Balanced (· != ',') (h.applied inside) :=
  (h.name.balanced.append (balanced_spaces h.gap)).append (.brackets .angles hinside .nil)

/-- Texts with commas between them are balanced when each of them is. -/
theorem balanced_intercalate {texts : List (List Char)}
    (h : ∀ text ∈ texts, Balanced (fun _ => true) text) :
    Balanced (fun _ => true) ([','].intercalate texts) := by
  induction texts with
  | nil => exact .nil
  | cons text texts ih =>
    obtain ⟨htext, htexts⟩ := List.forall_mem_cons.mp h
    cases texts with
    | nil => rwa [List.intercalate_singleton]
    | cons text' texts =>
      rw [List.intercalate_cons_cons, List.append_assoc]
      exact htext.append (.char (by decide) rfl (ih htexts))

namespace TypeExpr

/-- A condition on the top may be left out. -/
theorem balanced_anywhere {top : Char → Bool} {text : List Char} (h : Balanced top text) :
    Balanced (fun _ => true) text :=
  h.mono fun _ _ => rfl

theorem isCore (e : TypeExpr) : IsCore e.core := by
  cases e with
  | name _ n => exact n.isCore
  | smartPointer _ h _ => exact h.isCore _
  | optional _ h _ => exact h.isCore _
  | tuple _ h _ _ => exact h.isCore _
  | container _ h _ => exact h.isCore _
  | other _ h _ _ => exact h.isCore _

/-- The texts of balanced types with commas between them are balanced. -/
theorem balanced_items_of_forall (lead : Nat) {items : List TypeExpr}
    (h : ∀ i ∈ items, Balanced (· != ',') i.text) :
    Balanced (fun _ => true) (spaces lead ++ [','].intercalate (texts items)) := by
  refine (balanced_anywhere (balanced_spaces lead)).append (balanced_intercalate ?_)
  rw [texts_eq_map]
  exact List.forall_mem_map.mpr fun i hi => balanced_anywhere (h i hi)

/-- The text of a type is balanced and has no comma at its top. -/
theorem balanced_text (e : TypeExpr) : Balanced (· != ',') e.text := by
  induction e using TypeExpr.induct with
  | node e ih =>
    refine e.qualifiers.balanced_around ?_
    cases e with
    | name _ n => exact n.balanced
    | smartPointer _ h inner =>
      exact h.balanced_applied (balanced_anywhere (ih inner (List.mem_singleton_self _)))
    | optional _ h inner =>
      exact h.balanced_applied (balanced_anywhere (ih inner (List.mem_singleton_self _)))
    | container _ h inner =>
      exact h.balanced_applied (balanced_anywhere (ih inner (List.mem_singleton_self _)))
    | other _ h _ hinside => exact h.balanced_applied hinside
    | tuple _ h lead items => exact h.balanced_applied (balanced_items_of_forall lead ih)

/-- What a tuple holds is balanced. -/
theorem balanced_items (lead : Nat) (items : List TypeExpr) :
    Balanced (fun _ => true) (spaces lead ++ [','].intercalate (texts items)) :=
  balanced_items_of_forall lead fun i _ => i.balanced_text

/-- Dropping the qualifiers of a type leaves its core. -/
theorem dropQualifiers_text (e : TypeExpr) : dropQualifiers (Text.trim e.text) = e.core :=
  dropQualifiers_around e.qualifiers e.isCore

theorem core_ne_nil (e : TypeExpr) : e.core ≠ [] := by
  obtain ⟨front, c, hcore, -, -⟩ := e.isCore.last
  rw [hcore]
  exact List.concat_ne_nil c front

/-- A type has text that is not blank. -/
theorem trim_text_ne_nil (e : TypeExpr) : Text.trim e.text ≠ [] := by
  intro h
  refine e.core_ne_nil ?_
  rw [← dropQualifiers_text, h]
  rfl

end TypeExpr

end ApiSurface
