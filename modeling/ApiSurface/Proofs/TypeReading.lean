import Mathlib.Data.List.Forall2
import ApiSurface.Identifier
import ApiSurface.Language

/-!
# Reading TypeScript types

A TypeScript type is read with the precedence of that language: the mark `[]` of a list belongs to
the operand right in front of it, `|` joins operands, parentheses make a whole type one operand, and
brackets with types in them are a tuple. Unions are lists of alternatives, so that joining two of
them is appending.

The reader goes through the tokens once and keeps a stack of levels, one for each bracket that
stands open. A text is an operand (`Reads`) when it takes the level at hand from before an operand
to behind one, whatever stands below that level and whatever follows; operands are put together by
the lemmas on `Reads`, and an operand by itself is a type (`Reads.readType`).
-/

namespace ApiSurface.TypeReading

/-- One alternative of a type. -/
inductive TypeTerm where
  /-- A type by its name. -/
  | name (word : List Char)
  /-- A list; the type of its elements is given by alternatives. -/
  | array (element : List TypeTerm)
  /-- A tuple. -/
  | tuple (items : List (List TypeTerm))
deriving Repr

/-- A type as the list of its alternatives. -/
abbrev Union : Type := List TypeTerm

/-- What a type is written with. -/
inductive TypeToken where
  | word (word : List Char)
  | bar
  | comma
  | openParen
  | closeParen
  | openBracket
  | closeBracket
deriving DecidableEq, Repr

/-! ## Tokens -/

/-- Whether a character belongs to a word. -/
def isWordChar (c : Char) : Bool :=
  Text.isAlphanumeric c || c == '_'

/-- The tokens of one character. -/
def mark? : Char → Option TypeToken
  | '|' => some .bar
  | ',' => some .comma
  | '(' => some .openParen
  | ')' => some .closeParen
  | '[' => some .openBracket
  | ']' => some .closeBracket
  | _ => none

/-- Puts a character in front of the word that the tokens begin with. -/
def extend (c : Char) : List TypeToken → List TypeToken
  | .word word :: tokens => .word (c :: word) :: tokens
  | tokens => .word [c] :: tokens

/-- The tokens of a text: words as long as possible and marks, with blanks between them. -/
def lex : List Char → Option (List TypeToken)
  | [] => some []
  | c :: rest =>
    (lex rest).bind fun tokens =>
      if isWordChar c then
        some (if rest.head?.any isWordChar then extend c tokens else .word [c] :: tokens)
      else match mark? c with
        | some mark => some (mark :: tokens)
        | none => if Text.isBlank c then some tokens else none

/-! ## Levels -/

/-- What a level stands in. -/
inductive Enclosure where
  /-- In no bracket. -/
  | whole
  | parens
  /-- In brackets that hold the items of a tuple. -/
  | brackets (items : List Union)
  /-- Between the brackets of the mark of a list. -/
  | suffix

/-- What has been read inside one bracket: the alternatives up to the last `|`, and the operand
behind it. -/
structure Level where
  enclosure : Enclosure
  alternatives : Union := []
  operand : Option Union := none

/-- Takes one token. The top level is the head of the list. -/
def step : TypeToken → List Level → Option (List Level)
  | .word word, ⟨e, alts, none⟩ :: outer => some (⟨e, alts, some [.name word]⟩ :: outer)
  | .bar, ⟨e, alts, some u⟩ :: outer => some (⟨e, alts ++ u, none⟩ :: outer)
  | .comma, ⟨.brackets items, alts, some u⟩ :: outer =>
    some (⟨.brackets (items ++ [alts ++ u]), [], none⟩ :: outer)
  | .openParen, ⟨e, alts, none⟩ :: outer =>
    some (⟨.parens, [], none⟩ :: ⟨e, alts, none⟩ :: outer)
  | .closeParen, ⟨.parens, alts, some u⟩ :: ⟨e, alts', none⟩ :: outer =>
    some (⟨e, alts', some (alts ++ u)⟩ :: outer)
  | .openBracket, ⟨e, alts, none⟩ :: outer =>
    some (⟨.brackets [], [], none⟩ :: ⟨e, alts, none⟩ :: outer)
  | .openBracket, ⟨e, alts, some u⟩ :: outer =>
    some (⟨.suffix, [], none⟩ :: ⟨e, alts, some u⟩ :: outer)
  | .closeBracket, ⟨.suffix, [], none⟩ :: ⟨e, alts, some u⟩ :: outer =>
    some (⟨e, alts, some [.array u]⟩ :: outer)
  | .closeBracket, ⟨.brackets [], [], none⟩ :: ⟨e, alts, none⟩ :: outer =>
    some (⟨e, alts, some [.tuple []]⟩ :: outer)
  | .closeBracket, ⟨.brackets items, alts, some u⟩ :: ⟨e, alts', none⟩ :: outer =>
    some (⟨e, alts', some [.tuple (items ++ [alts ++ u])]⟩ :: outer)
  | _, _ => none

/-- Takes tokens one after another. -/
def run : List TypeToken → List Level → Option (List Level)
  | [], levels => some levels
  | token :: tokens, levels => (step token levels).bind (run tokens)

/-- Takes the tokens of a text. -/
def runText (text : List Char) (levels : List Level) : Option (List Level) :=
  (lex text).bind fun tokens => run tokens levels

/-- Reads a text as a type: the alternatives up to the last `|` that stands in no bracket, and the
operand behind it. -/
def readSplit (text : List Char) : Option (Union × Union) :=
  match runText text [⟨.whole, [], none⟩] with
  | some [⟨.whole, alts, some u⟩] => some (alts, u)
  | _ => none

/-- Reads a text as a type. -/
def readType (text : List Char) : Option Union :=
  (readSplit text).map fun (alts, u) => alts ++ u

/-! ## Texts behind each other -/

/-- A text that does not go on with the word in front of it. -/
def Bounded (rest : List Char) : Prop :=
  rest.head?.any isWordChar = false

theorem bounded_cons {c : Char} (h : isWordChar c = false) (rest : List Char) :
    Bounded (c :: rest) := by
  simpa [Bounded] using h

theorem extend_append {c : Char} {tokens : List TypeToken} (h : tokens ≠ [])
    (more : List TypeToken) : extend c (tokens ++ more) = extend c tokens ++ more := by
  cases tokens with
  | nil => exact absurd rfl h
  | cons token tokens => cases token <;> rfl

/-- A text that begins with a word has a token. -/
theorem ne_nil_of_lex {text : List Char} {tokens : List TypeToken} (h : lex text = some tokens)
    (hword : text.head?.any isWordChar = true) : tokens ≠ [] := by
  cases text with
  | nil => simp at hword
  | cons c rest =>
    have hc : isWordChar c = true := by simpa using hword
    simp only [lex, hc, if_true, Option.bind_eq_some_iff, Option.some.injEq] at h
    obtain ⟨more, -, rfl⟩ := h
    split
    · cases more with
      | nil => simp [extend]
      | cons token more => cases token <;> simp [extend]
    · simp

/-- Tokens of a text followed by one that does not go on with its last word. -/
theorem lex_append {text rest : List Char} {tokens : List TypeToken}
    (h : lex text = some tokens) (hrest : Bounded rest) :
    lex (text ++ rest) = (lex rest).map (tokens ++ ·) := by
  induction text generalizing tokens with
  | nil =>
    obtain rfl : tokens = [] := by simpa [lex, eq_comm] using h
    simp
  | cons c text ih =>
    rw [lex, Option.bind_eq_some_iff] at h
    obtain ⟨more, hmore, h⟩ := h
    rw [List.cons_append, lex, ih hmore]
    cases lex rest with
    | none => rfl
    | some behind =>
      rw [Option.map_some, Option.bind_some, Option.map_some]
      by_cases hc : isWordChar c = true
      · simp only [hc, if_true, Option.some.injEq] at h ⊢
        subst h
        -- whether `c` goes on with a word is decided by what follows it in `text`, if anything does
        cases text with
        | nil =>
          obtain rfl : more = [] := by simpa [lex, eq_comm] using hmore
          rw [List.nil_append, hrest]
          rfl
        | cons d text =>
          rw [List.cons_append, List.head?_cons, List.head?_cons]
          split
          · next hd => exact extend_append (ne_nil_of_lex hmore hd) behind
          · rfl
      · simp only [hc] at h ⊢
        cases hmark : mark? c with
        | some mark =>
          simp only [hmark, Bool.false_eq_true, if_false, Option.some.injEq] at h ⊢
          subst h
          rfl
        | none =>
          simp only [hmark, Bool.false_eq_true, if_false] at h ⊢
          split at h
          · next hblank =>
            cases h
            rw [if_pos hblank]
          · cases h

/-- A name is one word. -/
theorem lex_word {word : List Char} (h : Identifier.isName word = true) :
    lex word = some [.word word] := by
  obtain ⟨hne, hall⟩ : word ≠ [] ∧ ∀ c ∈ word, isWordChar c = true := by
    simpa [Identifier.isName, isWordChar] using h
  induction word with
  | nil => exact absurd rfl hne
  | cons c rest ih =>
    have hc : isWordChar c = true := hall c List.mem_cons_self
    cases rest with
    | nil => simp [lex, hc]
    | cons d rest =>
      have hd : isWordChar d = true := hall d (by simp)
      have htail : ∀ e ∈ d :: rest, isWordChar e = true :=
        fun e he => hall e (List.mem_cons_of_mem _ he)
      have hname : Identifier.isName (d :: rest) = true := by
        simpa [Identifier.isName, isWordChar] using htail
      rw [lex, ih hname (List.cons_ne_nil _ _) htail]
      simp [hc, hd, extend]

/-! ## A type inside another -/

/-- Reading a text takes the level at hand from before an operand to behind one. -/
def Reads (text : List Char) (alts u : Union) : Prop :=
  ∀ (e : Enclosure) (before : Union) (outer : List Level) (rest : List Char), Bounded rest →
    runText (text ++ rest) (⟨e, before, none⟩ :: outer) =
      runText rest (⟨e, before ++ alts, some u⟩ :: outer)

theorem runText_nil (levels : List Level) : runText [] levels = some levels := rfl

/-- A mark is one token. -/
theorem runText_mark {c : Char} {mark : TypeToken} (hword : isWordChar c = false)
    (hmark : mark? c = some mark) (rest : List Char) (levels : List Level) :
    runText (c :: rest) levels = (step mark levels).bind (runText rest) := by
  unfold runText
  rw [lex]
  simp only [hword, hmark, Bool.false_eq_true, if_false]
  cases lex rest with
  | none => cases step mark levels <;> simp
  | some tokens => simp [run]

/-- A space is no token. -/
theorem runText_space (rest : List Char) (levels : List Level) :
    runText (' ' :: rest) levels = runText rest levels := by
  have hword : isWordChar ' ' = false := by decide
  have hmark : mark? ' ' = none := by decide
  have hblank : Text.isBlank ' ' = true := by decide
  unfold runText
  rw [lex]
  simp [hword, hmark, hblank]

/-- What reads as an operand of any text reads as a whole text. -/
theorem Reads.readSplit {text : List Char} {alts u : Union} (h : Reads text alts u) :
    readSplit text = some (alts, u) := by
  have hwhole := h .whole [] [] [] rfl
  rw [List.append_nil, List.nil_append, runText_nil] at hwhole
  rw [TypeReading.readSplit, hwhole]

theorem Reads.readType {text : List Char} {alts u : Union} (h : Reads text alts u) :
    readType text = some (alts ++ u) := by
  rw [TypeReading.readType, h.readSplit, Option.map_some]

/-- A name is an operand. -/
theorem reads_name {word : List Char} (h : Identifier.isName word = true) :
    Reads word [] [.name word] := by
  intro e before outer rest hrest
  rw [runText, lex_append (lex_word h) hrest, runText]
  cases lex rest with
  | none => rfl
  | some tokens => simp [run, step]

/-- A name behind `|` is one more alternative. -/
theorem Reads.bar_name {text word : List Char} {alts u : Union} (h : Reads text alts u)
    (hword : Identifier.isName word = true) :
    Reads (text ++ ' ' :: '|' :: ' ' :: word) (alts ++ u) [.name word] := by
  intro e before outer rest hrest
  have hmark : mark? '|' = some .bar := by decide
  simp only [List.append_assoc, List.cons_append]
  rw [h _ _ _ _ (bounded_cons (by decide) _), runText_space, runText_mark (by decide) hmark, step,
    Option.bind_some, runText_space, reads_name hword _ _ _ _ hrest, List.append_nil,
    List.append_assoc]

/-- The mark of a list takes the last operand alone. -/
theorem Reads.suffix {text : List Char} {alts u : Union} (h : Reads text alts u) :
    Reads (text ++ ['[', ']']) alts [.array u] := by
  intro e before outer rest _
  have hopen : mark? '[' = some .openBracket := by decide
  have hclose : mark? ']' = some .closeBracket := by decide
  simp only [List.append_assoc, List.cons_append, List.nil_append]
  rw [h _ _ _ _ (bounded_cons (by decide) _), runText_mark (by decide) hopen, step,
    Option.bind_some, runText_mark (by decide) hclose, step, Option.bind_some]

/-- Parentheses make a type one operand. -/
theorem Reads.parens {text : List Char} {alts u : Union} (h : Reads text alts u) :
    Reads ('(' :: text ++ [')']) [] (alts ++ u) := by
  intro e before outer rest _
  have hopen : mark? '(' = some .openParen := by decide
  have hclose : mark? ')' = some .closeParen := by decide
  simp only [List.append_assoc, List.cons_append, List.nil_append]
  rw [runText_mark (by decide) hopen, step, Option.bind_some,
    h _ _ _ _ (bounded_cons (by decide) _), runText_mark (by decide) hclose, step,
    Option.bind_some, List.append_nil, List.nil_append]

/-- What stands between the items of a tuple. -/
def comma : List Char := [',', ' ']

/-- Items are read one after another. -/
theorem runText_items {texts : List (List Char)} {splits : List (Union × Union)}
    (h : List.Forall₂ (fun text split => Reads text split.1 split.2) texts splits)
    (e : Enclosure) (before : Union) (outer : List Level) (items : List Union)
    (rest : List Char) (hne : texts ≠ []) :
    runText (comma.intercalate texts ++ ']' :: rest)
        (⟨.brackets items, [], none⟩ :: ⟨e, before, none⟩ :: outer) =
      runText rest (⟨e, before,
        some [.tuple (items ++ splits.map fun split => split.1 ++ split.2)]⟩ :: outer) := by
  have hcomma : mark? ',' = some .comma := by decide
  have hclose : mark? ']' = some .closeBracket := by decide
  induction h generalizing items with
  | nil => exact absurd rfl hne
  | @cons text split texts splits hread htexts ih =>
    cases htexts with
    | nil =>
      rw [List.intercalate_singleton, hread _ _ _ _ (bounded_cons (by decide) _),
        runText_mark (by decide) hclose, step, Option.bind_some, List.nil_append]
      rfl
    | @cons text' _ texts' _ _ _ =>
      rw [List.intercalate_cons_cons]
      simp only [comma, List.append_assoc, List.cons_append, List.nil_append] at ih ⊢
      rw [hread _ _ _ _ (bounded_cons (by decide) _), runText_mark (by decide) hcomma, step,
        Option.bind_some, runText_space, ih _ (List.cons_ne_nil _ _), List.nil_append,
        List.append_assoc]
      rfl

/-- Types in brackets are a tuple. -/
theorem reads_tuple {texts : List (List Char)} {splits : List (Union × Union)}
    (h : List.Forall₂ (fun text split => Reads text split.1 split.2) texts splits) :
    Reads ('[' :: comma.intercalate texts ++ [']']) []
      [.tuple (splits.map fun split => split.1 ++ split.2)] := by
  intro e before outer rest _
  have hopen : mark? '[' = some .openBracket := by decide
  have hclose : mark? ']' = some .closeBracket := by decide
  simp only [List.append_assoc, List.cons_append, List.nil_append, List.append_nil]
  rw [runText_mark (by decide) hopen, step, Option.bind_some]
  cases texts with
  | nil =>
    cases h
    rw [List.intercalate_nil, List.nil_append, runText_mark (by decide) hclose, step,
      Option.bind_some]
    rfl
  | cons text texts => exact runText_items h e before outer [] rest (List.cons_ne_nil _ _)

/-! ## Only names are read -/

/-- Every name in an alternative is one word of letters, numbers and `_`. -/
inductive Plain : TypeTerm → Prop
  | name {word : List Char} : Identifier.isName word = true → Plain (.name word)
  | array {element : Union} : (∀ t ∈ element, Plain t) → Plain (.array element)
  | tuple {items : List Union} : (∀ u ∈ items, ∀ t ∈ u, Plain t) → Plain (.tuple items)

/-- The names in what a level has read are words. -/
structure PlainLevel (level : Level) : Prop where
  alternatives : ∀ t ∈ level.alternatives, Plain t
  operand : ∀ u ∈ level.operand, ∀ t ∈ u, Plain t
  items : ∀ items, level.enclosure = .brackets items → ∀ u ∈ items, ∀ t ∈ u, Plain t

theorem mark?_ne_word (c : Char) (word : List Char) : mark? c ≠ some (.word word) := by
  intro h
  unfold mark? at h
  split at h <;> cases h

/-- Names among tokens stay names when one grows. -/
theorem isName_of_mem_extend {c : Char} {tokens : List TypeToken} (hc : isWordChar c = true)
    (htokens : ∀ word, .word word ∈ tokens → Identifier.isName word = true) :
    ∀ word, .word word ∈ extend c tokens → Identifier.isName word = true := by
  intro word hword
  unfold extend at hword
  split at hword
  · next w more =>
    rcases List.mem_cons.mp hword with hword | hword
    · cases hword
      have hw := htokens w List.mem_cons_self
      simp_all [Identifier.isName, isWordChar]
    · exact htokens word (List.mem_cons_of_mem _ hword)
  · rcases List.mem_cons.mp hword with hword | hword
    · cases hword
      simpa [Identifier.isName, isWordChar] using hc
    · exact htokens word hword

/-- Words are names. -/
theorem isName_of_lex {text : List Char} {tokens : List TypeToken} (h : lex text = some tokens) :
    ∀ word, .word word ∈ tokens → Identifier.isName word = true := by
  induction text generalizing tokens with
  | nil =>
    cases h
    exact fun word hword => absurd hword List.not_mem_nil
  | cons c rest ih =>
    rw [lex, Option.bind_eq_some_iff] at h
    obtain ⟨more, hmore, h⟩ := h
    split at h
    · next hc =>
      split at h
      · cases h
        exact isName_of_mem_extend hc (ih hmore)
      · cases h
        intro word hword
        rcases List.mem_cons.mp hword with hword | hword
        · cases hword
          simpa [Identifier.isName, isWordChar] using hc
        · exact ih hmore word hword
    · split at h
      · next mark hmark =>
        cases h
        intro word hword
        rcases List.mem_cons.mp hword with hword | hword
        · exact absurd (hword ▸ hmark) (mark?_ne_word c word)
        · exact ih hmore word hword
      · split at h
        · cases h
          exact ih hmore
        · cases h

/-- What a level has read, when it ends with an operand. -/
theorem PlainLevel.union {e : Enclosure} {alts u : Union} (h : PlainLevel ⟨e, alts, some u⟩) :
    ∀ t ∈ alts ++ u, Plain t :=
  List.forall_mem_append.mpr ⟨h.alternatives, h.operand u rfl⟩

/-- The operand of a level may change. -/
theorem PlainLevel.with_operand {e : Enclosure} {alts u : Union} {operand : Option Union}
    (h : PlainLevel ⟨e, alts, operand⟩) (hu : ∀ t ∈ u, Plain t) :
    PlainLevel ⟨e, alts, some u⟩ :=
  ⟨h.alternatives, by simpa using hu, h.items⟩

/-- A level that has read nothing but items. -/
theorem plainLevel_empty {e : Enclosure}
    (h : ∀ items, e = .brackets items → ∀ u ∈ items, ∀ t ∈ u, Plain t) :
    PlainLevel ⟨e, [], none⟩ :=
  ⟨by simp, by simp, h⟩

/-- A step reads only names. -/
theorem plain_step {token : TypeToken} {levels levels' : List Level}
    (h : step token levels = some levels')
    (hword : ∀ word, token = .word word → Identifier.isName word = true)
    (hlevels : ∀ level ∈ levels, PlainLevel level) : ∀ level ∈ levels', PlainLevel level := by
  unfold step at h
  split at h
  all_goals cases h
  all_goals simp only [List.forall_mem_cons] at hlevels ⊢
  · -- a word
    refine ⟨hlevels.1.with_operand ?_, hlevels.2⟩
    simpa using Plain.name (hword _ rfl)
  · -- `|`
    exact ⟨⟨hlevels.1.union, by simp, hlevels.1.items⟩, hlevels.2⟩
  · -- `,` in a tuple
    refine ⟨plainLevel_empty fun items' heq => ?_, hlevels.2⟩
    cases heq
    refine List.forall_mem_append.mpr ⟨hlevels.1.items _ rfl, ?_⟩
    simpa using hlevels.1.union
  · -- `(`
    exact ⟨plainLevel_empty (by simp), hlevels⟩
  · -- `)`
    exact ⟨hlevels.2.1.with_operand hlevels.1.union, hlevels.2.2⟩
  · -- `[` of a tuple
    exact ⟨plainLevel_empty (by simp), hlevels⟩
  · -- `[` behind an operand
    exact ⟨plainLevel_empty (by simp), hlevels⟩
  · -- `]` behind an operand
    refine ⟨hlevels.2.1.with_operand ?_, hlevels.2.2⟩
    simpa using Plain.array (hlevels.2.1.operand _ rfl)
  · -- `]` of the empty tuple
    refine ⟨hlevels.2.1.with_operand ?_, hlevels.2.2⟩
    simpa using @Plain.tuple [] (by simp)
  · -- `]` of a tuple
    refine ⟨hlevels.2.1.with_operand ?_, hlevels.2.2⟩
    refine List.forall_mem_singleton.mpr (.tuple (List.forall_mem_append.mpr ⟨?_, ?_⟩))
    · exact hlevels.1.items _ rfl
    · simpa using hlevels.1.union

/-- Tokens read only names. -/
theorem plain_run {tokens : List TypeToken} {levels levels' : List Level}
    (h : run tokens levels = some levels')
    (hword : ∀ word, .word word ∈ tokens → Identifier.isName word = true)
    (hlevels : ∀ level ∈ levels, PlainLevel level) : ∀ level ∈ levels', PlainLevel level := by
  induction tokens generalizing levels with
  | nil =>
    cases h
    exact hlevels
  | cons token tokens ih =>
    rw [run, Option.bind_eq_some_iff] at h
    obtain ⟨middle, hstep, hrun⟩ := h
    refine ih hrun (fun word hmem => hword word (List.mem_cons_of_mem _ hmem)) ?_
    exact plain_step hstep (fun word heq => hword word (heq ▸ List.mem_cons_self)) hlevels

/-- Whatever a text reads as, its names are words. -/
theorem plain_of_readType {text : List Char} {u : Union} (h : readType text = some u) :
    ∀ t ∈ u, Plain t := by
  rw [readType, Option.map_eq_some_iff] at h
  obtain ⟨⟨alts, operand⟩, hsplit, rfl⟩ := h
  rw [readSplit] at hsplit
  split at hsplit
  · next hrun =>
    cases hsplit
    rw [runText, Option.bind_eq_some_iff] at hrun
    obtain ⟨tokens, hlex, hrun⟩ := hrun
    have hlevels := plain_run hrun (isName_of_lex hlex)
      (List.forall_mem_singleton.mpr (plainLevel_empty (by simp)))
    exact (hlevels _ List.mem_cons_self).union
  · cases hsplit

end ApiSurface.TypeReading
