import ApiSurface.Declaration
import ApiSurface.Document.Json
import ApiSurface.View.OfDescriptor

/-!
# Unions of string literals

A string entity is declared as the union of its values. Here the text behind the equals sign is read
as TypeScript reads it: literals in single or double quotes with bars between them, blanks and
comments anywhere between the two, and in a literal the escapes of the language. A literal denotes a
sequence of code units (`readBody`), a union one for each literal (`readUnion`).

The values are written between quotes as they are, so what they say can end a literal or begin an
escape. The first quote in the text of a value is the crux: at that place the literal either ends,
with fewer code units than the value has, or an escape writes a quote where the value has none
(`readBody_upTo`). So the union is read back as its values exactly when every value is plain for the
quotes around it (`readUnion_iff`).
-/

namespace ApiSurface

namespace Declaration

open Document.Json (hexDigit? hexNumber?)

/-! ## Literals as they are read -/

/-- The code units of a code point. -/
def codeUnits (n : Nat) : List Nat :=
  if n < 0x10000 then [n] else [0xD800 + (n - 0x10000) / 0x400, 0xDC00 + (n - 0x10000) % 0x400]

/-- The code units of a text. -/
def textUnits (s : List Char) : List Nat :=
  s.flatMap fun c => codeUnits c.toNat

/-- Whether a character ends a line comment and continues a literal behind a backslash. -/
def isLineEnd (c : Char) : Bool :=
  c == '\n' || c == '\r' || c == '\u2028' || c == '\u2029'

/-- The number that the `k` hexadecimal digits in front of a text write. -/
def fixedHex? (k : Nat) (text : List Char) : Option Nat :=
  if k ≤ text.length then hexNumber? (text.take k) else none

/-- What the escape `\u` denotes, and how many characters it has from the `u` on. -/
def unicodeEscape? : List Char → Option (List Nat × Nat)
  | '{' :: inner => do
    let width ← inner.findIdx? (· == '}')
    let n ← hexNumber? (inner.take width)
    if width = 0 ∨ 0x10FFFF < n then none else some (codeUnits n, width + 3)
  | text => (fixedHex? 4 text).map fun n => ([n], 5)

/-- What a character denotes behind a backslash. -/
def escapedUnits : Char → List Nat
  | 'b' => [0x8]
  | 't' => [0x9]
  | 'n' => [0xA]
  | 'v' => [0xB]
  | 'f' => [0xC]
  | 'r' => [0xD]
  | c => codeUnits c.toNat

/-- What the text behind a backslash denotes, and how many characters of it the escape takes. A
digit is an escape only as a `0` with no digit behind it. -/
def escape? : List Char → Option (List Nat × Nat)
  | [] => none
  | c :: rest =>
    if c = 'u' then unicodeEscape? rest
    else if c = 'x' then (fixedHex? 2 rest).map fun n => ([n], 3)
    else if c.isDigit then
      if c = '0' ∧ rest.head?.all (!·.isDigit) then some ([0], 1) else none
    else if c = '\r' ∧ rest.head? = some '\n' then some ([], 2)
    else if isLineEnd c then some ([], 1)
    else some (escapedUnits c, 1)

/-- Reads a literal behind its opening quote: what it denotes, and the text behind its closing
quote. The number counts the characters that an escape has taken already. -/
def readBody (quote : Char) : Nat → List Char → Option (List Nat × List Char)
  | _, [] => none
  | n + 1, _ :: rest => readBody quote n rest
  | 0, c :: rest =>
    if c = quote then some ([], rest)
    else if c = '\n' ∨ c = '\r' then none
    else if c = '\\' then do
      let (units, n) ← escape? rest
      let (more, after) ← readBody quote n rest
      return (units ++ more, after)
    else do
      let (more, after) ← readBody quote 0 rest
      return (codeUnits c.toNat ++ more, after)

/-- What is being passed over between two tokens. -/
inductive Trivia where
  | blank
  | lineComment
  | blockComment

/-- The text from the next token on; none when a comment does not end. -/
def skipTrivia? : Trivia → List Char → Option (List Char)
  | .blank, '/' :: '/' :: rest => skipTrivia? .lineComment rest
  | .blank, '/' :: '*' :: rest => skipTrivia? .blockComment rest
  | .blank, c :: rest =>
    if Text.isBlank c || c == '\uFEFF' then skipTrivia? .blank rest else some (c :: rest)
  | .lineComment, c :: rest => skipTrivia? (if isLineEnd c then .blank else .lineComment) rest
  | .blockComment, '*' :: '/' :: rest => skipTrivia? .blank rest
  | .blockComment, _ :: rest => skipTrivia? .blockComment rest
  | .blockComment, [] => none
  | _, [] => some []

section

variable {quote c : Char} {text after : List Char} {units : List Nat} {n : Nat}

/-- An escape in front of more of a literal. -/
theorem readBody_backslash (hquote : quote ≠ '\\') :
    readBody quote 0 ('\\' :: text) = some (units, after) ↔
      ∃ escaped n more, escape? text = some (escaped, n) ∧
        readBody quote n text = some (more, after) ∧ units = escaped ++ more := by
  simp [readBody, hquote.symm, Option.bind_eq_some_iff, eq_comm (b := units)]

/-- A character that stands for itself in front of more of a literal. -/
theorem readBody_cons (hquote : c ≠ quote) (hline : ¬(c = '\n' ∨ c = '\r')) (hescape : c ≠ '\\') :
    readBody quote 0 (c :: text) = some (units, after) ↔
      ∃ more, readBody quote 0 text = some (more, after) ∧
        units = codeUnits c.toNat ++ more := by
  simp [readBody, hquote, hline, hescape, Option.bind_eq_some_iff, eq_comm (b := units)]

theorem length_readBody_lt (h : readBody quote n text = some (units, after)) :
    after.length < text.length := by
  induction text generalizing n units with
  | nil => simp [readBody] at h
  | cons c rest ih =>
    cases n with
    | succ n => exact Nat.lt_succ_of_lt (ih h)
    | zero =>
      by_cases hquote : c = quote
      · obtain ⟨-, rfl⟩ : [] = units ∧ rest = after := by simpa [readBody, hquote] using h
        exact Nat.lt_succ_self _
      by_cases hline : c = '\n' ∨ c = '\r'
      · simp [readBody, hquote, hline] at h
      by_cases hescape : c = '\\'
      · subst hescape
        obtain ⟨-, n, more, -, hmore, -⟩ := (readBody_backslash (Ne.symm hquote)).mp h
        exact Nat.lt_succ_of_lt (ih hmore)
      · obtain ⟨more, hmore, -⟩ := (readBody_cons hquote hline hescape).mp h
        exact Nat.lt_succ_of_lt (ih hmore)

theorem length_skipTrivia?_le {t : Trivia} (h : skipTrivia? t text = some after) :
    after.length ≤ text.length := by
  fun_induction skipTrivia? t text generalizing after <;> grind

end

/-- Reads a literal with the blanks and comments around it: what it denotes, and the text from the
next token on. -/
def readMember (text : List Char) : Option (List Nat × List Char) := do
  let quote :: body ← skipTrivia? .blank text | none
  if quote = '\'' ∨ quote = '"' then
    let (units, behind) ← readBody quote 0 body
    let after ← skipTrivia? .blank behind
    return (units, after)
  else none

theorem length_readMember_lt {text after : List Char} {units : List Nat}
    (h : readMember text = some (units, after)) : after.length < text.length := by
  simp only [readMember, Option.bind_eq_bind, Option.bind_eq_some_iff] at h
  obtain ⟨start, hstart, h⟩ := h
  split at h
  · next quote body =>
    split at h
    · simp only [Option.bind_eq_some_iff, Option.pure_def] at h
      obtain ⟨⟨units, behind⟩, hbody, after, hbehind, heq⟩ := h
      obtain ⟨-, rfl⟩ := Prod.mk.inj (Option.some.inj heq)
      have hstart := length_skipTrivia?_le hstart
      have hbody := length_readBody_lt hbody
      have hbehind := length_skipTrivia?_le hbehind
      simp only [List.length_cons] at hstart hbehind
      omega
    · cases h
  · cases h

/-- Reads a union of literals. -/
def readUnion (text : List Char) : Option (List (List Nat)) :=
  match h : readMember text with
  | some (units, []) => some [units]
  | some (units, '|' :: rest) =>
    have : rest.length < text.length :=
      Nat.lt_trans (Nat.lt_succ_self _) (length_readMember_lt h)
    (readUnion rest).map (units :: ·)
  | _ => none
termination_by text.length

/-! ## A literal and the text it was made from -/

/-- Whether a text stands for itself between two quotes. -/
def IsPlain (quote : Char) (s : List Char) : Prop :=
  ∀ c ∈ s, c ≠ quote ∧ c ≠ '\\' ∧ c ≠ '\n' ∧ c ≠ '\r'

instance (quote : Char) (s : List Char) : Decidable (IsPlain quote s) :=
  List.decidableBAll _ s

/-- The quotes that literals are written in. -/
def IsQuote (c : Char) : Prop :=
  c = '\'' ∨ c = '"'

theorem codeUnits_pos (n : Nat) : 0 < (codeUnits n).length := by
  unfold codeUnits
  split <;> simp

theorem length_codeUnits_le (n : Nat) : (codeUnits n).length ≤ 2 := by
  unfold codeUnits
  split <;> simp

theorem textUnits_cons (c : Char) (s : List Char) :
    textUnits (c :: s) = codeUnits c.toNat ++ textUnits s :=
  List.flatMap_cons

theorem textUnits_append (s t : List Char) : textUnits (s ++ t) = textUnits s ++ textUnits t :=
  List.flatMap_append

theorem length_le_textUnits (s : List Char) : s.length ≤ (textUnits s).length := by
  induction s with
  | nil => exact Nat.le_refl _
  | cons c s ih =>
    have hc := codeUnits_pos c.toNat
    rw [textUnits_cons, List.length_append, List.length_cons]
    omega

/-- A character of the first range of code points is held as it is, and as nothing else. -/
theorem mem_textUnits_iff {q : Char} (hq : q.toNat < 0xD800) (s : List Char) :
    q.toNat ∈ textUnits s ↔ q ∈ s := by
  have hunit (c : Char) : q.toNat ∈ codeUnits c.toNat ↔ q = c := by
    rw [← Char.toNat_inj, codeUnits]
    split
    · exact List.mem_singleton
    · simp only [List.mem_cons, List.not_mem_nil, or_false]
      omega
  simp [textUnits, hunit]

section

variable {q : Char} {u w after : List Char} {units : List Nat} {n : Nat}

theorem IsQuote.toNat_lt (hq : IsQuote q) : q.toNat < 0xD800 := by
  obtain rfl | rfl := hq <;> decide

theorem IsQuote.hexDigit? (hq : IsQuote q) : hexDigit? q = none := by
  obtain rfl | rfl := hq <;> rfl

theorem notMem_of_hexNumber? (hq : hexDigit? q = none) {digits : List Char}
    (h : hexNumber? digits = some n) : q ∉ digits := by
  have hfold : ∀ start, digits.foldlM (fun n c => (Document.Json.hexDigit? c).map (16 * n + ·))
      start = some n → q ∉ digits := by
    clear h
    induction digits with
    | nil => exact fun _ _ => List.not_mem_nil
    | cons d digits ih =>
      intro start h
      rw [List.foldlM_cons] at h
      obtain ⟨next, hnext, h⟩ := Option.bind_eq_some_iff.mp h
      refine not_or.mpr ⟨?_, ih next h⟩ ∘ List.mem_cons.mp
      rintro rfl
      rw [hq] at hnext
      cases hnext
  exact hfold 0 h

/-- A front of a text without a character ends in front of its first place. -/
theorem le_length_of_notMem_take (h : q ∉ (u ++ q :: w).take n) : n ≤ u.length := by
  refine Nat.le_of_not_lt fun hlt => h ?_
  rw [List.take_append, List.take_of_length_le (by omega)]
  refine List.mem_append_right _ ?_
  obtain ⟨k, hk⟩ : ∃ k, n - u.length = k + 1 := ⟨n - u.length - 1, by omega⟩
  rw [hk, List.take_succ_cons]
  exact List.mem_cons_self

theorem fixedHex?_within (hq : IsQuote q) {k : Nat} (h : fixedHex? k (u ++ q :: w) = some n) :
    k ≤ u.length := by
  unfold fixedHex? at h
  split at h
  · exact le_length_of_notMem_take (notMem_of_hexNumber? hq.hexDigit? h)
  · cases h

/-- A numeric escape ends in front of a quote, and denotes fewer code units than it is long. -/
theorem unicodeEscape?_within (hq : IsQuote q) (h : unicodeEscape? (u ++ q :: w) = some (units, n)) :
    n ≤ u.length + 1 ∧ units.length ≤ n := by
  have hbrace : q ≠ '{' ∧ q ≠ '}' := by
    obtain rfl | rfl := hq <;> decide
  unfold unicodeEscape? at h
  split at h
  · next inner heq =>
    obtain ⟨u, rfl, rfl⟩ : ∃ u', u = '{' :: u' ∧ inner = u' ++ q :: w := by
      cases u with
      | nil => exact absurd (List.cons.inj heq).1 hbrace.1
      | cons d u => exact ⟨u, by rw [(List.cons.inj heq).1], (List.cons.inj heq).2.symm⟩
    simp only [Option.bind_eq_bind, Option.bind_eq_some_iff] at h
    obtain ⟨width, hwidth, code, hcode, h⟩ := h
    split at h
    · cases h
    · obtain ⟨rfl, rfl⟩ := Prod.mk.inj (Option.some.inj h)
      obtain ⟨hlt, hclosing, -⟩ := List.findIdx?_eq_some_iff_getElem.mp hwidth
      have hdigits : q ∉ (u ++ q :: w).take (width + 1) := by
        rw [List.take_succ_eq_append_getElem hlt, eq_of_beq hclosing]
        simpa [hbrace.2] using notMem_of_hexNumber? hq.hexDigit? hcode
      have hle := le_length_of_notMem_take hdigits
      have htwo := length_codeUnits_le code
      rw [List.length_cons]
      omega
  · obtain ⟨code, hcode, h⟩ := Option.map_eq_some_iff.mp h
    obtain ⟨rfl, rfl⟩ := Prod.mk.inj h
    have hle := fixedHex?_within hq hcode
    rw [List.length_singleton]
    omega

theorem length_escapedUnits_le (c : Char) :
    (escapedUnits c).length ≤ (codeUnits c.toNat).length := by
  have hpos := codeUnits_pos c.toNat
  unfold escapedUnits
  split <;> first | exact hpos | exact Nat.le_refl _

/-- In front of a quote an escape either is that of the quote or ends before it; then it denotes no
more code units than the characters behind its backslash. -/
theorem escape?_within (hq : IsQuote q) (hu : q ∉ u)
    (h : escape? (u ++ q :: w) = some (units, n)) :
    (u = [] ∧ units = [q.toNat] ∧ n = 1) ∨
      (n ≤ u.length ∧ units.length ≤ (textUnits (u.take n)).length) := by
  cases u with
  | nil =>
    left
    obtain rfl | rfl := hq <;> exact ⟨rfl, (Prod.mk.inj (Option.some.inj h)).imp Eq.symm Eq.symm⟩
  | cons c u =>
    right
    -- all escapes but the last denote no more code units than they have characters
    have hcount (hn : n ≤ (c :: u).length) (hunits : units.length ≤ n) :
        n ≤ (c :: u).length ∧ units.length ≤ (textUnits ((c :: u).take n)).length := by
      have hle := length_le_textUnits ((c :: u).take n)
      rw [List.length_take_of_le hn] at hle
      exact ⟨hn, by omega⟩
    simp only [List.cons_append, escape?] at h
    split at h
    · obtain ⟨hn, hunits⟩ := unicodeEscape?_within hq h
      exact hcount hn hunits
    split at h
    · obtain ⟨code, hcode, heq⟩ := Option.map_eq_some_iff.mp h
      obtain ⟨rfl, rfl⟩ := Prod.mk.inj heq
      exact hcount (Nat.succ_le_succ (fixedHex?_within hq hcode)) (by simp)
    split at h
    · split at h
      · obtain ⟨rfl, rfl⟩ := Prod.mk.inj (Option.some.inj h)
        exact hcount (by simp) (by simp)
      · cases h
    split at h
    · next hline =>
      obtain ⟨rfl, rfl⟩ := Prod.mk.inj (Option.some.inj h)
      have hne : u ≠ [] := by
        rintro rfl
        obtain rfl | rfl := hq <;> cases hline.2
      have hpos := List.length_pos_iff.mpr hne
      exact hcount (by rw [List.length_cons]; omega) (by simp)
    split at h
    · obtain ⟨rfl, rfl⟩ := Prod.mk.inj (Option.some.inj h)
      exact hcount (by simp) (by simp)
    · obtain ⟨rfl, rfl⟩ := Prod.mk.inj (Option.some.inj h)
      refine ⟨by simp, ?_⟩
      simpa [textUnits] using length_escapedUnits_le c

theorem readBody_eq_drop : readBody q n w = readBody q 0 (w.drop n) := by
  induction w generalizing n with
  | nil => cases n <;> rfl
  | cons c w ih =>
    cases n with
    | zero => rfl
    | succ n => exact ih

/-- Up to its first quote a literal denotes what it is made of only when it ends there and has no
escapes: else it denotes fewer code units, or a quote among the first of them. -/
theorem readBody_upTo (hq : IsQuote q) (hu : q ∉ u)
    (h : readBody q 0 (u ++ q :: w) = some (units, after)) :
    (after = w ∧ units.length ≤ (textUnits u).length ∧
        (units.length = (textUnits u).length → IsPlain q u)) ∨
      ∃ front back, units = front ++ q.toNat :: back ∧ front.length < (textUnits u).length := by
  induction hlength : u.length using Nat.strongRecOn generalizing u units with
  | ind length ih =>
  cases u with
  | nil =>
    left
    obtain ⟨rfl, rfl⟩ : [] = units ∧ w = after := by simpa [readBody] using h
    exact ⟨rfl, Nat.le_refl _, fun _ => List.forall_mem_nil _⟩
  | cons c u =>
    obtain ⟨hc, hrest⟩ := not_or.mp (mt List.mem_cons.mpr hu)
    have hunits : (textUnits (c :: u)).length = (codeUnits c.toNat).length + (textUnits u).length := by
      rw [textUnits_cons, List.length_append]
    have hpos := codeUnits_pos c.toNat
    rw [List.length_cons] at hlength
    rw [List.cons_append] at h
    by_cases hline : c = '\n' ∨ c = '\r'
    · simp [readBody, Ne.symm hc, hline] at h
    by_cases hescape : c = '\\'
    · subst hescape
      obtain ⟨escaped, n, more, hescaped, hmore, rfl⟩ := (readBody_backslash hc).mp h
      obtain ⟨rfl, rfl, rfl⟩ | ⟨hn, hle⟩ := escape?_within hq hrest hescaped
      · exact .inr ⟨[], more, rfl, by rw [List.length_nil]; omega⟩
      have hsplit : (textUnits u).length =
          (textUnits (u.take n)).length + (textUnits (u.drop n)).length := by
        rw [← List.length_append, ← textUnits_append, List.take_append_drop]
      rw [readBody_eq_drop, List.drop_append_of_le_length hn] at hmore
      obtain ⟨hafter, hshort, -⟩ | ⟨front, back, rfl, hfront⟩ :=
        ih (u.drop n).length (by rw [List.length_drop]; omega)
          (fun hq => hrest (List.mem_of_mem_drop hq)) hmore rfl
      · refine .inl ⟨hafter, ?_, fun heq => ?_⟩ <;> rw [List.length_append] at * <;> omega
      · refine .inr ⟨escaped ++ front, back, (List.append_assoc ..).symm, ?_⟩
        rw [List.length_append]
        omega
    · obtain ⟨more, hmore, rfl⟩ := (readBody_cons (Ne.symm hc) hline hescape).mp h
      obtain ⟨hafter, hshort, hplain⟩ | ⟨front, back, rfl, hfront⟩ :=
        ih u.length (by omega) hrest hmore rfl
      · refine .inl ⟨hafter, by rw [List.length_append]; omega, fun heq => ?_⟩
        rw [List.length_append] at heq
        exact List.forall_mem_cons.mpr
          ⟨⟨Ne.symm hc, hescape, not_or.mp hline⟩, hplain (by omega)⟩
      · refine .inr ⟨codeUnits c.toNat ++ front, back, (List.append_assoc ..).symm, ?_⟩
        rw [List.length_append]
        omega

theorem readBody_plain {body : List Char} (h : IsPlain q body) :
    readBody q 0 (body ++ q :: w) = some (textUnits body, w) := by
  induction body with
  | nil => simp [readBody, textUnits]
  | cons c body ih =>
    obtain ⟨⟨hquote, hescape, hline⟩, hbody⟩ := List.forall_mem_cons.mp h
    rw [List.cons_append, textUnits_cons]
    exact (readBody_cons hquote (not_or.mpr hline) hescape).mpr ⟨_, ih hbody, rfl⟩

/-- A text between quotes denotes itself exactly when it is plain. -/
theorem readBody_eq_some_iff (hq : IsQuote q) {body : List Char} :
    readBody q 0 (body ++ q :: w) = some (textUnits body, after) ↔ IsPlain q body ∧ after = w := by
  refine ⟨fun h => ?_, fun ⟨hplain, hafter⟩ => hafter ▸ readBody_plain hplain⟩
  have hunit := mem_textUnits_iff hq.toNat_lt
  by_cases hmem : q ∈ body
  · -- the text in front of the first quote is too short, and has no quote to denote
    obtain ⟨u, rest, rfl, hu⟩ := List.eq_append_cons_of_mem hmem
    rw [List.append_assoc, List.cons_append, textUnits_append, textUnits_cons] at h
    obtain ⟨-, hshort, -⟩ | ⟨front, back, heq, hfront⟩ := readBody_upTo hq hu h
    · have hpos := codeUnits_pos q.toNat
      simp only [List.length_append] at hshort
      omega
    · have hfirst : (textUnits u)[front.length]? = some q.toNat := by
        rw [← List.getElem?_append_left hfront, heq, List.getElem?_append_right (Nat.le_refl _)]
        simp
      exact absurd ((hunit u).mp (List.mem_of_getElem? hfirst)) hu
  · obtain ⟨hafter, -, hplain⟩ | ⟨front, back, heq, -⟩ := readBody_upTo hq hmem h
    · exact ⟨hplain rfl, hafter⟩
    · have hquote : q.toNat ∈ textUnits body := heq ▸ List.mem_append_right _ List.mem_cons_self
      exact absurd ((hunit body).mp hquote) hmem

end

/-! ## Unions of values -/

/-- The quotes that a value is written in. -/
def delimiter (value : String) : Char :=
  if isQuoted value.toList then value.toList.headD '\'' else '\''

/-- What a value says, without the quotes that it has already. -/
def content (value : String) : List Char :=
  if isQuoted value.toList then value.toList.tail.dropLast else value.toList

theorem exists_of_isQuoted {s : List Char} (h : isQuoted s = true) :
    ∃ q inner, IsQuote q ∧ s = q :: (inner ++ [q]) := by
  simp only [isQuoted, Bool.and_eq_true, Bool.or_eq_true, decide_eq_true_eq, beq_iff_eq] at h
  obtain ⟨hlength, hends⟩ := h
  obtain ⟨q, hq, hhead, hlast⟩ : ∃ q, IsQuote q ∧ s.head? = some q ∧ s.getLast? = some q := by
    obtain ⟨hhead, hlast⟩ | ⟨hhead, hlast⟩ := hends
    · exact ⟨_, .inl rfl, hhead, hlast⟩
    · exact ⟨_, .inr rfl, hhead, hlast⟩
  obtain ⟨rest, rfl⟩ := List.head?_eq_some_iff.mp hhead
  obtain ⟨front, hfront⟩ := List.getLast?_eq_some_iff.mp hlast
  cases front with
  | nil =>
    obtain rfl := (List.cons.inj hfront).2
    exact absurd hlength (Nat.lt_irrefl 1)
  | cons d inner =>
    obtain ⟨-, rfl⟩ := List.cons.inj hfront
    exact ⟨q, inner, hq, rfl⟩

/-- The literal of a value is what the value says between its quotes. -/
theorem toList_literal (value : String) :
    (literal value).toList = delimiter value :: (content value ++ [delimiter value]) := by
  unfold literal delimiter content
  split
  · next hquoted =>
    obtain ⟨q, inner, -, hvalue⟩ := exists_of_isQuoted hquoted
    simp [hvalue]
  · simp

theorem isQuote_delimiter (value : String) : IsQuote (delimiter value) := by
  unfold delimiter
  split
  · next hquoted =>
    obtain ⟨q, inner, hq, hvalue⟩ := exists_of_isQuoted hquoted
    rwa [hvalue]
  · exact .inl rfl

theorem skipTrivia?_quote {q : Char} (hq : IsQuote q) (body : List Char) :
    skipTrivia? .blank (q :: body) = some (q :: body) := by
  obtain rfl | rfl := hq <;> rfl

theorem readMember_space (text : List Char) : readMember (' ' :: text) = readMember text :=
  rfl

theorem readUnion_space (text : List Char) : readUnion (' ' :: text) = readUnion text := by
  rw [readUnion.eq_def, readUnion.eq_def text]
  simp only [readMember_space]

theorem readMember_quote {q : Char} (hq : IsQuote q) {body after : List Char} {units : List Nat} :
    readMember (q :: body) = some (units, after) ↔
      ∃ behind, readBody q 0 body = some (units, behind) ∧
        skipTrivia? .blank behind = some after := by
  have hquote : q = '\'' ∨ q = '"' := hq
  simp [readMember, skipTrivia?_quote hq, hquote, Option.bind_eq_some_iff, and_left_comm]

/-- A value is read from its literal exactly when it is plain for its quotes. -/
theorem readMember_literal_iff (value : String) (tail after : List Char) :
    readMember ((literal value).toList ++ tail) = some (textUnits (content value), after) ↔
      IsPlain (delimiter value) (content value) ∧ skipTrivia? .blank tail = some after := by
  have hq := isQuote_delimiter value
  rw [toList_literal, List.cons_append, List.append_assoc, List.singleton_append,
    readMember_quote hq]
  simp only [readBody_eq_some_iff hq]
  exact ⟨fun ⟨_, ⟨hplain, hbehind⟩, hskip⟩ => ⟨hplain, hbehind ▸ hskip⟩,
    fun ⟨hplain, hskip⟩ => ⟨tail, ⟨hplain, rfl⟩, hskip⟩⟩

section

variable {text rest : List Char} {units : List Nat} {more : List (List Nat)}

theorem readUnion_last (h : readMember text = some (units, [])) : readUnion text = some [units] := by
  rw [readUnion.eq_def]
  split <;> simp_all

theorem readUnion_bar (h : readMember text = some (units, '|' :: rest)) :
    readUnion text = (readUnion rest).map (units :: ·) := by
  rw [readUnion.eq_def]
  split <;> simp_all

/-- A union begins with what its first literal denotes. -/
theorem exists_readMember (h : readUnion text = some (units :: more)) :
    ∃ after, readMember text = some (units, after) := by
  rw [readUnion.eq_def] at h
  split at h
  · next hread =>
    obtain ⟨rfl, -⟩ := List.cons.inj (Option.some.inj h)
    exact ⟨_, hread⟩
  · next hread =>
    obtain ⟨_, -, heq⟩ := Option.map_eq_some_iff.mp h
    obtain ⟨rfl, -⟩ := List.cons.inj heq
    exact ⟨_, hread⟩
  · cases h

end

/-- The values as a union. -/
def valuesText (values : List String) : String :=
  " | ".intercalate (values.map literal)

/-- What the values say, in code units. -/
def valuesUnits (values : List String) : List (List Nat) :=
  values.map fun value => textUnits (content value)

theorem toList_valuesText_cons (value next : String) (values : List String) :
    (valuesText (value :: next :: values)).toList =
      (literal value).toList ++ ' ' :: '|' :: ' ' :: (valuesText (next :: values)).toList := by
  simp [valuesText, String.toList_intercalate]

/-- Values are read from their union exactly when each is plain for its quotes. -/
theorem readUnion_iff (values : List String) (hne : values ≠ []) :
    readUnion (valuesText values).toList = some (valuesUnits values) ↔
      ∀ value ∈ values, IsPlain (delimiter value) (content value) := by
  induction values with
  | nil => exact absurd rfl hne
  | cons value values ih =>
    have hliteral := readMember_literal_iff value
    cases values with
    | nil =>
      have htext : (valuesText [value]).toList = (literal value).toList ++ [] := by
        simp [valuesText]
      rw [htext, List.forall_mem_singleton]
      refine ⟨fun h => ?_, fun hplain => ?_⟩
      · obtain ⟨after, hafter⟩ := exists_readMember h
        exact ((hliteral [] after).mp hafter).1
      · exact readUnion_last ((hliteral [] []).mpr ⟨hplain, rfl⟩)
    | cons next values =>
      -- behind the literal the bar is the next token
      have hbar (hplain : IsPlain (delimiter value) (content value)) :
          readUnion (valuesText (value :: next :: values)).toList =
            (readUnion (valuesText (next :: values)).toList).map
              (textUnits (content value) :: ·) := by
        rw [toList_valuesText_cons, readUnion_bar ((hliteral _ _).mpr ⟨hplain, rfl⟩),
          readUnion_space]
      have ih := ih (List.cons_ne_nil next values)
      rw [List.forall_mem_cons, ← ih]
      refine ⟨fun h => ?_, fun ⟨hplain, hrest⟩ => by rw [hbar hplain, hrest]; rfl⟩
      have hplain : IsPlain (delimiter value) (content value) := by
        rw [toList_valuesText_cons] at h
        obtain ⟨after, hafter⟩ := exists_readMember h
        exact ((hliteral _ after).mp hafter).1
      rw [hbar hplain] at h
      obtain ⟨more, hmore, heq⟩ := Option.map_eq_some_iff.mp h
      rw [(List.cons.inj heq).2] at hmore
      exact ⟨hplain, hmore⟩

/-- **The values of a string in its declaration**: the alias of a string entity reads, as
TypeScript, as the union of exactly its values if and only if each value stands for itself between
the quotes it is written in. -/
theorem entityText?_union_iff (r : TypeTextRules) {v : EntityView} (hkind : v.kind? = some .string)
    (hvalues : v.members.enums ≠ []) (hname : v.name ≠ signalName) :
    ∃ side : String,
      entityText? r v = some ("export type " ++ Identifier.declaredName v.name ++ " = " ++ side ++ ";") ∧
        (readUnion side.toList =
            some (v.members.enums.map fun m => textUnits (content m.shownName)) ↔
          ∀ m ∈ v.members.enums, IsPlain (delimiter m.shownName) (content m.shownName)) := by
  refine ⟨valuesText (v.members.enums.map MemberView.shownName), ?_, ?_⟩
  · rw [entityText?, if_neg hname, hkind]
    simp [hvalues, unionText, valuesText, Function.comp_def]
  · have hread := readUnion_iff (v.members.enums.map MemberView.shownName) (by simpa)
    simpa [valuesUnits, Function.comp_def] using hread

/-- Values are read back with the quotes of the descriptor or with those put around them. -/
theorem entityText?_union_iff_orientation :
    let e : Entity := ⟨"orientation",
      { name := "Orientation"
        kind := "enum class"
        members := { enums := [{ name := some "horizontal" }, { name := some "'vertical'" }] } }⟩
    ∃ v side, e.view {} .js = .ok (some v) ∧
      entityText? {} v = some ("export type Orientation = " ++ side ++ ";") ∧
      readUnion side.toList = some [textUnits "horizontal".toList, textUnits "vertical".toList] := by
  intro e
  let v : EntityView :=
    { id := "orientation"
      name := "Orientation"
      kind := "String"
      members := { enums := [{ name := some "horizontal" }, { name := some "'vertical'" }] } }
  have hv : e.view {} .js = .ok (some v) := by rfl
  obtain ⟨side, hside, hread⟩ :=
    entityText?_union_iff {} (v := v) (by decide) (List.cons_ne_nil _ _) (by decide)
  have hname : Identifier.declaredName v.name = "Orientation" := by decide +kernel
  rw [hname] at hside
  exact ⟨v, side, hv, hside, hread.mpr (by decide)⟩

/-- A quote in a value ends its literal too early. -/
theorem entityText?_union_apostrophe :
    let e : Entity := ⟨"mood",
      { name := "Mood", kind := "enum class", members := { enums := [{ name := some "it's" }] } }⟩
    ∃ v, e.view {} .js = .ok (some v) ∧ entityText? {} v = some "export type Mood = 'it's';" ∧
      readUnion "'it's'".toList ≠ some [textUnits "it's".toList] := by
  intro e
  let v : EntityView :=
    { id := "mood", name := "Mood", kind := "String", members := { enums := [{ name := some "it's" }] } }
  have hv : e.view {} .js = .ok (some v) := by rfl
  have hread := readUnion_iff ["it's"] (List.cons_ne_nil _ _)
  have hquote : ¬ IsPlain (delimiter "it's") (content "it's") := by decide
  have htext : entityText? {} v = some "export type Mood = 'it's';" := by decide +kernel
  exact ⟨v, hv, htext, fun h => hquote (hread.mp h _ List.mem_cons_self)⟩

end Declaration

end ApiSurface
