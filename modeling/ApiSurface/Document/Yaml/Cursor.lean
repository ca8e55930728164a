import ApiSurface.Document.Json

/-!
# Places in a YAML text

The reader sees a text in which every line ends with a line feed; only the two separators of lines
and paragraphs stand for themselves, and they end a line too. A `Cursor` is what remains of a text
together with its `Position`. Columns decide on the nesting of blocks, and a key must begin on the
line and within 1024 bytes of its colon, so a place counts lines, characters and bytes.
-/

namespace ApiSurface.Document.Yaml

/-! ## Characters -/

/-- Whether a character may stand in a document at all. -/
def isAllowed (c : Char) : Bool :=
  let n := c.toNat
  n == 0x9 || n == 0xA || n == 0xD || (0x20 ≤ n && n ≤ 0x7E) || n == 0x85
    || (0xA0 ≤ n && n ≤ 0xD7FF) || (0xE000 ≤ n && n ≤ 0xFFFD) || 0x10000 ≤ n

/-- The text with a line feed for a carriage return, for both in a row and for a next-line
character. -/
def unifyLineEnds : List Char → List Char
  | [] => []
  | '\r' :: '\n' :: rest => '\n' :: unifyLineEnds rest
  | c :: rest => (if c == '\r' || c == '\u0085' then '\n' else c) :: unifyLineEnds rest

/-- Whether a line holds a blank at this place. -/
def isGap (c : Char) : Bool :=
  c == ' ' || c == '\t'

/-- Whether a line ends with this character. -/
def isBreak (c : Char) : Bool :=
  c == '\n' || c == '\u2028' || c == '\u2029'

/-- Whether a character can belong to the name of an anchor, a directive or a handle. -/
def isNameChar (c : Char) : Bool :=
  c.isAlphanum || c == '_' || c == '-'

/-- Whether a line, or the whole text, ends here or has a blank here. -/
def endsWord : List Char → Bool
  | [] => true
  | c :: _ => isGap c || isBreak c

/-- Whether the text starts with a mark that begins or ends a document. -/
def startsMark : List Char → Bool
  | '-' :: '-' :: '-' :: rest => endsWord rest
  | '.' :: '.' :: '.' :: rest => endsWord rest
  | _ => false

/-! ## Places -/

/-- How far something stands from the start of the text and of its line. -/
structure Position where
  /-- The bytes before it. -/
  offset : Nat := 0
  /-- The lines before its own. -/
  line : Nat := 0
  /-- The characters before it on its line. -/
  column : Nat := 0

/-- The place behind a character. -/
def Position.next (p : Position) (c : Char) : Position :=
  if isBreak c then ⟨p.offset + c.utf8Size, p.line + 1, 0⟩
  else ⟨p.offset + c.utf8Size, p.line, p.column + 1⟩

/-- A place and the text from there on. -/
structure Cursor extends Position where
  rest : List Char

namespace Cursor

/-- Goes past a number of characters. -/
def advance : Nat → Cursor → Cursor
  | 0, c => c
  | n + 1, ⟨p, rest⟩ =>
    match rest with
    | [] => ⟨p, []⟩
    | ch :: rest => advance n ⟨p.next ch, rest⟩

/-- Whether a mark that begins or ends a document stands here. -/
def atMark (c : Cursor) : Bool :=
  c.column == 0 && startsMark c.rest

end Cursor

/-- Passes blanks, comments, ends of lines and a byte order mark at the start of a line, which takes
up a column of it. Outside brackets a key may begin on each new line, and a tab does not count as a
blank where a key may begin. The answer says where the next token stands and whether it may begin a
key. -/
def skipGaps (flow : Bool) (inComment keyAllowed : Bool) (p : Position) :
    List Char → Cursor × Bool
  | [] => (⟨p, []⟩, keyAllowed)
  | c :: rest =>
    if isBreak c then skipGaps flow false (keyAllowed || !flow) (p.next c) rest
    else if inComment || c == ' ' || (c == '\t' && (flow || !keyAllowed)) ||
        (c == '\ufeff' && p.column == 0) then
      skipGaps flow inComment keyAllowed (p.next c) rest
    else if c == '#' then skipGaps flow true keyAllowed (p.next c) rest
    else (⟨p, c :: rest⟩, keyAllowed)

end ApiSurface.Document.Yaml
