import ApiSurface.Document.Yaml.Cursor

/-!
# Tags and directives

A tag in front of a node says what kind of value the node is. It is written in full between `!<` and
`>`, or as a handle with a suffix; the handles `!` and `!!` and those that a document declares stand
for the beginnings of tags. Any character of a tag may be written by its bytes in hexadecimal.
-/

namespace ApiSurface.Document.Yaml

/-- A tag as it is written. Without a handle the suffix is the whole tag. -/
structure Tag where
  handle : List Char
  suffix : List Char

/-- A line in front of a document that begins with `%`. -/
inductive Directive where
  /-- The version of the format. -/
  | version (major minor : Nat)
  /-- What a handle stands for. -/
  | handle (handle expansion : List Char)

/-- Whether a character can stand in a tag; brackets and commas can in a tag that is written in
full. -/
def isTagChar (full : Bool) (c : Char) : Bool :=
  isNameChar c || ";/?:@&=+$.%!~*'()".toList.contains c || (full && ",[]".toList.contains c)

/-- Replaces escaped bytes by the characters they make up. `missing` bytes of a character with the
leading bits `code` are still to come. -/
def unescapeTag (missing code : Nat) : List Char → Option (List Char)
  | [] => if missing = 0 then some [] else none
  | '%' :: a :: b :: rest => do
    let byte ← Json.hexNumber? [a, b]
    if missing = 0 then
      if byte < 0x80 then (unescapeTag 0 0 rest).map (Char.ofNat byte :: ·)
      else if byte < 0xC0 then none
      else if byte < 0xE0 then unescapeTag 1 (byte % 0x20) rest
      else if byte < 0xF0 then unescapeTag 2 (byte % 0x10) rest
      else if byte < 0xF8 then unescapeTag 3 (byte % 0x08) rest
      else none
    else if byte < 0x80 || 0xC0 ≤ byte then none
    else
      let code := 0x40 * code + byte % 0x40
      if missing = 1 then
        (unescapeTag 0 0 rest).map ((Json.charOf? code).getD '\ufffd' :: ·)
      else unescapeTag (missing - 1) code rest
  | c :: rest =>
    if missing = 0 && c != '%' then (unescapeTag 0 0 rest).map (c :: ·) else none

/-- The text of part of a tag. It ends before a null character. -/
def tagText? (written : List Char) : Option (List Char) :=
  (unescapeTag 0 0 written).map (·.takeWhile (· != '\x00'))

/-- Reads a tag, which begins with `!`, and counts its characters. A `!` alone is a tag without a
handle. -/
def readTag : List Char → Option (Tag × Nat)
  | '!' :: '<' :: rest => do
    let written := rest.takeWhile (isTagChar true)
    let text ← tagText? written
    if written.isEmpty || (rest.drop written.length).head? != some '>' then none
    else some (⟨[], text⟩, written.length + 3)
  | s => do
    let name := (s.drop 1).takeWhile isNameChar
    let behind := s.drop (name.length + 1)
    match behind with
    | '!' :: rest =>
      let written := rest.takeWhile (isTagChar false)
      let text ← tagText? written
      if written.isEmpty then none
      else some (⟨'!' :: name ++ ['!'], text⟩, name.length + written.length + 2)
    | _ =>
      let written := behind.takeWhile (isTagChar false)
      let text ← tagText? (name ++ written)
      let tag : Tag := if text.isEmpty then ⟨[], ['!']⟩ else ⟨['!'], text⟩
      some (tag, name.length + written.length + 1)

/-- Reads a number of at most nine digits. -/
def readVersionPart (s : List Char) : Option (Nat × List Char) :=
  let (digits, rest) := Json.spanDigits s
  if digits.isEmpty || 9 < digits.length then none else some (Json.decimal digits, rest)

/-- Reads the handle that a directive declares: `!` alone or with a name and another `!`. -/
def readHandle : List Char → Option (List Char × List Char)
  | '!' :: rest =>
    let name := rest.takeWhile isNameChar
    match rest.drop name.length with
    | '!' :: behind => some ('!' :: name ++ ['!'], behind)
    | behind => if name.isEmpty then some (['!'], behind) else none
  | _ => none

/-- Reads a directive from its line, without the `%`. A comment may follow it. -/
def readDirective (line : List Char) : Option Directive := do
  let name := line.takeWhile isNameChar
  let behind := line.drop name.length
  if !endsWord behind then none
  else
    let value := behind.dropWhile isGap
    let (directive, rest) ← match String.ofList name with
      | "YAML" => do
        let (major, rest) ← readVersionPart value
        match rest with
        | '.' :: rest =>
          let (minor, rest) ← readVersionPart rest
          some (Directive.version major minor, rest)
        | _ => none
      | "TAG" => do
        let (handle, rest) ← readHandle value
        let written := (rest.dropWhile isGap).takeWhile (isTagChar true)
        let after := (rest.dropWhile isGap).drop written.length
        let expansion ← tagText? written
        if !rest.head?.any isGap || written.isEmpty || !endsWord after then none
        else some (Directive.handle handle expansion, after)
      | _ => none
    let rest := rest.dropWhile isGap
    if rest.isEmpty || rest.head? = some '#' then some directive else none

end ApiSurface.Document.Yaml
