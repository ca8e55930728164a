import ApiSurface.Document.Yaml.Cursor

/-!
# Texts within lines

A plain scalar and one in single or double quotes may go on over several lines, which may end
anywhere between words. A single end of line reads as a space, and of several all but the first are
kept. The readers take the text at the scalar and return what it says and where reading goes on.
-/

namespace ApiSurface.Document.Yaml

/-! ## Folding -/

/-- What has been passed since the last character of a scalar. -/
inductive Passed where
  | nothing
  | blanks (s : List Char)
  /-- Ends of lines: the first one, unless it was escaped, and those behind it. -/
  | lines (first : Option Char) (more : List Char)

/-- Passes a blank. Blanks around the end of a line are dropped. -/
def Passed.blank (c : Char) : Passed → Passed
  | nothing => blanks [c]
  | blanks s => blanks (s ++ [c])
  | lines first more => lines first more

/-- Passes the end of a line. -/
def Passed.endLine (c : Char) : Passed → Passed
  | lines first more => lines first (more ++ [c])
  | _ => lines (some c) []

/-- Whether the end of a line has been passed. -/
def Passed.crossedLine : Passed → Bool
  | lines _ _ => true
  | _ => false

/-- What the passed blanks and ends of lines say. Only a line feed is folded into a space or into
the ends of lines behind it. -/
def Passed.fold : Passed → List Char
  | nothing => []
  | blanks s => s
  | lines (some '\n') [] => [' ']
  | lines (some '\n') more => more
  | lines first more => first.toList ++ more

/-! ## Plain scalars -/

/-- Whether a character is an indicator of flow collections. -/
def isFlowMark (c : Char) : Bool :=
  c == ',' || c == '[' || c == ']' || c == '\x7b' || c == '\x7d'

/-- Whether a plain scalar can start with this text. -/
def startsPlain (flow : Bool) : List Char → Bool
  | [] => false
  | c :: rest =>
    if c == '-' then !rest.head?.any isGap
    else if c == '?' || c == ':' then !flow && !endsWord rest
    else !(isGap c || isBreak c || isFlowMark c || "#&*!|>'\"%@\x60".toList.contains c)

/-- Reads a plain scalar on lines indented by at least `indent`. It ends before `: `, before a
comment, before the mark of a document and, in a flow collection, before an indicator. `read` holds
the characters read so far in reverse. The answer says also whether the scalar is followed by the
end of its line. -/
def readPlain (flow : Bool) (indent : Nat) (read : List Char) (passed : Passed) (p : Position) :
    List Char → Option (List Char × Bool × Cursor)
  | [] => some (read.reverse, passed.crossedLine, ⟨p, []⟩)
  | c :: rest =>
    if isBreak c then readPlain flow indent read (passed.endLine c) (p.next c) rest
    else if isGap c then
      if passed.crossedLine && p.column < indent && c == '\t' then none
      else readPlain flow indent read (passed.blank c) (p.next c) rest
    else
      let inside := passed matches .nothing
      if !inside && (c == '#' || (passed.crossedLine && !flow && p.column < indent)) ||
          (p.column == 0 && startsMark (c :: rest)) then
        some (read.reverse, passed.crossedLine, ⟨p, c :: rest⟩)
      else if flow && c == ':' && rest.head?.any (fun d => isFlowMark d || d == '?') then none
      else if (c == ':' && endsWord rest) || (flow && isFlowMark c) then
        some (read.reverse, passed.crossedLine, ⟨p, c :: rest⟩)
      else readPlain flow indent (c :: (passed.fold.reverse ++ read)) .nothing (p.next c) rest

/-! ## Quoted scalars -/

/-- Reads the rest of a text in single quotes, in which a quote is written twice. -/
def readSingle (read : List Char) (passed : Passed) (p : Position) :
    List Char → Option (List Char × Cursor)
  | [] => none
  | c :: rest =>
    if p.column == 0 && startsMark (c :: rest) then none
    else if isBreak c then readSingle read (passed.endLine c) (p.next c) rest
    else if isGap c then readSingle read (passed.blank c) (p.next c) rest
    else
      let read := passed.fold.reverse ++ read
      if c == '\'' then
        match rest with
        | '\'' :: rest => readSingle ('\'' :: read) .nothing ((p.next c).next c) rest
        | rest => some (read.reverse, ⟨p.next c, rest⟩)
      else readSingle (c :: read) .nothing (p.next c) rest

/-- The character of a one-letter escape. -/
def shortEscape? : Char → Option Char
  | '0' => some '\x00'
  | 'a' => some '\x07'
  | 'b' => some '\x08'
  | 't' => some '\t'
  | '\t' => some '\t'
  | 'n' => some '\n'
  | 'v' => some '\x0b'
  | 'f' => some '\x0c'
  | 'r' => some '\r'
  | 'e' => some '\x1b'
  | ' ' => some ' '
  | '"' => some '"'
  | '/' => some '/'
  | '\\' => some '\\'
  | 'N' => some '\u0085'
  | '_' => some '\u00a0'
  | 'L' => some '\u2028'
  | 'P' => some '\u2029'
  | _ => none

/-- The number of hexadecimal digits behind an escape letter. -/
def escapeWidth? : Char → Option Nat
  | 'x' => some 2
  | 'u' => some 4
  | 'U' => some 8
  | _ => none

/-- Reads the rest of a text in double quotes. An escaped end of line is dropped with the blanks
that follow it. `skip` characters belong to an escape that has been read already. -/
def readDouble (skip : Nat) (read : List Char) (passed : Passed) (p : Position) :
    List Char → Option (List Char × Cursor)
  | [] => none
  | c :: rest =>
    if skip != 0 then readDouble (skip - 1) read passed (p.next c) rest
    else if p.column == 0 && startsMark (c :: rest) then none
    else if isBreak c then readDouble 0 read (passed.endLine c) (p.next c) rest
    else if isGap c then readDouble 0 read (passed.blank c) (p.next c) rest
    else
      let read := passed.fold.reverse ++ read
      if c == '"' then some (read.reverse, ⟨p.next c, rest⟩)
      else if c == '\\' then
        match rest with
        | [] => none
        | e :: behind =>
          if isBreak e then readDouble 1 read (.lines none []) (p.next c) rest
          else match escapeWidth? e with
            | some width =>
              if (behind.take width).length < width then none
              else match (Json.hexNumber? (behind.take width)).bind Json.charOf? with
                | some char => readDouble (width + 1) (char :: read) .nothing (p.next c) rest
                | none => none
            | none =>
              match shortEscape? e with
              | some char => readDouble 1 (char :: read) .nothing (p.next c) rest
              | none => none
      else readDouble 0 (c :: read) .nothing (p.next c) rest

end ApiSurface.Document.Yaml
