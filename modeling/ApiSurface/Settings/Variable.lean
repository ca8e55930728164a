import ApiSurface.Document.Json
import ApiSurface.Text.Blank

/-!
# Values of environment variables

The text of a variable is `[a, b]` for a list, `{key=value}` for a mapping, `true` or `false`, a
number, a text in double quotes, one character in single quotes or plain text. Plain text ends at a
comma, a bracket or a brace. A text that does not read as one value to its end stands for itself.
-/

namespace ApiSurface.Settings.Variable

open Document (Value)

/-- The blanks that may stand around values. -/
def isSpace (c : Char) : Bool :=
  c == ' ' || c == '\t' || c == '\n' || c == '\r' || c == '\x0c'

/-- Whether a character ends plain text. -/
def endsPlain (c : Char) : Bool :=
  c == ',' || c == '\x7b' || c == '\x7d' || c == '[' || c == ']'

/-- Whether a character can stand in a key without quotes. -/
def isKeyChar (c : Char) : Bool :=
  c.isAlphanum || c == '_' || c == '-'

/-- The character of a one-letter escape. -/
def shortEscape? : Char → Option Char
  | '"' => some '"'
  | '\\' => some '\\'
  | 'b' => some '\x08'
  | 'f' => some '\x0c'
  | 'n' => some '\n'
  | 'r' => some '\r'
  | 't' => some '\t'
  | _ => none

/-- Reads the rest of a text up to its closing quote. `skip` characters belong to an escape that has
been read already. -/
def readText : Nat → List Char → List Char → Option (List Char × List Char)
  | _, _, [] => none
  | skip + 1, read, _ :: rest => readText skip read rest
  | 0, read, c :: rest =>
    if c == '"' then some (read.reverse, rest)
    else if c == '\\' then
      match rest with
      | [] => none
      | e :: behind =>
        if e == 'u' || e == 'U' then
          let width := if e == 'u' then 4 else 8
          if behind.length < width then none
          else match (Document.Json.hexNumber? (behind.take width)).bind Document.Json.charOf? with
            | some char => readText (width + 1) (char :: read) rest
            | none => none
        else match shortEscape? e with
          | some char => readText 1 (char :: read) rest
          | none => none
    else if c.toNat < 0x20 && c != '\t' || c == '\x7f' then none
    else readText 0 (c :: read) rest

/-- The value of plain text: a number if it spells one. -/
def plainValue (s : List Char) : Value :=
  let written := String.ofList s
  let (negative, digits) := match s with
    | '-' :: rest => (true, rest)
    | '+' :: rest => (false, rest)
    | rest => (false, rest)
  let (whole, behind) := Document.Json.spanDigits digits
  match behind with
  | [] =>
    let n : Int := Document.Json.decimal whole
    if whole.isEmpty then .text written
    else if negative then if n ≤ Nat.pow 2 63 then .integer (-n) else .text written
    else if n < Nat.pow 2 64 then .integer n else .text written
  | '.' :: behind =>
    let (fraction, behind) := Document.Json.spanDigits behind
    if whole.isEmpty && fraction.isEmpty then .text written
    else match Document.Json.readExponent behind with
      | some (_, []) => .real written
      | _ => .text written
  | _ => .text written

mutual

/-- Reads a value with the blanks around it. -/
def readValue : Nat → List Char → Option (Value × List Char)
  | 0, _ => none
  | fuel + 1, s =>
    let read : Option (Value × List Char) :=
      match s.dropWhile isSpace with
      | 't' :: 'r' :: 'u' :: 'e' :: rest => some (.bool true, rest)
      | 'f' :: 'a' :: 'l' :: 's' :: 'e' :: rest => some (.bool false, rest)
      | '\x7b' :: rest =>
        (readFields fuel rest).map fun (fields, rest) => (.map (Document.ofFields fields), rest)
      | '[' :: rest => (readItems fuel rest).map fun (items, rest) => (.list items, rest)
      | '"' :: rest => (readText 0 [] rest).map fun (t, rest) => (.text (String.ofList t), rest)
      | '\'' :: c :: '\'' :: rest => some (.text (String.singleton c), rest)
      | '\'' :: _ => none
      | s => some (plainValue (Text.trim (s.takeWhile (!endsPlain ·))), s.dropWhile (!endsPlain ·))
    read.map fun (value, rest) => (value, rest.dropWhile isSpace)

/-- Reads the items of a list up to its end, before which a comma may stand. -/
def readItems : Nat → List Char → Option (List Value × List Char)
  | 0, _ => none
  | _ + 1, ']' :: rest => some ([], rest)
  | fuel + 1, s => do
    let (item, rest) ← readValue fuel s
    match rest with
    | ',' :: rest =>
      let (items, rest) ← readItems fuel rest
      some (item :: items, rest)
    | ']' :: rest => some ([item], rest)
    | _ => none

/-- Reads the fields of a mapping up to its end, before which a comma may stand. -/
def readFields : Nat → List Char → Option (List (String × Value) × List Char)
  | 0, _ => none
  | _ + 1, '\x7d' :: rest => some ([], rest)
  | fuel + 1, s => do
    let (key, rest) ← match s.dropWhile isSpace with
      | '"' :: rest => readText 0 [] rest
      | rest =>
        if (rest.takeWhile isKeyChar).isEmpty then none
        else some (rest.takeWhile isKeyChar, rest.dropWhile isKeyChar)
    match rest.dropWhile isSpace with
    | '=' :: rest =>
      let (value, rest) ← readValue fuel rest
      match rest with
      | ',' :: rest =>
        let (fields, rest) ← readFields fuel rest
        some ((String.ofList key, value) :: fields, rest)
      | '\x7d' :: rest => some ([(String.ofList key, value)], rest)
      | _ => none
    | _ => none

end

/-- The value that the text of a variable stands for. -/
def read (text : String) : Value :=
  match readValue (2 * text.length + 2) text.toList with
  | some (value, []) => value
  | _ => .text text

end ApiSurface.Settings.Variable
