import ApiSurface.Document.Double
import ApiSurface.Document.Value

/-!
# Reading and writing JSON

`Json.read?` accepts exactly one value with blanks around it. Lists and mappings may be nested 127
deep, text must not hold raw control characters, and a number must not be beyond the finite range of
double precision, in which it is worked out from the digits that fit in 64 bits. `Json.pretty`
writes a value over several lines, two spaces to a level.
-/

namespace ApiSurface.Document.Json

/-! ## Reading -/

/-- The blanks that may stand between tokens. -/
def isSpace (c : Char) : Bool :=
  c == ' ' || c == '\n' || c == '\t' || c == '\r'

/-- The value of a hexadecimal digit. -/
def hexDigit? (c : Char) : Option Nat :=
  if '0' ≤ c ∧ c ≤ '9' then some (c.toNat - '0'.toNat)
  else if 'a' ≤ c ∧ c ≤ 'f' then some (c.toNat - 'a'.toNat + 10)
  else if 'A' ≤ c ∧ c ≤ 'F' then some (c.toNat - 'A'.toNat + 10)
  else none

/-- The number written by hexadecimal digits; none when one of them is something else. -/
def hexNumber? (digits : List Char) : Option Nat :=
  digits.foldlM (fun n c => (hexDigit? c).map (16 * n + ·)) 0

/-- The character of a code point, unless it is a surrogate or too large. -/
def charOf? (n : Nat) : Option Char :=
  if h : n.isValidChar then some (Char.ofNatAux n h) else none

/-- The character of a one-letter escape. -/
def shortEscape? : Char → Option Char
  | '"' => some '"'
  | '\\' => some '\\'
  | '/' => some '/'
  | 'b' => some '\x08'
  | 'f' => some '\x0c'
  | 'n' => some '\n'
  | 'r' => some '\r'
  | 't' => some '\t'
  | _ => none

/-- Reads the rest of a text up to its closing quote. A code point beyond the first plane is escaped
as a pair of surrogates. -/
def readText (read : List Char) : List Char → Option (List Char × List Char)
  | '"' :: rest => some (read.reverse, rest)
  | '\\' :: 'u' :: a :: b :: c :: d :: rest => do
    let unit ← hexNumber? [a, b, c, d]
    if 0xD800 ≤ unit ∧ unit < 0xDC00 then
      match rest with
      | '\\' :: 'u' :: e :: f :: g :: h :: rest =>
        let low ← hexNumber? [e, f, g, h]
        if 0xDC00 ≤ low ∧ low < 0xE000 then
          let char ← charOf? (0x10000 + (unit - 0xD800) * 0x400 + (low - 0xDC00))
          readText (char :: read) rest
        else none
      | _ => none
    else
      let char ← charOf? unit
      readText (char :: read) rest
  | '\\' :: c :: rest => do
    let char ← shortEscape? c
    readText (char :: read) rest
  | c :: rest => if c.toNat < 0x20 then none else readText (c :: read) rest
  | [] => none

/-- Cuts the digits off the front of a text. -/
def spanDigits (s : List Char) : List Char × List Char :=
  (s.takeWhile Char.isDigit, s.dropWhile Char.isDigit)

/-- The number written by decimal digits. -/
def decimal (digits : List Char) : Nat :=
  digits.foldl (fun n c => 10 * n + (c.toNat - '0'.toNat)) 0

/-- The digits behind a point, if there is one; none when the point is followed by no digit. -/
def readFraction : List Char → Option (List Char × List Char)
  | '.' :: rest =>
    let (digits, rest) := spanDigits rest
    if digits.isEmpty then none else some (digits, rest)
  | rest => some ([], rest)

/-- The power of ten behind `e` or `E`, if there is one; none when it has no digit. -/
def readExponent : List Char → Option (Option Int × List Char)
  | [] => some (none, [])
  | c :: rest =>
    if c == 'e' || c == 'E' then
      let (negative, rest) := match rest with
        | '-' :: rest => (true, rest)
        | '+' :: rest => (false, rest)
        | rest => (false, rest)
      let (digits, rest) := spanDigits rest
      if digits.isEmpty then none
      else
        let size : Int := decimal digits
        some (some (if negative then -size else size), rest)
    else some (none, c :: rest)

/-- Appends digits to a number as long as it fits in 64 bits, and gives the digits left over. -/
def takeDigits (n : Nat) : List Char → Nat × List Char
  | [] => (n, [])
  | c :: rest =>
    let more := 10 * n + (c.toNat - '0'.toNat)
    if more < Nat.pow 2 64 then takeDigits more rest else (n, c :: rest)

/-- Whether a number with a fraction or an exponent has a finite value. Of the digits that do not
fit in 64 bits those in front of the point count as zeros, and those behind it do not count. -/
def isFinite (whole fraction : List Char) (exponent : Int) : Bool :=
  let (n, zeros) := takeDigits 0 whole
  let (n, unused) := takeDigits n fraction
  let places := fraction.length - unused.length
  n == 0 || Double.isFiniteProduct n (zeros.length - places + exponent)

/-- Reads a number. It is an integer when it has neither a fraction nor an exponent and fits in 64
bits. -/
def readNumber (s : List Char) : Option (Value × List Char) := do
  let (negative, unsigned) := match s with
    | '-' :: rest => (true, rest)
    | rest => (false, rest)
  let (whole, rest) := spanDigits unsigned
  if whole.isEmpty || (whole.length > 1 && whole.head? == some '0') then none
  else
    let (fraction, rest) ← readFraction rest
    let (exponent, rest) ← readExponent rest
    let written := String.ofList (s.take (s.length - rest.length))
    let digits := decimal whole
    if fraction.isEmpty ∧ exponent.isNone ∧ !negative ∧ digits < Nat.pow 2 64 then
      some (.integer digits, rest)
    else if fraction.isEmpty ∧ exponent.isNone ∧ negative ∧ 0 < digits ∧ digits ≤ Nat.pow 2 63 then
      some (.integer (-digits), rest)
    else if isFinite whole fraction (exponent.getD 0) then some (.real written, rest)
    else none

/-- Removes a word from the front of a text. -/
def dropWord? (word : String) (s : List Char) : Option (List Char) :=
  if word.toList.isPrefixOf s then some (s.drop word.length) else none

mutual

/-- Reads a value, with the levels of nesting that are left. -/
def readValue : Nat → Nat → List Char → Option (Value × List Char)
  | 0, _, _ => none
  | fuel + 1, room, s =>
    match s.dropWhile isSpace with
    | '"' :: rest => (readText [] rest).map fun (t, rest) => (.text (String.ofList t), rest)
    | '[' :: rest =>
      if room = 0 then none
      else match rest.dropWhile isSpace with
        | ']' :: rest => some (.list [], rest)
        | rest => (readItems fuel (room - 1) rest).map fun (items, rest) => (.list items, rest)
    | '\x7b' :: rest =>
      if room = 0 then none
      else match rest.dropWhile isSpace with
        | '\x7d' :: rest => some (.map [], rest)
        | rest =>
          (readFields fuel (room - 1) rest).map fun (fields, rest) =>
            (.map (ofFields fields), rest)
    | s =>
      match dropWord? "null" s, dropWord? "true" s, dropWord? "false" s with
      | some rest, _, _ => some (.null, rest)
      | _, some rest, _ => some (.bool true, rest)
      | _, _, some rest => some (.bool false, rest)
      | none, none, none => readNumber s

/-- Reads the items of a list up to its end; there is at least one. -/
def readItems : Nat → Nat → List Char → Option (List Value × List Char)
  | 0, _, _ => none
  | fuel + 1, room, s => do
    let (item, rest) ← readValue fuel room s
    match rest.dropWhile isSpace with
    | ']' :: rest => some ([item], rest)
    | ',' :: rest =>
      let (items, rest) ← readItems fuel room rest
      some (item :: items, rest)
    | _ => none

/-- Reads the fields of a mapping up to its end; there is at least one. -/
def readFields : Nat → Nat → List Char → Option (List (String × Value) × List Char)
  | 0, _, _ => none
  | fuel + 1, room, s =>
    match s.dropWhile isSpace with
    | '"' :: rest => do
      let (key, rest) ← readText [] rest
      match rest.dropWhile isSpace with
      | ':' :: rest =>
        let (value, rest) ← readValue fuel room rest
        match rest.dropWhile isSpace with
        | '\x7d' :: rest => some ([(String.ofList key, value)], rest)
        | ',' :: rest =>
          let (fields, rest) ← readFields fuel room rest
          some ((String.ofList key, value) :: fields, rest)
        | _ => none
      | _ => none
    | _ => none

end

/-- Reads a whole text as one value. -/
def read? (s : List Char) : Option Value :=
  match readValue (2 * s.length + 2) 127 s with
  | some (value, rest) => if rest.all isSpace then some value else none
  | none => none

/-! ## Writing -/

/-- The digit for a number below sixteen. -/
def hexChar (n : Nat) : Char :=
  (Nat.toDigits 16 n).headD '0'

/-- A character as it stands in a text. Only quotes, backslashes and control characters below the
space are escaped. -/
def escapeChar (c : Char) : List Char :=
  if c = '"' then ['\\', '"']
  else if c = '\\' then ['\\', '\\']
  else if c = '\x08' then ['\\', 'b']
  else if c = '\x0c' then ['\\', 'f']
  else if c = '\n' then ['\\', 'n']
  else if c = '\r' then ['\\', 'r']
  else if c = '\t' then ['\\', 't']
  else if c.toNat < 0x20 then ['\\', 'u', '0', '0', hexChar (c.toNat / 16), hexChar (c.toNat % 16)]
  else [c]

/-- A text in quotes. -/
def quote (s : String) : String :=
  "\"" ++ String.ofList (s.toList.flatMap escapeChar) ++ "\""

/-- The start of a line at a level of nesting. -/
def newline (level : Nat) : String :=
  "\n" ++ String.ofList (List.replicate (2 * level) ' ')

mutual

/-- A value written at a level of nesting. -/
def prettyAt (level : Nat) : Value → String
  | .null => "null"
  | .bool b => if b then "true" else "false"
  | .integer n => toString n
  | .real written => written
  | .text s => quote s
  | .list [] => "[]"
  | .list (item :: items) =>
    "[" ++ newline (level + 1) ++ prettyAt (level + 1) item ++ prettyItems (level + 1) items
      ++ newline level ++ "]"
  | .map [] => "\x7b\x7d"
  | .map ((key, value) :: fields) =>
    "\x7b" ++ newline (level + 1) ++ quote key ++ ": " ++ prettyAt (level + 1) value
      ++ prettyFields (level + 1) fields ++ newline level ++ "\x7d"

/-- The items behind the first one of a list. -/
def prettyItems (level : Nat) : List Value → String
  | [] => ""
  | item :: items => "," ++ newline level ++ prettyAt level item ++ prettyItems level items

/-- The fields behind the first one of a mapping. -/
def prettyFields (level : Nat) : List (String × Value) → String
  | [] => ""
  | (key, value) :: fields =>
    "," ++ newline level ++ quote key ++ ": " ++ prettyAt level value ++ prettyFields level fields

end

/-- A value over several lines, two spaces to a level. -/
def pretty (v : Value) : String :=
  prettyAt 0 v

end ApiSurface.Document.Json
