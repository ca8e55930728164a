import ApiSurface.Document.Json

/-!
# What a plain scalar means

A scalar without quotes is the absent value, a flag, a number or a text. Numbers may be written in
decimal, with a leading `0x`, `0o` or `0b`, and with a sign; decimal digits behind a leading zero
are text. Words such as `yes` and `off` are text too.
-/

namespace ApiSurface.Document.Yaml

/-- The value of a digit in bases up to sixteen. -/
def digit? (base : Nat) (c : Char) : Option Nat :=
  (Json.hexDigit? c).filter (· < base)

/-- The number written in a base; none without digits or with a foreign one. -/
def numeral? (base : Nat) (s : List Char) : Option Nat :=
  if s.isEmpty then none
  else s.foldlM (fun n c => (digit? base c).map (base * n + ·)) 0

/-- A sign taken off the front of a text: whether it was a minus, and what follows. -/
def splitSign : List Char → Bool × List Char
  | '-' :: rest => (true, rest)
  | '+' :: rest => (false, rest)
  | s => (false, s)

/-- Decimal digits behind a leading zero, which are no number. -/
def isPaddedNumeral (s : List Char) : Bool :=
  let digits := (splitSign s).2
  1 < digits.length && digits.head? == some '0' && digits.all Char.isDigit

/-- The size of an unsigned integer in any of the four bases. -/
def magnitude? : List Char → Option Nat
  | '0' :: 'x' :: rest => numeral? 16 rest
  | '0' :: 'o' :: rest => numeral? 8 rest
  | '0' :: 'b' :: rest => numeral? 2 rest
  | s => numeral? 10 s

/-- The integer that a scalar spells. -/
def integer? (s : List Char) : Option Int :=
  if isPaddedNumeral s then none
  else
    let (negative, rest) := splitSign s
    (magnitude? rest).bind fun n =>
      if negative then if n ≤ Nat.pow 2 127 then some (-n) else none
      else if n < Nat.pow 2 128 then some n else none

/-- Whether a scalar spells a real number: one with digits that has a finite value, or the name of
one that has none. -/
def isReal (s : List Char) : Bool :=
  let (_, rest) := splitSign s
  let named := [".inf", ".Inf", ".INF"].contains (String.ofList rest)
    || [".nan", ".NaN", ".NAN"].contains (String.ofList s)
  let (whole, behind) := Json.spanDigits rest
  let (fraction, behind) := match behind with
    | '.' :: behind => Json.spanDigits behind
    | behind => ([], behind)
  let finite := match Json.readExponent behind with
    | some (exponent, []) =>
      Double.isFinite (Json.decimal (whole ++ fraction)) (exponent.getD 0 - fraction.length)
    | _ => false
  named || (!(whole.isEmpty && fraction.isEmpty) && finite)

/-- Whether a scalar spells the absent value. -/
def isNull (s : List Char) : Bool :=
  ["~", "null", "Null", "NULL"].contains (String.ofList s)

/-- The flag that a scalar spells. -/
def flag? (s : List Char) : Option Bool :=
  if ["true", "True", "TRUE"].contains (String.ofList s) then some true
  else if ["false", "False", "FALSE"].contains (String.ofList s) then some false
  else none

/-- The value of a plain scalar. -/
def resolve (s : List Char) : Value :=
  if s.isEmpty || isNull s then .null
  else match flag? s, integer? s with
    | some b, _ => .bool b
    | none, some n => .integer n
    | none, none =>
      if !isPaddedNumeral s && isReal s then .real (String.ofList s) else .text (String.ofList s)

/-- The value of a scalar with a tag, which must spell a value of the kind that the tag names. A tag
of a document's own has no meaning here, and any other tag makes a text of the scalar. -/
def resolveTagged? (tag s : List Char) : Option Value :=
  match String.ofList tag with
  | "tag:yaml.org,2002:null" => if isNull s then some .null else none
  | "tag:yaml.org,2002:bool" => (flag? s).map .bool
  | "tag:yaml.org,2002:int" => (integer? s).map .integer
  | "tag:yaml.org,2002:float" => if isReal s then some (.real (String.ofList s)) else none
  | _ => if tag.head? = some '!' then none else some (.text (String.ofList s))

end ApiSurface.Document.Yaml
