import ApiSurface.ParseError
import ApiSurface.Text.Blank
import ApiSurface.Text.Bytes

/-!
# Nesting of parentheses and angle brackets

Nested type arguments are no regular language, so a canonical text is cut by counting how many
parentheses and how many angle brackets stand open at each of its characters. A character is at the
top when none of either kind is open. The two kinds are counted apart from each other, and a closing
bracket whose kind stands nowhere open is a fault at its position.

The cuts come in two layers. Those on lists of characters return the parts of the text and, on a
fault, its byte position; those on strings return what callers show, and a full error.
-/

namespace ApiSurface.Nesting

/-- How many brackets of each kind stand open. -/
structure Depth where
  parens : Nat := 0
  angles : Nat := 0
deriving DecidableEq, Repr

/-- No bracket stands open. -/
def Depth.isTop (d : Depth) : Bool :=
  d.parens == 0 && d.angles == 0

/-- The depth after a character, or none where it closes what is not open. -/
def Depth.step? (d : Depth) (c : Char) : Option Depth :=
  if c = '(' then some { d with parens := d.parens + 1 }
  else if c = '<' then some { d with angles := d.angles + 1 }
  else if c = ')' then if d.parens = 0 then none else some { d with parens := d.parens - 1 }
  else if c = '>' then if d.angles = 0 then none else some { d with angles := d.angles - 1 }
  else some d

/-! ## Cuts on characters

Each takes the depth and the byte position at which the remaining text starts. -/

/-- Cuts at every separator that is at the top. The separators themselves go; there is always at
least one piece. -/
def splitFrom (separator : Char) : Depth → Nat → List Char → Except Nat (List (List Char))
  | d, position, [] => if d.isTop then .ok [[]] else .error position
  | d, position, c :: rest =>
    if c = separator ∧ d.isTop then
      (splitFrom separator d (position + c.utf8Size) rest).map ([] :: ·)
    else match d.step? c with
      | none => .error position
      | some d' =>
        (splitFrom separator d' (position + c.utf8Size) rest).map fun
          | [] => [[c]]
          | piece :: pieces => (c :: piece) :: pieces

/-- The text before the first target at the top, and the text from it on. -/
def findFrom (target : Char) : Depth → Nat → List Char → Except Nat (Option (List Char × List Char))
  | _, _, [] => .ok none
  | d, position, c :: rest =>
    if c = target ∧ d.isTop then .ok (some ([], c :: rest))
    else match d.step? c with
      | none => .error position
      | some d' =>
        (findFrom target d' (position + c.utf8Size) rest).map
          (Option.map fun (before, after) => (c :: before, after))

/-- The text before the first character behind which nothing is open, and the text from that
character on. When the text starts with an opening bracket, that character closes it. -/
def closeFrom : Depth → Nat → List Char → Except Nat (List Char × List Char)
  | _, position, [] => .error position
  | d, position, c :: rest =>
    match d.step? c with
    | none => .error position
    | some d' =>
      if d'.isTop then .ok ([], c :: rest)
      else (closeFrom d' (position + c.utf8Size) rest).map
        fun (before, after) => (c :: before, after)

/-- The text before the last blank at the top, and the text from that blank on. -/
def lastBlankFrom : Depth → Nat → List Char → Except Nat (Option (List Char × List Char))
  | d, position, [] => if d.isTop then .ok none else .error position
  | d, position, c :: rest =>
    match d.step? c with
    | none => .error position
    | some d' =>
      (lastBlankFrom d' (position + c.utf8Size) rest).map fun
        | some (before, after) => some (c :: before, after)
        | none => if Text.isBlank c && d.isTop then some ([], c :: rest) else none

/-! ## Cuts of whole texts -/

/-- Names the text in which a bracket has no partner. -/
def inText {α : Type} (text : List Char) (r : Except Nat α) : Except ParseError α :=
  r.mapError (.unbalanced (String.ofList text))

@[simp]
theorem inText_ok {α : Type} (text : List Char) (a : α) : inText text (.ok a) = .ok a := rfl

@[simp]
theorem inText_error {α : Type} (text : List Char) (position : Nat) :
    inText text (.error position : Except Nat α) =
      .error (.unbalanced (String.ofList text) position) := rfl

/-- The pieces between separators at the top, trimmed. -/
def split (separator : Char) (text : List Char) : Except ParseError (List (List Char)) :=
  (inText text (splitFrom separator {} 0 text)).map (List.map Text.trim)

/-- The text before the first target at the top, and the text from it on. -/
def find? (target : Char) (text : List Char) :
    Except ParseError (Option (List Char × List Char)) :=
  inText text (findFrom target {} 0 text)

/-- For a text cut in two where a bracket opens: what stands between that bracket and its partner,
and what follows the partner. -/
def enclosed (before opened : List Char) : Except ParseError (List Char × List Char) :=
  (inText (before ++ opened) (closeFrom {} (Text.byteLength before) opened)).map
    fun (inside, closed) => (inside.drop 1, closed.drop 1)

/-- The trimmed parts `Outer` and `Inner` of a text `Outer<Inner>`. A text without type arguments,
or with more text behind the bracket that closes the first one, has no such parts. -/
def outermost? (text : List Char) : Except ParseError (Option (List Char × List Char)) :=
  let outer := text.takeWhile (· != '<')
  match text.dropWhile (· != '<') with
  | [] =>
    if text.contains '>' then
      .error (.unbalanced (String.ofList text) (Text.byteLength (text.takeWhile (· != '>'))))
    else .ok none
  | opened@(_ :: _) =>
    (enclosed outer opened).map fun (inner, after) =>
      if after.isEmpty then some (Text.trim outer, Text.trim inner) else none

/-- The trimmed parts of a text before and behind its last blank at the top. -/
def splitLast? (text : List Char) : Except ParseError (Option (List Char × List Char)) :=
  (inText text (lastBlankFrom {} 0 text)).map
    (Option.map fun (before, after) => (Text.trim before, Text.trim after))

/-! ## Cuts of strings -/

/-- The pieces of a string between separators at the top, trimmed. -/
def splitText (text : String) (separator : Char) : Except ParseError (List String) :=
  (split separator text.toList).map (List.map String.ofList)

/-- Byte position of the first target at the top. -/
def position? (text : String) (target : Char) : Except ParseError (Option Nat) :=
  (find? target text.toList).map (Option.map fun (before, _) => Text.byteLength before)

/-- Byte position of the first character from `start` on behind which nothing is open that was
opened from there on. -/
def closePosition (text : String) (start : Nat) : Except ParseError Nat :=
  (inText text.toList (closeFrom {} start (Text.dropBytes start text.toList))).map
    fun (before, _) => start + Text.byteLength before

/-- The trimmed parts `Outer` and `Inner` of a string `Outer<Inner>`. -/
def typeArguments? (text : String) : Except ParseError (Option (String × String)) :=
  (outermost? text.toList).map
    (Option.map fun (outer, inner) => (String.ofList outer, String.ofList inner))

/-- The trimmed parts of a string before and behind its last blank at the top. -/
def splitLastText? (text : String) : Except ParseError (Option (String × String)) :=
  (splitLast? text.toList).map
    (Option.map fun (before, after) => (String.ofList before, String.ofList after))

end ApiSurface.Nesting
