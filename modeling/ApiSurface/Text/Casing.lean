import ApiSurface.Text.CaseTable
import ApiSurface.Text.Ranges

/-!
# Lowercase forms

A character on its own has one lowercase form, which for one letter (capital I with a dot) is two
characters long. Within a text a capital sigma at the end of a word becomes the final sigma; every
other character goes by its own form.
-/

namespace ApiSurface.Text

/-- The shift of the run that covers a code point, looked up in ascending runs. -/
def caseShift (n : Nat) : List CaseRun → Int
  | [] => 0
  | run :: rest =>
    if n < run.first then 0
    else if n ≤ run.last ∧ (n - run.first) % run.stride = 0 then run.shift
    else caseShift n rest

/-- The lowercase form of one character by itself. -/
def lowerChar (c : Char) : List Char :=
  if c = 'İ' then ['i', '\u0307']
  else [Char.ofNat (Int.toNat (c.toNat + caseShift c.toNat lowercaseRuns))]

/-- Whether a character has a case. -/
def isCased (c : Char) : Bool :=
  inRanges c.toNat casedRanges

/-- Whether a character is passed over when looking for a neighbouring cased letter. -/
def isCaseIgnorable (c : Char) : Bool :=
  inRanges c.toNat caseIgnorableRanges

/-- Whether the first character that is not passed over has a case. -/
def meetsCased (s : List Char) : Bool :=
  match s.dropWhile isCaseIgnorable with
  | [] => false
  | c :: _ => isCased c

/-- Lowercases the rest of a text, given what stands before it in reverse. -/
def lowerFrom (before : List Char) : List Char → List Char
  | [] => []
  | c :: rest =>
    let form :=
      if c = 'Σ' then
        if meetsCased before && !meetsCased rest then ['ς'] else ['σ']
      else lowerChar c
    form ++ lowerFrom (c :: before) rest

/-- The lowercase form of a text. -/
def lowercase (s : List Char) : List Char :=
  lowerFrom [] s

/-- The lowercase form of a string. -/
def lowercased (s : String) : String :=
  String.ofList (lowercase s.toList)

end ApiSurface.Text
