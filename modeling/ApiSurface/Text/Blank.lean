import ApiSurface.Text.Ranges

/-!
# Blank characters and trimming

Blank means the White_Space property: the ASCII blanks, the no-break and ideographic spaces, the
line and paragraph separators and the spaces of general punctuation. Trimming removes blanks from
one end or both and never touches what stands between two other characters.
-/

namespace ApiSurface.Text

/-- Code points with the White_Space property. -/
def blankRanges : List (Nat × Nat) :=
  [(0x9, 0xD), (0x20, 0x20), (0x85, 0x85), (0xA0, 0xA0), (0x1680, 0x1680), (0x2000, 0x200A),
   (0x2028, 0x2029), (0x202F, 0x202F), (0x205F, 0x205F), (0x3000, 0x3000)]

/-- Whether a character is white space. -/
def isBlank (c : Char) : Bool :=
  inRanges c.toNat blankRanges

/-- Removes the longest tail whose characters all satisfy `p`. -/
def dropEndWhile (p : Char → Bool) (s : List Char) : List Char :=
  (s.reverse.dropWhile p).reverse

/-- Removes the blanks a text starts with. -/
def trimStart (s : List Char) : List Char :=
  s.dropWhile isBlank

/-- Removes the blanks a text ends with. -/
def trimEnd (s : List Char) : List Char :=
  dropEndWhile isBlank s

/-- Removes the blanks at both ends of a text. -/
def trim (s : List Char) : List Char :=
  trimEnd (trimStart s)

/-- A string without the blanks around it. -/
def trimmed (s : String) : String :=
  String.ofList (trim s.toList)

theorem length_dropWhile_le (p : Char → Bool) (s : List Char) :
    (s.dropWhile p).length ≤ s.length :=
  (List.dropWhile_sublist p).length_le

theorem length_dropEndWhile_le (p : Char → Bool) (s : List Char) :
    (dropEndWhile p s).length ≤ s.length := by
  have h := length_dropWhile_le p s.reverse
  simpa [dropEndWhile] using h

theorem length_trim_le (s : List Char) : (trim s).length ≤ s.length :=
  Nat.le_trans (length_dropEndWhile_le _ _) (length_dropWhile_le _ _)

end ApiSurface.Text
