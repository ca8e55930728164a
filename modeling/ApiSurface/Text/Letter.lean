import ApiSurface.Text.LetterTable
import ApiSurface.Text.Ranges

/-!
# Letters, numbers and word characters

Two classes are used: alphanumeric characters make identifiers, and word characters make the tags of
code blocks in guides. Both cover all scripts.
-/

namespace ApiSurface.Text

/-- Whether a character is a letter (Alphabetic) or a number of any kind. -/
def isAlphanumeric (c : Char) : Bool :=
  inRanges c.toNat alphanumericRanges

/-- Whether a character is a word character: a letter, a decimal digit, a mark, connector
punctuation or a joiner. -/
def isWord (c : Char) : Bool :=
  if isAlphanumeric c then !inRanges c.toNat nonWordRanges
  else inRanges c.toNat wordMarkRanges

end ApiSurface.Text
