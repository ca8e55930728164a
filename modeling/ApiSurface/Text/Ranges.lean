/-!
# Sets of code points given by ranges

A character class is a list of inclusive ranges, ascending and separated by gaps. Looking a code
point up stops at the first range that starts above it.
-/

namespace ApiSurface.Text

/-- Whether `n` lies in one of the ascending inclusive ranges. -/
def inRanges (n : Nat) : List (Nat × Nat) → Bool
  | [] => false
  | (first, last) :: rest =>
    if n < first then false else if n ≤ last then true else inRanges n rest

end ApiSurface.Text
