/-!
# The range of double precision

Numbers of double precision have 53 bits and end below `2 ^ 1024`. A decimal number has a finite
value if it is nearest to one of them, ties going to the even one. `isFinite` asks this of the exact
value; `isFiniteProduct` asks it of a product whose factors have been rounded before.
-/

namespace ApiSurface.Document.Double

/-- The least number that rounds to none of double precision: halfway between the largest one and
the next power of two. -/
def overflow : Nat :=
  Nat.pow 2 1024 - Nat.pow 2 970

/-- Whether `digits * 10 ^ exponent` rounds to a finite number. -/
def isFinite (digits : Nat) (exponent : Int) : Bool :=
  let size : Int := exponent + (Nat.toDigits 10 digits).length
  digits == 0 || size < 309 ||
    (size == 309 &&
      decide (digits * Nat.pow 10 exponent.toNat < overflow * Nat.pow 10 (-exponent).toNat))

/-- The nearest number with at most 53 bits before its trailing zeros. -/
def nearest (n : Nat) : Nat :=
  let unit := Nat.pow 2 (n.log2 - 52)
  let quotient := n / unit
  let twice := 2 * (n % unit)
  if twice < unit || (twice == unit && quotient % 2 == 0) then quotient * unit
  else (quotient + 1) * unit

/-- Whether the product of `n` and `10 ^ exponent`, each rounded, rounds to a finite number.
Division by a power of ten never leaves the range, and no power above the 308th is in it. -/
def isFiniteProduct (n : Nat) (exponent : Int) : Bool :=
  exponent < 0 ||
    (exponent ≤ 308 && decide (nearest n * nearest (Nat.pow 10 exponent.toNat) < overflow))

end ApiSurface.Document.Double
