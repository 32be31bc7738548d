/-!
# Binary floating point numbers of 64 bits

A number is its bit pattern, and all arithmetic on it is exact arithmetic on natural numbers. The
spacing of the smallest numbers, `2 ^ (-1074)`, serves as the unit: every finite number is a whole
number of units, namely its significand times a power of two.

A quotient of natural numbers is rounded to the nearest number, a tie to the even significand. The
significand and the power of two then sit side by side in the bit pattern, and a significand that
was rounded up to the next power of two carries into the exponent by itself, so the pattern is one
sum and overflow is one comparison.
-/

namespace BasicTokens

/-- A floating point number, by its bit pattern: sign, eleven bits of exponent, 52 of fraction. -/
structure Binary64 where
  bits : UInt64
deriving DecidableEq, Repr

namespace Binary64

/-- The width of the fraction field, and the place of the exponent field in the bit pattern. -/
def fractionWidth : Nat := 52

def signPlace : Nat := 63

/-- The unit lies this many binary places behind the point. -/
def unitPlaces : Nat := 1074

def isNegative (x : Binary64) : Bool :=
  Nat.pow 2 signPlace ≤ x.bits.toNat

def magnitude (x : Binary64) : Nat :=
  x.bits.toNat % Nat.pow 2 signPlace

def exponentField (x : Binary64) : Nat :=
  x.magnitude / Nat.pow 2 fractionWidth

def fraction (x : Binary64) : Nat :=
  x.magnitude % Nat.pow 2 fractionWidth

/-- The magnitude of infinity; what lies above is no number. -/
def infiniteMagnitude : Nat :=
  2047 * Nat.pow 2 fractionWidth

def isNaN (x : Binary64) : Bool :=
  infiniteMagnitude < x.magnitude

def isInfinite (x : Binary64) : Bool :=
  x.magnitude = infiniteMagnitude

def isFinite (x : Binary64) : Bool :=
  x.magnitude < infiniteMagnitude

def isZero (x : Binary64) : Bool :=
  x.magnitude = 0

/-- The power of two between the significand and the unit. -/
def scale (x : Binary64) : Nat :=
  x.exponentField - 1

def significand (x : Binary64) : Nat :=
  if x.exponentField = 0 then x.fraction else Nat.pow 2 fractionWidth + x.fraction

/-- The absolute value of a finite number, counted in units of `2 ^ (-1074)`. -/
def units (x : Binary64) : Nat :=
  x.significand * Nat.pow 2 x.scale

/-- Whether the gap below a number is half as wide as the gap above it: so at the powers of two,
except where both gaps are one unit. -/
def isNarrowBelow (x : Binary64) : Bool :=
  x.fraction = 0 && 1 < x.exponentField

/-- Equality of values: no number equals what is not a number, and the two zeros are equal. -/
def sameValue (x y : Binary64) : Bool :=
  !x.isNaN && !y.isNaN && (x = y || x.isZero && y.isZero)

/-- A quotient rounded to a whole number, a tie to the even neighbour. -/
def roundDiv (num den : Nat) : Nat :=
  let quotient := num / den
  let remainder := num % den
  if 2 * remainder < den then quotient
  else if den < 2 * remainder then quotient + 1
  else quotient + quotient % 2

/-- The magnitude of the number nearest to the quotient, without a bound on its exponent. -/
def nearestMagnitude (num den : Nat) : Nat :=
  let scale := Nat.log2 (num * Nat.pow 2 unitPlaces / den) - fractionWidth
  scale * Nat.pow 2 fractionWidth + roundDiv (num * Nat.pow 2 unitPlaces) (den * Nat.pow 2 scale)

def ofRatio? (num den : Nat) : Option Binary64 :=
  let magnitude := nearestMagnitude num den
  if magnitude < infiniteMagnitude then some ⟨UInt64.ofNat magnitude⟩ else none

end Binary64

end BasicTokens
