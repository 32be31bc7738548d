import BasicTokens.Number.Binary64

/-!
# The shortest decimal of a number

A finite positive number stands for an interval of reals: those that are nearer to it than to any
other number, and the two ends when its significand is even, since a tie goes there. Among the
decimals in that interval the shortest is wanted, and of several the one nearest to the number.

Decimals of one length form a grid of the multiples of a power of ten, and shorter means coarser. So
the coarsest grid with a point in the interval is searched for, from a grid that is surely too
coarse downwards. Only the two neighbours of the number on a grid need to be tried. All grids are
multiples of `10 ^ (-324)`, which is finer than the spacing of the smallest numbers, so the last
grid always has a point.

The comparisons are exact: both sides are brought to whole numbers, the interval in quarters of the
unit of `Binary64`.
-/

namespace BasicTokens

/-- The number `digits * 10 ^ exponent`. -/
structure Decimal where
  digits : Nat
  exponent : Int
deriving DecidableEq, Repr

namespace Decimal

def finest : Nat := 324

/-- The lower end of the interval of `x`, in quarter units. -/
def lowerEnd (x : Binary64) : Nat :=
  (4 * x.significand - if x.isNarrowBelow then 1 else 2) * Nat.pow 2 x.scale

def upperEnd (x : Binary64) : Nat :=
  (4 * x.significand + 2) * Nat.pow 2 x.scale

/-- Whether `d` grid points of the grid `10 ^ (g - 324)` lie in the interval of `x`. -/
def readsBack (x : Binary64) (g d : Nat) : Bool :=
  let point := 4 * d * Nat.pow 10 g * Nat.pow 2 Binary64.unitPlaces
  let lower := lowerEnd x * Nat.pow 10 finest
  let upper := upperEnd x * Nat.pow 10 finest
  if x.significand % 2 = 0 then lower ≤ point && point ≤ upper else lower < point && point < upper

/-- The number of grid points up to `x`, on the grid `10 ^ (g - 324)`. -/
def below (x : Binary64) (g : Nat) : Nat :=
  x.units * Nat.pow 10 finest / (Nat.pow 10 g * Nat.pow 2 Binary64.unitPlaces)

def nearerAbove (x : Binary64) (g : Nat) : Bool :=
  (2 * below x g + 1) * (Nat.pow 10 g * Nat.pow 2 Binary64.unitPlaces)
    ≤ 2 * (x.units * Nat.pow 10 finest)

/-- The grid point in the interval of `x`, the nearer of two and the upper one of two equally near.
-/
def onGrid? (x : Binary64) (g : Nat) : Option Nat :=
  let low := below x g
  match readsBack x g low, readsBack x g (low + 1) with
  | true, true => some (if nearerAbove x g then low + 1 else low)
  | true, false => some low
  | false, true => some (low + 1)
  | false, false => none

def fromGrid (x : Binary64) : Nat → Decimal
  | 0 => ⟨(onGrid? x 0).getD (below x 0), -(finest : Int)⟩
  | g + 1 =>
    match onGrid? x (g + 1) with
    | some d => ⟨d, (g + 1 : Nat) - (finest : Int)⟩
    | none => fromGrid x g

/-- A grid above which no grid has a point in the interval: since `8 < 10`, its spacing exceeds the
number, and an interval does not reach up to twice its number. -/
def coarsest (x : Binary64) : Nat :=
  Nat.log2 (below x 0) / 3 + 1

def shortest (x : Binary64) : Decimal :=
  fromGrid x (coarsest x)

def digitChars (d : Decimal) : List Char :=
  Nat.toDigits 10 d.digits

def leadingExponent (d : Decimal) : Int :=
  d.exponent + d.digitChars.length - 1

def positional (d : Decimal) : List Char :=
  let ds := d.digitChars
  if 0 ≤ d.exponent then
    ds ++ List.replicate d.exponent.toNat '0' ++ ['.', '0']
  else
    let places := (-d.exponent).toNat
    if places < ds.length then
      ds.take (ds.length - places) ++ '.' :: ds.drop (ds.length - places)
    else
      '0' :: '.' :: (List.replicate (places - ds.length) '0' ++ ds)

def scientific (d : Decimal) : List Char :=
  let power := 'e' :: (toString d.leadingExponent).toList
  match d.digitChars with
  | first :: second :: rest => first :: '.' :: second :: (rest ++ power)
  | ds => ds ++ power

/-- Positional from `10 ^ (-4)` up to `10 ^ 16`, scientific outside. -/
def layOut (d : Decimal) : List Char :=
  if -4 ≤ d.leadingExponent ∧ d.leadingExponent < 16 then d.positional else d.scientific

end Decimal

namespace Binary64

def magnitudeText (x : Binary64) : List Char :=
  if x.isInfinite then ['i', 'n', 'f']
  else if x.isZero then ['0', '.', '0']
  else (Decimal.shortest x).layOut

/-- The text of a number: its shortest decimal with its sign, which a zero shows too. -/
def text (x : Binary64) : String :=
  if x.isNaN then "NaN"
  else if x.isNegative then String.ofList ('-' :: x.magnitudeText)
  else String.ofList x.magnitudeText

end Binary64

end BasicTokens
