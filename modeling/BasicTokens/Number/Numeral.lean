import BasicTokens.Number.Binary64

/-!
# Reading numerals

A numeral is a run of decimal digits with at most one point in it, of any length. Without a point it
is a whole number and has to fit 64 bits with a sign; with one it is a fraction over a power of ten,
rounded once to the nearest floating point number, and has to stay finite.
-/

namespace BasicTokens.Numeral

def digitValue (c : Char) : Nat :=
  c.toNat - '0'.toNat

def value (digits : List Char) : Nat :=
  digits.foldl (fun n c => 10 * n + digitValue c) 0

def whole (text : List Char) : List Char :=
  text.takeWhile (· ≠ '.')

def places (text : List Char) : List Char :=
  (text.dropWhile (· ≠ '.')).drop 1

/-- A numeral without a point, if it is not above the largest number of 64 bits with a sign. -/
def integer? (text : List Char) : Option Int64 :=
  if value text ≤ Int64.maxValue.toInt then some (Int64.ofNat (value text)) else none

/-- A numeral with a point, if it rounds to a finite number. -/
def float? (text : List Char) : Option Binary64 :=
  Binary64.ofRatio? (value (whole text ++ places text)) (Nat.pow 10 (places text).length)

end BasicTokens.Numeral
