/-!
# Classes of characters

A text is read byte by byte and each byte stands for the character of the same code, so only the
characters up to `U+00FF` ever reach the scanner. The classes below are exact on that range. Letters
and digits of a text are the ASCII ones and come from the core library (`Char.isAlpha`,
`Char.isDigit`, `Char.isAlphanum`); the wider classes at the end are for the words of a log filter.
-/

namespace BasicTokens

/-- Line ends: line feed, vertical tab, form feed, carriage return and next line. A carriage return
followed by a line feed is two line ends. -/
def isLineBreak (c : Char) : Bool :=
  (0x0A ≤ c.toNat && c.toNat ≤ 0x0D) || c.toNat == 0x85

/-- White space up to `U+00FF`: the line ends, tab, space and no-break space. -/
def isBlank (c : Char) : Bool :=
  isLineBreak c || c.toNat == 0x09 || c.toNat == 0x20 || c.toNat == 0xA0

theorem isBlank_of_isLineBreak {c : Char} (h : isLineBreak c = true) : isBlank c = true := by
  simp [isBlank, h]

/-- The ranges of letters behind ASCII: one by one up to `U+00FF`, and beyond that scripts as a
whole, without the blocks of signs. -/
def letterRanges : List (Nat × Nat) :=
  [(0xAA, 0xAA), (0xB5, 0xB5), (0xBA, 0xBA), (0xC0, 0xD6), (0xD8, 0xF6), (0xF8, 0x1FFF),
   (0x3041, 0xD7A3), (0x20000, 0x323AF)]

def isLetter (c : Char) : Bool :=
  c.isAlpha || letterRanges.any fun (first, last) => first ≤ c.toNat && c.toNat ≤ last

/-- Letters, digits, and the powers and fractions up to `U+00FF`. -/
def isLetterOrNumber (c : Char) : Bool :=
  isLetter c || c.isDigit || ['²', '³', '¹', '¼', '½', '¾'].contains c

end BasicTokens
