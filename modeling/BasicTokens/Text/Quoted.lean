/-!
# Quoted text

Text and single characters are shown between quotation marks with their mark, the backslash and
everything invisible escaped, so that what is shown never holds a raw line end and can be read back.

The characters shown by number are the controls, the no-break space and the soft hyphen; this is
exact up to `U+00FF`, and every later character is shown as itself.
-/

namespace BasicTokens.Text

/-- Invisible up to `U+00FF`: the controls on both sides of ASCII, the no-break space and the soft
hyphen. -/
def isHidden (c : Char) : Bool :=
  c.toNat < 0x20 || (0x7F ≤ c.toNat && c.toNat ≤ 0xA0) || c.toNat == 0xAD

/-- The code of a character in hexadecimal, in braces and without leading zeros. -/
def byNumber (c : Char) : List Char :=
  '\\' :: 'u' :: '\x7b' :: (Nat.toDigits 16 c.toNat ++ ['\x7d'])

def escape (mark c : Char) : List Char :=
  if c = mark ∨ c = '\\' then ['\\', c]
  else if c = '\n' then ['\\', 'n']
  else if c = '\r' then ['\\', 'r']
  else if c = '\t' then ['\\', 't']
  else if c = '\x00' then ['\\', '0']
  else if isHidden c then byNumber c
  else [c]

def quoteWith (mark : Char) (cs : List Char) : List Char :=
  mark :: (cs.flatMap (escape mark) ++ [mark])

def quote (s : String) : String :=
  String.ofList (quoteWith '\x22' s.toList)

def quoteChar (c : Char) : String :=
  String.ofList (quoteWith '\x27' [c])

end BasicTokens.Text
