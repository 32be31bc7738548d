import BasicTokens.Number.Decimal
import BasicTokens.Position
import BasicTokens.Text.Quoted
import BasicTokens.Token.Keyword
import BasicTokens.Token.Operator

/-!
# Tokens

A lexeme is what a piece of the text means; a token is a lexeme with the span it was read from. The
text of a lexeme is the spelling a reader would type, up to the case of keywords, the form of
numbers and the escapes in a string.
-/

namespace BasicTokens

inductive Lexeme where
  | integer (value : Int64)
  | float (value : Binary64)
  | string (value : String)
  /-- A word that is not reserved, in its own case. -/
  | identifier (name : String)
  | keyword (word : Keyword)
  | operator (sign : Operator)
deriving DecidableEq

namespace Lexeme

def text : Lexeme → String
  | integer n => toString n.toInt
  | float x => x.text
  | string s => Text.quote s
  | identifier name => name
  | keyword k => k.spelling
  | operator op => op.spelling

/-- Equality of meanings. It is equality, except that floats are compared by value: the two zeros
agree, and what is not a number does not even agree with itself. -/
def agrees : Lexeme → Lexeme → Bool
  | float x, float y => x.sameValue y
  | a, b => a = b

end Lexeme

structure Token where
  lexeme : Lexeme
  first : Position
  behind : Position
deriving DecidableEq

namespace Token

def text (t : Token) : String :=
  t.lexeme.text ++ " @ " ++ t.first.text ++ "-" ++ t.behind.text

def agrees (t u : Token) : Bool :=
  t.lexeme.agrees u.lexeme && t.first = u.first && t.behind = u.behind

end Token

end BasicTokens
