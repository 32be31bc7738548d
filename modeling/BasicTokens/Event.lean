import BasicTokens.Error
import BasicTokens.Token.Basic

/-!
# Events

While a text is read, what happens to it is written down: every filling of the buffer, every token,
the end of the input, every error, and the closing of the source.
-/

namespace BasicTokens

inductive Event where
  /-- A read succeeded and exposed this many bytes. -/
  | filled (bytes : Nat)
  /-- The source was closed when this position was reached. -/
  | closed (position : Position)
  | token (token : Token)
  | endOfInput (position : Position)
  | lexicalError (error : LexicalError)
deriving DecidableEq

end BasicTokens
