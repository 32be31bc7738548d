import BasicTokens.Position
import BasicTokens.Text.Quoted

/-!
# What can go wrong

A read can fail for a reason outside the text, and a text can fail to be a token. Both kinds of
failure are causes; their wording is in `ReadFailure.text` and `LexicalError.message`.
-/

namespace BasicTokens

inductive FailureKind where
  | notFound
  | permissionDenied
  | connectionRefused
  | connectionReset
  | connectionAborted
  | notConnected
  | addressInUse
  | addressNotAvailable
  | brokenPipe
  | alreadyExists
  | wouldBlock
  | isADirectory
  | invalidInput
  | invalidData
  | timedOut
  | writeZero
  | interrupted
  | unsupported
  | unexpectedEndOfFile
  | outOfMemory
  | other
deriving DecidableEq, Repr

namespace FailureKind

def description : FailureKind → String
  | notFound => "entity not found"
  | permissionDenied => "permission denied"
  | connectionRefused => "connection refused"
  | connectionReset => "connection reset"
  | connectionAborted => "connection aborted"
  | notConnected => "not connected"
  | addressInUse => "address in use"
  | addressNotAvailable => "address not available"
  | brokenPipe => "broken pipe"
  | alreadyExists => "entity already exists"
  | wouldBlock => "operation would block"
  | isADirectory => "is a directory"
  | invalidInput => "invalid input parameter"
  | invalidData => "invalid data"
  | timedOut => "timed out"
  | writeZero => "write zero"
  | interrupted => "operation interrupted"
  | unsupported => "unsupported"
  | unexpectedEndOfFile => "unexpected end of file"
  | outOfMemory => "out of memory"
  | other => "other error"

end FailureKind

/-- A failed read: its kind, and words of its own where the standard ones will not do. -/
structure ReadFailure where
  kind : FailureKind
  detail : Option String := none
deriving DecidableEq, Repr

def ReadFailure.text (f : ReadFailure) : String :=
  f.detail.getD f.kind.description

inductive LexicalError where
  /-- Nothing but white space was left. -/
  | endOfInput (position : Position)
  | unexpectedCharacter (character : Char) (position : Position)
  /-- A run of signs that is no operator. -/
  | unknownToken (text : String) (first : Position)
  /-- A numeral whose value is out of range. -/
  | malformedNumber (text : String) (first : Position)
  | unterminatedString (first : Position)
  | readFailed (kind : FailureKind) (message : String)
deriving DecidableEq, Repr

namespace LexicalError

def ofFailure (f : ReadFailure) : LexicalError :=
  readFailed f.kind f.text

def position? : LexicalError → Option Position
  | endOfInput p | unexpectedCharacter _ p | unknownToken _ p | malformedNumber _ p
  | unterminatedString p => some p
  | readFailed _ _ => none

def isEndOfInput : LexicalError → Bool
  | endOfInput _ => true
  | _ => false

def message : LexicalError → String
  | endOfInput p => "unexpected end of input at " ++ p.text
  | unexpectedCharacter c p =>
    "unexpected character " ++ Text.quoteChar c ++ " at " ++ p.text
  | unknownToken text p => "unknown token `" ++ text ++ "` at " ++ p.text
  | malformedNumber text p => "malformed number `" ++ text ++ "` at " ++ p.text
  | unterminatedString p => "unterminated string starting at " ++ p.text
  | readFailed _ message => "failed to read input: " ++ message

end LexicalError

end BasicTokens
