import BasicTokens.Text.Pieces

/-!
# Paths

A path leads to a file or to a directory, name by name with slashes between the names. Where it
leads nowhere, or to something that is of no use there, the system has words and a number for that.
-/

namespace BasicTokens

inductive PathEntry where
  | directory
  | file (bytes : List UInt8)
deriving DecidableEq, Repr

inductive PathFailure where
  | missing
  | denied
  /-- Something on the way is a file and leads no further. -/
  | notADirectory
  /-- A directory stands where a file is asked for. -/
  | isADirectory
  | nameTooLong
deriving DecidableEq, Repr

namespace PathFailure

def code : PathFailure → Nat
  | missing => 2
  | denied => 13
  | notADirectory => 20
  | isADirectory => 21
  | nameTooLong => 36

def words : PathFailure → String
  | missing => "No such file or directory"
  | denied => "Permission denied"
  | notADirectory => "Not a directory"
  | isADirectory => "Is a directory"
  | nameTooLong => "File name too long"

def text (f : PathFailure) : String :=
  f.words ++ " (os error " ++ toString f.code ++ ")"

end PathFailure

/-- A path taken apart. Slashes in a row count as one. -/
structure Path where
  /-- Whether it starts at the root, and not where the session runs. -/
  absolute : Bool
  names : List String
  /-- Whether a slash follows the last name, which is then that of a directory. -/
  slashed : Bool
deriving DecidableEq, Repr

namespace Path

def ofText (text : String) : Path where
  absolute := text.toList.head? = some '/'
  names := ((Text.pieces '/' text.toList).filter (!·.isEmpty)).map String.ofList
  slashed := text.toList.getLast? = some '/'

end Path

end BasicTokens
