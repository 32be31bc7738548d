/-!
# Operators

The comparison and arithmetic operators. A spelling is looked up exactly as it stands.
-/

namespace BasicTokens

inductive Operator where
  | equal
  | notEqual
  | greater
  | greaterOrEqual
  | less
  | lessOrEqual
  | plus
  | minus
  | times
  | divide
  | modulo
deriving DecidableEq, Repr

namespace Operator

def all : List Operator :=
  [equal, notEqual, greater, greaterOrEqual, less, lessOrEqual, plus, minus, times, divide, modulo]

def spelling : Operator → String
  | equal => "="
  | notEqual => "<>"
  | greater => ">"
  | greaterOrEqual => ">="
  | less => "<"
  | lessOrEqual => "<="
  | plus => "+"
  | minus => "-"
  | times => "*"
  | divide => "/"
  | modulo => "%"

def isComparison : Operator → Bool
  | equal | notEqual | greater | greaterOrEqual | less | lessOrEqual => true
  | plus | minus | times | divide | modulo => false

def ofText? (text : String) : Option Operator :=
  all.find? fun op => op.spelling = text

end Operator

end BasicTokens
