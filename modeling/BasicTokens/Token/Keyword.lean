/-!
# Keywords

The reserved words: four logical ones and the conditional. They are recognised in any mixture of
upper and lower case and shown in lower case.
-/

namespace BasicTokens

/-- A reserved word, named for what it means. -/
inductive Keyword where
  | conjunction
  | disjunction
  | exclusiveDisjunction
  | negation
  | condition
deriving DecidableEq, Repr

namespace Keyword

def all : List Keyword :=
  [conjunction, disjunction, exclusiveDisjunction, negation, condition]

def spelling : Keyword → String
  | conjunction => "and"
  | disjunction => "or"
  | exclusiveDisjunction => "xor"
  | negation => "not"
  | condition => "if"

def isLogical : Keyword → Bool
  | condition => false
  | _ => true

/-- A word in lower case; only the ASCII letters change. -/
def fold (word : String) : List Char :=
  word.toList.map Char.toLower

def ofWord? (word : String) : Option Keyword :=
  all.find? fun k => k.spelling.toList = fold word

end Keyword

end BasicTokens
