import BasicTokens.Event
import BasicTokens.Path

/-!
# Notices

What a session does is told in notices. Each has a level and a target, the part of the program it
comes from; it says in a few words what happened and adds the details by name. Every notice is one
line of the log, if the filter lets it through. The log never decides anything else.
-/

namespace BasicTokens

inductive Level where
  | error
  | warn
  | info
  | debug
  | trace
deriving DecidableEq, Repr

namespace Level

/-- How much has to be let through for a level to be seen. -/
def verbosity : Level → Nat
  | error => 1
  | warn => 2
  | info => 3
  | debug => 4
  | trace => 5

def label : Level → String
  | error => "ERROR"
  | warn => " WARN"
  | info => " INFO"
  | debug => "DEBUG"
  | trace => "TRACE"

end Level

inductive Notice where
  | fileOpened (path : String)
  | historyLost (failure : PathFailure) (path : String)
  | event (event : Event)
deriving DecidableEq

namespace Notice

def level : Notice → Level
  | fileOpened _ => .info
  | historyLost _ _ => .warn
  | event (.filled _) | event (.token _) | event (.endOfInput _) => .trace
  | event (.closed _) | event (.lexicalError _) => .debug

def target : Notice → String
  | fileOpened _ | historyLost _ _ => "basic"
  | event (.token _) | event (.endOfInput _) | event (.lexicalError _) => "basic_lexer"
  | event (.filled _) | event (.closed _) => "basic_lexer::stream"

def headline : Notice → String
  | fileOpened _ => "tokenizing file"
  | historyLost _ _ => "could not save history"
  | event (.filled _) => "refilled character buffer"
  | event (.closed _) => "input source closed"
  | event (.token _) => "token"
  | event (.endOfInput _) => "end of input"
  | event (.lexicalError _) => "lexical error"

def details : Notice → List (String × String)
  | fileOpened path => [("path", path)]
  | historyLost failure path => [("err", failure.text), ("path", path)]
  | event (.filled bytes) => [("bytes", toString bytes)]
  | event (.closed position) | event (.endOfInput position) => [("position", position.text)]
  | event (.token token) => [("token", token.text)]
  | event (.lexicalError error) => [("err", error.message)]

/-- The names of all that a notice says; what happened goes by a name of its own. -/
def fields (n : Notice) : List String :=
  "message" :: n.details.map (·.1)

def line (n : Notice) : String :=
  let details := n.details.map fun (name, value) => " " ++ name ++ "=" ++ value
  n.level.label ++ " " ++ n.target ++ ": " ++ n.headline ++ String.join details ++ "\n"

end Notice

end BasicTokens
