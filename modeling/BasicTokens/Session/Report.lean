import BasicTokens.Log.Notice
import BasicTokens.Scan.Listing

/-!
# Reporting on a text

A report lists the tokens of a text one line each, with the first error as its last line, and then
closes the source. It comes with everything that happened on the way.
-/

namespace BasicTokens

/-- What reading a text gave: the lines to show, the events, and the error if there was one. -/
structure Report where
  lines : List String
  events : List Event
  error? : Option LexicalError
deriving DecidableEq

namespace Report

def line : Except LexicalError Token → String
  | .ok t => "Parsed token: " ++ t.text
  | .error e => "error: " ++ e.message

def errorOf? (items : List (Except LexicalError Token)) : Option LexicalError :=
  items.findSome? fun
    | .ok _ => none
    | .error e => some e

def ofCursor {σ : Type} [Source σ] [Bounded σ] (c : Cursor σ) : Report :=
  let (items, c) := c.tokens
  ⟨items.map line, c.close.events, errorOf? items⟩

def text (r : Report) : String :=
  String.join (r.lines.map (· ++ "\n"))

def notices (r : Report) : List Notice :=
  r.events.map .event

end Report

end BasicTokens
