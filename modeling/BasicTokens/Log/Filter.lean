import BasicTokens.Log.Directive

/-!
# The log filter

A filter decides which notices are written. It is a list of directives, of which the one that counts
for most decides on a notice that it concerns, and of equals the last one. A notice that no
directive concerns is not written.
-/

namespace BasicTokens

abbrev LogFilter := List Directive

namespace LogFilter

def atLeast (level : Level) : LogFilter :=
  [⟨[], .all, level.verbosity⟩]

/-- Reads a filter, a list of directives with commas between them. Without any directive errors
alone are let through. -/
def parse? (text : String) : Option LogFilter :=
  match (Text.pieces ',' text.toList).filter (!·.isEmpty) with
  | [] => some (atLeast .error)
  | directives => directives.mapM Directive.ofText?

/-- The filter that is in force: that of the environment where it can be read, else the one asked
for, else warnings and errors. -/
def choose (environment request : Option String) : LogFilter :=
  ((environment.bind parse?).or (request.bind parse?)).getD (atLeast .warn)

def governing? (filter : LogFilter) (n : Notice) : Option Directive :=
  filter.foldl (fun best d => if d.concerns n && best.all d.outranks then some d else best) none

def admits (filter : LogFilter) (n : Notice) : Bool :=
  (filter.governing? n).any (n.level.verbosity ≤ ·.verbosity)

def write (filter : LogFilter) (notices : List Notice) : String :=
  String.join ((notices.filter filter.admits).map Notice.line)

end LogFilter

end BasicTokens
