import BasicTokens.Log.Filter
import BasicTokens.Session.Report
import BasicTokens.Source.Feed
import BasicTokens.Source.File

/-!
# Reading a file

A file is read to its end or to its first error. A lexical error is shown with the tokens and
decides the exit code; that the file cannot be opened or read is a complaint as well, with its
cause.
-/

namespace BasicTokens

/-- What a session leaves behind: what it showed, what it told, what it complained about, and its
exit code. -/
structure Outcome where
  stdout : String
  notices : List Notice
  complaint : String := ""
  code : Nat := 0
deriving DecidableEq

namespace Outcome

/-- What is written besides: the log as far as the filter lets it through, then the complaint. -/
def stderr (o : Outcome) (filter : LogFilter) : String :=
  filter.write o.notices ++ o.complaint

def complaintText (what cause : String) : String :=
  "Error: " ++ what ++ "\n\nCaused by:\n    " ++ cause ++ "\n"

end Outcome

namespace FileMode

def conclude (path : String) (report : Report) : Outcome :=
  let notices := .fileOpened path :: report.notices
  match report.error? with
  | none => ⟨report.text, notices, "", 0⟩
  | some (.readFailed kind message) =>
    let cause := (LexicalError.readFailed kind message).message
    ⟨report.text, notices, Outcome.complaintText ("cannot read " ++ path) cause, 1⟩
  | some _ => ⟨report.text, notices, "", 1⟩

def run (path : String) (found : Except PathFailure PathEntry) : Outcome :=
  match found with
  | .error e => ⟨"", [], Outcome.complaintText ("cannot open " ++ path) e.text, 1⟩
  | .ok entry =>
    let feed : Feed OpenFile := ⟨.ofEntry entry, false, false⟩
    conclude path (Report.ofCursor (Cursor.ofSource feed))

end FileMode

end BasicTokens
