import BasicTokens.Session.Command

/-!
# The program

The outer layer: it finds out what the paths lead to, hands the lines of the standard input on as
they arrive, and writes what the session has to say. What that is has been decided elsewhere.
-/

namespace BasicTokens

namespace Program

def logVariable : String := "RUST_LOG"

/-- The failure that the system reports. What has no name of its own counts as missing. -/
def failureOf : IO.Error → PathFailure
  | .permissionDenied .. => .denied
  | .inappropriateType _ code _ | .invalidArgument _ code _ =>
    ([.notADirectory, .isADirectory, .nameTooLong].find? (·.code = code.toNat)).getD .missing
  | _ => .missing

/-- Finds out what a path leads to; a directory can be opened but not read. -/
def lookUp (path : String) : BaseIO (Except PathFailure PathEntry) := do
  match ← (IO.FS.Handle.mk path .read).toBaseIO with
  | .error e => return .error (failureOf e)
  | .ok handle =>
    match ← handle.readBinToEnd.toBaseIO with
    | .error _ => return .ok .directory
    | .ok bytes => return .ok (.file bytes.toList)

def deliver (result : Command.Result) : IO UInt32 := do
  IO.print result.stdout
  IO.eprint result.stderr
  return UInt32.ofNat result.code

def say (stdout : IO.FS.Stream) (text : String) : IO Unit := do
  stdout.putStr text
  stdout.flush

/-- The next line of an input with its end; it is empty at the end of the input. -/
partial def nextLine (stdin : IO.FS.Stream) (line : ByteArray) : IO ByteArray := do
  let byte ← stdin.read 1
  let line := line ++ byte
  if byte.isEmpty || byte.toList = [Prompt.lineFeed] then return line
  nextLine stdin line

/-- Answers one line after the other; gives back the lines worth keeping. -/
partial def converse (filter : LogFilter) (kept : List (List UInt8)) : IO (List (List UInt8)) := do
  let stdout ← IO.getStdout
  say stdout Prompt.prompt
  let raw := (← nextLine (← IO.getStdin) ByteArray.empty).toList
  if raw.isEmpty then
    say stdout Prompt.farewell
    return kept
  match Prompt.answer? raw with
  | none =>
    say stdout Prompt.refusal
    return kept
  | some answer =>
    say stdout answer.stdout
    IO.eprint (filter.write answer.notices)
    converse filter (kept ++ answer.kept)

def keep (path : String) (lines : List (List UInt8)) : IO Unit := do
  let handle ← IO.FS.Handle.mk path .append
  for line in lines do
    handle.write ⟨(line ++ [Prompt.lineFeed]).toArray⟩

def interact (filter : LogFilter) (history : String) : IO UInt32 := do
  say (← IO.getStdout) (Prompt.greeting (Prompt.canLoad (← lookUp history)))
  let kept ← converse filter []
  unless kept.isEmpty do
    match ← (keep history kept).toBaseIO with
    | .ok _ => pure ()
    | .error e => IO.eprint (filter.write [.historyLost (failureOf e) history])
  return 0

end Program

end BasicTokens

open BasicTokens Program in
/-- Reads a file, or converses where none is named. -/
def main (arguments : List String) : IO UInt32 := do
  let request ← IO.getEnv logVariable
  match Command.parse arguments with
  | .ok (.start { file := none, history, log }) =>
    interact (LogFilter.choose request log) (history.getD Command.defaultHistory)
  | .ok (.start { file := some path, log, .. }) =>
    let outcome := FileMode.run path (← lookUp path)
    deliver (.ofOutcome outcome (LogFilter.choose request log))
  | _ => deliver (Command.run arguments ⟨{}, [], request⟩)
