import BasicTokens.Folder
import BasicTokens.Session.FileMode
import BasicTokens.Source.Slice

/-!
# The interactive session

A session greets, then prompts for one line after the other and reports on each, until the input
ends. Every line is a text of its own: no line has anything to do with another. A line that is not
UTF-8 ends the session, though the report itself works on bytes. A backspace in a line takes back
the Unicode scalar before it.

The lines of earlier sessions are kept in a history file. Whether it could be loaded is part of the
greeting; it is written again only if this session had a line worth keeping.
-/

namespace BasicTokens

namespace Prompt

def prompt : String := "> "

def farewell : String := "CTRL-D\n"

/-- What is shown for a line that is not UTF-8. -/
def refusal : String :=
  "Error: Io(Error \x7b kind: InvalidData, message: \"stream did not contain valid UTF-8\" \x7d)\n"

def greeting (historyLoaded : Bool) : String :=
  (if historyLoaded then "" else "No previous REPL history\n") ++ "BASIC - interactive tokenizer\n"

def lineFeed : UInt8 := 0x0A

def carriageReturn : UInt8 := 0x0D

def backspace : UInt8 := 0x08

/-- The lines of an input with their ends; the last one may lack it. -/
def rawLines : List UInt8 → List (List UInt8)
  | [] => []
  | b :: rest =>
    if b = lineFeed then [b] :: rawLines rest
    else
      match rawLines rest with
      | [] => [[b]]
      | line :: lines => (b :: line) :: lines

/-- A line without its end, which is a line feed or a carriage return and a line feed. -/
def strip (raw : List UInt8) : List UInt8 :=
  match raw.reverse with
  | b :: rest =>
    if b ≠ lineFeed then raw
    else
      match rest with
      | a :: rest => if a = carriageReturn then rest.reverse else (a :: rest).reverse
      | [] => []
  | [] => []

def isUTF8 (bytes : List UInt8) : Bool :=
  (ByteArray.mk bytes.toArray).validateUTF8

def isContinuation (b : UInt8) : Bool :=
  0x80 ≤ b.toNat && b.toNat < 0xC0

/-- Takes back the last character of a line that is given from its end. A character is one Unicode
scalar here, while a line editor takes back a whole grapheme cluster: behind a letter with a
combining mark it removes both, and this the mark alone. -/
def takeBack : List UInt8 → List UInt8
  | [] => []
  | b :: rest => if isContinuation b then takeBack rest else rest

/-- What is left of a line when every backspace has taken back the character before it, if there is
one. -/
def typed (line : List UInt8) : List UInt8 :=
  (line.foldl (fun kept b => if b = backspace then takeBack kept else b :: kept) []).reverse

structure Answer where
  stdout : String
  notices : List Notice
  kept : List (List UInt8)

/-- The answer to one line with its end; there is none to a line that is not UTF-8. -/
def answer? (raw : List UInt8) : Option Answer :=
  if !isUTF8 raw then none
  else
    match typed (strip raw) with
    | [] => some ⟨"", [], []⟩
    | line =>
      let report := Report.ofCursor (Cursor.ofSource line)
      some ⟨report.text, report.notices, [line]⟩

/-- The exchange over the lines of an input, from the first prompt on. -/
def converse : List (List UInt8) → Answer
  | [] => ⟨prompt ++ farewell, [], []⟩
  | raw :: rest =>
    match answer? raw with
    | none => ⟨prompt ++ refusal, [], []⟩
    | some a =>
      let b := converse rest
      ⟨prompt ++ a.stdout ++ b.stdout, a.notices ++ b.notices, a.kept ++ b.kept⟩

def canLoad : Except PathFailure PathEntry → Bool
  | .ok (.file bytes) => isUTF8 bytes
  | _ => false

def run (folder : Folder) (history : String) (stdin : List UInt8) : Outcome :=
  let exchange := converse (rawLines stdin)
  let lost :=
    if exchange.kept.isEmpty then none
    else (folder.obstacle? history).map (Notice.historyLost · history)
  { stdout := greeting (canLoad (folder.lookUp history)) ++ exchange.stdout
    notices := exchange.notices ++ lost.toList }

end Prompt

end BasicTokens
