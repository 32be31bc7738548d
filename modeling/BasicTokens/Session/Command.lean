import BasicTokens.Session.Prompt

/-!
# The command line

The arguments name a file to read, or none for an interactive session, and two options that take a
value, behind an equals sign or as the next argument. Behind a double dash everything is a name.
Asking for the version outweighs what follows it.
-/

namespace BasicTokens

structure Settings where
  file : Option String := none
  history : Option String := none
  log : Option String := none
deriving DecidableEq, Repr

inductive UsageError where
  | unexpected (argument : String)
  | repeated (option : String)
  | missingValue (option : String)
deriving DecidableEq, Repr

def UsageError.message : UsageError → String
  | unexpected argument => "error: unexpected argument '" ++ argument ++ "' found\n"
  | repeated option => "error: the argument '" ++ option ++ "' cannot be used multiple times\n"
  | missingValue option =>
    "error: a value is required for '" ++ option ++ "' but none was supplied\n"

inductive Command where
  | version
  | start (settings : Settings)
deriving DecidableEq, Repr

namespace Command

def versionText : String := "basic 0.1.0\n"

def defaultHistory : String := "history.txt"

/-- Whether an argument is an option and not a name; a single dash is a name. -/
def isOption (argument : String) : Bool :=
  match argument.toList with
  | '-' :: _ :: _ => true
  | _ => false

/-- Whether an argument asks for the version. Behind the one letter nothing more is looked at. -/
def asksForVersion (argument : String) : Bool :=
  argument = "--version" || ['-', 'V'].isPrefixOf argument.toList

def withFile (s : Settings) (name : String) : Except UsageError Settings :=
  if name.isEmpty then .error (.missingValue "[FILE]")
  else if s.file.isSome then .error (.unexpected name)
  else .ok { s with file := some name }

def withHistory (s : Settings) (path : String) : Except UsageError Settings :=
  if path.isEmpty then .error (.missingValue "--history <PATH>")
  else if s.history.isSome then .error (.repeated "--history <PATH>")
  else .ok { s with history := some path }

def withLog (s : Settings) (filter : String) : Except UsageError Settings :=
  if s.log.isSome then .error (.repeated "--log <FILTER>") else .ok { s with log := some filter }

def valueOf? (name argument : String) : Option String :=
  if (name.toList ++ ['=']).isPrefixOf argument.toList then
    some (String.ofList (argument.toList.drop (name.length + 1)))
  else none

def parseNames (s : Settings) : List String → Except UsageError Command
  | [] => .ok (.start s)
  | name :: rest =>
    match withFile s name with
    | .error e => .error e
    | .ok s => parseNames s rest

def parseFrom (s : Settings) : List String → Except UsageError Command
  | [] => .ok (.start s)
  | "--" :: rest => parseNames s rest
  | "--history" :: value :: rest =>
    if isOption value then .error (.missingValue "--history <PATH>")
    else
      match withHistory s value with
      | .error e => .error e
      | .ok s => parseFrom s rest
  | "--log" :: value :: rest =>
    if isOption value then .error (.missingValue "--log <FILTER>")
    else
      match withLog s value with
      | .error e => .error e
      | .ok s => parseFrom s rest
  | ["--history"] => .error (.missingValue "--history <PATH>")
  | ["--log"] => .error (.missingValue "--log <FILTER>")
  | argument :: rest =>
    if asksForVersion argument then .ok .version
    else
      let taken :=
        match valueOf? "--history" argument, valueOf? "--log" argument with
        | some path, _ => withHistory s path
        | none, some filter => withLog s filter
        | none, none =>
          if isOption argument then .error (.unexpected argument) else withFile s argument
      match taken with
      | .error e => .error e
      | .ok s => parseFrom s rest

def parse (arguments : List String) : Except UsageError Command :=
  parseFrom {} arguments

structure Surroundings where
  folder : Folder
  stdin : List UInt8
  /-- The log filter that the environment asks for. -/
  logRequest : Option String

structure Result where
  code : Nat
  stdout : String
  stderr : String
deriving DecidableEq, Repr

/-- A session with these settings, before its notices are filtered. -/
def session (s : Settings) (around : Surroundings) : Outcome :=
  match s.file with
  | some path => FileMode.run path (around.folder.lookUp path)
  | none => Prompt.run around.folder (s.history.getD defaultHistory) around.stdin

def Result.ofOutcome (outcome : Outcome) (filter : LogFilter) : Result :=
  ⟨outcome.code, outcome.stdout, outcome.stderr filter⟩

def run (arguments : List String) (around : Surroundings) : Result :=
  match parse arguments with
  | .error e => ⟨2, "", e.message⟩
  | .ok .version => ⟨0, versionText, ""⟩
  | .ok (.start s) => .ofOutcome (session s around) (LogFilter.choose around.logRequest s.log)

end Command

end BasicTokens
