import BasicTokens.Path

/-!
# The folder of a session

A session runs in a directory. What the paths that it is given lead to is found by going from name
to name: a dot stays in place, two dots go up, and anything but a directory ends the way. Little is
known of what lies outside: there are directories all the way up to the root, the usual ones stand
in the root, and there is a device that is always empty and takes everything.
-/

namespace BasicTokens

/-- The directory that a session runs in: the files and the directories below it, each with the
names that lead there. The directories on the way to a file exist without being mentioned. -/
structure Folder where
  files : List (List String × List UInt8) := []
  directories : List (List String) := []
deriving DecidableEq, Repr

inductive Place where
  /-- In the folder or below it, with the names that lead there, the last one first. -/
  | below (names : List String)
  /-- In a directory of which nothing is known but the way up. -/
  | elsewhere
  | root
  | system (name : String)
  | null
deriving DecidableEq, Repr

namespace Folder

def longestName : Nat := 255

def longestPath : Nat := 4095

def systemDirectories : List String :=
  ["bin", "boot", "dev", "etc", "home", "lib", "media", "mnt", "opt", "proc", "root", "run", "sbin",
   "srv", "sys", "tmp", "usr", "var"]

def entry? (f : Folder) : Place → Option PathEntry
  | .elsewhere | .root | .system _ => some .directory
  | .null => some (.file [])
  | .below names =>
    let names := names.reverse
    match f.files.find? (·.1 = names) with
    | some file => some (.file file.2)
    | none =>
      if names.isEmpty || (f.files.map (·.1) ++ f.directories).any (names.isPrefixOf ·) then
        some .directory
      else none

def isDirectory (f : Folder) (place : Place) : Bool :=
  f.entry? place = some .directory

def up : Place → Place
  | .below (_ :: names) => .below names
  | .root | .system _ => .root
  | _ => .elsewhere

def down? (f : Folder) (name : String) : Place → Option Place
  | .below names =>
    let next := .below (name :: names)
    if (f.entry? next).isSome then some next else none
  | .root => if systemDirectories.contains name then some (.system name) else none
  | .system directory => if directory = "dev" && name = "null" then some .null else none
  | _ => none

def enter (f : Folder) (place : Place) (name : String) : Except PathFailure Place :=
  if name = "." then .ok place
  else if name = ".." then .ok (up place)
  else if longestName < name.utf8ByteSize then .error .nameTooLong
  else ((f.down? name place).map .ok).getD (.error .missing)

def follow (f : Folder) (place : Place) : List String → Except PathFailure Place
  | [] => .ok place
  | name :: rest =>
    if f.isDirectory place then
      match f.enter place name with
      | .ok next => f.follow next rest
      | .error e => .error e
    else .error .notADirectory

def origin (path : Path) : Place :=
  if path.absolute then .root else .below []

/-- What a path leads to. A slash at its end asks for a directory. -/
def lookUp (f : Folder) (text : String) : Except PathFailure PathEntry :=
  let path := Path.ofText text
  if longestPath < text.utf8ByteSize then .error .nameTooLong
  else
    match f.follow (origin path) (path.names ++ if path.slashed then ["."] else []) with
    | .error e => .error e
    | .ok place => ((f.entry? place).map .ok).getD (.error .missing)

/-- Why no file can be written under a path, if so. There has to be a directory for it to stand in,
and its name must not be that of a directory; a slash at the end is enough to make it one. -/
def obstacle? (f : Folder) (text : String) : Option PathFailure :=
  let path := Path.ofText text
  if longestPath < text.utf8ByteSize then some .nameTooLong
  else
    match f.follow (origin path) path.names.dropLast with
    | .error e => some e
    | .ok place =>
      if !f.isDirectory place then some .notADirectory
      else if path.slashed then some .isADirectory
      else
        match f.enter place (path.names.getLastD ".") with
        | .ok last => if f.isDirectory last then some .isADirectory else none
        | .error .missing => none
        | .error e => some e

end Folder

end BasicTokens
