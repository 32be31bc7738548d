import BasicTokens.Text.CharClass

/-!
# What is being read of a pattern

A pattern describes texts: it chooses, groups and repeats. It is read from left to right, and what
may come next depends on little: the place that has been reached, the options in force, the groups
and sets that are open, and the names that groups have been given.
-/

namespace BasicTokens.Text.Pattern

/-- The options that have a say in what is well formed; there are others that do not. -/
structure Options where
  caseless : Bool := false
  /-- Classes are those of all characters, and not only of ASCII. -/
  unicode : Bool := true
  spaced : Bool := false
deriving DecidableEq, Repr

/-- What stands in front of a hyphen in a set, where it could be the lower end of a range. -/
inductive Lower where
  | nothing
  | character (c : Char)
  /-- A class of characters, which is no end of a range. -/
  | characters
deriving DecidableEq, Repr

inductive Purpose where
  | item
  | member
  | upper (lower : Lower)
deriving DecidableEq, Repr

inductive Place where
  /-- Behind an item, or where there is none that could be repeated. -/
  | item (repeatable : Bool)
  | groupOpening
  | options (read : List Char)
  | nameOpening
  | name (read : List Char)
  | escape (purpose : Purpose)
  /-- In the code of a character, with so many digits missing. -/
  | code (purpose : Purpose) (short : Bool) (missing value : Nat)
  | setOpening (negated : Bool)
  /-- Behind hyphens at the beginning of a set. -/
  | hyphens
  | set (lower : Lower)
  /-- Behind a sign in a set that means something else when it is doubled. -/
  | half (sign : Char)
  /-- Behind the hyphen of what may be a range, and blanks if so. -/
  | range (lower : Lower) (blanks : Bool)
deriving DecidableEq, Repr

structure State where
  place : Place := .item false
  options : Options := {}
  /-- The options to return to behind each open group, the innermost first. -/
  groups : List Options := []
  sets : Nat := 0
  names : List (List Char) := []
  inComment : Bool := false
deriving DecidableEq, Repr

namespace Options

/-- The options with these letters switched on, and off behind a hyphen. -/
def switched (o : Options) (letters : List Char) : Options :=
  let on := letters.takeWhile (· ≠ '-')
  let off := letters.dropWhile (· ≠ '-')
  let switch (letter : Char) (before : Bool) : Bool :=
    on.contains letter || before && !off.contains letter
  ⟨switch 'i' o.caseless, switch 'u' o.unicode, switch 'x' o.spaced⟩

/-- Whether a character may be spelled out. Finding its other case would take tables of all
characters, which are not at hand. -/
def spells (o : Options) : Bool :=
  !(o.caseless && o.unicode)

def spellsInSet (o : Options) (c : Char) : Bool :=
  o.spells && (o.unicode || c.toNat < 0x80)

end Options

/-- Where one is behind a blank, if blanks stand for nothing there. -/
def Place.behindBlank? : Place → Option Place
  | .options _ | .nameOpening | .name _ | .escape _ => none
  | .half sign => some (.set (.character sign))
  | .range lower _ => some (.range lower true)
  | place => some place

end BasicTokens.Text.Pattern
