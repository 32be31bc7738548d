import BasicTokens.Text.Pattern.Basic

/-!
# Reading a pattern

A text is well formed as a pattern if it can be read to its end, character by character, and no
group or set is left open there. There has to be something to repeat for every sign of repetition,
the ends of a range have to be in order, and a name is given only once. A class of all characters of
a kind, and a boundary of words, take tables that are not at hand; they are read only where the
classes are those of ASCII, and the class of everything else is not.
-/

namespace BasicTokens.Text.Pattern

def literal? (s : State) (c : Char) : Purpose → Option State
  | .item => if s.options.spells then some { s with place := .item true } else none
  | .member =>
    if s.options.spellsInSet c then some { s with place := .set (.character c) } else none
  | .upper (.character lower) =>
    if s.options.spellsInSet c && lower.toNat ≤ c.toNat then some { s with place := .set .nothing }
    else none
  | .upper _ => none

def letterClass? (s : State) : Purpose → Option State
  | .item => if s.options.unicode then none else some { s with place := .item true }
  | .member => if s.options.unicode then none else some { s with place := .set .characters }
  | .upper _ => none

def control? : Char → Option Char
  | 'a' => some '\x07'
  | 'f' => some '\x0c'
  | 'n' => some '\n'
  | 'r' => some '\r'
  | 't' => some '\t'
  | 'v' => some '\x0b'
  | _ => none

def escaped? (s : State) (purpose : Purpose) (c : Char) : Option State :=
  match c with
  | 'x' => some { s with place := .code purpose true 2 0 }
  | 'u' => some { s with place := .code purpose false 4 0 }
  | 'U' => some { s with place := .code purpose false 8 0 }
  | 'd' | 's' | 'w' => letterClass? s purpose
  | 'A' | 'z' => if purpose = .item then some { s with place := .item true } else none
  | 'b' | 'B' | '<' | '>' =>
    if purpose = .item && !s.options.unicode then some { s with place := .item true } else none
  | _ =>
    match control? c with
    | some control => literal? s control purpose
    | none => if c.toNat < 0x80 && !c.isAlphanum then literal? s c purpose else none

def hexValue? (c : Char) : Option Nat :=
  if c.isDigit then some (c.toNat - '0'.toNat)
  else if 'a'.toNat ≤ c.toNat && c.toNat ≤ 'f'.toNat then some (c.toNat - 'a'.toNat + 10)
  else if 'A'.toNat ≤ c.toNat && c.toNat ≤ 'F'.toNat then some (c.toNat - 'A'.toNat + 10)
  else none

/-- Reads a digit of the code of a character. A short code is that of a byte where the classes are
those of ASCII, and no byte beyond ASCII is a character. -/
def digit? (s : State) (purpose : Purpose) (short : Bool) (missing value : Nat) (c : Char) :
    Option State :=
  match hexValue? c with
  | none => none
  | some digit =>
    let value := 16 * value + digit
    if 1 < missing then some { s with place := .code purpose short (missing - 1) value }
    else if !value.isValidChar || (short && !s.options.unicode && 0x80 ≤ value) then none
    else literal? s (Char.ofNat value) purpose

def openGroup (s : State) (inside : Options) : State :=
  { s with place := .item false, options := inside, groups := s.options :: s.groups }

def item? (s : State) (repeatable : Bool) (c : Char) : Option State :=
  match c with
  | '(' => some { s with place := .groupOpening }
  | ')' =>
    match s.groups with
    | [] => none
    | outside :: groups =>
      some { s with place := .item true, options := outside, groups := groups }
  | '|' => some { s with place := .item false }
  | '*' | '+' | '?' => if repeatable then some { s with place := .item true } else none
  | '\x7b' => none
  | '[' => some { s with place := .setOpening false, sets := 1 }
  | '\\' => some { s with place := .escape .item }
  | '^' | '$' => some { s with place := .item true }
  | '.' => if s.options.unicode then some { s with place := .item true } else none
  | _ => literal? s c .item

/-- The letters of the options, with the hyphen behind which they are switched off. -/
def optionLetters : List Char := ['-', 'i', 'm', 's', 'u', 'x', 'R', 'U']

/-- Reads on in the options of a group, none of which may be given twice. They end in a colon, or
with the group itself, which then switches the options for what follows it. -/
def option? (s : State) (read : List Char) (c : Char) : Option State :=
  if c = ':' || c = ')' then
    if read.getLast? = some '-' || (c = ')' && read.isEmpty) then none
    else if c = ':' then some (openGroup s (s.options.switched read))
    else some { s with place := .item false, options := s.options.switched read }
  else if read.isEmpty && c = 'P' then some { s with place := .nameOpening }
  else if read.isEmpty && c = '<' then some { s with place := .name [] }
  else if optionLetters.contains c && !read.contains c then
    some { s with place := .options (read ++ [c]) }
  else none

def name? (s : State) (read : List Char) (c : Char) : Option State :=
  if c = '>' then
    if read.isEmpty || s.names.contains read then none
    else some { openGroup s s.options with names := read :: s.names }
  else if c = '_' || isLetter c || (!read.isEmpty &&
      (c = '.' || c = '[' || c = ']' || isLetterOrNumber c)) then
    some { s with place := .name (read ++ [c]) }
  else none

def member? (s : State) (lower : Lower) (c : Char) : Option State :=
  match c with
  | ']' =>
    some { s with
      place := if s.sets ≤ 1 then .item true else .set .nothing
      sets := s.sets - 1 }
  | '[' => some { s with place := .setOpening false, sets := s.sets + 1 }
  | '\\' => some { s with place := .escape .member }
  | '-' =>
    if lower = .nothing then some { s with place := .half '-' }
    else some { s with place := .range lower false }
  | '&' | '~' => some { s with place := .half c }
  | _ => literal? s c .member

/-- Reads the first character of a set, which belongs to it even if it is a closing bracket. -/
def firstMember? (s : State) (negated : Bool) (c : Char) : Option State :=
  if c = '^' && !negated then
    if s.options.unicode then some { s with place := .setOpening true } else none
  else if c = '-' then (literal? s c .member).map ({ · with place := .hyphens })
  else if c = ']' then (literal? s c .member).map ({ · with place := .set .nothing })
  else member? s .nothing c

/-- Reads on behind a hyphen in a set. A second hyphen takes a set away from another one, and in
front of the closing bracket the hyphen is a member. -/
def upper? (s : State) (lower : Lower) (blanks : Bool) (c : Char) : Option State :=
  match c with
  | ']' => member? s .nothing c
  | '-' => some { s with place := if blanks then .range (.character '-') false else .set .nothing }
  | '\\' => some { s with place := .escape (.upper lower) }
  | _ => literal? s c (.upper lower)

def read? (s : State) (c : Char) : Option State :=
  match s.place with
  | .item repeatable => item? s repeatable c
  | .groupOpening =>
    if c = '?' then some { s with place := .options [] } else item? (openGroup s s.options) false c
  | .options read => option? s read c
  | .nameOpening => if c = '<' then some { s with place := .name [] } else none
  | .name read => name? s read c
  | .escape purpose => escaped? s purpose c
  | .code purpose short missing value => digit? s purpose short missing value c
  | .setOpening negated => firstMember? s negated c
  | .hyphens => if c = '-' then some s else member? s .nothing c
  | .set lower => member? s lower c
  | .half sign =>
    if c = sign then some { s with place := .set .nothing }
    else (literal? s sign .member).bind (member? · (.character sign) c)
  | .range lower blanks => upper? s lower blanks c

def step? (s : State) (c : Char) : Option State :=
  if s.inComment then some { s with inComment := c ≠ '\n' }
  else if s.options.spaced && (isBlank c || c = '#') then
    match s.place.behindBlank? with
    | some place => some { s with place := place, inComment := c = '#' }
    | none => read? s c
  else read? s c

def isWellFormed (text : List Char) : Bool :=
  match text.foldlM step? {} with
  | some ⟨.item _, _, [], _, _, _⟩ => true
  | _ => false

end BasicTokens.Text.Pattern
