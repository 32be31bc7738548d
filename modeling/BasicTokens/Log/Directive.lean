import BasicTokens.Log.Notice
import BasicTokens.Number.Numeral
import BasicTokens.Text.CharClass
import BasicTokens.Text.Pattern.Reading

/-!
# Directives

A directive sets the least level for some notices: those whose target begins with a given text, and
of these only the ones with a certain field if it names one. It is written

    target[span{field=value}]=level

and every part may be missing. Without a level everything is let through, and a level that stands
alone is one for every target. A directive with a span or a value is about stretches of time, and no
notice is one.
-/

namespace BasicTokens

namespace Level

def numbered? (digits : List Char) : Option Nat :=
  if digits.isEmpty || !digits.all Char.isDigit then none
  else
    let verbosity := Numeral.value digits
    if verbosity ≤ trace.verbosity then some verbosity else none

def named? (name : List Char) : Option Nat :=
  match String.ofList (name.map Char.toLower) with
  | "off" => some 0
  | "error" => some error.verbosity
  | "warn" => some warn.verbosity
  | "info" => some info.verbosity
  | "debug" => some debug.verbosity
  | "trace" => some trace.verbosity
  | _ => none

def verbosity? : List Char → Option Nat
  | '+' :: digits => numbered? digits
  | text => (numbered? text).or (named? text)

end Level

/-- Which of the notices from its targets a directive is about. -/
inductive Scope where
  | all
  | field (name : List Char)
  /-- None of them: it is about something else. -/
  | none
deriving DecidableEq, Repr

/-- The least level for some notices; at verbosity zero nothing is seen. -/
structure Directive where
  target : List Char
  scope : Scope
  verbosity : Nat
deriving DecidableEq, Repr

namespace Directive

def concerns (d : Directive) (n : Notice) : Bool :=
  d.target.isPrefixOf n.target.toList &&
    match d.scope with
    | .all => true
    | .field name => n.fields.contains (String.ofList name)
    | .none => false

/-- Whether a directive counts for no less than another one about the same notice: a longer target
counts for more, then a field, and of two fields the one that is later in the alphabet. -/
def outranks (d other : Directive) : Bool :=
  if d.target.length = other.target.length then
    match other.scope, d.scope with
    | .field a, .field b => !List.lex b a fun c d => c.toNat < d.toNat
    | .field _, _ => false
    | _, _ => true
  else other.target.length < d.target.length

/-! ### Reading -/

/-- A directive as it is written: its target, what its brackets make it about, and the text behind
its equals sign, if it has one. -/
structure Parts where
  target : List Char
  scope : Scope
  level : Option (List Char)
deriving DecidableEq, Repr

/-- Whether a text is a decimal number, with a point or without, and a power of ten if so. -/
def isDecimal (text : List Char) : Bool :=
  let (places, power) := text.span fun c => c ≠ 'e' && c ≠ 'E'
  let digits := places.filter (· ≠ '.')
  let exponent := match power with
    | _ :: '+' :: rest | _ :: '-' :: rest => some rest
    | _ :: rest => some rest
    | [] => none
  places.length ≤ digits.length + 1 && !digits.isEmpty && digits.all Char.isDigit &&
    exponent.all fun e => !e.isEmpty && e.all Char.isDigit

def isNumber (text : List Char) : Bool :=
  let unsigned := match text with
    | '+' :: rest | '-' :: rest => rest
    | _ => text
  let words := ["inf", "infinity", "nan"]
  words.contains (String.ofList (unsigned.map Char.toLower)) || isDecimal unsigned

/-- What a directive is about with the name of a span, if there is one, and a text in braces behind
it. A value in the text is a number or a pattern. -/
def field? (span text : List Char) : Option Scope :=
  match Text.pieces '=' text with
  | _ :: value :: _ =>
    if isNumber value || Text.Pattern.isWellFormed value then some .none else none
  | _ =>
    if text.isEmpty then none
    else some (if span.isEmpty then .field text else .none)

/-- A character of a directive, as it is seen and as it is taken. -/
abbrev Mark := Char × Char

def taken (marks : List Mark) : List Char :=
  marks.map (·.2)

def openingBrace : Char := '\x7b'

def closingBrace : Char := '\x7d'

def scope? (marks : List Mark) : Option (Scope × List Mark) :=
  match marks.span fun p => p.1 ≠ ']' && p.1 ≠ openingBrace with
  | (_, []) => none
  | (span, sign :: inner) =>
    if sign.1 = ']' then some (.none, inner)
    else
      match inner.span (·.1 ≠ closingBrace) with
      | (text, _ :: closing :: rest) =>
        if closing.1 = ']' then (field? (taken span) (taken text)).map (·, rest) else none
      | _ => none

def parts? (marks : List Mark) (left : List Char) : Option Parts :=
  match marks.span fun p => p.1 ≠ '[' && p.1 ≠ '=' with
  | (target, []) => some ⟨taken target ++ left, .all, none⟩
  | (target, sign :: rest) =>
    if sign.1 = '=' then some ⟨taken target, .all, some (taken rest ++ left)⟩
    else
      match scope? rest with
      | some (scope, []) => some ⟨taken target, scope, none⟩
      | some (scope, next :: level) =>
        if next.1 = '=' then some ⟨taken target, scope, some (taken level ++ left)⟩ else none
      | none => none

def ofParts? : Parts → Option Directive
  | ⟨target, .all, none⟩ =>
    match Level.verbosity? target with
    | some verbosity => some ⟨[], .all, verbosity⟩
    | none => some ⟨target, .all, Level.trace.verbosity⟩
  | ⟨target, scope, none⟩ | ⟨target, scope, some []⟩ =>
    some ⟨target, scope, Level.trace.verbosity⟩
  | ⟨target, scope, some level⟩ => (Level.verbosity? level).map (⟨target, scope, ·⟩)

def opens (c : Char) : Bool :=
  c = '[' || c = '-' || c = ':' || c = '_' || isLetterOrNumber c

def trimmed (text : List Char) : List Char :=
  ((text.dropWhile isBlank).reverse.dropWhile isBlank).reverse

/-- Reads a directive. The signs that divide it are seen in the text without the blanks around it,
but its parts are taken from the same places of the text as it stands; so blanks in front of it
leave it no sense, and those behind it belong to its last part. -/
def ofText? (text : List Char) : Option Directive :=
  let seen := trimmed text
  if seen.head?.any opens then
    (parts? (seen.zip text) (text.drop seen.length)).bind ofParts?
  else none

end Directive

end BasicTokens
