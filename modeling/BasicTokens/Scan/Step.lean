import BasicTokens.Error
import BasicTokens.Number.Numeral
import BasicTokens.Text.CharClass
import BasicTokens.Token.Basic

/-!
# Reading a token one character at a time

A scan begins among blanks. The first other character decides what is being read: a digit a numeral,
a letter a word, a double quotation mark a string, anything else a run of signs. Each further
character is taken into the token, or ends it and stays unread, or, as the closing mark of a string,
ends it and is taken.

A numeral and a word end only at a blank, so nothing may be glued to them; a run of signs goes on to
the next blank whatever it holds; a string ends with its mark, so anything may follow it. Only the
end of the input ends a token without a character, and it leaves a string unterminated.

Everything here is a function of the characters alone, so how they were delivered cannot matter.
-/

namespace BasicTokens

/-- A scan in progress. The characters of the token, or in a string the characters it stands for,
are kept with the latest first. -/
inductive Scan where
  | blank
  /-- A numeral, and whether its point has been read. -/
  | numeral (first : Position) (read : List Char) (pointed : Bool)
  | word (first : Position) (read : List Char)
  | signs (first : Position) (read : List Char)
  | string (first : Position) (decoded : List Char)
  /-- A string, directly behind a backslash. -/
  | escape (first : Position) (decoded : List Char)
deriving DecidableEq, Repr

inductive Scan.Step where
  | take (next : Scan)
  /-- The scan is over and the character stays unread. -/
  | leave (result : Except LexicalError Token)
  /-- The character is taken and completes a token. -/
  | complete (token : Token)

namespace Scan

def unescape? : Char → Option Char
  | '\x22' => some '\x22'
  | '\\' => some '\\'
  | 'n' => some '\n'
  | 't' => some '\t'
  | 'r' => some '\r'
  | _ => none

def opening (here : Position) (c : Char) : Scan :=
  if c.isDigit then .numeral here [c] false
  else if c.isAlpha then .word here [c]
  else if c = '\x22' then .string here []
  else .signs here [c]

def numeralLexeme? (text : List Char) (pointed : Bool) : Option Lexeme :=
  if pointed then (Numeral.float? text).map .float else (Numeral.integer? text).map .integer

def endNumeral (first : Position) (text : List Char) (pointed : Bool) (here : Position) :
    Except LexicalError Token :=
  match numeralLexeme? text pointed with
  | some lexeme => .ok ⟨lexeme, first, here⟩
  | none => .error (.malformedNumber (String.ofList text) first)

def wordLexeme (word : String) : Lexeme :=
  match Keyword.ofWord? word with
  | some k => .keyword k
  | none => .identifier word

def endWord (first : Position) (text : List Char) (here : Position) : Except LexicalError Token :=
  .ok ⟨wordLexeme (String.ofList text), first, here⟩

/-- A complete run of signs, which is refused if it is no operator. -/
def endSigns (first : Position) (text : List Char) (here : Position) :
    Except LexicalError Token :=
  match Operator.ofText? (String.ofList text) with
  | some op => .ok ⟨.operator op, first, here⟩
  | none => .error (.unknownToken (String.ofList text) first)

def step : Scan → Position → Char → Step
  | blank, here, c => .take (if isBlank c then .blank else opening here c)
  | numeral first read pointed, here, c =>
    if c.isDigit then .take (.numeral first (c :: read) pointed)
    else if c = '.' ∧ pointed = false then .take (.numeral first (c :: read) true)
    else if isBlank c then .leave (endNumeral first read.reverse pointed here)
    else .leave (.error (.unexpectedCharacter c here))
  | word first read, here, c =>
    if c.isAlphanum then .take (.word first (c :: read))
    else if isBlank c then .leave (endWord first read.reverse here)
    else .leave (.error (.unexpectedCharacter c here))
  | signs first read, here, c =>
    if isBlank c then .leave (endSigns first read.reverse here)
    else .take (.signs first (c :: read))
  | string first decoded, here, c =>
    if c = '\x22' then
      .complete ⟨.string (String.ofList decoded.reverse), first, here.after c⟩
    else if c = '\\' then .take (.escape first decoded)
    else .take (.string first (c :: decoded))
  | escape first decoded, here, c =>
    match unescape? c with
    | some d => .take (.string first (d :: decoded))
    | none => .leave (.error (.unexpectedCharacter c here))

def finish : Scan → Position → Except LexicalError Token
  | blank, here => .error (.endOfInput here)
  | numeral first read pointed, here => endNumeral first read.reverse pointed here
  | word first read, here => endWord first read.reverse here
  | signs first read, here => endSigns first read.reverse here
  | string first _, _ | escape first _, _ => .error (.unterminatedString first)

end Scan

end BasicTokens
