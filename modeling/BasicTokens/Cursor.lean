import BasicTokens.Event
import BasicTokens.Source.Basic

/-!
# A cursor in a text

A cursor reads a source through a buffer and looks one character ahead. The buffer is filled again
only when all of it has been read, so between two fillings everything happens in memory. Each byte
is the character of the same code.

The end of the input shows in two ways, since a source need not know about it: the source says that
nothing is available, or a read comes back empty. `next` and `peek` report both as an error that
carries the position, `peek?` as nothing.

A cursor keeps a diary of what it did. Nothing it does depends on the diary.
-/

namespace BasicTokens

def capacity : Nat := 1024

/-- A source, the buffer, and how far the text has been read. Of the buffer, the bytes from `pos` up
to `len` are still to be read; the others are what earlier reads left behind. -/
structure Cursor (σ : Type) where
  source : σ
  buffer : Vector UInt8 capacity
  pos : Nat
  len : Nat
  position : Position
  closed : Bool
  /-- The events so far, the latest first. -/
  diary : List Event

namespace Cursor

variable {σ : Type}

def ofSource (source : σ) : Cursor σ where
  source := source
  buffer := Vector.replicate capacity 0
  pos := 0
  len := 0
  position := .start
  closed := false
  diary := []

def buffered (c : Cursor σ) : List UInt8 :=
  (c.buffer.toList.take c.len).drop c.pos

def events (c : Cursor σ) : List Event :=
  c.diary.reverse

def note (c : Cursor σ) (e : Event) : Cursor σ :=
  { c with diary := e :: c.diary }

/-- The character in the buffer at the cursor. The index is in the buffer whenever `pos < len`. -/
def current (c : Cursor σ) : Char :=
  Char.ofUInt8 (c.buffer[c.pos]?.getD 0)

section Source

variable [Source σ]

/-- Whether there may be more to read. A source that cannot know says yes until it turns out
otherwise. -/
def hasMore (c : Cursor σ) : Bool :=
  c.pos < c.len || !c.closed && Source.available c.source

/-- Fills the buffer from the source. Not to be called while something is buffered. -/
def fill (c : Cursor σ) : Except LexicalError Unit × Cursor σ :=
  if c.closed || !Source.available c.source then (.error (.endOfInput c.position), c)
  else
    let reading := Reader.read c.source c.buffer
    let c := { c with source := reading.next, buffer := reading.buffer }
    match reading.outcome with
    | .error failure => (.error (.ofFailure failure), c)
    | .ok _ =>
      let c := { c with pos := 0, len := reading.count, diary := .filled reading.count :: c.diary }
      if c.len = 0 then (.error (.endOfInput c.position), c) else (.ok (), c)

def peek (c : Cursor σ) : Except LexicalError Char × Cursor σ :=
  if c.pos < c.len then (.ok c.current, c)
  else
    match c.fill with
    | (.error e, c) => (.error e, c)
    | (.ok (), c) => (.ok c.current, c)

def peek? (c : Cursor σ) : Except LexicalError (Option Char) × Cursor σ :=
  if c.hasMore then
    match c.peek with
    | (.ok ch, c) => (.ok (some ch), c)
    | (.error e, c) => if e.isEndOfInput then (.ok none, c) else (.error e, c)
  else (.ok none, c)

end Source

def advance (c : Cursor σ) : Cursor σ :=
  if c.pos < c.len then { c with pos := c.pos + 1, position := c.position.after c.current } else c

def next [Source σ] (c : Cursor σ) : Except LexicalError Char × Cursor σ :=
  match c.peek with
  | (.error e, c) => (.error e, c)
  | (.ok ch, c) => (.ok ch, c.advance)

/-- Gives up the source and what is buffered, the first time it is asked to. -/
def close [Source σ] (c : Cursor σ) : Cursor σ :=
  if c.closed then c
  else { c with
    source := Reader.close c.source
    pos := 0
    len := 0
    closed := true
    diary := .closed c.position :: c.diary }

end Cursor

end BasicTokens
