import BasicTokens.Source.Basic

/-!
# Keeping a record of a source

A recorded reader behaves as the reader it holds and keeps a record of every read and every close.
What a stream does to its source can then be read off the record: how often it read, what it got,
and that it closed the source once.
-/

namespace BasicTokens

inductive Call where
  /-- A read into a buffer of `size` bytes, and the bytes that count as read, if it did not fail. -/
  | read (size : Nat) (got : Except ReadFailure (List UInt8))
  | close

namespace Call

def isRead : Call → Bool
  | read _ _ => true
  | close => false

def isClose : Call → Bool
  | read _ _ => false
  | close => true

def bytes : Call → List UInt8
  | read _ (.ok bytes) => bytes
  | _ => []

end Call

/-- A reader with the record of what was done to it, the latest first. -/
structure Recorded (ρ : Type) where
  inner : ρ
  calls : List Call := []

namespace Recorded

variable {ρ : Type}

def callOf {n : Nat} (reading : Reading ρ n) : Call :=
  .read n (reading.outcome.map fun _ => reading.bytes)

def reads (r : Recorded ρ) : Nat :=
  r.calls.countP Call.isRead

def closes (r : Recorded ρ) : Nat :=
  r.calls.countP Call.isClose

def received (r : Recorded ρ) : List UInt8 :=
  r.calls.reverse.flatMap Call.bytes

instance [Reader ρ] : Reader (Recorded ρ) where
  read r _ buffer :=
    let reading := Reader.read r.inner buffer
    reading.map fun inner => ⟨inner, callOf reading :: r.calls⟩
  close r := ⟨Reader.close r.inner, .close :: r.calls⟩

instance [Source ρ] : Source (Recorded ρ) where
  available r := Source.available r.inner

instance [Reader ρ] [Patient ρ] : Patient (Recorded ρ) where
  patience r := Patient.patience r.inner
  patience_lt r _ buffer h := Patient.patience_lt r.inner buffer h

instance [Reader ρ] [Bounded ρ] : Bounded (Recorded ρ) where
  budget r := Bounded.budget r.inner
  count_add_budget_le r _ buffer := Bounded.count_add_budget_le r.inner buffer

end Recorded

end BasicTokens
