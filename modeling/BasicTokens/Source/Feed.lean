import BasicTokens.Source.Basic

/-!
# A reader as a source

A reader alone cannot say whether it has more. A *feed* says yes until a read into a buffer with
room comes back empty; from then on, and once it is closed, it says no. Interrupted reads are tried
again at once, so no interruption is ever seen from outside. Closing a feed gives up its reader, and
a feed without a reader reads nothing.
-/

namespace BasicTokens

/-- Reads until the reader is not interrupted, at most `retries` times more than once. -/
def readPatiently {ρ : Type} [Reader ρ] {n : Nat} :
    (retries : Nat) → ρ → Vector UInt8 n → Reading ρ n
  | 0, r, buffer => Reader.read r buffer
  | retries + 1, r, buffer =>
    let reading := Reader.read r buffer
    if reading.isInterrupted then readPatiently retries reading.next reading.buffer else reading

/-- A reader that is held until it is released, and whether it has run dry. -/
structure Feed (ρ : Type) where
  reader : ρ
  released : Bool := false
  drained : Bool := false

namespace Feed

variable {ρ : Type} [Reader ρ] [Patient ρ]

/-- One read, which marks the feed as drained when a buffer with room stays empty. -/
def read (feed : Feed ρ) {n : Nat} (buffer : Vector UInt8 n) : Reading (Feed ρ) n :=
  if feed.released then ⟨.ok 0, buffer, feed⟩
  else
    let reading := readPatiently (Patient.patience feed.reader) feed.reader buffer
    match reading.outcome with
    | .ok 0 => reading.map fun r => { feed with reader := r, drained := feed.drained || 0 < n }
    | _ => reading.map fun r => { feed with reader := r }

def close (feed : Feed ρ) : Feed ρ :=
  if feed.released then feed
  else { feed with reader := Reader.close feed.reader, released := true }

instance : Source (Feed ρ) where
  read := read
  close := close
  available feed := !feed.released && !feed.drained

end Feed

theorem count_add_budget_readPatiently_le {ρ : Type} [Reader ρ] [Bounded ρ] {n : Nat}
    (retries : Nat) (r : ρ) (buffer : Vector UInt8 n) :
    (readPatiently retries r buffer).count + Bounded.budget (readPatiently retries r buffer).next
      ≤ Bounded.budget r := by
  induction retries generalizing r buffer with
  | zero => exact Bounded.count_add_budget_le r buffer
  | succ retries ih =>
    simp only [readPatiently]
    have h := Bounded.count_add_budget_le r buffer
    split
    · have := ih (Reader.read r buffer).next (Reader.read r buffer).buffer
      omega
    · exact h

instance {ρ : Type} [Reader ρ] [Patient ρ] [Bounded ρ] : Bounded (Feed ρ) where
  budget feed := Bounded.budget feed.reader
  count_add_budget_le feed n buffer := by
    have h := count_add_budget_readPatiently_le (Patient.patience feed.reader) feed.reader buffer
    simp only [Reader.read, Feed.read]
    split
    · simp [Reading.count]
    · split <;> simpa using h

end BasicTokens
