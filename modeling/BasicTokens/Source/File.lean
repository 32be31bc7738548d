import BasicTokens.Path
import BasicTokens.Source.Basic

/-!
# Files

What a path leads to can be opened and read from. A directory can be opened like a file, but every
read of it fails.
-/

namespace BasicTokens

inductive OpenFile where
  | directory
  | contents (rest : List UInt8)
deriving DecidableEq, Repr

namespace OpenFile

def ofEntry : PathEntry → OpenFile
  | .directory => .directory
  | .file bytes => .contents bytes

def read (f : OpenFile) {n : Nat} (buffer : Vector UInt8 n) : Reading OpenFile n :=
  match f with
  | directory => ⟨.error ⟨.isADirectory, some PathFailure.isADirectory.text⟩, buffer, directory⟩
  | contents rest =>
    ⟨.ok (min n rest.length), overlay buffer 0 (rest.take n), contents (rest.drop n)⟩

instance : Reader OpenFile where
  read := read

instance : Patient OpenFile where
  patience _ := 0
  patience_lt f n buffer h := by
    cases f <;> simp [Reader.read, read, Reading.isInterrupted] at h

def budget : OpenFile → Nat
  | directory => 0
  | contents rest => rest.length

theorem count_add_budget_read_le (f : OpenFile) {n : Nat} (buffer : Vector UInt8 n) :
    (f.read buffer).count + (f.read buffer).next.budget ≤ f.budget := by
  cases f with
  | directory => simp [read, Reading.count, budget]
  | contents rest =>
    simp only [read, Reading.count, budget, List.length_drop]
    omega

instance : Bounded OpenFile where
  budget := budget
  count_add_budget_le f _ buffer := f.count_add_budget_read_le buffer

end OpenFile

end BasicTokens
