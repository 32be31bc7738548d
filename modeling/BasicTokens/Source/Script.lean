import BasicTokens.Source.Basic

/-!
# Scripted readers

A script fixes in advance how the reads of a reader go: which bytes they hand out, in which pieces,
what they report, and where they fail. It can be honest or not; a step that reports a count of its
own may report anything. An announced script is a source whose word on availability is fixed as
well.
-/

namespace BasicTokens

/-- How one read goes. A step with bytes serves further reads until its bytes are used up. -/
inductive Script.Step where
  | data (bytes : List UInt8) (report : Option Nat)
  | failure (cause : ReadFailure)
deriving DecidableEq, Repr

/-- The reads still to come; after the last step every read is empty. -/
structure Script where
  steps : List Script.Step
deriving DecidableEq, Repr

namespace Script

def read : Script → {n : Nat} → Vector UInt8 n → Reading Script n
  | ⟨[]⟩, _, buffer => ⟨.ok 0, buffer, ⟨[]⟩⟩
  | ⟨.failure cause :: steps⟩, _, buffer => ⟨.error cause, buffer, ⟨steps⟩⟩
  | ⟨.data bytes report :: steps⟩, n, buffer =>
    ⟨.ok (report.getD (min n bytes.length)), overlay buffer 0 (bytes.take n),
      if bytes.length ≤ n then ⟨steps⟩ else ⟨.data (bytes.drop n) report :: steps⟩⟩

instance : Reader Script where
  read := read

/-- A step that gives a count of its own gives it at most once for each of its bytes, and once if it
has none. -/
def Step.budget : Step → Nat
  | .data bytes none => bytes.length
  | .data bytes (some report) => (bytes.length + 1) * report
  | .failure _ => 0

def budget (script : Script) : Nat :=
  script.steps.foldr (fun step n => step.budget + n) 0

theorem count_add_budget_read_le (script : Script) {n : Nat} (buffer : Vector UInt8 n) :
    (script.read buffer).count + (script.read buffer).next.budget ≤ script.budget := by
  obtain ⟨_ | ⟨_ | _, steps⟩⟩ := script
  · simp [read, Reading.count, budget]
  · rename_i bytes report
    simp only [read, Reading.count, budget]
    split
    · cases report with
      | none => simp only [Option.getD_none, List.foldr_cons, Step.budget]; omega
      | some k =>
        simp only [Option.getD_some, List.foldr_cons, Step.budget, Nat.add_mul,
          Nat.one_mul]
        omega
    · cases report with
      | none =>
        simp only [Option.getD_none, List.foldr_cons, Step.budget, List.length_drop]
        omega
      | some k =>
        simp only [Option.getD_some, List.foldr_cons, Step.budget, List.length_drop]
        rcases Nat.eq_zero_or_pos n with hn | hn
        · simp [hn]
        · have : (bytes.length - n + 1) * k + k ≤ (bytes.length + 1) * k := by
            rw [← Nat.succ_mul]
            exact Nat.mul_le_mul_right k (by omega)
          omega
  · simp [read, Reading.count, budget, Step.budget]

instance : Bounded Script where
  budget := budget
  count_add_budget_le script _ buffer := script.count_add_budget_read_le buffer

instance : Patient Script where
  patience script := script.steps.length
  patience_lt script n buffer h := by
    obtain ⟨_ | ⟨_ | _, steps⟩⟩ := script
    · simp [Reader.read, read, Reading.isInterrupted] at h
    · simp [Reader.read, read, Reading.isInterrupted] at h
    · simp [Reader.read, read]

end Script

/-- A script with announcements of availability: the first holds before any read, the next after one
read, and so on; the last stays. Without announcements there is more as long as there are steps. -/
structure Announced where
  script : Script
  announcements : List Bool := []
  reads : Nat := 0

namespace Announced

instance : Source Announced where
  read a _ buffer := (Reader.read a.script buffer).map fun s =>
    { a with script := s, reads := a.reads + 1 }
  available a :=
    match a.announcements with
    | [] => !a.script.steps.isEmpty
    | first :: rest => (first :: rest).getD (min a.reads rest.length) first

instance : Bounded Announced where
  budget a := Bounded.budget a.script
  count_add_budget_le a _ buffer := Bounded.count_add_budget_le a.script buffer

end Announced

end BasicTokens
