import BasicTokens.Error

/-!
# Where bytes come from

A *reader* fills a buffer on request; a *source* is a reader that also says whether it may have
more. Nothing else is promised: a reader may report more bytes than it wrote, write where it reports
nothing, answer with nothing although it has more, or fail, and a source's word on availability may
be wrong either way. What a theorem needs beyond that it asks for by one of the two laws at the end:
interruptions that cannot go on for ever (`Patient`), and a bound on the bytes still to come
(`Bounded`).
-/

namespace BasicTokens

/-- What a read leaves behind: how it went, the buffer, and the reader for the next time. A count
may exceed the size of the buffer. -/
structure Reading (ρ : Type) (n : Nat) where
  outcome : Except ReadFailure Nat
  buffer : Vector UInt8 n
  next : ρ

namespace Reading

variable {ρ : Type} {n : Nat}

def count (r : Reading ρ n) : Nat :=
  match r.outcome with
  | .ok reported => min reported n
  | .error _ => 0

def bytes (r : Reading ρ n) : List UInt8 :=
  r.buffer.toList.take r.count

/-- Whether the read was broken off and should simply be tried again. -/
def isInterrupted (r : Reading ρ n) : Bool :=
  match r.outcome with
  | .ok _ => false
  | .error f => f.kind = .interrupted

def map {τ : Type} (f : ρ → τ) (r : Reading ρ n) : Reading τ n :=
  ⟨r.outcome, r.buffer, f r.next⟩

@[simp] theorem count_map {τ : Type} (f : ρ → τ) (r : Reading ρ n) :
    (r.map f).count = r.count := rfl

@[simp] theorem next_map {τ : Type} (f : ρ → τ) (r : Reading ρ n) :
    (r.map f).next = f r.next := rfl

@[simp] theorem isInterrupted_map {τ : Type} (f : ρ → τ) (r : Reading ρ n) :
    (r.map f).isInterrupted = r.isInterrupted := rfl

theorem count_le (r : Reading ρ n) : r.count ≤ n := by
  unfold count
  split
  · exact Nat.min_le_right _ _
  · exact Nat.zero_le _

end Reading

class Reader (ρ : Type) where
  read : ρ → {n : Nat} → Vector UInt8 n → Reading ρ n
  close : ρ → ρ := id

class Source (σ : Type) extends Reader σ where
  available : σ → Bool

/-- A reader that is interrupted only finitely often in a row. -/
class Patient (ρ : Type) [Reader ρ] where
  patience : ρ → Nat
  patience_lt : ∀ (r : ρ) {n : Nat} (buffer : Vector UInt8 n),
    (Reader.read r buffer).isInterrupted = true →
      patience (Reader.read r buffer).next < patience r

/-- A reader with a bound on the bytes that all its later reads together can give. -/
class Bounded (ρ : Type) [Reader ρ] where
  budget : ρ → Nat
  count_add_budget_le : ∀ (r : ρ) {n : Nat} (buffer : Vector UInt8 n),
    (Reader.read r buffer).count + budget (Reader.read r buffer).next ≤ budget r

/-- Writes bytes into a buffer from the index `i` on, and leaves the rest of it as it was. What does
not fit is dropped. -/
def overlay {n : Nat} (buffer : Vector UInt8 n) (i : Nat) : List UInt8 → Vector UInt8 n
  | [] => buffer
  | b :: bytes => overlay (buffer.setIfInBounds i b) (i + 1) bytes

theorem getElem_overlay {n : Nat} (bytes : List UInt8) (buffer : Vector UInt8 n) (i j : Nat)
    (hj : j < n) :
    (overlay buffer i bytes)[j] = if i ≤ j then (bytes[j - i]?).getD buffer[j] else buffer[j] := by
  induction bytes generalizing buffer i with
  | nil => simp [overlay]
  | cons b bytes ih =>
    rw [overlay, ih, Vector.getElem_setIfInBounds hj]
    rcases Nat.lt_trichotomy i j with h | h | h
    · obtain ⟨k, rfl⟩ : ∃ k, j = i + 1 + k := ⟨j - (i + 1), by omega⟩
      rw [if_pos (by omega), if_neg (by omega), if_pos (by omega), Nat.add_sub_cancel_left,
        show i + 1 + k - i = k + 1 by omega, List.getElem?_cons_succ]
    · subst h
      rw [if_neg (by omega), if_pos rfl, if_pos (Nat.le_refl _), Nat.sub_self]
      rfl
    · rw [if_neg (by omega), if_neg (by omega), if_neg (by omega)]

theorem take_overlay {n : Nat} (bytes : List UInt8) (buffer : Vector UInt8 n)
    (h : bytes.length ≤ n) : (overlay buffer 0 bytes).toList.take bytes.length = bytes := by
  apply List.ext_getElem
  · simp [h]
  · intro j h₁ h₂
    rw [List.getElem_take, Vector.getElem_toList, getElem_overlay, if_pos (Nat.zero_le _),
      Nat.sub_zero, List.getElem?_eq_getElem h₂]
    rfl

end BasicTokens
