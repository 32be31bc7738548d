import BasicTokens.Scan.Run
import BasicTokens.Source.Slice

/-!
# Listing the tokens of a text

A listing asks a cursor for one token after the other. It stops quietly where the input ends, and
for good behind the first error. Where it has stopped because the input ended it may be asked again,
and then looks at the source again.
-/

namespace BasicTokens

structure Listing (σ : Type) where
  cursor : Cursor σ
  failed : Bool := false

namespace Listing

variable {σ : Type} [Source σ]

def take (l : Listing σ) : Except LexicalError Token × Cursor σ →
    Option (Except LexicalError Token) × Listing σ
  | (.ok t, c) => (some (.ok t), { l with cursor := c })
  | (.error e, c) =>
    if e.isEndOfInput then (none, { l with cursor := c }) else (some (.error e), ⟨c, true⟩)

/-- Asks for the next item, under a limit on the characters looked at. -/
def poll? (limit : Nat) (l : Listing σ) :
    Option (Option (Except LexicalError Token) × Listing σ) :=
  if l.failed || !l.cursor.hasMore then some (none, l) else (l.cursor.token? limit).map l.take

/-- All items until the listing has none, asking at most `polls` times. -/
def collect? (limit : Nat) : (polls : Nat) → Listing σ →
    Option (List (Except LexicalError Token) × Listing σ)
  | 0, _ => none
  | polls + 1, l =>
    match l.poll? limit with
    | none => none
    | some (none, l) => some ([], l)
    | some (some item, l) => (collect? limit polls l).map fun (items, l) => (item :: items, l)

section Bounded

variable [Bounded σ]

def remaining (l : Listing σ) : Nat :=
  if l.failed then 0 else l.cursor.budget + 1

theorem isSome_poll? {limit : Nat} (l : Listing σ) (h : l.cursor.budget < limit) :
    (l.poll? limit).isSome = true := by
  unfold poll?
  split
  · rfl
  · rw [Option.isSome_map]
    exact Cursor.isSome_token? _ h

def poll (l : Listing σ) : Option (Except LexicalError Token) × Listing σ :=
  (l.poll? (l.cursor.budget + 1)).get (isSome_poll? l (Nat.lt_succ_self _))

/-- No poll raises the budget, and each item lowers what remains. -/
theorem budget_le_of_poll? {limit : Nat} {l l' : Listing σ}
    {item : Option (Except LexicalError Token)} (h : l.poll? limit = some (item, l')) :
    l'.cursor.budget ≤ l.cursor.budget ∧ (item.isSome = true → l'.remaining < l.remaining) := by
  unfold poll? at h
  split at h
  · simp only [Option.some.injEq, Prod.mk.injEq] at h
    obtain ⟨rfl, rfl⟩ := h
    simp
  · rename_i hc
    have hf : l.failed = false := by
      cases hl : l.failed <;> simp_all
    rw [Option.map_eq_some_iff] at h
    obtain ⟨⟨result, c⟩, ht, ha⟩ := h
    have hb : c.budget ≤ l.cursor.budget := by
      rw [Cursor.token?, Option.map_eq_some_iff] at ht
      obtain ⟨⟨_, d⟩, hs, hd⟩ := ht
      rw [← (Prod.mk.inj hd).2, Cursor.budget_note]
      exact Cursor.budget_scan?_le hs
    cases result with
    | ok t =>
      have hlt := Cursor.budget_lt_of_token? ht
      simp only [take, Prod.mk.injEq] at ha
      obtain ⟨rfl, rfl⟩ := ha
      simp only [remaining, hf]
      exact ⟨hb, fun _ => by simpa using hlt⟩
    | error e =>
      simp only [take] at ha
      split at ha <;> simp only [Prod.mk.injEq] at ha <;> obtain ⟨rfl, rfl⟩ := ha
      · exact ⟨hb, fun hi => by simp at hi⟩
      · refine ⟨hb, fun _ => ?_⟩
        simp [remaining, hf]

theorem isSome_collect? {limit polls : Nat} (l : Listing σ) (hl : l.cursor.budget < limit)
    (hp : l.remaining < polls) : (l.collect? limit polls).isSome = true := by
  induction polls generalizing l with
  | zero => omega
  | succ polls ih =>
    rw [collect?]
    split
    · rename_i h
      have := isSome_poll? l hl
      rw [h] at this
      exact this
    · rfl
    · rename_i h
      obtain ⟨hb, hr⟩ := budget_le_of_poll? h
      have := hr rfl
      rw [Option.isSome_map]
      exact ih _ (by omega) (by omega)

def collect (l : Listing σ) : List (Except LexicalError Token) × Listing σ :=
  (l.collect? (l.cursor.budget + 1) (l.remaining + 1)).get
    (isSome_collect? l (Nat.lt_succ_self _) (Nat.lt_succ_self _))

end Bounded

end Listing

/-- The tokens ahead of a cursor up to the end of the input or the first error, which comes last. -/
def Cursor.tokens {σ : Type} [Source σ] [Bounded σ] (c : Cursor σ) :
    List (Except LexicalError Token) × Cursor σ :=
  let (items, l) := Listing.collect ⟨c, false⟩
  (items, l.cursor)

def sequence {ε α : Type} : List (Except ε α) → Except ε (List α)
  | [] => .ok []
  | .error e :: _ => .error e
  | .ok a :: items => (sequence items).map (a :: ·)

def tokenize (bytes : List UInt8) : Except LexicalError (List Token) :=
  sequence (Cursor.ofSource bytes).tokens.1

end BasicTokens
