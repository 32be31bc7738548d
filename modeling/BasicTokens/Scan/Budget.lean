import BasicTokens.Cursor

/-!
# How much a cursor can still read

Over a bounded source a cursor has a budget: the bytes in its buffer and those the source can still
give. No operation raises it, and moving past a character lowers it. This is the measure by which
everything that reads a text to its end terminates.
-/

namespace BasicTokens.Cursor

variable {σ : Type} [Source σ]

theorem pos_lt_len_of_fill {c c' : Cursor σ} (h : c.fill = (.ok (), c')) : c'.pos < c'.len := by
  unfold fill at h
  split at h
  · simp at h
  · simp only at h
    split at h
    · simp at h
    · split at h
      · simp at h
      · rename_i hl
        simp only [Prod.mk.injEq, true_and] at h
        subst h
        exact Nat.pos_of_ne_zero hl

theorem pos_lt_len_of_peek {c c' : Cursor σ} {ch : Char} (h : c.peek = (.ok ch, c')) :
    c'.pos < c'.len := by
  unfold peek at h
  split at h
  · rename_i hc
    simp only [Prod.mk.injEq] at h
    exact h.2 ▸ hc
  · split at h
    · simp at h
    · rename_i hf
      simp only [Prod.mk.injEq] at h
      exact h.2 ▸ pos_lt_len_of_fill hf

theorem pos_lt_len_of_peek? {c c' : Cursor σ} {ch : Char} (h : c.peek? = (.ok (some ch), c')) :
    c'.pos < c'.len := by
  unfold peek? at h
  split at h
  · split at h
    · rename_i hp
      simp only [Prod.mk.injEq] at h
      exact h.2 ▸ pos_lt_len_of_peek hp
    · split at h <;> simp at h
  · simp at h

section Bounded

variable [Bounded σ]

/-- A bound on the characters that can still be read. -/
def budget (c : Cursor σ) : Nat :=
  c.len - c.pos + Bounded.budget c.source

@[simp] theorem budget_note (c : Cursor σ) (e : Event) : (c.note e).budget = c.budget := rfl

theorem budget_fill_le {c c' : Cursor σ} {result : Except LexicalError Unit}
    (h : c.fill = (result, c')) : c'.budget ≤ c.budget := by
  have hb := Bounded.count_add_budget_le c.source c.buffer
  unfold fill at h
  split at h
  · exact (Prod.mk.inj h).2 ▸ Nat.le_refl _
  · simp only at h
    split at h
    · rw [← (Prod.mk.inj h).2]
      simp only [budget]
      omega
    · split at h <;> rw [← (Prod.mk.inj h).2] <;> simp only [budget] <;> omega

theorem budget_peek_le {c c' : Cursor σ} {result : Except LexicalError Char}
    (h : c.peek = (result, c')) : c'.budget ≤ c.budget := by
  unfold peek at h
  split at h
  · exact (Prod.mk.inj h).2 ▸ Nat.le_refl _
  · split at h <;> rename_i hf <;> exact (Prod.mk.inj h).2 ▸ budget_fill_le hf

theorem budget_peek?_le {c c' : Cursor σ} {result : Except LexicalError (Option Char)}
    (h : c.peek? = (result, c')) : c'.budget ≤ c.budget := by
  unfold peek? at h
  split at h
  · split at h
    · rename_i hp
      exact (Prod.mk.inj h).2 ▸ budget_peek_le hp
    · rename_i hp
      split at h <;> exact (Prod.mk.inj h).2 ▸ budget_peek_le hp
  · exact (Prod.mk.inj h).2 ▸ Nat.le_refl _

theorem budget_advance_lt {c : Cursor σ} (h : c.pos < c.len) : c.advance.budget < c.budget := by
  rw [advance, if_pos h]
  simp only [budget]
  omega

theorem budget_advance_le (c : Cursor σ) : c.advance.budget ≤ c.budget := by
  unfold advance
  split
  · simp only [budget]
    omega
  · exact Nat.le_refl _

end Bounded

end BasicTokens.Cursor
