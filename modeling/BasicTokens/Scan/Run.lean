import BasicTokens.Scan.Budget
import BasicTokens.Scan.Step

/-!
# Reading tokens from a cursor

A call reads one token: it shows the scan one character after the other until the scan is over.
Nothing is carried from call to call but the cursor, so after an error the next call simply goes on
behind what the failed call had taken.

A source may hand out blanks for ever, and then a call never returns. `token?` therefore works under
a limit on the characters it may look at and gives no answer when the limit is used up; an answer
does not depend on the limit. Over a bounded source a limit above the budget is enough, and `token`
is the call without a limit.
-/

namespace BasicTokens

def Event.ofResult : Except LexicalError Token → Event
  | .ok t => .token t
  | .error (.endOfInput p) => .endOfInput p
  | .error e => .lexicalError e

namespace Cursor

variable {σ : Type} [Source σ]

/-- Goes on with a scan until it is over, looking at no more than `limit` characters. -/
def scan? : (limit : Nat) → Scan → Cursor σ → Option (Except LexicalError Token × Cursor σ)
  | 0, _, _ => none
  | limit + 1, scan, c =>
    match c.peek? with
    | (.error e, c) => some (.error e, c)
    | (.ok none, c) => some (scan.finish c.position, c)
    | (.ok (some ch), c) =>
      match scan.step c.position ch with
      | .take next => scan? limit next c.advance
      | .leave result => some (result, c)
      | .complete token => some (.ok token, c.advance)

def token? (limit : Nat) (c : Cursor σ) : Option (Except LexicalError Token × Cursor σ) :=
  (c.scan? limit .blank).map fun (result, c) => (result, c.note (.ofResult result))

theorem scan?_mono {limit limit' : Nat} (h : limit ≤ limit') {scan : Scan} {c : Cursor σ}
    {answer : Except LexicalError Token × Cursor σ} (ha : c.scan? limit scan = some answer) :
    c.scan? limit' scan = some answer := by
  induction limit generalizing limit' scan c with
  | zero => simp [scan?] at ha
  | succ limit ih =>
    obtain ⟨limit', rfl⟩ : ∃ k, limit' = k + 1 := ⟨limit' - 1, by omega⟩
    rw [scan?] at ha ⊢
    split at ha
    · exact ha
    · exact ha
    · split at ha
      · exact ih (by omega) ha
      · exact ha
      · exact ha

section Bounded

variable [Bounded σ]

theorem isSome_scan? {limit : Nat} (scan : Scan) (c : Cursor σ) (h : c.budget < limit) :
    (c.scan? limit scan).isSome = true := by
  induction limit generalizing scan c with
  | zero => omega
  | succ limit ih =>
    rw [scan?]
    split
    · rfl
    · rfl
    · rename_i hp
      have hb := budget_peek?_le hp
      have ha := budget_advance_lt (pos_lt_len_of_peek? hp)
      split
      · exact ih _ _ (by omega)
      · rfl
      · rfl

theorem isSome_token? {limit : Nat} (c : Cursor σ) (h : c.budget < limit) :
    (c.token? limit).isSome = true := by
  rw [token?, Option.isSome_map]
  exact isSome_scan? _ c h

def token (c : Cursor σ) : Except LexicalError Token × Cursor σ :=
  (c.token? (c.budget + 1)).get (isSome_token? c (Nat.lt_succ_self _))

theorem token?_eq_some_token (c : Cursor σ) : c.token? (c.budget + 1) = some c.token :=
  (Option.some_get _).symm

theorem budget_scan?_le {limit : Nat} {scan : Scan} {c c' : Cursor σ}
    {result : Except LexicalError Token} (h : c.scan? limit scan = some (result, c')) :
    c'.budget ≤ c.budget := by
  induction limit generalizing scan c with
  | zero => simp [scan?] at h
  | succ limit ih =>
    rw [scan?] at h
    split at h
    · rename_i hp
      exact (Prod.mk.inj (Option.some.inj h)).2 ▸ budget_peek?_le hp
    · rename_i hp
      exact (Prod.mk.inj (Option.some.inj h)).2 ▸ budget_peek?_le hp
    · rename_i ch d hp
      have hb := budget_peek?_le hp
      have ha := budget_advance_le d
      split at h
      · exact Nat.le_trans (ih h) (Nat.le_trans ha hb)
      · exact (Prod.mk.inj (Option.some.inj h)).2 ▸ hb
      · exact (Prod.mk.inj (Option.some.inj h)).2 ▸ Nat.le_trans ha hb

/-- A call that gives a token has moved past a character. -/
theorem budget_lt_of_token? {limit : Nat} {c c' : Cursor σ} {t : Token}
    (h : c.token? limit = some (.ok t, c')) : c'.budget < c.budget := by
  rw [token?, Option.map_eq_some_iff] at h
  obtain ⟨⟨result, d⟩, hs, hd⟩ := h
  simp only [Prod.mk.injEq] at hd
  obtain ⟨rfl, rfl⟩ := hd
  cases limit with
  | zero => simp [scan?] at hs
  | succ limit =>
    rw [scan?] at hs
    split at hs
    · simp at hs
    · simp [Scan.finish] at hs
    · rename_i hp
      have hb := budget_peek?_le hp
      have ha := budget_advance_lt (pos_lt_len_of_peek? hp)
      have hr := budget_scan?_le hs
      rw [budget_note]
      omega

end Bounded

end Cursor

end BasicTokens
