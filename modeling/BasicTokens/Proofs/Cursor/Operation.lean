import BasicTokens.Proofs.Delivery.Reading

/-!
# Operations on a cursor

Whatever is asked of a cursor comes down to two moves: to fill the buffer once all of it has been
read, and to move past one character. An operation fills at most once and then moves past at most
one character (`perform_cases`); a call does so as often as it looks at a character.

So a property of cursors that the two moves keep is kept by every operation (`IsCarried`), and if it
has nothing to do with the diary, by every call and every poll of a listing as well (`IsKept`). What
filling can come to is said once, for all sources (`Fills`).
-/

namespace BasicTokens

theorem LexicalError.exists_endOfInput {e : LexicalError} (h : e.isEndOfInput = true) :
    ∃ p, e = .endOfInput p := by
  cases e with
  | endOfInput p => exact ⟨p, rfl⟩
  | _ => cases h

namespace Cursor

inductive Operation where
  | hasMore
  | position
  | isClosed
  | peek
  | peek?
  | next
  | advance
deriving DecidableEq, Repr

variable {σ : Type} [Source σ] {c d : Cursor σ}

def perform (c : Cursor σ) : Operation → Cursor σ
  | .hasMore | .position | .isClosed => c
  | .peek => c.peek.2
  | .peek? => c.peek?.2
  | .next => c.next.2
  | .advance => c.advance

def taken (c : Cursor σ) : Operation → List Char
  | .next =>
    match c.next.1 with
    | .ok ch => [ch]
    | .error _ => []
  | .advance => if c.pos < c.len then [c.current] else []
  | _ => []

/-! ### Filling -/

/-- What filling can come to. The source is asked only if it is open and says that it has more. -/
inductive Fills (c : Cursor σ) : Except LexicalError Unit → Cursor σ → Prop
  | unasked : c.closed = true ∨ Source.available c.source = false →
      Fills c (.error (.endOfInput c.position)) c
  | failed {cause : ReadFailure} : c.closed = false → Source.available c.source = true →
      (Reader.read c.source c.buffer).outcome = .error cause →
      Fills c (.error (.ofFailure cause)) c.broken
  | read {reported : Nat} : c.closed = false → Source.available c.source = true →
      (Reader.read c.source c.buffer).outcome = .ok reported →
      Fills c (if (Reader.read c.source c.buffer).count = 0 then .error (.endOfInput c.position)
        else .ok ()) c.refilled

theorem fill_of_closed (h : c.closed = true) : c.fill = (.error (.endOfInput c.position), c) := by
  simp [fill, h]

theorem fills_fill (c : Cursor σ) : c.Fills c.fill.1 c.fill.2 := by
  cases hclosed : c.closed with
  | true =>
    rw [fill_of_closed hclosed]
    exact .unasked (.inl hclosed)
  | false =>
    cases ha : Source.available c.source with
    | false =>
      rw [fill_of_unavailable ha]
      exact .unasked (.inr ha)
    | true =>
      cases hread : (Reader.read c.source c.buffer).outcome with
      | error cause =>
        rw [fill_of_error hclosed ha hread]
        exact .failed hclosed ha hread
      | ok reported =>
        rw [fill_of_ok hclosed ha hread]
        exact .read hclosed ha hread

theorem fills_of_fill {result : Except LexicalError Unit} (h : c.fill = (result, d)) :
    c.Fills result d := by
  have hfills := c.fills_fill
  rwa [h] at hfills

theorem Fills.exists_cause {result : Except LexicalError Unit} {e : LexicalError}
    (h : c.Fills result d) (hresult : result = .error e) (hend : e.isEndOfInput = false) :
    ∃ cause, e = .ofFailure cause := by
  cases h with
  | unasked =>
    cases hresult
    cases hend
  | failed =>
    cases hresult
    exact ⟨_, rfl⟩
  | read =>
    split at hresult
    · cases hresult
      cases hend
    · cases hresult

/-! ### Moves -/

/-- The cursor is the same, or it has been filled because nothing was buffered. -/
def Filled (c d : Cursor σ) : Prop :=
  d = c ∨ ¬c.pos < c.len ∧ d = c.fill.2

theorem peek_of_pos_lt_len (hpos : c.pos < c.len) : c.peek = (.ok c.current, c) :=
  if_pos hpos

theorem filled_of_peek {result : Except LexicalError Char} (h : c.peek = (result, d)) :
    c.Filled d := by
  by_cases hpos : c.pos < c.len
  · rw [peek_of_pos_lt_len hpos] at h
    cases h
    exact .inl rfl
  · rw [peek, if_neg hpos] at h
    split at h
    · rename_i hfill
      cases h
      exact .inr ⟨hpos, by rw [hfill]⟩
    · rename_i hfill
      cases h
      exact .inr ⟨hpos, by rw [hfill]⟩

theorem current_of_peek {ch : Char} (h : c.peek = (.ok ch, d)) : ch = d.current := by
  by_cases hpos : c.pos < c.len
  · rw [peek_of_pos_lt_len hpos] at h
    cases h
    rfl
  · rw [peek, if_neg hpos] at h
    split at h <;> cases h
    rfl

/-- Looking for a character, with the end of the input as an answer like another. -/
def orNone : Except LexicalError Char × Cursor σ → Except LexicalError (Option Char) × Cursor σ
  | (.ok ch, c) => (.ok (some ch), c)
  | (.error e, c) => if e.isEndOfInput then (.ok none, c) else (.error e, c)

theorem hasMore_eq_false_iff :
    c.hasMore = false ↔
      ¬c.pos < c.len ∧ (c.closed = true ∨ Source.available c.source = false) := by
  simp only [hasMore, Bool.or_eq_false_iff, decide_eq_false_iff_not, Bool.and_eq_false_iff,
    Bool.not_eq_false']

theorem fill_of_hasMore_eq_false (h : c.hasMore = false) :
    c.fill = (.error (.endOfInput c.position), c) := by
  rcases (hasMore_eq_false_iff.1 h).2 with hclosed | ha
  · exact fill_of_closed hclosed
  · exact fill_of_unavailable ha

theorem peek_of_hasMore_eq_false (h : c.hasMore = false) :
    c.peek = (.error (.endOfInput c.position), c) :=
  peek_of_fill_error (hasMore_eq_false_iff.1 h).1 (fill_of_hasMore_eq_false h)

theorem peek?_eq_orNone_peek (c : Cursor σ) : c.peek? = orNone c.peek := by
  cases hmore : c.hasMore with
  | false =>
    rw [peek_of_hasMore_eq_false hmore, peek?, hmore]
    rfl
  | true =>
    rw [peek?, if_pos hmore]
    rcases c.peek with ⟨result, d⟩
    cases result <;> rfl

theorem peek?_of_hasMore_eq_false (h : c.hasMore = false) : c.peek? = (.ok none, c) := by
  rw [peek?_eq_orNone_peek, peek_of_hasMore_eq_false h]
  rfl

theorem exists_peek_of_peek?_none (h : c.peek? = (.ok none, d)) :
    ∃ p, c.peek = (.error (.endOfInput p), d) := by
  rw [peek?_eq_orNone_peek] at h
  rcases hpeek : c.peek with ⟨result, k⟩
  rw [hpeek] at h
  cases result with
  | ok ch => cases h
  | error e =>
    rw [orNone] at h
    split at h
    · rename_i hend
      obtain ⟨p, rfl⟩ := LexicalError.exists_endOfInput hend
      cases h
      exact ⟨p, rfl⟩
    · cases h

theorem snd_peek? (c : Cursor σ) : c.peek?.2 = c.peek.2 := by
  rw [peek?_eq_orNone_peek]
  rcases c.peek with ⟨result, d⟩
  cases result with
  | ok ch => rfl
  | error e =>
    rw [orNone]
    split <;> rfl

theorem current_of_peek? {ch : Char} (hpeek : c.peek? = (.ok (some ch), d)) : ch = d.current := by
  rw [peek?_eq_orNone_peek] at hpeek
  rcases hp : c.peek with ⟨result, e⟩
  rw [hp] at hpeek
  cases result with
  | ok ch' =>
    cases hpeek
    exact current_of_peek hp
  | error e' =>
    rw [orNone] at hpeek
    split at hpeek <;> cases hpeek

theorem fill_of_peek_error {e : LexicalError} (h : c.peek = (.error e, d)) :
    c.fill = (.error e, d) := by
  by_cases hpos : c.pos < c.len
  · rw [peek_of_pos_lt_len hpos] at h
    cases h
  · rw [peek, if_neg hpos] at h
    split at h
    · rename_i hfill
      cases h
      exact hfill
    · cases h

theorem exists_cause_of_peek? {e : LexicalError} (hpeek : c.peek? = (.error e, d)) :
    ∃ cause, e = .ofFailure cause := by
  rw [peek?_eq_orNone_peek] at hpeek
  rcases hp : c.peek with ⟨result, k⟩
  rw [hp] at hpeek
  cases result with
  | ok ch => cases hpeek
  | error e' =>
    rw [orNone] at hpeek
    split at hpeek
    · cases hpeek
    · rename_i hend
      cases hpeek
      exact (fills_of_fill (fill_of_peek_error hp)).exists_cause rfl (Bool.eq_false_iff.2 hend)

theorem token?_of_hasMore_eq_false (h : c.hasMore = false) (limit : Nat) :
    c.token? (limit + 1)
      = some (.error (.endOfInput c.position), c.note (.endOfInput c.position)) := by
  rw [token?, scan?, peek?_of_hasMore_eq_false h]
  rfl

theorem next_of_peek_ok {ch : Char} (h : c.peek = (.ok ch, d)) : c.next = (.ok ch, d.advance) := by
  rw [next, h]

theorem next_of_peek_error {e : LexicalError} (h : c.peek = (.error e, d)) :
    c.next = (.error e, d) := by
  rw [next, h]

/-- An operation fills at most once, and then moves past at most one character. -/
theorem perform_cases (c : Cursor σ) (op : Operation) :
    ∃ d, c.Filled d ∧
      (c.perform op = d ∧ c.taken op = []
        ∨ d.pos < d.len ∧ c.perform op = d.advance ∧ c.taken op = [d.current]) := by
  have hfilled : c.Filled c.peek.2 := filled_of_peek rfl
  cases op with
  | hasMore => exact ⟨c, .inl rfl, .inl ⟨rfl, rfl⟩⟩
  | position => exact ⟨c, .inl rfl, .inl ⟨rfl, rfl⟩⟩
  | isClosed => exact ⟨c, .inl rfl, .inl ⟨rfl, rfl⟩⟩
  | peek => exact ⟨c.peek.2, hfilled, .inl ⟨rfl, rfl⟩⟩
  | peek? => exact ⟨c.peek.2, hfilled, .inl ⟨c.snd_peek?, rfl⟩⟩
  | next =>
    rcases hpeek : c.peek with ⟨result, d⟩
    rw [hpeek] at hfilled
    refine ⟨d, hfilled, ?_⟩
    cases result with
    | ok ch =>
      rw [perform, taken, next_of_peek_ok hpeek, ← current_of_peek hpeek]
      exact .inr ⟨pos_lt_len_of_peek hpeek, rfl, rfl⟩
    | error e =>
      rw [perform, taken, next_of_peek_error hpeek]
      exact .inl ⟨rfl, rfl⟩
  | advance =>
    refine ⟨c, .inl rfl, ?_⟩
    by_cases hpos : c.pos < c.len
    · exact .inr ⟨hpos, rfl, if_pos hpos⟩
    · exact .inl ⟨if_neg hpos, if_neg hpos⟩

omit [Source σ] in
theorem source_advance (c : Cursor σ) : c.advance.source = c.source := by
  unfold advance
  split <;> rfl

/-! ### What the moves keep -/

/-- A property of cursors that the two moves keep. -/
structure IsCarried (P : Cursor σ → Prop) : Prop where
  fill : ∀ {c}, P c → ¬c.pos < c.len → P c.fill.2
  advance : ∀ {c}, P c → c.pos < c.len → P c.advance

namespace IsCarried

variable {P : Cursor σ → Prop}

theorem of_filled (hP : IsCarried P) (h : P c) (hfilled : c.Filled d) : P d := by
  rcases hfilled with rfl | ⟨hpos, rfl⟩
  · exact h
  · exact hP.fill h hpos

theorem perform (hP : IsCarried P) (h : P c) (op : Operation) : P (c.perform op) := by
  obtain ⟨d, hfilled, hmove⟩ := c.perform_cases op
  have hd := hP.of_filled h hfilled
  rcases hmove with ⟨hperform, -⟩ | ⟨hpos, hperform, -⟩
  · rwa [hperform]
  · rw [hperform]
    exact hP.advance hd hpos

theorem peek? (hP : IsCarried P) (h : P c) {result : Except LexicalError (Option Char)}
    (hpeek : c.peek? = (result, d)) : P d := by
  have hd := hP.perform h .peek?
  rwa [Cursor.perform, hpeek] at hd

theorem scan? (hP : IsCarried P) (h : P c) {limit : Nat} {scan : Scan}
    {result : Except LexicalError Token} (hscan : c.scan? limit scan = some (result, d)) : P d := by
  induction limit generalizing scan c with
  | zero => cases hscan
  | succ limit ih =>
    rw [Cursor.scan?] at hscan
    split at hscan
    · rename_i hpeek
      cases hscan
      exact hP.peek? h hpeek
    · rename_i hpeek
      cases hscan
      exact hP.peek? h hpeek
    · rename_i hpeek
      have he := hP.peek? h hpeek
      have hadvance := hP.advance he (pos_lt_len_of_peek? hpeek)
      split at hscan
      · exact ih hadvance hscan
      · cases hscan
        exact he
      · cases hscan
        exact hadvance

theorem exists_note_of_token? (hP : IsCarried P) (h : P c) {limit : Nat}
    {result : Except LexicalError Token} (htoken : c.token? limit = some (result, d)) :
    ∃ k, P k ∧ d = k.note (.ofResult result) := by
  rw [token?, Option.map_eq_some_iff] at htoken
  obtain ⟨⟨_, k⟩, hscan, hnote⟩ := htoken
  cases hnote
  exact ⟨k, hP.scan? h hscan, rfl⟩

end IsCarried

/-- A property of cursors that filling and moving on keep, and writing into the diary as well. -/
structure IsKept (P : Cursor σ → Prop) : Prop where
  fill : ∀ {c}, P c → ¬c.pos < c.len → P c.fill.2
  advance : ∀ {c}, P c → c.pos < c.len → P c.advance
  note : ∀ {c} (e : Event), P c → P (c.note e)

namespace IsKept

variable {P : Cursor σ → Prop}

theorem isCarried (hP : IsKept P) : IsCarried P :=
  ⟨hP.fill, hP.advance⟩

theorem perform (hP : IsKept P) (h : P c) (op : Operation) : P (c.perform op) :=
  hP.isCarried.perform h op

theorem peek? (hP : IsKept P) (h : P c) {result : Except LexicalError (Option Char)}
    (hpeek : c.peek? = (result, d)) : P d :=
  hP.isCarried.peek? h hpeek

theorem scan? (hP : IsKept P) (h : P c) {limit : Nat} {scan : Scan}
    {result : Except LexicalError Token} (hscan : c.scan? limit scan = some (result, d)) : P d :=
  hP.isCarried.scan? h hscan

theorem token? (hP : IsKept P) (h : P c) {limit : Nat} {result : Except LexicalError Token}
    (htoken : c.token? limit = some (result, d)) : P d := by
  obtain ⟨k, hk, rfl⟩ := hP.isCarried.exists_note_of_token? h htoken
  exact hP.note _ hk

end IsKept

end Cursor

/-! ### Polls -/

namespace Listing

variable {σ : Type} [Source σ] {l m : Listing σ} {limit : Nat}

/-- What a poll can come to. A listing that has failed does not make a call any more. -/
inductive Polled (limit : Nat) (l : Listing σ) :
    Option (Except LexicalError Token) → Listing σ → Prop
  | unasked : l.failed = true ∨ l.cursor.hasMore = false → Polled limit l none l
  | ended {p : Position} {d : Cursor σ} : l.failed = false →
      l.cursor.token? limit = some (.error (.endOfInput p), d) → Polled limit l none ⟨d, false⟩
  | failed {e : LexicalError} {d : Cursor σ} : l.failed = false →
      l.cursor.token? limit = some (.error e, d) → e.isEndOfInput = false →
      Polled limit l (some (.error e)) ⟨d, true⟩
  | token {t : Token} {d : Cursor σ} : l.failed = false →
      l.cursor.token? limit = some (.ok t, d) → Polled limit l (some (.ok t)) ⟨d, false⟩

theorem poll?_of_failed (c : Cursor σ) (limit : Nat) :
    (Listing.mk c true).poll? limit = some (none, ⟨c, true⟩) := rfl

theorem poll?_of_hasMore_eq_false (h : l.cursor.hasMore = false) (limit : Nat) :
    l.poll? limit = some (none, l) := by
  simp [poll?, h]

theorem poll?_of_hasMore {c : Cursor σ} (hmore : c.hasMore = true) (limit : Nat) :
    (Listing.mk c false).poll? limit = (c.token? limit).map (Listing.mk c false).take :=
  if_neg (by simp [hmore])

theorem polled_of_poll? {item : Option (Except LexicalError Token)}
    (hpoll : l.poll? limit = some (item, m)) : l.Polled limit item m := by
  obtain ⟨c, failed⟩ := l
  cases failed with
  | true =>
    rw [poll?_of_failed] at hpoll
    cases hpoll
    exact .unasked (.inl rfl)
  | false =>
    cases hmore : c.hasMore with
    | false =>
      rw [poll?_of_hasMore_eq_false hmore] at hpoll
      cases hpoll
      exact .unasked (.inr hmore)
    | true =>
      rw [poll?_of_hasMore hmore, Option.map_eq_some_iff] at hpoll
      obtain ⟨⟨result, d⟩, htoken, htake⟩ := hpoll
      cases result with
      | ok t =>
        cases htake
        exact .token rfl htoken
      | error e =>
        rw [take] at htake
        split at htake
        · rename_i hend
          obtain ⟨p, rfl⟩ := LexicalError.exists_endOfInput hend
          cases htake
          exact .ended rfl htoken
        · rename_i hend
          cases htake
          exact .failed rfl htoken (Bool.eq_false_iff.2 hend)

theorem collect?_of_none (hpoll : l.poll? limit = some (none, m)) (polls : Nat) :
    l.collect? limit (polls + 1) = some ([], m) := by
  rw [collect?, hpoll]

theorem collect?_of_some {k : Listing σ} {polls : Nat} {item : Except LexicalError Token}
    {items : List (Except LexicalError Token)} (hpoll : l.poll? limit = some (some item, m))
    (hrest : m.collect? limit polls = some (items, k)) :
    l.collect? limit (polls + 1) = some (item :: items, k) := by
  rw [collect?, hpoll]
  simp only [hrest, Option.map_some]

end Listing

theorem Cursor.IsKept.poll? {σ : Type} [Source σ] {P : Cursor σ → Prop} (hP : IsKept P)
    {l m : Listing σ} (h : P l.cursor) {limit : Nat} {item : Option (Except LexicalError Token)}
    (hpoll : l.poll? limit = some (item, m)) : P m.cursor := by
  cases Listing.polled_of_poll? hpoll with
  | unasked => exact h
  | ended _ htoken => exact hP.token? h htoken
  | failed _ htoken => exact hP.token? h htoken
  | token _ htoken => exact hP.token? h htoken

end BasicTokens
