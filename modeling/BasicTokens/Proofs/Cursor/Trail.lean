import BasicTokens.Proofs.Cursor.Operation
import BasicTokens.Source.Recorded

/-!
# What has been read and what has been moved past

A source is recorded, so that all it ever exposed can be read off the record, and the characters
that operations have moved past are written down. Then at any time the characters moved past, and
behind them what is still in the buffer, are exactly what the source has exposed (`IsExact`). Each
of the two moves keeps this: filling happens only when the buffer has been read to its end, so what
it exposes stands right behind what was moved past, and moving on takes the first character of what
is buffered.

Nothing is assumed of the source. It may report more than the buffer holds, answer with nothing
although it says that it has more, write into the buffer and fail, or say anything about what is
available.
-/

namespace BasicTokens

namespace Recorded

variable {ρ : Type} [Reader ρ]

theorem calls_read (r : Recorded ρ) {n : Nat} (buffer : Vector UInt8 n) :
    (Reader.read r buffer).next.calls = callOf (Reader.read r.inner buffer) :: r.calls := rfl

omit [Reader ρ] in
theorem bytes_callOf {n : Nat} (reading : Reading ρ n) :
    (callOf reading).bytes = reading.bytes := by
  unfold callOf
  cases hread : reading.outcome with
  | error cause =>
    have hcount : reading.count = 0 := by simp [Reading.count, hread]
    rw [Reading.bytes, hcount, List.take_zero]
    rfl
  | ok reported => rfl

theorem received_read (r : Recorded ρ) {n : Nat} (buffer : Vector UInt8 n) :
    (Reader.read r buffer).next.received = r.received ++ (Reader.read r buffer).bytes := by
  have hbytes : (Reader.read r buffer).bytes = (Reader.read r.inner buffer).bytes := rfl
  rw [received, calls_read, List.reverse_cons, List.flatMap_append, List.flatMap_singleton,
    bytes_callOf, hbytes]
  rfl

end Recorded

/-- A cursor over a recorded source, and the characters that were moved past, in order. -/
structure Trail (σ : Type) where
  cursor : Cursor (Recorded σ)
  past : List Char := []

namespace Trail

variable {σ : Type} [Source σ] {t : Trail σ}

def ofSource (s : σ) : Trail σ where
  cursor := .ofSource ⟨s, []⟩

def perform (t : Trail σ) (op : Cursor.Operation) : Trail σ :=
  ⟨t.cursor.perform op, t.past ++ t.cursor.taken op⟩

def run (t : Trail σ) (ops : List Cursor.Operation) : Trail σ :=
  ops.foldl perform t

/-- The cursor stands in its buffer, at the position of all that it has moved past, and nothing is
lost, doubled or out of order. -/
structure IsExact (t : Trail σ) : Prop where
  pos_le : t.cursor.pos ≤ t.cursor.len
  len_le : t.cursor.len ≤ capacity
  position : t.cursor.position = Position.start.afterAll t.past
  received : t.past ++ textOf t.cursor.buffered = textOf t.cursor.source.received

omit [Source σ] in
theorem isExact_ofSource (s : σ) : (ofSource s).IsExact :=
  ⟨Nat.le_refl _, Nat.zero_le _, rfl, rfl⟩

theorem isExact_fill (h : t.IsExact) (hpos : ¬t.cursor.pos < t.cursor.len) :
    (Trail.mk t.cursor.fill.2 t.past).IsExact := by
  obtain ⟨c, past⟩ := t
  have hpast : past = textOf c.source.received := by
    have hreceived := h.received
    rwa [Cursor.buffered_eq_nil hpos, textOf_nil, List.append_nil] at hreceived
  rcases hfill : c.fill with ⟨result, d⟩
  cases Cursor.fills_of_fill hfill with
  | unasked => exact h
  | failed _ _ hread =>
    refine ⟨h.pos_le, h.len_le, h.position, ?_⟩
    have hbytes : (Reader.read c.source c.buffer).bytes = [] := by
      simp [Reading.bytes, Reading.count, hread]
    have hsource : c.broken.source.received = c.source.received := by
      rw [← List.append_nil c.source.received, ← hbytes]
      exact c.source.received_read c.buffer
    rw [Cursor.buffered_broken hpos, hsource, textOf_nil, List.append_nil]
    exact hpast
  | read _ _ _ =>
    refine ⟨Nat.zero_le _, Reading.count_le _, h.position, ?_⟩
    have hsource : c.refilled.source.received
        = c.source.received ++ (Reader.read c.source c.buffer).bytes :=
      c.source.received_read c.buffer
    rw [Cursor.buffered_refilled, hsource, textOf_append, hpast]

omit [Source σ] in
theorem isExact_advance (h : t.IsExact) (hpos : t.cursor.pos < t.cursor.len) :
    (Trail.mk t.cursor.advance (t.past ++ [t.cursor.current])).IsExact := by
  have hadvance : t.cursor.advance = { t.cursor with
      pos := t.cursor.pos + 1
      position := t.cursor.position.after t.cursor.current } := if_pos hpos
  refine ⟨?_, ?_, ?_, ?_⟩
  · rw [hadvance]
    exact hpos
  · rw [hadvance]
    exact h.len_le
  · rw [hadvance, Position.afterAll_append, ← h.position]
    rfl
  · have hreceived := h.received
    rw [Cursor.textOf_buffered hpos h.len_le, ← Cursor.buffered_advance hpos] at hreceived
    rw [List.append_assoc, List.singleton_append, hreceived, hadvance]

theorem isExact_filled {d : Cursor (Recorded σ)} (h : t.IsExact) (hfilled : t.cursor.Filled d) :
    (Trail.mk d t.past).IsExact := by
  rcases hfilled with rfl | ⟨hpos, rfl⟩
  · exact h
  · exact isExact_fill h hpos

theorem isExact_perform (h : t.IsExact) (op : Cursor.Operation) : (t.perform op).IsExact := by
  obtain ⟨d, hfilled, hmove⟩ := t.cursor.perform_cases op
  have hd := isExact_filled h hfilled
  rw [perform]
  rcases hmove with ⟨hperform, htaken⟩ | ⟨hpos, hperform, htaken⟩
  · rw [hperform, htaken, List.append_nil]
    exact hd
  · rw [hperform, htaken]
    exact isExact_advance hd hpos

theorem isExact_run (h : t.IsExact) (ops : List Cursor.Operation) : (t.run ops).IsExact := by
  induction ops generalizing t with
  | nil => exact h
  | cons op ops ih => exact ih (isExact_perform h op)

/-! ### Reads -/

/-- A record with at most one more call, which is a read into the whole buffer. -/
def ReadsOnce (r r' : Recorded σ) : Prop :=
  r'.calls = r.calls ∨ ∃ got, r'.calls = .read capacity got :: r.calls

theorem readsOnce_fill (c : Cursor (Recorded σ)) : ReadsOnce c.source c.fill.2.source := by
  rcases hfill : c.fill with ⟨result, d⟩
  cases Cursor.fills_of_fill hfill with
  | unasked => exact .inl rfl
  | failed => exact .inr ⟨_, c.source.calls_read c.buffer⟩
  | read => exact .inr ⟨_, c.source.calls_read c.buffer⟩

theorem readsOnce_perform (h : t.IsExact) (op : Cursor.Operation) :
    (t.cursor.perform op).source.calls = t.cursor.source.calls
      ∨ t.cursor.pos = t.cursor.len ∧ ReadsOnce t.cursor.source (t.cursor.perform op).source := by
  obtain ⟨d, hfilled, hmove⟩ := t.cursor.perform_cases op
  have hsource : (t.cursor.perform op).source = d.source := by
    rcases hmove with ⟨hperform, -⟩ | ⟨-, hperform, -⟩
    · rw [hperform]
    · rw [hperform, Cursor.source_advance]
  rw [hsource]
  rcases hfilled with rfl | ⟨hpos, rfl⟩
  · exact .inl rfl
  · exact .inr ⟨Nat.le_antisymm h.pos_le (Nat.le_of_not_lt hpos), readsOnce_fill t.cursor⟩

end Trail

/-! ### Looking ahead -/

namespace Cursor

variable {σ : Type}

theorem current_eq_ofUInt8 {c : Cursor σ} (h : c.pos < capacity) :
    c.current = Char.ofUInt8 c.buffer[c.pos] := by
  rw [current, Vector.getElem?_eq_getElem h, Option.getD_some]

variable [Source σ]

/-- How a cursor looks at the next character. -/
structure LooksAhead (c : Cursor σ) : Prop where
  /-- A character that can be moved past stands in the buffer. -/
  current : c.pos < c.len → ∃ h : c.pos < capacity, c.current = Char.ofUInt8 c.buffer[c.pos]
  peek : ∀ ch d, c.peek = (.ok ch, d) →
    ∃ h : d.pos < capacity, d.pos < d.len ∧ ch = Char.ofUInt8 d.buffer[d.pos]
  /-- What is buffered is had as often as one likes, and nothing changes. -/
  buffered : ∀ b bytes, c.buffered = b :: bytes →
    c.peek = (.ok (Char.ofUInt8 b), c) ∧ c.peek? = (.ok (some (Char.ofUInt8 b)), c)
  ended : c.hasMore = false → c.peek = (.error (.endOfInput c.position), c)
  orNone : c.peek? = orNone c.peek

theorem peek_of_buffered_cons {c : Cursor σ} {b : UInt8} {bytes : List UInt8}
    (hlen : c.len ≤ capacity) (h : c.buffered = b :: bytes) :
    c.peek = (.ok (Char.ofUInt8 b), c) := by
  have hpos : c.pos < c.len := by
    by_contra hpos
    rw [buffered_eq_nil hpos] at h
    cases h
  have htext := textOf_buffered hpos hlen
  rw [h, textOf_cons, List.cons.injEq] at htext
  rw [peek_of_pos_lt_len hpos, htext.1]

theorem looksAhead_of_isExact {t : Trail σ} (h : t.IsExact) : t.cursor.LooksAhead where
  current hpos := by
    have hcapacity := Nat.lt_of_lt_of_le hpos h.len_le
    exact ⟨hcapacity, current_eq_ofUInt8 hcapacity⟩
  peek ch d hpeek := by
    have hd := Trail.isExact_filled h (filled_of_peek hpeek)
    have hpos := pos_lt_len_of_peek hpeek
    have hcapacity : d.pos < capacity := Nat.lt_of_lt_of_le hpos hd.len_le
    exact ⟨hcapacity, hpos, by rw [current_of_peek hpeek, current_eq_ofUInt8 hcapacity]⟩
  buffered b bytes hbuffered := by
    have hpeek := peek_of_buffered_cons h.len_le hbuffered
    refine ⟨hpeek, ?_⟩
    rw [peek?_eq_orNone_peek, hpeek]
    rfl
  ended := peek_of_hasMore_eq_false
  orNone := peek?_eq_orNone_peek _

end Cursor

/-- **A cursor is a lossless queue with a safe buffer**, over any source and whatever operations are
performed from the start on. -/
theorem Trail.run_ofSource {σ : Type} [Source σ] (s : σ) (ops : List Cursor.Operation) :
    let t := (Trail.ofSource s).run ops
    t.IsExact
      ∧ (∀ op, (t.cursor.perform op).source.calls = t.cursor.source.calls
          ∨ t.cursor.pos = t.cursor.len
            ∧ Trail.ReadsOnce t.cursor.source (t.cursor.perform op).source)
      ∧ t.cursor.LooksAhead := by
  intro t
  have h : t.IsExact := isExact_run (isExact_ofSource s) ops
  exact ⟨h, fun op => readsOnce_perform h op, Cursor.looksAhead_of_isExact h⟩

end BasicTokens
