import BasicTokens.Proofs.Cursor.Operation
import BasicTokens.Proofs.Delivery.Faltering
import Mathlib.Data.List.Basic

/-!
# Asking again after a failed read

A failed read leaves a cursor as it was: nothing has been moved past, and what is still to be read
is still to be read (`isIntact_of_refuses`). Asking again therefore begins at the same place. A
cursor over a source with failing reads put in, asked for each character until no read fails, gives
what it gives over the source itself: the same characters at the same positions and the same end
(`characters_of_faltering`). Each step is followed on both sides at once: one side meets a failing
read more, or both come to the same result (`KeepsUp`).
-/

namespace BasicTokens

namespace Cursor

variable {τ σ : Type} [Source τ] [Source σ]
  {R : Nat → τ → Vector UInt8 capacity → σ → Vector UInt8 capacity → Prop} {k : Nat}
  {c : Cursor τ} {d : Cursor σ}

/-- Two cursors that have read the same, over sources that are related. -/
structure Matches (R : Nat → τ → Vector UInt8 capacity → σ → Vector UInt8 capacity → Prop)
    (k : Nat) (c : Cursor τ) (d : Cursor σ) : Prop where
  source : R k c.source c.buffer d.source d.buffer
  buffered : c.buffered = d.buffered
  pos : c.pos = d.pos
  len : c.len = d.len
  len_le : d.len ≤ capacity
  position : c.position = d.position
  closed : c.closed = d.closed

omit [Source τ] [Source σ] in
theorem matches_ofSource {t : τ} {s : σ}
    (h : R k t (Vector.replicate capacity 0) s (Vector.replicate capacity 0)) :
    Matches R k (ofSource t) (ofSource s) :=
  ⟨h, rfl, rfl, rfl, Nat.zero_le _, rfl, rfl⟩

omit [Source τ] [Source σ] in
theorem current_of_matches (h : Matches R k c d) (hpos : d.pos < d.len) :
    c.current = d.current ∧ Matches R k c.advance d.advance := by
  have hpos' : c.pos < c.len := by rwa [h.pos, h.len]
  have hlen : c.len ≤ capacity := Nat.le_trans (Nat.le_of_eq h.len) h.len_le
  have htext := congrArg textOf h.buffered
  rw [textOf_buffered hpos' hlen, textOf_buffered hpos h.len_le, List.cons.injEq] at htext
  refine ⟨htext.1, ?_⟩
  have hbuffered : c.advance.buffered = d.advance.buffered := by
    rw [buffered_advance hpos', buffered_advance hpos, ← List.drop_drop, ← List.drop_drop]
    exact congrArg (List.drop 1) h.buffered
  have hadvance : c.advance = { c with pos := c.pos + 1, position := c.position.after c.current } :=
    if_pos hpos'
  have hadvance' : d.advance = { d with
      pos := d.pos + 1
      position := d.position.after d.current } := if_pos hpos
  have hposition : c.position.after c.current = d.position.after d.current := by
    rw [h.position, htext.1]
  rw [hadvance, hadvance'] at hbuffered ⊢
  exact ⟨h.source, hbuffered, congrArg (· + 1) h.pos, h.len, h.len_le, hposition, h.closed⟩

/-- One side meets a failing read more than the other, which has not moved yet; or both come to the
same result. -/
def KeepsUp (R : Nat → τ → Vector UInt8 capacity → σ → Vector UInt8 capacity → Prop) (k : Nat)
    {α : Type} (left : Except LexicalError α × Cursor τ) (d : Cursor σ)
    (right : Except LexicalError α × Cursor σ) : Prop :=
  (∃ cause j, left.1 = .error (.ofFailure cause) ∧ j < k ∧ Matches R j left.2 d)
    ∨ left.1 = right.1 ∧ Matches R k left.2 right.2

theorem keepsUp_fill (hR : IsFaltering R) (h : Matches R k c d) (hpos : ¬d.pos < d.len) :
    KeepsUp R k c.fill d d.fill := by
  have hpos' : ¬c.pos < c.len := by rwa [h.pos, h.len]
  by_cases hask : d.closed = false ∧ Source.available d.source = true
  · obtain ⟨hopen, ha⟩ := hask
    have hopen' : c.closed = false := h.closed.trans hopen
    have ha' : Source.available c.source = true := (hR.available h.source).trans ha
    rcases hR.read h.source ha with ⟨cause, j, herror, hj, hnext⟩ | ⟨hagrees, hnext⟩
    · left
      rw [fill_of_error hopen' ha' herror]
      refine ⟨cause, j, rfl, hj, hnext, ?_, h.pos, h.len, h.len_le, h.position, h.closed⟩
      rw [buffered_broken hpos', buffered_eq_nil hpos]
    · right
      cases hread : (Reader.read d.source d.buffer).outcome with
      | error cause =>
        rw [fill_of_error hopen ha hread, fill_of_error hopen' ha' (hagrees.outcome.trans hread)]
        refine ⟨rfl, hnext, ?_, h.pos, h.len, h.len_le, h.position, h.closed⟩
        rw [buffered_broken hpos', buffered_broken hpos]
      | ok reported =>
        rw [fill_of_ok hopen ha hread, fill_of_ok hopen' ha' (hagrees.outcome.trans hread),
          hagrees.count, h.position]
        refine ⟨rfl, hnext, ?_, rfl, hagrees.count, Reading.count_le _, h.position, h.closed⟩
        rw [buffered_refilled, buffered_refilled, hagrees.bytes]
  · have hunasked : d.fill = (.error (.endOfInput d.position), d) := by
      rw [fill, if_pos]
      simpa [Decidable.imp_iff_not_or] using hask
    have hunasked' : c.fill = (.error (.endOfInput c.position), c) := by
      rw [← h.closed, ← hR.available h.source] at hask
      rw [fill, if_pos]
      simpa [Decidable.imp_iff_not_or] using hask
    rw [hunasked, hunasked', h.position]
    exact .inr ⟨rfl, h⟩

theorem keepsUp_peek (hR : IsFaltering R) (h : Matches R k c d) :
    KeepsUp R k c.peek d d.peek := by
  by_cases hpos : d.pos < d.len
  · have hpos' : c.pos < c.len := by rwa [h.pos, h.len]
    rw [peek_of_pos_lt_len hpos, peek_of_pos_lt_len hpos', (current_of_matches h hpos).1]
    exact .inr ⟨rfl, h⟩
  · have hpos' : ¬c.pos < c.len := by rwa [h.pos, h.len]
    rw [peek, if_neg hpos', peek, if_neg hpos]
    have hfill := keepsUp_fill hR h hpos
    rcases hc : c.fill with ⟨left, c'⟩
    rcases hd : d.fill with ⟨right, d'⟩
    rw [hc, hd] at hfill
    rcases hfill with ⟨cause, j, rfl, hj, hmatches⟩ | ⟨rfl, hmatches⟩
    · exact .inl ⟨cause, j, rfl, hj, hmatches⟩
    · cases left with
      | error e => exact .inr ⟨rfl, hmatches⟩
      | ok filled =>
        have hcurrent := (current_of_matches hmatches (pos_lt_len_of_fill hd)).1
        exact .inr ⟨congrArg Except.ok hcurrent, hmatches⟩

theorem keepsUp_next (hR : IsFaltering R) (h : Matches R k c d) :
    KeepsUp R k c.next d d.next := by
  have hpeek := keepsUp_peek hR h
  rcases hc : c.peek with ⟨left, c'⟩
  rcases hd : d.peek with ⟨right, d'⟩
  rw [hc, hd] at hpeek
  rw [next, hc, next, hd]
  rcases hpeek with ⟨cause, j, rfl, hj, hmatches⟩ | ⟨rfl, hmatches⟩
  · exact .inl ⟨cause, j, rfl, hj, hmatches⟩
  · cases left with
    | error e => exact .inr ⟨rfl, hmatches⟩
    | ok ch => exact .inr ⟨rfl, (current_of_matches hmatches (pos_lt_len_of_peek hd)).2⟩

end Cursor

/-! ### Asking again -/

/-- Whether a character was not read because a read failed. -/
def hasFailed {α : Type} : Except LexicalError α → Bool
  | .error (.readFailed _ _) => true
  | _ => false

namespace Cursor

section Retry

variable {σ : Type} [Source σ]

/-- Asks for the next character, and again after a failed read, at most `retries` times. -/
def nextPatiently : (retries : Nat) → Cursor σ → Except LexicalError Char × Cursor σ
  | 0, c => c.next
  | retries + 1, c => if hasFailed c.next.1 then nextPatiently retries c.next.2 else c.next

/-- What asking for `n` characters gives, each with the position behind it, when every one of them
is asked for again after a failed read, at most `retries` times. -/
def characters (retries : Nat) : (n : Nat) → Cursor σ → List (Except LexicalError Char × Position)
  | 0, _ => []
  | n + 1, c =>
    let answer := c.nextPatiently retries
    (answer.1, answer.2.position) :: characters retries n answer.2

theorem nextPatiently_of_good {c : Cursor σ} (h : hasFailed c.next.1 = false) (retries : Nat) :
    c.nextPatiently retries = c.next := by
  cases retries with
  | zero => rfl
  | succ retries => rw [nextPatiently, h, if_neg Bool.false_ne_true]

theorem nextPatiently_of_failed {c : Cursor σ} (h : hasFailed c.next.1 = true) (retries : Nat) :
    c.nextPatiently (retries + 1) = c.next.2.nextPatiently retries := by
  rw [nextPatiently, if_pos h]

end Retry

variable {τ σ : Type} [Source τ] [Source σ]
  {R : Nat → τ → Vector UInt8 capacity → σ → Vector UInt8 capacity → Prop} {k : Nat}
  {c : Cursor τ} {d : Cursor σ}

theorem nextPatiently_of_matches (hR : IsFaltering R) {retries more : Nat} (h : Matches R k c d)
    (hmore : k ≤ more) (hgood : hasFailed (d.nextPatiently retries).1 = false) :
    (c.nextPatiently (retries + more)).1 = (d.nextPatiently retries).1
      ∧ ∃ j ≤ k, Matches R j (c.nextPatiently (retries + more)).2 (d.nextPatiently retries).2 := by
  -- each step takes away a failing read that was put in, or one that both sides meet
  obtain ⟨n, hn⟩ : ∃ n, retries + more = n := ⟨_, rfl⟩
  rw [hn]
  induction n generalizing retries more k c d with
  | zero =>
    obtain ⟨rfl, rfl⟩ : retries = 0 ∧ more = 0 := by omega
    rcases keepsUp_next hR h with ⟨cause, j, -, hj, -⟩ | ⟨hresult, hmatches⟩
    · omega
    · exact ⟨hresult, k, Nat.le_refl k, hmatches⟩
  | succ n ih =>
    rcases keepsUp_next hR h with ⟨cause, j, herror, hj, hmatches⟩ | ⟨hresult, hmatches⟩
    · obtain ⟨more, rfl⟩ : ∃ m, more = m + 1 := ⟨more - 1, by omega⟩
      rw [nextPatiently_of_failed (by rw [herror]; rfl)]
      obtain ⟨hsame, i, hi, hlater⟩ := ih hmatches (show j ≤ more by omega) hgood (by omega)
      exact ⟨hsame, i, by omega, hlater⟩
    · cases hfailed : hasFailed d.next.1 with
      | false =>
        rw [nextPatiently_of_good hfailed, nextPatiently_of_good (hresult ▸ hfailed)]
        exact ⟨hresult, k, Nat.le_refl k, hmatches⟩
      | true =>
        cases retries with
        | zero =>
          rw [nextPatiently, hfailed] at hgood
          cases hgood
        | succ retries =>
          rw [nextPatiently_of_failed hfailed] at hgood ⊢
          rw [nextPatiently_of_failed (hresult ▸ hfailed)]
          exact ih hmatches hmore hgood (by omega)

theorem characters_of_matches (hR : IsFaltering R) {retries more n : Nat} (h : Matches R k c d)
    (hmore : k ≤ more) (hgood : ∀ r ∈ d.characters retries n, hasFailed r.1 = false) :
    c.characters (retries + more) n = d.characters retries n := by
  induction n generalizing k c d with
  | zero => rfl
  | succ n ih =>
    rw [characters] at hgood
    obtain ⟨hfirst, hlater⟩ := List.forall_mem_cons.1 hgood
    obtain ⟨hresult, j, hj, hmatches⟩ := nextPatiently_of_matches hR h hmore hfirst
    rw [characters, characters, hresult, hmatches.position,
      ih hmatches (Nat.le_trans hj hmore) hlater]

end Cursor

/-! ### What a failed read leaves -/

namespace Cursor

variable {σ : Type} [Source σ] {c d : Cursor σ} {op : Operation} {kind : FailureKind}
  {message : String}

inductive Refuses (c : Cursor σ) (e : LexicalError) : Operation → Prop
  | peek : c.peek.1 = .error e → Refuses c e .peek
  | peek? : c.peek?.1 = .error e → Refuses c e .peek?
  | next : c.next.1 = .error e → Refuses c e .next

/-- The same but for the source, and for what is in the buffer and not to be read. -/
structure IsIntact (c d : Cursor σ) : Prop where
  pos : d.pos = c.pos
  len : d.len = c.len
  buffered : d.buffered = c.buffered
  position : d.position = c.position
  closed : d.closed = c.closed

theorem Fills.isIntact {result : Except LexicalError Unit} (h : c.Fills result d)
    (hpos : ¬c.pos < c.len) (hresult : result = .error (.readFailed kind message)) :
    c.IsIntact d := by
  cases h with
  | unasked => cases hresult
  | failed =>
    refine ⟨rfl, rfl, ?_, rfl, rfl⟩
    rw [buffered_broken hpos, buffered_eq_nil hpos]
  | read => split at hresult <;> cases hresult

theorem isIntact_of_peek (h : c.peek.1 = .error (.readFailed kind message)) :
    c.IsIntact c.peek.2 := by
  have hpos : ¬c.pos < c.len := by
    intro hpos
    rw [peek_of_pos_lt_len hpos] at h
    cases h
  have hpeek : c.peek = (.error (.readFailed kind message), c.peek.2) := by rw [← h]
  exact (fills_of_fill (fill_of_peek_error hpeek)).isIntact hpos rfl

theorem isIntact_of_refuses (h : c.Refuses (.readFailed kind message) op) :
    c.taken op = [] ∧ c.IsIntact (c.perform op) := by
  cases h with
  | peek hpeek => exact ⟨rfl, isIntact_of_peek hpeek⟩
  | peek? hpeek =>
    rw [perform, snd_peek?]
    refine ⟨rfl, @isIntact_of_peek _ _ _ kind message ?_⟩
    rw [peek?_eq_orNone_peek] at hpeek
    rcases hc : c.peek with ⟨result, k⟩
    rw [hc] at hpeek
    cases result with
    | ok ch => cases hpeek
    | error e =>
      rw [orNone] at hpeek
      split at hpeek
      · cases hpeek
      · cases hpeek
        rfl
  | next hnext =>
    rcases hc : c.peek with ⟨result, k⟩
    cases result with
    | ok ch =>
      rw [next_of_peek_ok hc] at hnext
      cases hnext
    | error e =>
      rw [perform, taken, next_of_peek_error hc]
      rw [next_of_peek_error hc] at hnext
      have hpeek : c.peek.1 = .error (.readFailed kind message) := by rw [hc, hnext]
      have hintact := isIntact_of_peek hpeek
      rw [hc] at hintact
      exact ⟨rfl, hintact⟩

end Cursor

/-- **A failed read leaves a cursor intact, and one can ask again.** Failing reads that are put in
before the reads of an honest source, or before those of a reader behind a feed, do not show when
each character is asked for again until no read fails. If they write nothing into the buffer, the
source may be any. -/
theorem characters_of_faltering :
    (∀ {σ : Type} [Source σ] (c : Cursor σ) (op : Cursor.Operation) (kind : FailureKind)
      (message : String), c.Refuses (.readFailed kind message) op →
        c.taken op = [] ∧ c.IsIntact (c.perform op)) ∧
    (∀ {σ : Type} [Source σ] (s : σ) (faults : List (List Fault)) (retries n : Nat),
      ((∀ fault ∈ faults.flatten, fault.written = []) ∨ Honest s) →
      (∀ r ∈ (Cursor.ofSource s).characters retries n, hasFailed r.1 = false) →
      ∀ more, faults.flatten.length ≤ more →
        (Cursor.ofSource (Faltering.mk s faults)).characters (retries + more) n
          = (Cursor.ofSource s).characters retries n) ∧
    (∀ {ρ : Type} [Reader ρ] [Patient ρ] (r : ρ) (faults : List (List Fault)) (retries n : Nat),
      ((∀ fault ∈ faults.flatten, fault.written = []) ∨ Honest r) →
      (∀ x ∈ (Cursor.ofSource (Feed.mk r false false)).characters retries n,
        hasFailed x.1 = false) →
      ∀ more, faults.flatten.length ≤ more →
        (Cursor.ofSource (Feed.mk (Faltering.mk r faults) false false)).characters
            (retries + more) n
          = (Cursor.ofSource (Feed.mk r false false)).characters retries n) := by
  refine ⟨?_, ?_, ?_⟩
  · intro σ _ c op kind message h
    exact Cursor.isIntact_of_refuses h
  · intro σ _ s faults retries n honest hgood more hmore
    refine Cursor.characters_of_matches isFaltering_covers (Cursor.matches_ofSource ?_) hmore hgood
    exact ⟨Nat.le_refl _, rfl, honest.imp_left fun hclean => ⟨rfl, hclean⟩⟩
  · intro ρ _ _ r faults retries n honest hgood more hmore
    refine Cursor.characters_of_matches isFaltering_feedsAlike (Cursor.matches_ofSource ?_) hmore
      hgood
    have hcovers : (Faltering.mk r faults).Covers (Vector.replicate capacity 0) r
        (Vector.replicate capacity 0) := ⟨rfl, honest.imp_left fun hclean => ⟨rfl, hclean⟩⟩
    exact ⟨Nat.le_refl _, .level hcovers, rfl, rfl, rfl⟩

/-- Two bytes in memory, with failing reads that scribble in the buffer before and behind them; and a
reader of two bytes that is interrupted itself, and fails when it has just been. -/
theorem characters_of_faltering_of_two_bytes :
    (let c := Cursor.ofSource
        (Faltering.mk ([0x61, 0x0A] : List UInt8) [[⟨⟨.timedOut, none⟩, [0x3F]⟩]]);
      c.taken .next = [] ∧ c.IsIntact (c.perform .next)) ∧
    (Cursor.ofSource (Faltering.mk ([0x61, 0x0A] : List UInt8)
        [[⟨⟨.timedOut, none⟩, [0x3F]⟩, ⟨⟨.interrupted, none⟩, []⟩], [⟨⟨.other, none⟩, []⟩]])).characters
        3 3
      = [(.ok 'a', ⟨1, 2⟩), (.ok '\n', ⟨2, 1⟩), (.error (.endOfInput ⟨2, 1⟩), ⟨2, 1⟩)] ∧
    (Cursor.ofSource (Feed.mk (Faltering.mk
        (Script.mk [.failure ⟨.interrupted, none⟩, .data [0x61] none, .data [0x0A] none])
        [[], [⟨⟨.wouldBlock, none⟩, [0x3F]⟩]]) false false)).characters 1 3
      = [(.ok 'a', ⟨1, 2⟩), (.ok '\n', ⟨2, 1⟩), (.error (.endOfInput ⟨2, 1⟩), ⟨2, 1⟩)] := by
  refine ⟨?_, ?_, ?_⟩
  · exact characters_of_faltering.1 _ .next .timedOut "timed out" (.next rfl)
  · have hplain : (Cursor.ofSource ([0x61, 0x0A] : List UInt8)).characters 0 3
        = [(.ok 'a', ⟨1, 2⟩), (.ok '\n', ⟨2, 1⟩), (.error (.endOfInput ⟨2, 1⟩), ⟨2, 1⟩)] := by
      decide +kernel
    rw [← hplain]
    refine characters_of_faltering.2.1 _ _ 0 3 (.inr (honest_slice _)) ?_ 3 (by decide)
    rw [hplain]
    decide
  · have hplain : (Cursor.ofSource (Feed.mk
          (Script.mk [.failure ⟨.interrupted, none⟩, .data [0x61] none, .data [0x0A] none])
          false false)).characters 0 3
        = [(.ok 'a', ⟨1, 2⟩), (.ok '\n', ⟨2, 1⟩), (.error (.endOfInput ⟨2, 1⟩), ⟨2, 1⟩)] := by
      decide +kernel
    rw [← hplain]
    refine characters_of_faltering.2.2 _ _ 0 3 (.inr (honest_script ?_)) ?_ 1 (by decide)
    · intro bytes report hmem
      simp only [List.mem_cons, reduceCtorEq, Script.Step.data.injEq, List.not_mem_nil,
        or_false, false_or] at hmem
      rcases hmem with ⟨-, rfl⟩ | ⟨-, rfl⟩ <;> rfl
    · rw [hplain]
      decide

end BasicTokens
