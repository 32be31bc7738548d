import BasicTokens.Proofs.Cursor.Release
import BasicTokens.Proofs.Cursor.Trail

/-!
# What a call moves past

Nothing is assumed of the source here, so there is no text ahead of which a call could be a
function. But what a call has moved past is a text, and the call answers as it would over that text:
a token of an arbitrary source is the token of the characters that were moved past for it
(`exists_answer_of_token?`). These characters are known from outside. They are what was in the
buffer, and what was read meanwhile, without what is still in the buffer (`Passes`).
-/

namespace BasicTokens

namespace Cursor

variable {σ : Type} [Source σ] {c d : Cursor (Recorded σ)}

/-- From the cursor `c` on, exactly these characters have been moved past when it has become `d`. -/
structure Passes (c : Cursor (Recorded σ)) (taken : List Char) (d : Cursor (Recorded σ)) :
    Prop where
  len_le : d.len ≤ capacity
  position : d.position = c.position.afterAll taken
  ahead : ∃ got, d.source.received = c.source.received ++ got
    ∧ textOf (c.buffered ++ got) = taken ++ textOf d.buffered

omit [Source σ] in
theorem passes_refl (h : c.len ≤ capacity) : c.Passes [] c :=
  ⟨h, rfl, [], by rw [List.append_nil], by rw [List.append_nil, List.nil_append]⟩

omit [Source σ] in
theorem Passes.trans {e : Cursor (Recorded σ)} {taken more : List Char} (h : c.Passes taken d)
    (h' : d.Passes more e) : c.Passes (taken ++ more) e := by
  obtain ⟨got, hreceived, hahead⟩ := h.ahead
  obtain ⟨got', hreceived', hahead'⟩ := h'.ahead
  refine ⟨h'.len_le, ?_, got ++ got', ?_, ?_⟩
  · rw [h'.position, h.position, Position.afterAll_append]
  · rw [hreceived', hreceived, List.append_assoc]
  · rw [← List.append_assoc, textOf_append, hahead, List.append_assoc, ← textOf_append, hahead',
      List.append_assoc]

theorem passes_fill (h : c.len ≤ capacity) (hpos : ¬c.pos < c.len) : c.Passes [] c.fill.2 := by
  have hbuffered := buffered_eq_nil hpos
  rcases hfill : c.fill with ⟨result, d⟩
  cases fills_of_fill hfill with
  | unasked => exact passes_refl h
  | failed _ _ hread =>
    have hbytes : (Reader.read c.source c.buffer).bytes = [] := by
      simp [Reading.bytes, Reading.count, hread]
    refine ⟨h, rfl, [], ?_, ?_⟩
    · rw [← hbytes]
      exact c.source.received_read c.buffer
    · rw [buffered_broken hpos, hbuffered]
      rfl
  | read _ _ _ =>
    refine ⟨Reading.count_le _, rfl, (Reader.read c.source c.buffer).bytes, ?_, ?_⟩
    · exact c.source.received_read c.buffer
    · rw [buffered_refilled, hbuffered]
      rfl

theorem passes_filled (h : c.len ≤ capacity) (hfilled : c.Filled d) : c.Passes [] d := by
  rcases hfilled with rfl | ⟨hpos, rfl⟩
  · exact passes_refl h
  · exact passes_fill h hpos

omit [Source σ] in
theorem passes_advance (h : c.len ≤ capacity) (hpos : c.pos < c.len) :
    c.Passes [c.current] c.advance := by
  have hadvance : c.advance = { c with pos := c.pos + 1, position := c.position.after c.current } :=
    if_pos hpos
  refine ⟨?_, ?_, [], ?_, ?_⟩
  · rw [hadvance]
    exact h
  · rw [hadvance]
    rfl
  · rw [source_advance, List.append_nil]
  · rw [List.append_nil, textOf_buffered hpos h, ← buffered_advance hpos]
    rfl

theorem passes_peek? {result : Except LexicalError (Option Char)} (h : c.len ≤ capacity)
    (hpeek : c.peek? = (result, d)) : c.Passes [] d := by
  have hd : d = c.peek.2 := by rw [← snd_peek?, hpeek]
  rw [hd]
  exact passes_filled h (filled_of_peek rfl)

theorem passes_advance_of_peek? {ch : Char} (h : c.len ≤ capacity)
    (hpeek : c.peek? = (.ok (some ch), d)) : c.Passes [ch] d.advance := by
  have hpasses := passes_peek? h hpeek
  rw [current_of_peek? hpeek]
  exact hpasses.trans (passes_advance hpasses.len_le (pos_lt_len_of_peek? hpeek))

omit [Source σ] in
theorem Passes.note {taken : List Char} (h : c.Passes taken d) (e : Event) :
    c.Passes taken (d.note e) :=
  ⟨h.len_le, h.position, h.ahead⟩

/-- A scan over an arbitrary source is a scan over the characters that were moved past, and at most
one more that was looked at; or it was broken off by a failed read. -/
theorem exists_run_of_scan? {limit : Nat} {scan : Scan} {result : Except LexicalError Token}
    (h : c.len ≤ capacity) (hscan : c.scan? limit scan = some (result, d)) :
    ∃ taken, c.Passes taken d ∧
      ((∃ cause, result = .error (.ofFailure cause))
        ∨ ∃ rest, Ending.quiet.settle (scan.run c.position (taken ++ rest))
            = ⟨result, d.position, rest⟩) := by
  induction limit generalizing scan c with
  | zero => cases hscan
  | succ limit ih =>
    rw [scan?] at hscan
    split at hscan
    · rename_i e k hpeek
      cases hscan
      obtain ⟨cause, rfl⟩ := exists_cause_of_peek? hpeek
      exact ⟨[], passes_peek? h hpeek, .inl ⟨cause, rfl⟩⟩
    · rename_i k hpeek
      cases hscan
      have hpasses := passes_peek? h hpeek
      refine ⟨[], hpasses, .inr ⟨[], ?_⟩⟩
      have hposition : d.position = c.position := hpasses.position
      rw [List.append_nil, Scan.run_nil, hposition]
      rfl
    · rename_i ch k hpeek
      have hpasses := passes_peek? h hpeek
      have hposition : k.position = c.position := hpasses.position
      have hadvance := passes_advance_of_peek? h hpeek
      have hafter : k.advance.position = c.position.after ch := hadvance.position
      rw [hposition] at hscan
      split at hscan
      · rename_i next hstep
        obtain ⟨taken, htaken, hrun⟩ := ih hadvance.len_le hscan
        refine ⟨ch :: taken, hadvance.trans htaken, hrun.imp_right ?_⟩
        rintro ⟨rest, hrest⟩
        refine ⟨rest, ?_⟩
        rw [List.cons_append, Scan.run_cons_of_take hstep, ← hafter]
        exact hrest
      · rename_i result hstep
        cases hscan
        refine ⟨[], hpasses, .inr ⟨[ch], ?_⟩⟩
        rw [List.nil_append, Scan.run_cons_of_leave hstep, hposition]
        rfl
      · rename_i token hstep
        cases hscan
        refine ⟨[ch], hadvance, .inr ⟨[], ?_⟩⟩
        rw [List.append_nil, Scan.run_cons_of_complete hstep, hafter]
        rfl

/-- **A token of an arbitrary source is the token of what was moved past for it.** -/
theorem exists_answer_of_token? {limit : Nat} {t : Token} (h : c.len ≤ capacity)
    (htoken : c.token? limit = some (.ok t, d)) :
    ∃ taken rest, c.Passes taken d
      ∧ answer .quiet c.position (taken ++ rest) = ⟨.ok t, d.position, rest⟩ := by
  rw [token?, Option.map_eq_some_iff] at htoken
  obtain ⟨⟨_, k⟩, hscan, hnote⟩ := htoken
  cases hnote
  obtain ⟨taken, hpasses, ⟨cause, hcause⟩ | ⟨rest, hrun⟩⟩ := exists_run_of_scan? h hscan
  · cases hcause
  · exact ⟨taken, rest, hpasses.note _, hrun⟩

end Cursor

/-! ### Behind any requests -/

namespace Cursor

variable {σ : Type} [Source σ]

theorem isKept_len_le : IsKept fun c : Cursor σ => c.len ≤ capacity where
  fill {c} h _ := by
    rcases hfill : c.fill with ⟨result, d⟩
    cases fills_of_fill hfill with
    | unasked => exact h
    | failed => exact h
    | read => exact Reading.count_le _
  advance {c} h hpos := by
    rw [advance, if_pos hpos]
    exact h
  note _ h := h

theorem len_le_close {c : Cursor σ} (h : c.len ≤ capacity) : c.close.len ≤ capacity := by
  unfold close
  split
  · exact h
  · exact Nat.zero_le _

end Cursor

theorem Listing.len_le_of_run? {σ : Type} [Source σ] {s : σ} {limit : Nat}
    {requests : List Request} {l : Listing σ}
    (hrun : (Listing.mk (.ofSource s) false).run? limit requests = some l) :
    l.cursor.len ≤ capacity :=
  run?_of_isKept Cursor.isKept_len_le Cursor.len_le_close (Nat.zero_le _) hrun

end BasicTokens
