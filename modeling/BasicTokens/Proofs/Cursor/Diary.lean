import BasicTokens.Proofs.Cursor.Operation

/-!
# The diary does not count

A cursor writes in front of its diary and never looks into it. So a cursor with older entries behind
its own does what it does without them, and they stay where they are (`token?_withOlder`). Cursors
that differ in their diaries only are therefore as good as equal (`Alike`): a call gives the same
result on both and leaves cursors that are alike again.
-/

namespace BasicTokens.Cursor

variable {σ : Type} {c d e : Cursor σ}

/-- The cursor with older entries behind those of its diary. -/
def withOlder (older : List Event) (c : Cursor σ) : Cursor σ :=
  { c with diary := c.diary ++ older }

theorem advance_withOlder (older : List Event) (c : Cursor σ) :
    (c.withOlder older).advance = c.advance.withOlder older := by
  by_cases hpos : c.pos < c.len
  · rw [advance, advance, if_pos hpos]
    exact if_pos hpos
  · rw [advance, advance, if_neg hpos]
    exact if_neg hpos

section Source

variable [Source σ]

theorem fill_withOlder (older : List Event) (c : Cursor σ) :
    (c.withOlder older).fill = (c.fill.1, c.fill.2.withOlder older) := by
  rcases hfill : c.fill with ⟨result, d⟩
  cases fills_of_fill hfill with
  | unasked hend =>
    rcases hend with hclosed | ha
    · exact fill_of_closed (c := c.withOlder older) hclosed
    · exact fill_of_unavailable (c := c.withOlder older) ha
  | failed hclosed ha herror => exact fill_of_error (c := c.withOlder older) hclosed ha herror
  | read hclosed ha hok => exact fill_of_ok (c := c.withOlder older) hclosed ha hok

theorem peek_withOlder (older : List Event) (c : Cursor σ) :
    (c.withOlder older).peek = (c.peek.1, c.peek.2.withOlder older) := by
  by_cases hpos : c.pos < c.len
  · rw [peek_of_pos_lt_len hpos]
    exact peek_of_pos_lt_len (c := c.withOlder older) hpos
  · have hempty : ¬(c.withOlder older).pos < (c.withOlder older).len := hpos
    rw [peek, peek, if_neg hempty, if_neg hpos, fill_withOlder]
    rcases c.fill with ⟨_ | _, d⟩ <;> rfl

theorem peek?_withOlder (older : List Event) (c : Cursor σ) :
    (c.withOlder older).peek? = (c.peek?.1, c.peek?.2.withOlder older) := by
  rw [peek?_eq_orNone_peek, peek?_eq_orNone_peek, peek_withOlder]
  rcases c.peek with ⟨e | ch, d⟩
  · rw [orNone, orNone]
    split <;> rfl
  · rfl

theorem scan?_withOlder (older : List Event) (limit : Nat) (scan : Scan) (c : Cursor σ) :
    (c.withOlder older).scan? limit scan
      = (c.scan? limit scan).map fun answer => (answer.1, answer.2.withOlder older) := by
  induction limit generalizing scan c with
  | zero => rfl
  | succ limit ih =>
    rw [scan?, scan?, peek?_withOlder]
    rcases c.peek? with ⟨_ | _ | ch, d⟩
    · rfl
    · rfl
    · have hposition : (d.withOlder older).position = d.position := rfl
      simp only [hposition]
      cases scan.step d.position ch with
      | take next =>
        rw [advance_withOlder]
        exact ih next d.advance
      | leave result => rfl
      | complete t =>
        rw [advance_withOlder]
        rfl

theorem token?_withOlder (older : List Event) (limit : Nat) (c : Cursor σ) :
    (c.withOlder older).token? limit
      = (c.token? limit).map fun answer => (answer.1, answer.2.withOlder older) := by
  rw [token?, token?, scan?_withOlder, Option.map_map, Option.map_map]
  rfl

end Source

def Alike (c d : Cursor σ) : Prop :=
  ∃ diary, d = { c with diary := diary }

theorem Alike.refl (c : Cursor σ) : c.Alike c :=
  ⟨c.diary, rfl⟩

theorem Alike.symm (h : c.Alike d) : d.Alike c := by
  obtain ⟨diary, rfl⟩ := h
  exact ⟨c.diary, rfl⟩

theorem Alike.trans (h : c.Alike d) (h' : d.Alike e) : c.Alike e := by
  obtain ⟨diary, rfl⟩ := h
  obtain ⟨diary', rfl⟩ := h'
  exact ⟨diary', rfl⟩

theorem alike_note (c : Cursor σ) (event : Event) : c.Alike (c.note event) :=
  ⟨_, rfl⟩

variable [Source σ]

theorem hasMore_of_alike (h : c.Alike d) : d.hasMore = c.hasMore := by
  obtain ⟨diary, rfl⟩ := h
  rfl

/-- **A call does not depend on the diary.** -/
theorem exists_token?_of_alike {limit : Nat} {result : Except LexicalError Token}
    (h : c.Alike e) (htoken : c.token? limit = some (result, d)) :
    ∃ k, e.token? limit = some (result, k) ∧ d.Alike k := by
  obtain ⟨diary, rfl⟩ := h
  -- both cursors are the one without a diary, with older entries behind
  let bare : Cursor σ := { c with diary := [] }
  have hc : c = bare.withOlder c.diary := rfl
  rw [hc, token?_withOlder, Option.map_eq_some_iff] at htoken
  obtain ⟨⟨_, k⟩, hbare, hanswer⟩ := htoken
  cases hanswer
  refine ⟨k.withOlder diary, ?_, _, rfl⟩
  show (bare.withOlder diary).token? limit = _
  rw [token?_withOlder, hbare]
  rfl

end BasicTokens.Cursor
