import BasicTokens.Proofs.Cursor.Passage
import BasicTokens.Proofs.Grammar.Refusal

/-!
# What an answer was read from

A call that gives a token has moved past blanks and then past a lexeme that is detached from what
follows it, and the token is that lexeme with its span. A call that gives an error has found nothing
but blanks, or what it found behind them is refused. These are the converses of `answer_of_spells`
and `answer_of_refused`, and they need no look at the scans: a text begins with a detached lexeme or
is refused, and of both it is known what a call answers.

A call on an arbitrary source answers as it would over the text that was moved past, so there it is
known as well what was moved past for a token (`Cursor.exists_tokenAt_of_token?`).
-/

namespace BasicTokens

/-- A text as a call takes it apart: blanks, a lexeme, and what is left. -/
structure TokenAt (here : Position) (text : List Char) (t : Token) (gap spelling rest : List Char) :
    Prop where
  text_eq : text = gap ++ (spelling ++ rest)
  blanks : ∀ c ∈ gap, isBlank c = true
  spells : Spells spelling t.lexeme
  detached : Detached t.lexeme rest
  first : t.first = here.afterAll gap
  behind : t.behind = t.first.afterAll spelling

/-- **Every token is a lexeme behind blanks.** -/
theorem exists_tokenAt {here there : Position} {text rest : List Char} {t : Token}
    (h : answer .quiet here text = ⟨.ok t, there, rest⟩) :
    there = t.behind ∧ ∃ gap spelling, TokenAt here text t gap spelling rest := by
  obtain ⟨gap, ahead, rfl, hgap, hahead⟩ := exists_span isBlank text
  rw [answer_blanks hgap] at h
  cases ahead with
  | nil => cases h
  | cons first more =>
    rcases readOrRefused (hahead first rfl) (here.afterAll gap) more with
      ⟨spelling, x, left, hmore, hspells, hdetached⟩ | ⟨taken, left, e, hmore, hrefused⟩
    · rw [hmore, answer_of_spells hspells hdetached] at h
      cases h
      exact ⟨rfl, gap, spelling, by rw [hmore], hgap, hspells, hdetached, rfl, rfl⟩
    · rw [hmore, answer_of_refused hrefused] at h
      cases h

theorem TokenAt.taken_eq {here : Position} {taken gap spelling rest : List Char} {t : Token}
    (h : TokenAt here (taken ++ rest) t gap spelling rest) : taken = gap ++ spelling := by
  have htext := h.text_eq
  rw [← List.append_assoc] at htext
  exact List.append_cancel_right htext

/-- **Every token of an arbitrary source is a lexeme behind blanks that were moved past for it.** -/
theorem Cursor.exists_tokenAt_of_token? {σ : Type} [Source σ] {c d : Cursor (Recorded σ)}
    {limit : Nat} {t : Token} (h : c.len ≤ capacity) (htoken : c.token? limit = some (.ok t, d)) :
    d.position = t.behind ∧ ∃ gap spelling rest, c.Passes (gap ++ spelling) d ∧
      TokenAt c.position (gap ++ spelling ++ rest) t gap spelling rest := by
  obtain ⟨taken, rest, hpasses, hanswer⟩ := exists_answer_of_token? h htoken
  obtain ⟨hposition, gap, spelling, hat⟩ := exists_tokenAt hanswer
  rw [hat.taken_eq] at hpasses hat
  exact ⟨hposition, gap, spelling, rest, hpasses, hat⟩

/-- **Every error but the end of the input is that of a refused text behind blanks.** -/
theorem exists_refused {here there : Position} {text rest : List Char} {e : LexicalError}
    (h : answer .quiet here text = ⟨.error e, there, rest⟩) (hend : e.isEndOfInput = false) :
    ∃ gap taken, text = gap ++ (taken ++ rest) ∧ (∀ c ∈ gap, isBlank c = true)
      ∧ Refused (here.afterAll gap) taken rest e := by
  obtain ⟨gap, ahead, rfl, hgap, hahead⟩ := exists_span isBlank text
  rw [answer_blanks hgap] at h
  cases ahead with
  | nil =>
    cases h
    cases hend
  | cons first more =>
    rcases readOrRefused (hahead first rfl) (here.afterAll gap) more with
      ⟨spelling, x, left, hmore, hspells, hdetached⟩ | ⟨taken, left, e, hmore, hrefused⟩
    · rw [hmore, answer_of_spells hspells hdetached] at h
      cases h
    · rw [hmore, answer_of_refused hrefused] at h
      cases h
      exact ⟨gap, taken, by rw [hmore], hgap, hrefused⟩

end BasicTokens
