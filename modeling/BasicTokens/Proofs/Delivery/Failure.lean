import BasicTokens.Proofs.Delivery.Reading
import BasicTokens.Proofs.Scan.Decided

/-!
# Over a source that fails

A source may hand out some bytes and then fail. A listing over it gives the items that these bytes
decide and nothing that only their end would have decided, so a token cut in two never shows; the
failure itself comes last. An item that is given is therefore right whatever the source would have
handed out had it not failed (`collect?_of_failure`).
-/

namespace BasicTokens

/-- The items that bytes decide whatever follows them: those of the bytes in memory, without a last
one that only their end decided. -/
def decidedItems (bytes : List UInt8) : List (Except LexicalError Token) :=
  settled (Position.start.afterAll (textOf bytes)) (Cursor.ofSource bytes).tokens.1

/-- How a listing ends whose source hands out `bytes` and then fails: with an error that the bytes
decide, or with the failure, and then all bytes have been taken. -/
def Cursor.EndsInFailure {σ : Type} [Source σ] (c : Cursor σ) (bytes : List UInt8)
    (cause : ReadFailure) : Prop :=
  ∀ limit polls, bytes.length < limit → bytes.length + 1 < polls →
    ∃ l, (Listing.mk c false).collect? limit polls
        = some (decidedItems bytes ++ if endsInError (decidedItems bytes) then []
            else [.error (.readFailed cause.kind cause.text)], l)
      ∧ (endsInError (decidedItems bytes) = false →
          l.cursor.BrokenOff cause ∧ l.cursor.position = Position.start.afterAll (textOf bytes))

theorem decides_decidedItems (bytes : List UInt8) :
    Decides .start (textOf bytes) (decidedItems bytes) := by
  obtain ⟨last, unread, hlist⟩ := Cursor.exists_lists_tokens bytes
  exact decides_settled hlist

theorem endsInFailure_of_delivers {σ : Type} [Source σ] {s : σ} {bytes : List UInt8}
    {cause : ReadFailure} (h : Delivers (.failure cause) s bytes) :
    (Cursor.ofSource s).EndsInFailure bytes cause := by
  intro limit polls hlimit hpolls
  obtain ⟨last, unread, hlist, hend⟩ := (decides_decidedItems bytes).lists_failure cause
  have hlength := hlist.length_le
  rw [length_textOf] at hlength
  rw [← length_textOf] at hlimit
  obtain ⟨l, hl, hposition, hstops⟩ := Listing.collect?_of_reads hlist (Cursor.reads_ofSource h)
    rfl hlimit (show _ < polls by omega)
  refine ⟨l, hl, fun hfalse => ?_⟩
  obtain ⟨rfl, rfl⟩ := hend hfalse
  exact ⟨hstops, hposition⟩

/-- **No part of a token survives a failing read.** Over a source, or a reader, that hands out
`bytes` and then fails, a listing gives what the bytes decide and then the failure; and whatever
follows the bytes elsewhere, what they decide comes first. -/
theorem collect?_of_failure (bytes : List UInt8) (cause : ReadFailure) :
    (∀ {σ : Type} [Source σ] (s : σ), Delivers (.failure cause) s bytes →
      (Cursor.ofSource s).EndsInFailure bytes cause) ∧
    (∀ {ρ : Type} [Reader ρ] [Patient ρ] (r : ρ), HandsOut (.failure cause) r bytes →
      (Cursor.ofSource (Feed.mk r false false)).EndsInFailure bytes cause) ∧
    ∀ more, decidedItems bytes <+: (Cursor.ofSource (bytes ++ more)).tokens.1 := by
  refine ⟨?_, ?_, ?_⟩
  · intro σ _ s h
    exact endsInFailure_of_delivers h
  · intro ρ _ _ r h
    exact endsInFailure_of_delivers (delivers_feed h)
  · intro more
    obtain ⟨last, unread, hlist⟩ := Cursor.exists_lists_tokens (bytes ++ more)
    rw [textOf_append] at hlist
    exact (decides_decidedItems bytes).isPrefix hlist

/-- A reader that fails behind a digit, which might have gone on. -/
theorem collect?_of_failing_reader :
    HandsOut (.failure ⟨.timedOut, none⟩)
      (Script.mk [.data [0x31, 0x20, 0x32] none, .failure ⟨.timedOut, none⟩]) [0x31, 0x20, 0x32] ∧
    (Cursor.ofSource (Feed.mk (Script.mk
        [.data [0x31, 0x20, 0x32] none, .failure ⟨.timedOut, none⟩]) false false)).EndsInFailure
      [0x31, 0x20, 0x32] ⟨.timedOut, none⟩ := by
  have hands : HandsOut (.failure ⟨.timedOut, none⟩)
      (Script.mk [.data [0x31, 0x20, 0x32] none, .failure ⟨.timedOut, none⟩])
      [0x31, 0x20, 0x32] :=
    @Script.handsOut _ [.data [0x31, 0x20, 0x32] none] [.failure ⟨.timedOut, none⟩] (by decide)
      ⟨by decide, rfl⟩
  exact ⟨hands, (collect?_of_failure _ _).2.1 _ hands⟩

end BasicTokens
