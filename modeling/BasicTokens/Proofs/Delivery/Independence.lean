import BasicTokens.Proofs.Delivery.Reading

/-!
# The pieces of a delivery do not show

Calls are made one after the other, past errors and past the end of the input. All that they answer
is a function of the text (`answers`), so a source that delivers some bytes, in whatever pieces and
however it lets its end be known, answers as the bytes in memory do (`calls?_eq_some_calls`). The
same holds of a reader that is interrupted now and then.

A call on an arbitrary source need not return. The statement therefore speaks of calls under a limit
on the characters looked at and says that every limit above the number of bytes is enough.
-/

namespace BasicTokens

/-- What the first `n` calls on a text answer, and the position behind each. -/
def answers : (n : Nat) → Position → List Char → List (Except LexicalError Token × Position)
  | 0, _, _ => []
  | n + 1, here, text =>
    let a := answer .quiet here text
    (a.result, a.here) :: answers n a.here a.rest

namespace Cursor

variable {σ : Type} [Source σ]

/-- The results of the first `n` calls, each with the position behind it, as long as no call has to
look at more than `limit` characters. -/
def calls? (limit : Nat) : (n : Nat) → Cursor σ →
    Option (List (Except LexicalError Token × Position))
  | 0, _ => some []
  | n + 1, c =>
    match c.token? limit with
    | none => none
    | some (result, c) => (calls? limit n c).map ((result, c.position) :: ·)

def calls [Bounded σ] : (n : Nat) → Cursor σ → List (Except LexicalError Token × Position)
  | 0, _ => []
  | n + 1, c => (c.token.1, c.token.2.position) :: calls n c.token.2

theorem calls?_of_reads {c : Cursor σ} {text : List Char} {limit : Nat} (h : c.Reads .quiet text)
    (hlimit : text.length < limit) (n : Nat) :
    c.calls? limit n = some (answers n c.position text) := by
  induction n generalizing c text with
  | zero => rfl
  | succ n ih =>
    obtain ⟨d, htoken, hd⟩ := token?_of_reads h hlimit
    obtain ⟨hposition, hreads⟩ := reads_of_follows_quiet hd
    have hlength := length_rest_le .quiet c.position text
    rw [calls?, htoken]
    simp only [ih hreads (by omega), hposition, Option.map_some, answers]

theorem calls_of_reads [Bounded σ] {c : Cursor σ} {text : List Char} (h : c.Reads .quiet text)
    (n : Nat) : c.calls n = answers n c.position text := by
  induction n generalizing c text with
  | zero => rfl
  | succ n ih =>
    obtain ⟨d, htoken, hd⟩ := token?_of_reads h (Nat.lt_succ_self _)
    obtain ⟨hposition, hreads⟩ := reads_of_follows_quiet hd
    rw [calls, token_of_token? htoken, answers]
    simp only [hposition, ih hreads]

theorem calls?_of_delivers {s : σ} {bytes : List UInt8} (h : Delivers .quiet s bytes)
    {limit : Nat} (hlimit : bytes.length < limit) (n : Nat) :
    (ofSource s).calls? limit n = some ((ofSource bytes).calls n) := by
  rw [calls?_of_reads (reads_ofSource h) (by rwa [length_textOf]),
    calls_of_reads (reads_ofSource (delivers_slice bytes))]
  rfl

end Cursor

/-- **What calls answer does not depend on how the bytes were delivered**: not over any honest
source, and not over any honest reader. -/
theorem calls?_eq_some_calls (bytes : List UInt8) :
    (∀ {σ : Type} [Source σ] (s : σ), Delivers .quiet s bytes →
      ∀ limit, bytes.length < limit → ∀ n,
        (Cursor.ofSource s).calls? limit n = some ((Cursor.ofSource bytes).calls n)) ∧
    (∀ {ρ : Type} [Reader ρ] [Patient ρ] (r : ρ), HandsOut .quiet r bytes →
      ∀ limit, bytes.length < limit → ∀ n,
        (Cursor.ofSource (Feed.mk r false false)).calls? limit n
          = some ((Cursor.ofSource bytes).calls n)) := by
  refine ⟨?_, ?_⟩
  · intro σ _ s h limit hlimit n
    exact Cursor.calls?_of_delivers h hlimit n
  · intro ρ _ _ r h limit hlimit n
    exact Cursor.calls?_of_delivers (delivers_feed h) hlimit n

/-- A reader that hands out a numeral in two pieces and is interrupted between them. -/
theorem calls?_of_interrupted_reader :
    HandsOut .quiet
      (Script.mk [.data [0x31] none, .failure ⟨.interrupted, none⟩, .data [0x32] none])
      [0x31, 0x32] ∧
    ∀ n, (Cursor.ofSource (Feed.mk (Script.mk
        [.data [0x31] none, .failure ⟨.interrupted, none⟩, .data [0x32] none]) false false)).calls?
        3 n
      = some ((Cursor.ofSource ([0x31, 0x32] : List UInt8)).calls n) := by
  have hands : HandsOut .quiet
      (Script.mk [.data [0x31] none, .failure ⟨.interrupted, none⟩, .data [0x32] none])
      [0x31, 0x32] :=
    @Script.handsOut _
      [.data [0x31] none, .failure ⟨.interrupted, none⟩, .data [0x32] none] [] (by decide) rfl
  exact ⟨hands, (calls?_eq_some_calls _).2 _ hands 3 (by decide)⟩

end BasicTokens
