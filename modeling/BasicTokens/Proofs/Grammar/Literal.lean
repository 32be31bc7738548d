import BasicTokens.Proofs.Delivery.Independence
import BasicTokens.Proofs.Grammar.Token
import BasicTokens.Proofs.Text.Bytes

/-!
# String literals

Between its marks a string literal encodes a value (`Encodes`): the mark and the backslash are
written behind a backslash, a line feed, a tab and a carriage return either so, by a letter, or as
they are, and everything else as it is. A call decodes every literal, whatever follows the closing
mark, and leaves what follows unread; and a call that gives a string has moved past blanks and one
literal that encodes it (`token_of_literal`).

The rows of the span are counted by the line ends that stand in the literal, and not by those in the
value: an encoded line feed ends no line.
-/

namespace BasicTokens

theorem Position.row_afterAll (p : Position) (text : List Char) :
    (p.afterAll text).row = p.row + text.countP isLineBreak := by
  induction text generalizing p with
  | nil => rfl
  | cons c text ih =>
    rw [afterAll_cons, ih, List.countP_cons, after]
    cases hc : isLineBreak c with
    | true => simp only [if_true]; omega
    | false => simp

def literal (body : List UInt8) : List UInt8 :=
  0x22 :: (body ++ [0x22])

theorem textOf_literal (body : List UInt8) :
    textOf (literal body) = '\x22' :: (textOf body ++ ['\x22']) := by
  rw [literal, textOf_cons, textOf_append]
  rfl

theorem Cursor.token_ofSource {bytes : List UInt8} {a : Answer}
    (h : answer .quiet .start (textOf bytes) = a) :
    (ofSource bytes).token.1 = a.result ∧ (ofSource bytes).token.2.position = a.here
      ∧ textOf (ofSource bytes).token.2.unread = a.rest := by
  obtain ⟨d, htoken, hd⟩ :=
    token?_of_reads (reads_ofSource (delivers_slice bytes)) (Nat.lt_succ_self _)
  obtain ⟨hposition, hreads⟩ := reads_of_follows_quiet hd
  rw [token_of_token? htoken]
  subst h
  exact ⟨rfl, hposition, textOf_unread hreads⟩

theorem exists_encodes_of_tokenAt {here : Position} {text gap spelling rest : List Char}
    {t : Token} {value : String} (h : TokenAt here text t gap spelling rest)
    (ht : t.lexeme = .string value) :
    ∃ body, spelling = '\x22' :: (body ++ ['\x22']) ∧ Encodes body value.toList := by
  have hspells := h.spells
  rw [ht] at hspells
  cases hspells with
  | @string body decoded hbody =>
    rw [String.toList_ofList]
    exact ⟨body, rfl, hbody⟩

/-- **A literal gives the string that it encodes, whatever follows it, and a string comes from such
a literal only.** The first holds of bytes in memory, of which exactly what follows is left unread.
The second holds of every source and behind any requests: what was in the buffer and what was read
meanwhile are blanks, a literal, and what is still in the buffer. -/
theorem token_of_literal :
    (∀ (body rest : List UInt8) (value : List Char), Encodes (textOf body) value →
      let behind := Position.start.afterAll (textOf (literal body))
      let c := Cursor.ofSource (literal body ++ rest)
      c.token.1 = .ok ⟨.string (String.ofList value), .start, behind⟩
        ∧ c.token.2.position = behind ∧ c.token.2.unread = rest
        ∧ behind.row = 1 + (textOf body).countP isLineBreak) ∧
    ∀ {σ : Type} [Source σ] (s : σ) (limit : Nat) (requests : List Request)
      (l : Listing (Recorded σ)),
      (Listing.mk (.ofSource ⟨s, []⟩) false).run? limit requests = some l →
      ∀ (limit' : Nat) (value : String) (first behind : Position) (d : Cursor (Recorded σ)),
        l.cursor.token? limit' = some (.ok ⟨.string value, first, behind⟩, d) →
        ∃ got gap body, d.source.received = l.cursor.source.received ++ got
          ∧ textOf (l.cursor.buffered ++ got)
            = gap ++ '\x22' :: (body ++ '\x22' :: textOf d.buffered)
          ∧ (∀ c ∈ gap, isBlank c = true) ∧ Encodes body value.toList
          ∧ first = l.cursor.position.afterAll gap
          ∧ behind = first.afterAll ('\x22' :: (body ++ ['\x22'])) ∧ d.position = behind := by
  refine ⟨?_, ?_⟩
  · intro body rest value hbody behind c
    have hanswer : answer .quiet .start (_ ++ textOf rest) = _ :=
      answer_of_spells (.string hbody) (.inl rfl) .start
    rw [← textOf_literal, ← textOf_append] at hanswer
    obtain ⟨hresult, hposition, hunread⟩ := Cursor.token_ofSource hanswer
    refine ⟨hresult, hposition, textOf_injective hunread, ?_⟩
    rw [Position.row_afterAll, textOf_literal, List.countP_cons_of_neg (by decide),
      List.countP_append, List.countP_singleton]
    rfl
  · intro σ _ s limit requests l hrun limit' value first behind d htoken
    obtain ⟨hposition, gap, spelling, rest, hpasses, hat⟩ :=
      Cursor.exists_tokenAt_of_token? (Listing.len_le_of_run? hrun) htoken
    obtain ⟨body, rfl, hbody⟩ := exists_encodes_of_tokenAt hat rfl
    obtain ⟨got, hreceived, hahead⟩ := hpasses.ahead
    refine ⟨got, gap, body, hreceived, ?_, hat.blanks, hbody, hat.first, hat.behind, hposition⟩
    rw [hahead]
    simp

/-- A literal that encodes a quotation mark, a backslash and a line feed and holds a line feed as it
is, with a digit glued on; and behind a blank, from a reader that keeps a record, a literal that
holds a line feed. -/
theorem token_of_two_row_literal :
    Encodes (textOf [0x5C, 0x22, 0x5C, 0x5C, 0x5C, 0x6E, 0x0A]) ['\x22', '\\', '\n', '\n'] ∧
    (Cursor.ofSource (literal [0x5C, 0x22, 0x5C, 0x5C, 0x5C, 0x6E, 0x0A] ++ [0x31])).token.1
      = .ok ⟨.string "\"\\\n\n", ⟨1, 1⟩, ⟨2, 2⟩⟩ ∧
    (Cursor.ofSource (literal [0x5C, 0x22, 0x5C, 0x5C, 0x5C, 0x6E, 0x0A] ++ [0x31])).token.2.unread
      = [0x31] ∧
    ∃ (d : Cursor (Recorded (List UInt8))) (gap body : List Char),
      (Cursor.ofSource ⟨[0x20, 0x22, 0x0A, 0x22, 0x31], []⟩).token? 9
        = some (.ok ⟨.string "\n", ⟨1, 2⟩, ⟨2, 2⟩⟩, d) ∧
      textOf d.source.received = gap ++ '\x22' :: (body ++ '\x22' :: textOf d.buffered) ∧
      Encodes body ['\n'] := by
  have hbody : Encodes (textOf [0x5C, 0x22, 0x5C, 0x5C, 0x5C, 0x6E, 0x0A])
      ['\x22', '\\', '\n', '\n'] :=
    .escaped (by decide) (.escaped (by decide) (.escaped (by decide)
      (.raw (by decide) (by decide) .nil)))
  obtain ⟨hresult, -, hunread, -⟩ := token_of_literal.1 _ [0x31] _ hbody
  refine ⟨hbody, hresult, hunread, ?_⟩
  have hread : ((Cursor.ofSource
      (⟨[0x20, 0x22, 0x0A, 0x22, 0x31], []⟩ : Recorded (List UInt8))).token? 9).map Prod.fst
        = some (.ok ⟨.string "\n", ⟨1, 2⟩, ⟨2, 2⟩⟩) := by
    decide +kernel
  obtain ⟨⟨_, d⟩, htoken, rfl⟩ := Option.map_eq_some_iff.1 hread
  obtain ⟨got, gap, body, hreceived, htext, -, hencodes, -⟩ :=
    token_of_literal.2 ([0x20, 0x22, 0x0A, 0x22, 0x31] : List UInt8) 9 [] _ rfl 9 _ _ _ d htoken
  refine ⟨d, gap, body, htoken, ?_, hencodes⟩
  rw [hreceived]
  exact htext

end BasicTokens
