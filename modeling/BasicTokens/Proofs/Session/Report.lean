import BasicTokens.Proofs.Delivery.File
import BasicTokens.Proofs.Text.OneLine
import BasicTokens.Session.Report

/-!
# What a report shows

A listing gives tokens and then at most one error (`exists_itemsOf`), so a report is as many lines
as there are tokens, and one more for the error. For a text that comes to its end each of them is
one line indeed, because neither a token nor a lexical error has a line feed in what is shown of it.
-/

namespace BasicTokens

/-- The items of a listing that gives these tokens, and then this error if there is one. -/
def itemsOf (tokens : List Token) (error? : Option LexicalError) :
    List (Except LexicalError Token) :=
  tokens.map .ok ++ error?.toList.map .error

theorem exists_itemsOf {ending : Ending} {here last : Position} {text unread : List Char}
    {items : List (Except LexicalError Token)} (h : Lists ending here text items last unread) :
    ∃ tokens error?, items = itemsOf tokens error? := by
  induction h with
  | stop => exact ⟨[], none, rfl⟩
  | @fail _ _ e => exact ⟨[], some e, rfl⟩
  | @token _ _ t _ _ _ _ _ _ _ ih =>
    obtain ⟨tokens, error?, rfl⟩ := ih
    exact ⟨t :: tokens, error?, rfl⟩

theorem mem_itemsOf_error {tokens : List Token} {error? : Option LexicalError} {e : LexicalError} :
    .error e ∈ itemsOf tokens error? ↔ error? = some e := by
  simp [itemsOf]

/-! ### Lines -/

/-- A text of lines, each with its line end. -/
def unlines (lines : List String) : String :=
  String.join (lines.map (· ++ "\n"))

namespace Report

/-- A line for each token, and a last one for the error if there is one. -/
def linesOf (tokens : List Token) (error? : Option LexicalError) : List String :=
  tokens.map (fun t => "Parsed token: " ++ t.text)
    ++ error?.toList.map fun e => "error: " ++ e.message

theorem errorOf?_itemsOf (tokens : List Token) (error? : Option LexicalError) :
    errorOf? (itemsOf tokens error?) = error? := by
  induction tokens with
  | nil => cases error? <;> rfl
  | cons t tokens ih => exact ih

theorem map_line_itemsOf (tokens : List Token) (error? : Option LexicalError) :
    (itemsOf tokens error?).map line = linesOf tokens error? := by
  rw [itemsOf, List.map_append, List.map_map, List.map_map]
  rfl

variable {σ : Type} [Source σ] [Bounded σ] {c : Cursor σ} {tokens : List Token}
  {error? : Option LexicalError}

theorem text_ofCursor (h : c.tokens.1 = itemsOf tokens error?) :
    (ofCursor c).text = unlines (linesOf tokens error?) := by
  rw [← map_line_itemsOf, ← h]
  rfl

theorem error?_ofCursor (h : c.tokens.1 = itemsOf tokens error?) :
    (ofCursor c).error? = error? := by
  rw [← errorOf?_itemsOf tokens error?, ← h]
  rfl

end Report

theorem isOneLine_line {here last : Position} {text unread : List Char}
    {items : List (Except LexicalError Token)} (h : Lists .quiet here text items last unread) :
    ∀ item ∈ items, IsOneLine (Report.line item) := by
  induction h with
  | stop => exact fun _ hitem => absurd hitem List.not_mem_nil
  | fail ha hend =>
    intro item hitem
    rw [List.mem_singleton.1 hitem, Report.line, isOneLine_append]
    obtain ⟨gap, taken, -, -, hrefused⟩ := exists_refused ha hend
    exact ⟨by decide, isOneLine_of_refused hrefused⟩
  | token ha _ ih =>
    intro item hitem
    rcases List.mem_cons.1 hitem with rfl | hitem
    · rw [Report.line, isOneLine_append]
      obtain ⟨-, gap, spelling, hat⟩ := exists_tokenAt ha
      exact ⟨by decide, isOneLine_of_tokenAt hat⟩
    · exact ih item hitem

theorem exists_position_of_error {here last : Position} {text unread : List Char}
    {items : List (Except LexicalError Token)} (h : Lists .quiet here text items last unread)
    {e : LexicalError} (he : .error e ∈ items) :
    e.isEndOfInput = false ∧ ∃ p, e.position? = some p := by
  induction h with
  | stop => exact absurd he List.not_mem_nil
  | fail ha hend =>
    obtain rfl := Except.error.inj (List.mem_singleton.1 he)
    obtain ⟨gap, taken, -, -, hrefused⟩ := exists_refused ha hend
    refine ⟨hend, ?_⟩
    cases hrefused <;> exact ⟨_, rfl⟩
  | token _ _ ih =>
    rcases List.mem_cons.1 he with hok | he
    · cases hok
    · exact ih he

end BasicTokens
