import BasicTokens.Proofs.Grammar.Distinct
import BasicTokens.Proofs.Grammar.WellFormed
import BasicTokens.Proofs.Session.Report

/-!
# A report tells what was read

Lines that hold no line feed can be had back from what is shown, and a line can be had back from its
text: it begins with the word for a token or for an error, and no two tokens and no two lexical
errors look alike. So two texts with the same report have the same items (`tokens_eq_of_report`).

Not every token could be told by its text: a float with a sign looks like nothing a text can hold.
What is needed is that the token comes from a text of bytes. That is so whatever the source does,
since a call on an arbitrary source answers as over the text that was moved past (`IsProduced`).
-/

namespace BasicTokens

/-! ### Lines -/

theorem toList_unlines_cons (line : String) (lines : List String) :
    (unlines (line :: lines)).toList = line.toList ++ '\n' :: (unlines lines).toList := by
  have hend : "\n".toList = ['\n'] := rfl
  rw [unlines, List.map_cons, String.join_cons, String.toList_append, String.toList_append, hend,
    List.append_assoc]
  rfl

theorem unlines_inj {lines lines' : List String} (h : ∀ line ∈ lines, IsOneLine line)
    (h' : ∀ line ∈ lines', IsOneLine line) (heq : unlines lines = unlines lines') :
    lines = lines' := by
  induction lines generalizing lines' with
  | nil =>
    cases lines' with
    | nil => rfl
    | cons line' lines' =>
      have hlist := congrArg String.toList heq
      rw [toList_unlines_cons] at hlist
      exact absurd hlist.symm (by simp [unlines])
  | cons line lines ih =>
    cases lines' with
    | nil =>
      have hlist := congrArg String.toList heq
      rw [toList_unlines_cons] at hlist
      exact absurd hlist (by simp [unlines])
    | cons line' lines' =>
      obtain ⟨hline, hlines⟩ := List.forall_mem_cons.1 h
      obtain ⟨hline', hlines'⟩ := List.forall_mem_cons.1 h'
      have hlist := congrArg String.toList heq
      rw [toList_unlines_cons, toList_unlines_cons] at hlist
      obtain ⟨hfirst, hrest⟩ := cut_first hline hline' hlist
      rw [String.toList_inj.1 hfirst, ih hlines hlines' (String.toList_inj.1 hrest)]

/-! ### Items -/

/-- An error in the text, and not in reading it. -/
def LexicalError.IsLexical (e : LexicalError) : Prop :=
  ∀ kind message, e ≠ .readFailed kind message

def IsTold : Except LexicalError Token → Prop
  | .ok t => t.lexeme.IsLexable
  | .error e => e.IsLexical

theorem Report.line_inj {item other : Except LexicalError Token} (h : IsTold item)
    (h' : IsTold other) (heq : line item = line other) : item = other := by
  have hhead : ∀ t : Token, ∀ e : LexicalError,
      ("Parsed token: " ++ t.text).toList.head? ≠ ("error: " ++ e.message).toList.head? := by
    intro t e
    rw [String.toList_append, String.toList_append, List.head?_append_of_ne_nil _ (by decide),
      List.head?_append_of_ne_nil _ (by decide)]
    decide
  have hcancel : ∀ {front a b : String}, front ++ a = front ++ b → a = b := by
    intro front a b hfront
    have hlist := congrArg String.toList hfront
    rw [String.toList_append, String.toList_append] at hlist
    exact String.toList_inj.1 (List.append_cancel_left hlist)
  cases item with
  | ok t =>
    cases other with
    | ok u => rw [Token.text_inj h h' (hcancel heq)]
    | error e => exact absurd (congrArg (fun s => s.toList.head?) heq) (hhead t e)
  | error e =>
    cases other with
    | ok t => exact absurd (congrArg (fun s => s.toList.head?) heq).symm (hhead t e)
    | error e' => rw [LexicalError.message_inj h (hcancel heq)]

theorem eq_of_map_line {items others : List (Except LexicalError Token)}
    (h : ∀ item ∈ items, IsTold item) (h' : ∀ item ∈ others, IsTold item)
    (heq : items.map Report.line = others.map Report.line) : items = others := by
  induction items generalizing others with
  | nil => exact (List.map_eq_nil_iff.1 heq.symm).symm
  | cons item items ih =>
    cases others with
    | nil => cases heq
    | cons other others =>
      obtain ⟨hitem, hitems⟩ := List.forall_mem_cons.1 h
      obtain ⟨hother, hothers⟩ := List.forall_mem_cons.1 h'
      obtain ⟨hline, hlines⟩ := List.cons.inj heq
      rw [Report.line_inj hitem hother hline, ih hitems hothers hlines]

theorem isLexical_of_refused {here : Position} {taken left : List Char} {e : LexicalError}
    (h : Refused here taken left e) : e.IsLexical := by
  rintro kind message rfl
  cases h

theorem isTold_of_lists {here last : Position} {text unread : List Char}
    {items : List (Except LexicalError Token)} (h : Lists .quiet here text items last unread)
    (htext : ∀ c ∈ text, c.toNat ≤ 0xFF) : ∀ item ∈ items, IsTold item := by
  induction h with
  | stop => exact fun _ hitem => absurd hitem List.not_mem_nil
  | fail ha hend =>
    intro item hitem
    rw [List.mem_singleton.1 hitem]
    obtain ⟨gap, taken, -, -, hrefused⟩ := exists_refused ha hend
    exact isLexical_of_refused hrefused
  | token ha _ ih =>
    obtain ⟨-, gap, spelling, hat⟩ := exists_tokenAt ha
    have htext' := htext
    rw [hat.text_eq] at htext'
    intro item hitem
    rcases List.mem_cons.1 hitem with rfl | hitem
    · refine isLexable_of_spells hat.spells fun c hc => htext' c ?_
      exact List.mem_append_right gap (List.mem_append_left _ hc)
    · refine ih (fun c hc => htext' c ?_) item hitem
      exact List.mem_append_right gap (List.mem_append_right _ hc)

theorem toNat_le_of_mem_textOf {bytes : List UInt8} {c : Char} (hc : c ∈ textOf bytes) :
    c.toNat ≤ 0xFF := by
  obtain ⟨b, -, rfl⟩ := List.mem_map.1 hc
  rw [toNat_ofUInt8]
  exact Nat.le_of_lt_succ b.toNat_lt

/-- **Two texts with the same report have the same items.** -/
theorem tokens_eq_of_report {bytes others : List UInt8}
    (h : (Report.ofCursor (.ofSource bytes)).text = (Report.ofCursor (.ofSource others)).text) :
    (Cursor.ofSource bytes).tokens.1 = (Cursor.ofSource others).tokens.1 := by
  have hlines : ∀ (bytes : List UInt8),
      (∀ line ∈ (Cursor.ofSource bytes).tokens.1.map Report.line, IsOneLine line)
        ∧ ∀ item ∈ (Cursor.ofSource bytes).tokens.1, IsTold item := by
    intro bytes
    obtain ⟨last, unread, hlists⟩ := Cursor.exists_lists_tokens bytes
    refine ⟨?_, isTold_of_lists hlists fun c hc => toNat_le_of_mem_textOf hc⟩
    intro line hline
    obtain ⟨item, hitem, rfl⟩ := List.mem_map.1 hline
    exact isOneLine_line hlists item hitem
  have hmap : (Cursor.ofSource bytes).tokens.1.map Report.line
      = (Cursor.ofSource others).tokens.1.map Report.line :=
    unlines_inj (hlines bytes).1 (hlines others).1 h
  exact eq_of_map_line (hlines bytes).2 (hlines others).2 hmap

/-! ### What calls produce -/

/-- A result of some call: over a source that may do anything, and behind any requests. -/
def IsProduced (result : Except LexicalError Token) : Prop :=
  ∃ (σ : Type) (_ : Source σ) (s : σ) (requests : List Request) (limit limit' : Nat)
    (l : Listing (Recorded σ)) (d : Cursor (Recorded σ)),
    (Listing.mk (.ofSource (Recorded.mk s [])) false).run? limit requests = some l
      ∧ l.cursor.token? limit' = some (result, d)

theorem IsProduced.isLexable {t : Token} (h : IsProduced (.ok t)) : t.lexeme.IsLexable := by
  obtain ⟨σ, _, s, requests, limit, limit', l, d, hrun, htoken⟩ := h
  exact (Cursor.isReadBetween_of_token? (Listing.len_le_of_run? hrun) htoken).isLexable

theorem IsProduced.isOneLine_text {t : Token} (h : IsProduced (.ok t)) : IsOneLine t.text := by
  obtain ⟨σ, _, s, requests, limit, limit', l, d, hrun, htoken⟩ := h
  obtain ⟨-, gap, spelling, rest, -, hat⟩ :=
    Cursor.exists_tokenAt_of_token? (Listing.len_le_of_run? hrun) htoken
  exact isOneLine_of_tokenAt hat

theorem isOneLine_of_answer {here there : Position} {text rest : List Char} {e : LexicalError}
    (h : answer .quiet here text = ⟨.error e, there, rest⟩) : IsOneLine e.message := by
  cases hend : e.isEndOfInput with
  | true =>
    obtain ⟨p, rfl⟩ := LexicalError.exists_endOfInput hend
    show IsOneLine ("unexpected end of input at " ++ p.text)
    rw [isOneLine_append]
    exact ⟨by decide, isOneLine_position p⟩
  | false =>
    obtain ⟨gap, taken, -, -, hrefused⟩ := exists_refused h hend
    exact isOneLine_of_refused hrefused

theorem IsProduced.isOneLine_message {e : LexicalError} (h : IsProduced (.error e))
    (he : e.IsLexical) : IsOneLine e.message := by
  obtain ⟨σ, _, s, requests, limit, limit', l, d, hrun, htoken⟩ := h
  rw [Cursor.token?, Option.map_eq_some_iff] at htoken
  obtain ⟨⟨_, k⟩, hscan, hnote⟩ := htoken
  cases hnote
  obtain ⟨taken, -, ⟨cause, hcause⟩ | ⟨rest, hanswer⟩⟩ :=
    Cursor.exists_run_of_scan? (Listing.len_le_of_run? hrun) hscan
  · exact absurd (Except.error.inj hcause) (he _ _)
  · exact isOneLine_of_answer hanswer

/-- **What is shown is unambiguous.** Texts with the same report have the same items. Nothing that a
call produces is shown with a line feed, and different tokens and different lexical errors are shown
differently. -/
theorem report_is_unambiguous :
    (∀ bytes others : List UInt8,
      (Report.ofCursor (.ofSource bytes)).text = (Report.ofCursor (.ofSource others)).text →
        (Cursor.ofSource bytes).tokens.1 = (Cursor.ofSource others).tokens.1) ∧
    (∀ t, IsProduced (.ok t) → IsOneLine t.text) ∧
    (∀ e, IsProduced (.error e) → e.IsLexical → IsOneLine e.message) ∧
    (∀ t u, IsProduced (.ok t) → IsProduced (.ok u) → t.text = u.text → t = u) ∧
    (∀ e e' : LexicalError, e.IsLexical → e.message = e'.message → e = e') := by
  refine ⟨?_, ?_, ?_, ?_, ?_⟩
  · intro bytes others h
    exact tokens_eq_of_report h
  · intro t ht
    exact ht.isOneLine_text
  · intro e he hlexical
    exact he.isOneLine_message hlexical
  · intro t u ht hu h
    exact Token.text_inj ht.isLexable hu.isLexable h
  · intro e e' hlexical h
    exact LexicalError.message_inj hlexical h

theorem isProduced_of_token? {bytes : List UInt8} {limit : Nat}
    {result : Except LexicalError Token}
    (h : ((Cursor.ofSource (Recorded.mk bytes [])).token? limit).map Prod.fst = some result) :
    IsProduced result := by
  obtain ⟨⟨_, d⟩, htoken, rfl⟩ := Option.map_eq_some_iff.1 h
  exact ⟨List UInt8, inferInstance, bytes, [], 0, limit, _, d, rfl, htoken⟩

/-- A string that looks like a span, with and without a line end behind it; and a string with an
escape that does not exist. -/
theorem report_is_unambiguous_of_span_in_string :
    let bytes : List UInt8 := [0x22, 0x40, 0x20, 0x31, 0x3A, 0x31, 0x22]
    let t : Token := ⟨.string "@ 1:1", ⟨1, 1⟩, ⟨1, 8⟩⟩
    let e : LexicalError := .unexpectedCharacter '\n' ⟨1, 3⟩
    ((Report.ofCursor (.ofSource bytes)).text = (Report.ofCursor (.ofSource (bytes ++ [0x0A]))).text
      ∧ (Cursor.ofSource bytes).tokens.1 = (Cursor.ofSource (bytes ++ [0x0A])).tokens.1) ∧
    (IsProduced (.ok t) ∧ IsOneLine t.text ∧ ∀ u, IsProduced (.ok u) → t.text = u.text → t = u) ∧
    (IsProduced (.error e) ∧ IsOneLine e.message ∧ ∀ e', e.message = e'.message → e = e') := by
  intro bytes t e
  have hreport : (Report.ofCursor (.ofSource bytes)).text
      = (Report.ofCursor (.ofSource (bytes ++ [0x0A]))).text := by
    decide +kernel
  have ht : IsProduced (.ok t) :=
    @isProduced_of_token? bytes 9 _ (by decide +kernel)
  have he : IsProduced (.error e) :=
    @isProduced_of_token? [0x22, 0x5C, 0x0A] 9 _ (by decide +kernel)
  have hlexical : e.IsLexical := by simp [LexicalError.IsLexical, e]
  obtain ⟨htexts, hline, hline', htokens, herrors⟩ := report_is_unambiguous
  exact ⟨⟨hreport, htexts _ _ hreport⟩, ⟨ht, hline t ht, fun u hu h => htokens t u ht hu h⟩,
    he, hline' e he hlexical, fun e' h => herrors e e' hlexical h⟩

end BasicTokens
