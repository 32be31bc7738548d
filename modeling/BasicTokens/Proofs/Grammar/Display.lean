import BasicTokens.Proofs.Delivery.Reading
import BasicTokens.Proofs.Number.Layout
import BasicTokens.Proofs.Text.Quoted

/-!
# Lexemes shown and read again

The text of a lexeme is close to what it is written as. Of the lexemes that can be read at all
(`Lexeme.IsLexable`) it is known exactly which ones come back (`Lexeme.ReadsBack`): all but strings
with a character that is not plain and floats that are shown with an exponent. The text of such a
string denotes another string or is refused, and the text of such a float is refused.

A listing of texts with spaces between them goes from one to the next, so a list of lexemes comes
back if and only if each of them does (`tokenize_line`).
-/

namespace BasicTokens

/-! ### One lexeme -/

namespace Lexeme

/-- What can be read from some text. -/
def IsLexable : Lexeme → Prop
  | integer n => 0 ≤ n.toInt
  | float x => x.isFinite = true ∧ x.isNegative = false
  | string s => ∀ c ∈ s.toList, c.toNat ≤ 0xFF
  | identifier name =>
    (∃ first more, name.toList = first :: more ∧ first.isAlpha = true
      ∧ ∀ c ∈ more, c.isAlphanum = true)
    ∧ ∀ word : Keyword, name.toList.map Char.toLower ≠ word.spelling.toList
  | keyword _ => True
  | operator _ => True

/-- What is read again as it was. -/
def ReadsBack : Lexeme → Prop
  | float x => x.isZero = true ∨ 1 / 10 ^ 4 ≤ x.value ∧ x.value < 10 ^ 16
  | string s => ∀ c ∈ s.toList, Text.IsPlain c
  | _ => True

end Lexeme

theorem toNat_lt_of_isAlphanum {c : Char} (h : c.isAlphanum = true) : c.toNat < 0x80 := by
  rcases Bool.or_eq_true_iff.1 h with h | h
  · rw [isAlpha_iff] at h
    omega
  · rw [isDigit_iff] at h
    omega

theorem toNat_lt_of_isNumeralRun {text : List Char} (h : IsNumeralRun text) :
    ∀ c ∈ text, c.toNat < 0x80 := by
  intro c hc
  rcases h.chars c hc with hdigit | rfl
  · exact toNat_lt_of_isAlphanum (Bool.or_eq_true_iff.2 (.inr hdigit))
  · decide

theorem toNat_lt_of_spells {text : List Char} {x : Lexeme} (h : Spells text x)
    (hstring : x.isString = false) : ∀ c ∈ text, c.toNat < 0x80 := by
  cases h with
  | integer _ hdigits => exact toNat_lt_of_isNumeralRun (isNumeralRun_of_isDigit hdigits)
  | float _ hwhole hplaces =>
    exact toNat_lt_of_isNumeralRun (isNumeralRun_of_point hwhole hplaces)
  | keyword hfirst hmore =>
    exact fun c hc => toNat_lt_of_isAlphanum (isAlphanum_of_mem_word hfirst hmore c hc)
  | identifier hfirst hmore =>
    exact fun c hc => toNat_lt_of_isAlphanum (isAlphanum_of_mem_word hfirst hmore c hc)
  | operator sign => cases sign <;> simp [Operator.spelling]
  | string => cases hstring

theorem spells_text_integer {n : Int64} (h : 0 ≤ n.toInt) :
    Spells (toString n.toInt).toList (.integer n) := by
  obtain ⟨k, hk⟩ := Int.eq_ofNat_of_zero_le h
  have htext : (toString n.toInt).toList = Nat.toDigits 10 k := by
    rw [hk]
    change (toString k).toList = _
    rw [Nat.toString_eq_ofList_toDigits, String.toList_ofList]
  rw [htext]
  exact .integer Nat.toDigits_ne_nil (fun _ => Numeral.isDigit_of_mem_toDigits)
    (by rw [hk, Numeral.value_toDigits])

theorem spells_text {x : Lexeme} (h : x.IsLexable) (hback : x.ReadsBack)
    (hstring : x.isString = false) : Spells x.text.toList x := by
  cases x with
  | integer n => exact spells_text_integer h
  | float x => exact Binary64.spells_text h.1 h.2 (hback.imp_left of_decide_eq_true)
  | string => cases hstring
  | identifier name =>
    obtain ⟨⟨first, more, hname, hfirst, hmore⟩, hword⟩ := h
    rw [hname] at hword
    have hspells := Spells.identifier hfirst hmore hword
    rwa [← hname, String.ofList_toList] at hspells
  | keyword word =>
    cases word <;> exact .keyword (by decide) (List.all_eq_true.1 (by decide)) (by decide)
  | operator sign => exact .operator sign

theorem spells_seen_text {x : Lexeme} (h : x.IsLexable) (hback : x.ReadsBack) :
    Spells (seen x.text.toList) x := by
  cases hstring : x.isString with
  | false =>
    have hspells := spells_text h hback hstring
    rwa [seen_of_lt (toNat_lt_of_spells hspells hstring)]
  | true =>
    cases x with
    | string s => exact Text.spells_quote hback
    | _ => cases hstring

/-- **What does not read back is refused or read as something else.** -/
theorem seen_text_of_not_readsBack {x : Lexeme} (h : x.IsLexable) (hback : ¬ x.ReadsBack) :
    (∃ y, y ≠ x ∧ Spells (seen x.text.toList) y) ∨ AlwaysRefused (seen x.text.toList) := by
  cases x with
  | float x =>
    obtain ⟨hzero, hvalue⟩ := not_or.1 hback
    obtain ⟨first, more, left, htext, hfirst, hrun⟩ :=
      Binary64.exists_exponent h.1 h.2 (fun hx => hzero (decide_eq_true hx)) hvalue
    have hseen : seen (Lexeme.float x).text.toList = first :: more ++ 'e' :: seen left := by
      rw [Lexeme.text, htext, seen_append, seen_of_lt (toNat_lt_of_isNumeralRun hrun)]
      exact congrArg (first :: more ++ ·) (seen_append ['e'] left)
    rw [hseen]
    exact .inr (alwaysRefused_of_gluedLetter hfirst hrun (by decide) _)
  | string s =>
    rcases Text.quote_of_not_plain h hback with ⟨other, hne, hother⟩ | hrefused
    · exact .inl ⟨.string other, fun heq => hne (Lexeme.string.inj heq), hother⟩
    · exact .inr hrefused
  | _ => exact absurd trivial hback

/-! ### Lists of lexemes -/

namespace Lexeme

def line (xs : List Lexeme) : String :=
  " ".intercalate (xs.map text)

/-- What that is read as, behind a gap. -/
def spaced : List Char → List Lexeme → List Char
  | _, [] => []
  | gap, x :: xs => gap ++ (seen x.text.toList ++ spaced [' '] xs)

theorem atBreak_spaced (xs : List Lexeme) : AtBreak (spaced [' '] xs) := by
  intro c hc
  cases xs with
  | nil => cases hc
  | cons x xs =>
    cases hc
    decide

theorem textOf_line (xs : List Lexeme) : textOf (line xs).toUTF8.data.toList = spaced [] xs := by
  have hspace : seen " ".toList = [' '] := by decide
  rw [toList_toUTF8, line, String.toList_intercalate, List.map_map]
  change seen _ = _
  induction xs with
  | nil => rfl
  | cons x xs ih =>
    cases xs with
    | nil =>
      rw [List.map_singleton, List.intercalate_singleton]
      exact (List.append_nil _).symm
    | cons y ys =>
      rw [List.map_cons, List.map_cons, List.intercalate_cons_cons, seen_append, seen_append,
        hspace, ← List.map_cons, ih, List.append_assoc]
      rfl

end Lexeme

theorem answer_of_text {x : Lexeme} (h : x.IsLexable) {gap rest : List Char}
    (hgap : ∀ c ∈ gap, isBlank c = true) (hrest : AtBreak rest) (here : Position) :
    (∃ t there, answer .quiet here (gap ++ (seen x.text.toList ++ rest)) = ⟨.ok t, there, rest⟩
      ∧ (t.lexeme = x ↔ x.ReadsBack))
    ∨ ∃ e there left, answer .quiet here (gap ++ (seen x.text.toList ++ rest))
      = ⟨.error e, there, left⟩ ∧ e.isEndOfInput = false ∧ ¬ x.ReadsBack := by
  rw [answer_blanks hgap]
  by_cases hback : x.ReadsBack
  · exact .inl ⟨_, _, answer_of_spells (spells_seen_text h hback) (.inr hrest) _,
      iff_of_true rfl hback⟩
  · rcases seen_text_of_not_readsBack h hback with ⟨y, hne, hy⟩ | hrefused
    · exact .inl ⟨_, _, answer_of_spells hy (.inr hrest) _, iff_of_false hne hback⟩
    · obtain ⟨taken, left, e, htext, he⟩ := hrefused (here.afterAll gap) rest
      rw [htext]
      exact .inr ⟨e, _, left, answer_of_refused he, he.isEndOfInput_eq_false, hback⟩

theorem sequence_eq_ok_iff {ε α : Type} {items : List (Except ε α)} {values : List α} :
    sequence items = .ok values ↔ items = values.map .ok := by
  induction items generalizing values with
  | nil => cases values <;> simp [sequence]
  | cons item items ih =>
    cases item with
    | error e => cases values <;> simp [sequence]
    | ok a =>
      cases h : sequence items with
      | error e => cases values <;> simp [sequence, h, Except.map, ← ih]
      | ok rest => cases values <;> simp [sequence, h, Except.map, ← ih]

/-- Items with no error among them, whose tokens are of these lexemes. -/
def AreOf (items : List (Except LexicalError Token)) (xs : List Lexeme) : Prop :=
  ∃ ts : List Token, items = ts.map .ok ∧ ts.map Token.lexeme = xs

theorem areOf_cons {t : Token} {items : List (Except LexicalError Token)} {x : Lexeme}
    {xs : List Lexeme} : AreOf (.ok t :: items) (x :: xs) ↔ t.lexeme = x ∧ AreOf items xs := by
  constructor
  · rintro ⟨ts, hitems, hxs⟩
    cases ts with
    | nil => cases hitems
    | cons u ts =>
      obtain ⟨htoken, hrest⟩ := List.cons.inj hitems
      obtain ⟨hx, hmore⟩ := List.cons.inj hxs
      obtain rfl : t = u := Except.ok.inj htoken
      exact ⟨hx, ts, hrest, hmore⟩
  · rintro ⟨rfl, ts, rfl, rfl⟩
    exact ⟨t :: ts, rfl, rfl⟩

theorem not_areOf_of_error {e : LexicalError} {items : List (Except LexicalError Token)}
    {xs : List Lexeme} : ¬ AreOf (.error e :: items) xs := by
  rintro ⟨ts, hitems, -⟩
  cases ts <;> cases hitems

theorem exists_lists_spaced {xs : List Lexeme} (h : ∀ x ∈ xs, x.IsLexable) {gap : List Char}
    (hgap : ∀ c ∈ gap, isBlank c = true) (here : Position) :
    ∃ items last unread, Lists .quiet here (Lexeme.spaced gap xs) items last unread
      ∧ (AreOf items xs ↔ ∀ x ∈ xs, x.ReadsBack) := by
  induction xs generalizing gap here with
  | nil =>
    refine ⟨[], _, _, .stop (answer_nil _ _) rfl, iff_of_true ⟨[], rfl, rfl⟩ ?_⟩
    intro x hx
    cases hx
  | cons x xs ih =>
    rw [List.forall_mem_cons] at h
    rcases answer_of_text h.1 hgap (Lexeme.atBreak_spaced xs) here with
      ⟨t, there, hanswer, hback⟩ | ⟨e, there, left, hanswer, hend, hback⟩
    · obtain ⟨items, last, unread, hlists, hiff⟩ := @ih h.2 [' '] (by simp [isBlank]) there
      refine ⟨.ok t :: items, last, unread, .token hanswer hlists, ?_⟩
      rw [areOf_cons, List.forall_mem_cons, hback, hiff]
    · refine ⟨[.error e], _, _, .fail hanswer hend, iff_of_false not_areOf_of_error ?_⟩
      exact fun hall => hback (hall x List.mem_cons_self)

/-- **Lexemes come back from their texts if and only if no string has a character that is not plain
and no float is shown with an exponent.** -/
theorem tokenize_line (xs : List Lexeme) (h : ∀ x ∈ xs, x.IsLexable) :
    (∃ ts, tokenize (Lexeme.line xs).toUTF8.data.toList = .ok ts ∧ ts.map Token.lexeme = xs)
      ↔ ∀ x ∈ xs, x.ReadsBack := by
  obtain ⟨items, last, unread, hlists, hiff⟩ := @exists_lists_spaced xs h [] (by simp) .start
  rw [← Lexeme.textOf_line] at hlists
  rw [← hiff, tokenize, (Cursor.tokens_of_lists hlists).1]
  simp only [sequence_eq_ok_iff, AreOf]

/-- A comparison, a keyword, a string with a mark and a tab, and a number come back. A word with an
accent does not, nor does ten to the sixteenth. -/
theorem tokenize_line_of_comparison :
    let xs : List Lexeme := [.identifier "x", .operator .lessOrEqual, .float ⟨0x3FF8000000000000⟩,
      .keyword .conjunction, .string "a\"\t", .integer 7]
    (∀ x ∈ xs, x.IsLexable) ∧ Lexeme.line xs = "x <= 1.5 and \"a\\\"\\t\" 7" ∧
    (∃ ts, tokenize (Lexeme.line xs).toUTF8.data.toList = .ok ts ∧ ts.map Token.lexeme = xs) ∧
    ∀ x ∈ [Lexeme.string "\u00E9", .float Decimal.leastScientific],
      x.IsLexable ∧ ¬ ∃ ts, tokenize (Lexeme.line [x]).toUTF8.data.toList = .ok ts
        ∧ ts.map Token.lexeme = [x] := by
  intro xs
  have hname : (Lexeme.identifier "x").IsLexable := by
    refine ⟨⟨'x', [], rfl, by decide, by simp⟩, fun word => ?_⟩
    cases word <;> decide
  have hlexable : ∀ x ∈ xs, x.IsLexable := by
    simp only [xs, List.forall_mem_cons]
    exact ⟨hname, trivial, ⟨by decide, by decide⟩, trivial, by simp [Lexeme.IsLexable],
      by unfold Lexeme.IsLexable; decide, by simp⟩
  have hfloat : (Lexeme.float ⟨0x3FF8000000000000⟩).ReadsBack :=
    .inr ⟨Binary64.leastPositional_le_iff.1 (by decide),
      Binary64.lt_leastScientific_iff.1 (by decide)⟩
  have hback : ∀ x ∈ xs, x.ReadsBack := by
    simp only [xs, List.forall_mem_cons]
    exact ⟨trivial, trivial, hfloat, trivial, by simp [Lexeme.ReadsBack, Text.IsPlain], trivial,
      by simp⟩
  refine ⟨hlexable, by decide +kernel, (tokenize_line xs hlexable).2 hback, ?_⟩
  have hword : (Lexeme.string "\u00E9").IsLexable ∧ ¬ (Lexeme.string "\u00E9").ReadsBack := by
    simp [Lexeme.IsLexable, Lexeme.ReadsBack, Text.IsPlain]
  have hpower : ¬ (Lexeme.float Decimal.leastScientific).ReadsBack := by
    rintro (hzero | ⟨-, hlt⟩)
    · cases hzero
    · exact Nat.lt_irrefl _ (Binary64.lt_leastScientific_iff.2 hlt)
  have hlost : ∀ x : Lexeme, x.IsLexable → ¬ x.ReadsBack →
      ¬ ∃ ts, tokenize (Lexeme.line [x]).toUTF8.data.toList = .ok ts
        ∧ ts.map Token.lexeme = [x] := by
    intro x hx hnot hread
    exact hnot ((tokenize_line [x] (by simpa using hx)).1 hread x List.mem_cons_self)
  simp only [List.forall_mem_cons]
  refine ⟨⟨hword.1, hlost _ hword.1 hword.2⟩, ⟨⟨by decide, by decide⟩, ?_⟩, by simp⟩
  exact hlost _ ⟨by decide, by decide⟩ hpower

end BasicTokens
