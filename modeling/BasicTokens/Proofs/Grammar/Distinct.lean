import BasicTokens.Proofs.Grammar.Display
import BasicTokens.Proofs.Text.Distinct

/-!
# No two tokens look alike

Each lexeme that can be read at all has a text of its own (`Lexeme.text_inj`). Most are their own
spelling, and a spelling has only one meaning; a string is the only one that begins with a quotation
mark; and a float that is shown with an exponent is no spelling at all, but its digits and its
exponent say which one it is. The text of a token ends in its span, and what a string holds cannot
hide where the span begins, because the span has no `@` in it (`Token.text_inj`).

Errors are told apart in the same way: by how they begin, and then from behind, where the position
stands (`LexicalError.message_inj`). Of the words of a failed read nothing is known.
-/

namespace BasicTokens

/-! ### Numbers with an exponent -/

namespace Decimal

theorem exists_mantissa (d : Decimal) :
    ∃ mantissa, d.scientific = mantissa ++ 'e' :: (toString d.leadingExponent).toList
      ∧ 'e' ∉ mantissa ∧ mantissa.filter (· ≠ '.') = d.digitChars := by
  have hdigits : ∀ c ∈ d.digitChars, c.isDigit = true := fun _ => Numeral.isDigit_of_mem_toDigits
  have hexponent : 'e' ∉ d.digitChars := fun hmem => absurd (hdigits 'e' hmem) (by decide)
  have hfilter : d.digitChars.filter (· ≠ '.') = d.digitChars :=
    List.filter_eq_self.2 fun c hc => decide_eq_true (ne_point_of_isDigit (hdigits c hc))
  simp only [scientific]
  split
  · rename_i first second rest heq
    rw [heq] at hexponent hfilter
    refine ⟨first :: '.' :: second :: rest, rfl, ?_, ?_⟩
    · simpa using hexponent
    · have hpoint : (['.'] : List Char).filter (· ≠ '.') = [] := rfl
      rw [heq, ← hfilter, ← List.singleton_append, ← List.singleton_append (l := second :: rest),
        List.filter_append, List.filter_append, hpoint, List.nil_append, ← List.filter_append]
      rfl
  · exact ⟨d.digitChars, rfl, hexponent, hfilter⟩

theorem scientific_inj {d e : Decimal} (h : d.scientific = e.scientific) : d = e := by
  obtain ⟨mantissa, hd, hne, hfilter⟩ := d.exists_mantissa
  obtain ⟨mantissa', he, hne', hfilter'⟩ := e.exists_mantissa
  rw [hd, he] at h
  obtain ⟨rfl, hpower⟩ := cut_first hne hne' h
  have hchars : d.digitChars = e.digitChars := hfilter.symm.trans hfilter'
  have hdigits : d.digits = e.digits := toDigits_inj (by decide) (by decide) hchars
  have hleading : d.leadingExponent = e.leadingExponent := toString_int_inj hpower
  have hexponent : d.exponent = e.exponent := by
    rw [leadingExponent, leadingExponent, hchars] at hleading
    omega
  cases d
  cases e
  simp_all

end Decimal

namespace Binary64

variable {x y : Binary64}

/-- The shortest decimal of a positive number tells which number it is. -/
theorem eq_of_shortest (hx : x.magnitude ≠ 0) (hy : y.magnitude ≠ 0) (hsign : x.isNegative = false)
    (hsign' : y.isNegative = false) (h : Decimal.shortest x = Decimal.shortest y) : x = y := by
  obtain ⟨d, g, hd, -, hround⟩ := Decimal.exists_shortest hx
  obtain ⟨d', g', hd', -, hround'⟩ := Decimal.exists_shortest hy
  rw [hd, hd', Decimal.mk.injEq] at h
  obtain ⟨rfl, hg⟩ := h
  obtain rfl : g = g' := by omega
  rw [eq_of_magnitude hsign, eq_of_magnitude hsign', ← hround, ← hround']

end Binary64

/-! ### Lexemes -/

theorem not_alwaysRefused_of_spells {text : List Char} {x : Lexeme} (h : Spells text x) :
    ¬AlwaysRefused text := by
  intro hrefused
  obtain ⟨taken, left, e, htext, he⟩ := hrefused .start []
  have hanswer := answer_of_spells h (.inr atBreak_nil) .start
  rw [htext, answer_of_refused he, Answer.mk.injEq] at hanswer
  cases hanswer.1

theorem Spells.head?_ne {text : List Char} {x : Lexeme} (h : Spells text x)
    (hstring : x.isString = false) : text.head? ≠ some '\x22' := by
  have hdigit : ∀ {first : Char}, first.isDigit = true → first ≠ '\x22' := by
    rintro first hfirst rfl
    cases hfirst
  have halpha : ∀ {first : Char}, first.isAlpha = true → first ≠ '\x22' := by
    rintro first hfirst rfl
    cases hfirst
  cases h with
  | integer hne hdigits =>
    obtain ⟨first, more, rfl⟩ := List.exists_cons_of_ne_nil hne
    simpa using hdigit (hdigits first List.mem_cons_self)
  | float hne hwhole =>
    obtain ⟨first, more, rfl⟩ := List.exists_cons_of_ne_nil hne
    simpa using hdigit (hwhole first List.mem_cons_self)
  | keyword hfirst => simpa using halpha hfirst
  | identifier hfirst => simpa using halpha hfirst
  | operator sign => cases sign <;> decide
  | string => cases hstring

namespace Lexeme

variable {x y : Lexeme}

theorem exists_float_of_not_readsBack (hx : x.IsLexable) (hstring : x.isString = false)
    (hback : ¬x.ReadsBack) :
    ∃ z : Binary64, x = .float z ∧ z.isNegative = false ∧ z.magnitude ≠ 0
      ∧ z.text.toList = (Decimal.shortest z).scientific := by
  cases x with
  | float z =>
    obtain ⟨hzero, hvalue⟩ := not_or.1 hback
    have hmagnitude : z.magnitude ≠ 0 := fun h => hzero (decide_eq_true h)
    refine ⟨z, rfl, hx.2, hmagnitude, ?_⟩
    rw [Binary64.text_toList hx.1 hx.2, if_neg hmagnitude, Decimal.layOut,
      if_neg (mt (Binary64.isPositional_iff hmagnitude hx.2).1 hvalue)]
  | string => cases hstring
  | _ => exact absurd trivial hback

theorem alwaysRefused_of_not_readsBack (hx : x.IsLexable) (hstring : x.isString = false)
    (hback : ¬x.ReadsBack) : AlwaysRefused x.text.toList := by
  obtain ⟨z, rfl, -, -, htext⟩ := exists_float_of_not_readsBack hx hstring hback
  obtain ⟨first, more, left, hscientific, hfirst, hrun⟩ :=
    (Decimal.shortest z).exists_scientific
  rw [text, htext, hscientific]
  exact alwaysRefused_of_gluedLetter hfirst hrun (by decide) left

theorem head?_text_ne (hx : x.IsLexable) (hstring : x.isString = false) :
    x.text.toList.head? ≠ some '\x22' := by
  by_cases hback : x.ReadsBack
  · exact (spells_text hx hback hstring).head?_ne hstring
  · obtain ⟨z, rfl, -, -, hz⟩ := exists_float_of_not_readsBack hx hstring hback
    obtain ⟨first, more, left, hscientific, hfirst, -⟩ := (Decimal.shortest z).exists_scientific
    rw [text, hz, hscientific]
    rintro ⟨⟩
    cases hfirst

theorem text_inj_of_not_string (hx : x.IsLexable) (hy : y.IsLexable) (hstring : x.isString = false)
    (hstring' : y.isString = false) (h : x.text = y.text) : x = y := by
  by_cases hback : x.ReadsBack <;> by_cases hback' : y.ReadsBack
  · have hspells := spells_text hx hback hstring
    have hspells' := spells_text hy hback' hstring'
    rw [← h] at hspells'
    exact (spells_unique hspells (.inr atBreak_nil) hspells' (.inr atBreak_nil) rfl).2.1
  · have hspells := spells_text hx hback hstring
    rw [h] at hspells
    exact absurd (alwaysRefused_of_not_readsBack hy hstring' hback')
      (not_alwaysRefused_of_spells hspells)
  · have hspells := spells_text hy hback' hstring'
    rw [← h] at hspells
    exact absurd (alwaysRefused_of_not_readsBack hx hstring hback)
      (not_alwaysRefused_of_spells hspells)
  · obtain ⟨z, rfl, hsign, hz, htext⟩ := exists_float_of_not_readsBack hx hstring hback
    obtain ⟨w, rfl, hsign', hw, htext'⟩ := exists_float_of_not_readsBack hy hstring' hback'
    have hscientific : (Decimal.shortest z).scientific = (Decimal.shortest w).scientific := by
      rw [← htext, ← htext']
      exact congrArg String.toList h
    rw [Binary64.eq_of_shortest hz hw hsign hsign' (Decimal.scientific_inj hscientific)]

/-- **Different lexemes have different texts.** -/
theorem text_inj (hx : x.IsLexable) (hy : y.IsLexable) (h : x.text = y.text) : x = y := by
  have hmark : ∀ s, (Lexeme.string s).text.toList.head? = some '\x22' := by
    intro s
    rw [text, Text.quote, String.toList_ofList]
    rfl
  cases hstring : x.isString <;> cases hstring' : y.isString
  · exact text_inj_of_not_string hx hy hstring hstring' h
  · cases y with
    | string t => exact absurd (h ▸ hmark t) (head?_text_ne hx hstring)
    | _ => cases hstring'
  · cases x with
    | string s => exact absurd (h ▸ hmark s) (head?_text_ne hy hstring')
    | _ => cases hstring
  · cases x with
    | string s =>
      cases y with
      | string t => rw [Text.quote_inj h]
      | _ => cases hstring'
    | _ => cases hstring

end Lexeme

/-! ### Tokens -/

theorem Token.toList_text (t : Token) :
    t.text.toList = (t.lexeme.text.toList ++ [' '])
      ++ '@' :: ([' '] ++ (t.first.text.toList ++ '-' :: t.behind.text.toList)) := by
  have hat : " @ ".toList = [' '] ++ '@' :: [' '] := rfl
  have hdash : "-".toList = ['-'] := rfl
  simp only [text, String.toList_append, hat, hdash, List.append_assoc, List.cons_append,
    List.nil_append]

theorem Token.text_inj {t u : Token} (ht : t.lexeme.IsLexable) (hu : u.lexeme.IsLexable)
    (h : t.text = u.text) : t = u := by
  have hspan : ∀ t : Token,
      '@' ∉ [' '] ++ (t.first.text.toList ++ '-' :: t.behind.text.toList) := by
    intro t
    have hposition : ∀ p : Position, '@' ∉ p.text.toList :=
      Position.notMem_text (by decide) (by decide)
    simp [hposition]
  have hlist := congrArg String.toList h
  rw [toList_text, toList_text] at hlist
  obtain ⟨hfront, hback⟩ := cut_last (hspan t) (hspan u) hlist
  have hlexeme := Lexeme.text_inj ht hu (String.toList_inj.1 (List.append_cancel_right hfront))
  obtain ⟨hfirst, hbehind⟩ := Position.span_inj (List.append_cancel_left hback)
  cases t
  cases u
  simp_all

/-! ### Errors -/

namespace LexicalError

def kind : LexicalError → Fin 6
  | endOfInput _ => 0
  | unexpectedCharacter _ _ => 1
  | unknownToken _ _ => 2
  | malformedNumber _ _ => 3
  | unterminatedString _ => 4
  | readFailed _ _ => 5

def opening : Fin 6 → String
  | 0 => "unexpected end of input at "
  | 1 => "unexpected character '"
  | 2 => "unknown token `"
  | 3 => "malformed number `"
  | 4 => "unterminated string starting at "
  | 5 => "failed to read input: "

def marked (mark : Char) (text : List Char) (p : Position) : List Char :=
  text ++ mark :: (" at ".toList ++ p.text.toList)

def details : LexicalError → List Char
  | endOfInput p | unterminatedString p => p.text.toList
  | unexpectedCharacter c p => marked '\x27' (Text.escape '\x27' c) p
  | unknownToken text p | malformedNumber text p => marked '`' text.toList p
  | readFailed _ message => message.toList

theorem toList_message (e : LexicalError) :
    e.message.toList = (opening e.kind).toList ++ e.details := by
  have hmarked : ∀ (front text : String) (p : Position),
      (front ++ text ++ "` at " ++ p.text).toList = front.toList ++ marked '`' text.toList p := by
    intro front text p
    have hat : "` at ".toList = '`' :: " at ".toList := rfl
    simp only [marked, String.toList_append, hat, List.append_assoc, List.cons_append]
  cases e with
  | endOfInput p => exact String.toList_append
  | unterminatedString p => exact String.toList_append
  | readFailed kind message => exact String.toList_append
  | unknownToken text p => exact hmarked _ text p
  | malformedNumber text p => exact hmarked _ text p
  | unexpectedCharacter c p =>
    have hfront : "unexpected character '".toList = "unexpected character ".toList ++ ['\x27'] :=
      by decide
    show ("unexpected character " ++ Text.quoteChar c ++ " at " ++ p.text).toList
      = "unexpected character '".toList ++ marked '\x27' (Text.escape '\x27' c) p
    simp only [hfront, marked, Text.quoteChar, Text.quoteWith, String.toList_append,
      String.toList_ofList, List.flatMap_singleton, List.append_assoc, List.cons_append,
      List.nil_append]

/-- The first twelve characters of a message tell what kind of error it is of. -/
theorem kind_eq_of_message {e e' : LexicalError} (h : e.message = e'.message) :
    e.kind = e'.kind := by
  have hlong : ∀ i, 12 ≤ (opening i).toList.length := by decide
  have hapart : ∀ i j, (opening i).toList.take 12 = (opening j).toList.take 12 → i = j := by decide
  apply hapart
  rw [← List.take_append_of_le_length (hlong e.kind), ← toList_message, h, toList_message,
    List.take_append_of_le_length (hlong e'.kind)]

theorem marked_inj {mark : Char} {text text' : List Char} {p q : Position}
    (hmark : mark = '\x27' ∨ mark = '`') (h : marked mark text p = marked mark text' q) :
    text = text' ∧ p = q := by
  have hbehind : ∀ p : Position, mark ∉ " at ".toList ++ p.text.toList := by
    intro p
    rw [List.mem_append, not_or]
    rcases hmark with rfl | rfl
    · exact ⟨by decide, Position.notMem_text (by decide) (by decide) p⟩
    · exact ⟨by decide, Position.notMem_text (by decide) (by decide) p⟩
  obtain ⟨hfront, hback⟩ := cut_last (hbehind p) (hbehind q) h
  exact ⟨hfront, Position.text_inj (String.toList_inj.1 (List.append_cancel_left hback))⟩

/-- **Different errors have different messages**, but for the words of failed reads. -/
theorem message_inj {e e' : LexicalError} (he : ∀ kind message, e ≠ .readFailed kind message)
    (h : e.message = e'.message) : e = e' := by
  have hkind := kind_eq_of_message h
  have hdetails : e.details = e'.details := by
    have hlist := congrArg String.toList h
    rw [toList_message, toList_message, hkind] at hlist
    exact List.append_cancel_left hlist
  cases e <;> cases e' <;> try cases hkind
  case endOfInput.endOfInput => rw [Position.text_inj (String.toList_inj.1 hdetails)]
  case unexpectedCharacter.unexpectedCharacter =>
    obtain ⟨hescape, rfl⟩ := marked_inj (.inl rfl) hdetails
    rw [(Text.escape_append_inj (.inr rfl) (congrArg (· ++ []) hescape)).1]
  case unknownToken.unknownToken =>
    obtain ⟨htext, rfl⟩ := marked_inj (.inr rfl) hdetails
    rw [String.toList_inj.1 htext]
  case malformedNumber.malformedNumber =>
    obtain ⟨htext, rfl⟩ := marked_inj (.inr rfl) hdetails
    rw [String.toList_inj.1 htext]
  case unterminatedString.unterminatedString =>
    rw [Position.text_inj (String.toList_inj.1 hdetails)]
  case readFailed.readFailed => exact absurd rfl (he _ _)

end LexicalError

end BasicTokens
