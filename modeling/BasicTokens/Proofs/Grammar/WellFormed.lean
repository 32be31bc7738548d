import BasicTokens.Proofs.Grammar.Display
import BasicTokens.Proofs.Grammar.Token
import BasicTokens.Proofs.Scan.Decided
import Mathlib.Data.Nat.Digits.Defs

/-!
# Tokens are well formed

Nothing is assumed of the source: it may report what it did not write, come back empty and go on,
and fail at any time. Whatever it does, a token was read from what was moved past for it, and that
is blanks and a spelling (`exists_tokenAt_of_token?`). So a token is as well formed as its spelling
makes it. A text of bytes spells only what can be read at all (`isLexable_of_spells`), and what is
no string is spelled without a line end, so its span is as wide as its spelling.
-/

namespace BasicTokens

/-! ### What a spelling denotes -/

theorem Numeral.value_lt {digits : List Char} (h : ∀ c ∈ digits, c.isDigit = true) :
    value digits < 10 ^ digits.length := by
  induction digits with
  | nil => exact Nat.one_pos
  | cons c digits ih =>
    obtain ⟨hc, hdigits⟩ := List.forall_mem_cons.1 h
    have hrest := ih hdigits
    have hdigit : digitValue c ≤ 9 := by
      have hrange := isDigit_iff.1 hc
      show c.toNat - 0x30 ≤ 9
      omega
    have hsingle : value [c] = digitValue c := by simp [value]
    calc value (c :: digits)
        = 10 ^ digits.length * digitValue c + value digits := by
          rw [← hsingle]
          exact value_append [c] digits
      _ < 10 ^ digits.length * digitValue c + 10 ^ digits.length := by omega
      _ = 10 ^ digits.length * (digitValue c + 1) := by rw [Nat.mul_succ]
      _ ≤ 10 ^ digits.length * 10 := Nat.mul_le_mul_left _ (by omega)
      _ = 10 ^ (c :: digits).length := by rw [List.length_cons, Nat.pow_succ]

theorem length_toString_le {digits : List Char} {n : Int64} (hne : digits ≠ [])
    (hdigits : ∀ c ∈ digits, c.isDigit = true) (hn : n.toInt = Numeral.value digits) :
    (toString n.toInt).length ≤ digits.length := by
  have htext : (toString n.toInt).length = (Nat.toDigits 10 (Numeral.value digits)).length := by
    rw [hn]
    change (toString (Numeral.value digits)).length = _
    rw [Nat.toString_eq_ofList_toDigits, String.length_ofList]
  rw [htext, Nat.length_toDigits_le_iff (by decide) (List.length_pos_iff.2 hne)]
  exact Numeral.value_lt hdigits

theorem Binary64.isFinite_of_ofRatio? {num den : Nat} {x : Binary64}
    (h : ofRatio? num den = some x) : x.isFinite = true ∧ x.isNegative = false := by
  rw [ofRatio?] at h
  split at h
  · rename_i hlt
    cases h
    refine ⟨decide_eq_true ?_, isNegative_ofNat hlt⟩
    rwa [magnitude_ofNat hlt]
  · cases h

theorem toNat_le_of_encodes {body value : List Char} (h : Encodes body value)
    (hbody : ∀ c ∈ body, c.toNat ≤ 0xFF) : ∀ c ∈ value, c.toNat ≤ 0xFF := by
  induction h with
  | nil => exact hbody
  | raw _ _ _ ih =>
    obtain ⟨hc, hrest⟩ := List.forall_mem_cons.1 hbody
    exact List.forall_mem_cons.2 ⟨hc, ih hrest⟩
  | @escaped c d body value hescape _ ih =>
    obtain ⟨-, hrest⟩ := List.forall_mem_cons.1 (List.forall_mem_cons.1 hbody).2
    have hd : ∀ pair ∈ escapes, pair.2.toNat ≤ 0xFF := by decide
    exact List.forall_mem_cons.2 ⟨hd _ hescape, ih hrest⟩

/-- **A text of bytes spells only what can be read at all.** -/
theorem isLexable_of_spells {text : List Char} {x : Lexeme} (h : Spells text x)
    (htext : ∀ c ∈ text, c.toNat ≤ 0xFF) : x.IsLexable := by
  cases h with
  | integer _ _ hn =>
    show 0 ≤ _
    rw [hn]
    exact Int.natCast_nonneg _
  | float _ _ _ hx => exact Binary64.isFinite_of_ofRatio? hx
  | keyword => trivial
  | @identifier first more hfirst hmore hword =>
    refine ⟨⟨first, more, String.toList_ofList, hfirst, hmore⟩, ?_⟩
    rwa [String.toList_ofList]
  | operator => trivial
  | string hbody =>
    show ∀ c ∈ (String.ofList _).toList, c.toNat ≤ 0xFF
    rw [String.toList_ofList]
    apply toNat_le_of_encodes hbody
    intro c hc
    exact htext c (List.mem_cons_of_mem _ (List.mem_append_left _ hc))

/-! ### How wide a spelling is -/

theorem isLineBreak_of_not_isBlank {c : Char} (h : isBlank c = false) : isLineBreak c = false := by
  rw [Bool.eq_false_iff]
  intro hbreak
  rw [isBlank_of_isLineBreak hbreak] at h
  cases h

theorem isBlank_of_mem_numeralRun {text : List Char} (h : IsNumeralRun text) :
    ∀ c ∈ text, isBlank c = false := by
  intro c hc
  rcases h.chars c hc with hdigit | rfl
  · exact isBlank_of_isDigit hdigit
  · decide

theorem isBlank_of_mem_spelling {text : List Char} {x : Lexeme} (h : Spells text x)
    (hstring : x.isString = false) : ∀ c ∈ text, isBlank c = false := by
  cases h with
  | integer _ hdigits => exact isBlank_of_mem_numeralRun (isNumeralRun_of_isDigit hdigits)
  | float _ hwhole hplaces =>
    exact isBlank_of_mem_numeralRun (isNumeralRun_of_point hwhole hplaces)
  | keyword hfirst hmore =>
    exact fun c hc => isBlank_of_isAlphanum (isAlphanum_of_mem_word hfirst hmore c hc)
  | identifier hfirst hmore =>
    exact fun c hc => isBlank_of_isAlphanum (isAlphanum_of_mem_word hfirst hmore c hc)
  | operator sign =>
    have hall : (sign.spelling.toList.all fun c => !isBlank c) = true := by
      cases sign <;> decide
    simpa using hall
  | string => cases hstring

/-- What the width of a span says about the lexeme in it. -/
def Lexeme.FitsWidth (width : Nat) : Lexeme → Prop
  | .integer n => (toString n.toInt).length ≤ width
  | .identifier name => name.length = width
  | .keyword word => word.spelling.length = width
  | .operator sign => sign.spelling.length = width
  | .float _ | .string _ => True

theorem fitsWidth_of_spells {text : List Char} {x : Lexeme} (h : Spells text x) :
    x.FitsWidth text.length := by
  cases h with
  | integer hne hdigits hn => exact length_toString_le hne hdigits hn
  | float => trivial
  | @keyword first more word _ _ hword =>
    show word.spelling.length = _
    rw [← String.length_toList, ← hword, List.length_map]
  | identifier => exact String.length_ofList
  | operator sign => exact String.length_toList.symm
  | string => trivial

namespace Position

theorem le_afterAll (p : Position) (text : List Char) : p ≤ p.afterAll text := by
  cases text with
  | nil => exact .inr ⟨rfl, Nat.le_refl _⟩
  | cons c text =>
    have hlt := lt_afterAll p (List.cons_ne_nil c text)
    rw [lt_def] at hlt
    rw [le_def]
    omega

theorem afterAll_of_row (p : Position) {text : List Char}
    (h : ∀ c ∈ text, isLineBreak c = false) :
    p.afterAll text = ⟨p.row, p.column + text.length⟩ := by
  induction text generalizing p with
  | nil => rfl
  | cons c text ih =>
    obtain ⟨hc, htext⟩ := List.forall_mem_cons.1 h
    have hafter : p.after c = ⟨p.row, p.column + 1⟩ := by rw [after, hc]; rfl
    rw [afterAll_cons, ih _ htext, hafter, List.length_cons, Nat.add_right_comm]
    rfl

end Position

/-! ### Tokens of an arbitrary source -/

/-- A token with the cursors before and behind the call that gave it. What was moved past is blanks
and then a spelling of its lexeme, and its span is that of the spelling. -/
structure Token.IsReadBetween {σ : Type} (t : Token) (c d : Cursor (Recorded σ)) : Prop where
  isLexable : t.lexeme.IsLexable
  first_lt_behind : t.first < t.behind
  position_le_first : c.position ≤ t.first
  behind_eq : t.behind = d.position
  span : ∃ gap spelling, c.Passes (gap ++ spelling) d ∧ (∀ ch ∈ gap, isBlank ch = true) ∧
    Spells spelling t.lexeme ∧
    (t.lexeme.isString = false →
      t.behind = ⟨t.first.row, t.first.column + spelling.length⟩ ∧
        t.lexeme.FitsWidth spelling.length)

namespace Cursor

variable {σ : Type}

theorem Passes.toNat_le {c d : Cursor (Recorded σ)} {taken : List Char} (h : c.Passes taken d) :
    ∀ ch ∈ taken, ch.toNat ≤ 0xFF := by
  obtain ⟨got, -, hahead⟩ := h.ahead
  intro ch hch
  have hmem : ch ∈ textOf (c.buffered ++ got) := by
    rw [hahead]
    exact List.mem_append_left _ hch
  obtain ⟨b, -, rfl⟩ := List.mem_map.1 hmem
  have hlt := b.toNat_lt
  rw [toNat_ofUInt8]
  omega

variable [Source σ] {c d : Cursor (Recorded σ)}

theorem isReadBetween_of_token? {limit : Nat} {t : Token} (hlen : c.len ≤ capacity)
    (htoken : c.token? limit = some (.ok t, d)) : t.IsReadBetween c d := by
  obtain ⟨hposition, gap, spelling, rest, hpasses, hat⟩ := exists_tokenAt_of_token? hlen htoken
  have hne : spelling ≠ [] := by
    obtain ⟨first, more, rfl, -⟩ := hat.spells.exists_head
    exact List.cons_ne_nil first more
  refine ⟨isLexable_of_spells hat.spells ?_, ?_, ?_, hposition.symm, gap, spelling, hpasses,
    hat.blanks, hat.spells, ?_⟩
  · exact fun ch hch => hpasses.toNat_le ch (List.mem_append_right gap hch)
  · rw [hat.behind]
    exact t.first.lt_afterAll hne
  · rw [hat.first]
    exact c.position.le_afterAll gap
  · intro hstring
    have hrow : ∀ ch ∈ spelling, isLineBreak ch = false := fun ch hch =>
      isLineBreak_of_not_isBlank (isBlank_of_mem_spelling hat.spells hstring ch hch)
    rw [hat.behind, t.first.afterAll_of_row hrow]
    exact ⟨rfl, fitsWidth_of_spells hat.spells⟩

end Cursor

/-- **Every token is well formed, whatever the source does and whatever was asked before.** -/
theorem isReadBetween_of_run? {σ : Type} [Source σ] (s : σ) (limit : Nat) (requests : List Request)
    (l : Listing (Recorded σ))
    (hrun : (Listing.mk (.ofSource (Recorded.mk s [])) false).run? limit requests = some l)
    (limit' : Nat) (t : Token) :
    (∀ d, l.cursor.token? limit' = some (.ok t, d) → t.IsReadBetween l.cursor d) ∧
      ∀ m, l.poll? limit' = some (some (.ok t), m) → t.IsReadBetween l.cursor m.cursor := by
  have hlen := Listing.len_le_of_run? hrun
  refine ⟨?_, ?_⟩
  · intro d htoken
    exact Cursor.isReadBetween_of_token? hlen htoken
  · intro m hpoll
    cases Listing.polled_of_poll? hpoll with
    | token _ htoken => exact Cursor.isReadBetween_of_token? hlen htoken

/-- A source that fails, gives two blanks and then reports two bytes where it wrote one, so that a
blank that was there before ends the word. -/
theorem isReadBetween_of_stale_blank :
    ∃ (l : Listing (Recorded Announced)) (d : Cursor (Recorded Announced)),
      (Listing.mk (.ofSource (Recorded.mk (Announced.mk ⟨[.failure ⟨.other, none⟩,
          .data [0x20, 0x20] none, .data [0x69] (some 2), .data [0x66] none]⟩ [true] 0) []))
          false).run? 9 [.token, .operation .peek] = some l ∧
      l.cursor.token? 9 = some (.ok ⟨.identifier "i", ⟨1, 3⟩, ⟨1, 4⟩⟩, d) ∧
      Token.IsReadBetween ⟨.identifier "i", ⟨1, 3⟩, ⟨1, 4⟩⟩ l.cursor d := by
  have hread : (((Listing.mk (.ofSource (Recorded.mk (Announced.mk ⟨[.failure ⟨.other, none⟩,
        .data [0x20, 0x20] none, .data [0x69] (some 2), .data [0x66] none]⟩ [true] 0) []))
        false).run? 9 [.token, .operation .peek]).bind fun l => l.cursor.token? 9).map Prod.fst
      = some (.ok ⟨.identifier "i", ⟨1, 3⟩, ⟨1, 4⟩⟩) := by
    decide +kernel
  obtain ⟨⟨_, d⟩, hbind, rfl⟩ := Option.map_eq_some_iff.1 hread
  obtain ⟨l, hrun, htoken⟩ := Option.bind_eq_some_iff.1 hbind
  exact ⟨l, d, hrun, htoken, (isReadBetween_of_run? _ 9 _ l hrun 9 _).1 d htoken⟩

end BasicTokens
