import BasicTokens.Proofs.Grammar.Token

/-!
# What is shown fits one line

Tokens and errors are shown one line each, so none of their texts may hold a line feed, whatever was
read. A string or a single character is shown with its line feeds escaped. What is shown as it was
read is a word, a numeral or a run of signs, and no blank can be part of one of these.

The words of a failed read come from outside, and nothing is said about them.
-/

namespace BasicTokens

def IsOneLine (text : String) : Prop :=
  '\n' ∉ text.toList

instance (text : String) : Decidable (IsOneLine text) :=
  inferInstanceAs (Decidable ('\n' ∉ text.toList))

@[simp] theorem isOneLine_append {text more : String} :
    IsOneLine (text ++ more) ↔ IsOneLine text ∧ IsOneLine more := by
  simp [IsOneLine]

@[simp] theorem isOneLine_ofList {text : List Char} :
    IsOneLine (String.ofList text) ↔ '\n' ∉ text := by
  rw [IsOneLine, String.toList_ofList]

/-! ### Numbers -/

/-- Only the characters of digits occur in a number. -/
theorem notMem_toDigits {b : Nat} (hb : 1 < b) {c : Char} (hc : ∀ k : Nat, c ≠ k.digitChar)
    (n : Nat) : c ∉ Nat.toDigits b n := by
  induction n using Nat.strongRecOn with
  | ind n ih =>
    rw [Nat.toDigits_eq_if hb]
    split
    · simp [hc]
    · rename_i hle
      have hlt : n / b < n := Nat.div_lt_self (by omega) hb
      simp [hc, ih _ hlt]

theorem newline_notMem_toDigits {b : Nat} (hb : 1 < b) (n : Nat) : '\n' ∉ Nat.toDigits b n :=
  notMem_toDigits hb (fun _ => (Nat.digitChar_ne '\n' (by decide)).symm) n

theorem isOneLine_toString (n : Nat) : IsOneLine (toString n) := by
  rw [Nat.toString_eq_ofList_toDigits, isOneLine_ofList]
  exact newline_notMem_toDigits (by decide) n

/-- An integer is shown with its digits, behind a sign if it is negative. -/
theorem toList_toString_int (n : Int) :
    (toString n).toList = (if n < 0 then ['-'] else []) ++ Nat.toDigits 10 n.natAbs := by
  rw [Int.toString_eq_repr, Int.repr_eq_if]
  split
  · have habs : n.toNat = n.natAbs := by omega
    rw [if_neg (by omega), Nat.toList_repr, habs, List.nil_append]
  · have habs : (-n).toNat = n.natAbs := by omega
    rw [if_pos (by omega), String.toList_append, Nat.toList_repr, habs]
    rfl

theorem isOneLine_toString_int (n : Int) : IsOneLine (toString n) := by
  rw [IsOneLine, toList_toString_int]
  split <;> simp [newline_notMem_toDigits]

theorem isOneLine_position (p : Position) : IsOneLine p.text := by
  rw [Position.text, isOneLine_append, isOneLine_append]
  exact ⟨⟨isOneLine_toString _, by decide⟩, isOneLine_toString _⟩

theorem Decimal.newline_notMem_layOut (d : Decimal) : '\n' ∉ d.layOut := by
  have hdigits : '\n' ∉ d.digitChars := newline_notMem_toDigits (by decide) _
  have hzeros : ∀ n, '\n' ∉ List.replicate n '0' := by
    intro n hmem
    exact absurd (List.eq_of_mem_replicate hmem) (by decide)
  unfold layOut
  split
  · simp only [positional]
    split
    · simp [hdigits, hzeros]
    · split
      · have htake : ∀ n, '\n' ∉ d.digitChars.take n := fun _ => mt List.mem_of_mem_take hdigits
        have hdrop : ∀ n, '\n' ∉ d.digitChars.drop n := fun _ => mt List.mem_of_mem_drop hdigits
        simp [htake, hdrop]
      · simp [hdigits, hzeros]
  · have hpower : '\n' ∉ 'e' :: (toString d.leadingExponent).toList := by
      rw [List.mem_cons, not_or]
      exact ⟨by decide, isOneLine_toString_int _⟩
    unfold scientific
    split
    · rename_i hcases
      rw [hcases] at hdigits
      simp_all
    · simp_all

theorem isOneLine_binary64 (x : Binary64) : IsOneLine x.text := by
  have hmagnitude : '\n' ∉ x.magnitudeText := by
    unfold Binary64.magnitudeText
    split
    · decide
    · split
      · decide
      · exact Decimal.newline_notMem_layOut _
  unfold Binary64.text
  split
  · decide
  · split
    · rw [isOneLine_ofList, List.mem_cons, not_or]
      exact ⟨by decide, hmagnitude⟩
    · rwa [isOneLine_ofList]

/-! ### Quoted text -/

theorem Text.newline_notMem_escape {mark : Char} (hmark : mark ≠ '\n') (c : Char) :
    '\n' ∉ escape mark c := by
  unfold escape
  split
  · rename_i hc
    rcases hc with rfl | rfl <;> simp [hmark.symm]
  split
  · decide
  rename_i hnewline
  split
  · decide
  split
  · decide
  split
  · decide
  split
  · simp [byNumber, newline_notMem_toDigits]
  · simpa using Ne.symm hnewline

theorem Text.newline_notMem_quoteWith {mark : Char} (hmark : mark ≠ '\n') (cs : List Char) :
    '\n' ∉ quoteWith mark cs := by
  simp [quoteWith, hmark.symm, newline_notMem_escape hmark]

theorem isOneLine_quote (s : String) : IsOneLine (Text.quote s) := by
  rw [Text.quote, isOneLine_ofList]
  exact Text.newline_notMem_quoteWith (by decide) _

theorem isOneLine_quoteChar (c : Char) : IsOneLine (Text.quoteChar c) := by
  rw [Text.quoteChar, isOneLine_ofList]
  exact Text.newline_notMem_quoteWith (by decide) _

/-! ### Tokens and errors -/

theorem newline_notMem_of_not_isBlank {text : List Char} (h : ∀ c ∈ text, isBlank c = false) :
    '\n' ∉ text := by
  intro hmem
  cases h _ hmem

theorem isOneLine_of_spells {spelling : List Char} {x : Lexeme} (h : Spells spelling x) :
    IsOneLine x.text := by
  cases h with
  | integer => exact isOneLine_toString_int _
  | float => exact isOneLine_binary64 _
  | @keyword _ _ word => cases word <;> decide
  | identifier hfirst hmore =>
    exact isOneLine_ofList.2 (newline_notMem_of_not_isBlank fun c hc =>
      isBlank_of_isAlphanum (isAlphanum_of_mem_word hfirst hmore c hc))
  | operator sign => cases sign <;> decide
  | string => exact isOneLine_quote _

theorem isOneLine_of_tokenAt {here : Position} {text gap spelling rest : List Char} {t : Token}
    (h : TokenAt here text t gap spelling rest) : IsOneLine t.text := by
  have hat : IsOneLine " @ " := by decide
  have hdash : IsOneLine "-" := by decide
  simp only [Token.text, isOneLine_append]
  exact ⟨⟨⟨⟨isOneLine_of_spells h.spells, hat⟩, isOneLine_position _⟩, hdash⟩, isOneLine_position _⟩

theorem isOneLine_of_refused {here : Position} {taken left : List Char} {e : LexicalError}
    (h : Refused here taken left e) : IsOneLine e.message := by
  have hunexpected : ∀ c (p : Position),
      IsOneLine ("unexpected character " ++ Text.quoteChar c ++ " at " ++ p.text) := by
    intro c p
    rw [isOneLine_append, isOneLine_append, isOneLine_append]
    exact ⟨⟨⟨by decide, isOneLine_quoteChar c⟩, by decide⟩, isOneLine_position p⟩
  have hunterminated : ∀ p : Position,
      IsOneLine ("unterminated string starting at " ++ p.text) := by
    intro p
    rw [isOneLine_append]
    exact ⟨by decide, isOneLine_position p⟩
  cases h with
  | gluedNumeral => exact hunexpected _ _
  | gluedWord => exact hunexpected _ _
  | badEscape => exact hunexpected _ _
  | unterminated => exact hunterminated _
  | unterminatedEscape => exact hunterminated _
  | @outOfRange first more left hfirst hrun =>
    have hnumeral : '\n' ∉ first :: more := newline_notMem_of_not_isBlank fun c hc => by
      rcases hrun.isRun.chars c hc with hdigit | rfl
      · exact isBlank_of_isDigit hdigit
      · decide
    change IsOneLine ("malformed number `" ++ String.ofList (first :: more) ++ "` at " ++ here.text)
    rw [isOneLine_append, isOneLine_append, isOneLine_append]
    exact ⟨⟨⟨by decide, isOneLine_ofList.2 hnumeral⟩, by decide⟩, isOneLine_position _⟩
  | @unknown first more left hfirst hmore =>
    have hsigns : '\n' ∉ first :: more := newline_notMem_of_not_isBlank fun c hc => by
      rcases List.mem_cons.1 hc with rfl | hc
      · exact hfirst.1
      · exact hmore c hc
    change IsOneLine ("unknown token `" ++ String.ofList (first :: more) ++ "` at " ++ here.text)
    rw [isOneLine_append, isOneLine_append, isOneLine_append]
    exact ⟨⟨⟨by decide, isOneLine_ofList.2 hsigns⟩, by decide⟩, isOneLine_position _⟩

end BasicTokens
