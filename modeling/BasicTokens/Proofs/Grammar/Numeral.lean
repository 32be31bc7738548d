import BasicTokens.Proofs.Grammar.Literal
import BasicTokens.Proofs.Number.Exact
import Mathlib.Data.Nat.Digits.Defs

/-!
# Numerals

A numeral at a break is read as a whole, however long it is: a call gives its value or refuses it,
and what stands behind it is left unread (`IsReadAs`). Which of the two depends on the number in
base ten alone (`denoted`), and not on leading zeros or on where the point stands.

So digits are read up to the greatest integer of 64 bits with a sign, digits with a point up to
halfway from the greatest floating point number to `2 ^ 1024`, and what is itself a floating point
number is read as that number (`numeral_is_exact`).
-/

namespace BasicTokens

/-! ### Digits as bytes -/

def AreDigits (digits : List UInt8) : Prop :=
  ∀ b ∈ digits, 0x30 ≤ b.toNat ∧ b.toNat ≤ 0x39

instance (digits : List UInt8) : Decidable (AreDigits digits) :=
  List.decidableBAll (fun b : UInt8 => 0x30 ≤ b.toNat ∧ b.toNat ≤ 0x39) digits

/-- The number that digits denote in base ten, the leading one first. -/
def denoted (digits : List UInt8) : Nat :=
  Nat.ofDigits 10 (digits.reverse.map fun b => b.toNat - 0x30)

theorem isDigit_of_areDigits {digits : List UInt8} (h : AreDigits digits) :
    ∀ c ∈ textOf digits, c.isDigit = true := by
  intro c hc
  obtain ⟨b, hb, rfl⟩ := List.mem_map.1 hc
  exact isDigit_iff.2 (h b hb)

theorem value_textOf (digits : List UInt8) : Numeral.value (textOf digits) = denoted digits := by
  rw [denoted, Nat.ofDigits_eq_foldr, List.foldr_map, List.foldr_reverse, Numeral.value, textOf,
    List.foldl_map]
  congr 1
  funext n b
  exact Nat.add_comm _ _

/-! ### Numerals at a break -/

theorem isNumeralOf_of_atBreak {run left : List Char} (h : IsNumeralRun run)
    (hbreak : AtBreak left) : IsNumeralOf run (run ++ left) := by
  refine isNumeralOf_iff.2 ⟨h, fun c hc hlonger => ?_⟩
  have hblank := hbreak c hc
  rw [isBlank_of_mem_numeralRun hlonger c (by simp)] at hblank
  cases hblank

/-- A call over a numeral and what stands behind it gives this, as a token as wide as the numeral or
as an error, and it moves past the numeral and no further. -/
structure IsReadAs (numeral rest : List UInt8) (result : Except LexicalError Lexeme) : Prop where
  result_eq : (Cursor.ofSource (numeral ++ rest)).token.1
    = result.map fun x => ⟨x, .start, ⟨1, 1 + numeral.length⟩⟩
  position_eq : (Cursor.ofSource (numeral ++ rest)).token.2.position = ⟨1, 1 + numeral.length⟩
  unread_eq : (Cursor.ofSource (numeral ++ rest)).token.2.unread = rest

variable {numeral rest : List UInt8}

theorem afterAll_numeral (h : IsNumeralRun (textOf numeral)) :
    Position.start.afterAll (textOf numeral) = ⟨1, 1 + numeral.length⟩ := by
  have hrow : ∀ c ∈ textOf numeral, isLineBreak c = false := fun c hc =>
    isLineBreak_of_not_isBlank (isBlank_of_mem_numeralRun h c hc)
  rw [Position.afterAll_of_row _ hrow, length_textOf]
  rfl

theorem isReadAs_of_answer {result : Except LexicalError Lexeme} (h : IsNumeralRun (textOf numeral))
    (hanswer : answer .quiet .start (textOf numeral ++ textOf rest)
      = ⟨result.map fun x => ⟨x, .start, Position.start.afterAll (textOf numeral)⟩,
        Position.start.afterAll (textOf numeral), textOf rest⟩) :
    IsReadAs numeral rest result := by
  rw [← textOf_append, afterAll_numeral h] at hanswer
  obtain ⟨hresult, hposition, hunread⟩ := Cursor.token_ofSource hanswer
  exact ⟨hresult, hposition, textOf_injective hunread⟩

theorem isReadAs_of_spells {x : Lexeme} (h : IsNumeralRun (textOf numeral))
    (hspells : Spells (textOf numeral) x) (hbreak : AtBreak (textOf rest)) :
    IsReadAs numeral rest (.ok x) :=
  isReadAs_of_answer h (answer_of_spells hspells (.inr hbreak) .start)

theorem isReadAs_of_outOfRange {b : UInt8} {more : List UInt8}
    (hfirst : (Char.ofUInt8 b).isDigit = true) (h : IsNumeralRun (textOf (b :: more)))
    (hrange : OutOfRange (textOf (b :: more))) (hbreak : AtBreak (textOf rest)) :
    IsReadAs (b :: more) rest
      (.error (.malformedNumber (String.ofList (textOf (b :: more))) .start)) :=
  isReadAs_of_answer h
    (answer_of_refused (.outOfRange hfirst (isNumeralOf_of_atBreak h hbreak) hbreak hrange))

/-! ### Digits -/

theorem isReadAs_digits {digits : List UInt8} (hne : digits ≠ []) (hdigits : AreDigits digits)
    (hbreak : AtBreak (textOf rest)) :
    (denoted digits ≤ 2 ^ 63 - 1 → ∃ n : Int64, n.toInt = denoted digits
        ∧ IsReadAs digits rest (.ok (.integer n)))
      ∧ (¬denoted digits ≤ 2 ^ 63 - 1 →
        IsReadAs digits rest (.error (.malformedNumber (String.ofList (textOf digits)) .start))) := by
  have hchars := isDigit_of_areDigits hdigits
  have hrun := isNumeralRun_of_isDigit hchars
  refine ⟨fun hle => ?_, fun hgt => ?_⟩
  · have hn : (Int64.ofNat (denoted digits)).toInt = denoted digits :=
      Int64.toInt_ofNat_of_lt (by omega)
    have hspells : Spells (textOf digits) (.integer (Int64.ofNat (denoted digits))) := by
      refine .integer ?_ hchars (by rw [hn, value_textOf])
      simpa [textOf] using hne
    exact ⟨_, hn, isReadAs_of_spells hrun hspells hbreak⟩
  · obtain ⟨b, more, rfl⟩ := List.exists_cons_of_ne_nil hne
    have hrange : OutOfRange (textOf (b :: more)) := by
      have hmax : Int64.maxValue.toInt = 2 ^ 63 - 1 := by decide
      refine .integer hchars ?_
      rw [hmax, value_textOf]
      omega
    exact isReadAs_of_outOfRange (hchars _ List.mem_cons_self) hrun hrange hbreak

/-! ### Digits with a point -/

variable {whole places : List UInt8}

theorem textOf_point (whole places : List UInt8) :
    textOf (whole ++ 0x2E :: places) = textOf whole ++ '.' :: textOf places := by
  rw [textOf_append, textOf_cons]
  rfl

theorem isNumeralRun_point (hwhole : AreDigits whole) (hplaces : AreDigits places) :
    IsNumeralRun (textOf (whole ++ 0x2E :: places)) := by
  rw [textOf_point]
  exact isNumeralRun_of_point (isDigit_of_areDigits hwhole) (isDigit_of_areDigits hplaces)

/-- What a numeral with a point is rounded to, if it is in range. -/
def rounded? (whole places : List UInt8) : Option Binary64 :=
  Binary64.ofRatio? (denoted (whole ++ places)) (10 ^ places.length)

theorem ofRatio?_textOf (whole places : List UInt8) :
    Binary64.ofRatio? (Numeral.value (textOf whole ++ textOf places))
      (Nat.pow 10 (textOf places).length) = rounded? whole places := by
  rw [← textOf_append, value_textOf, length_textOf]
  rfl

theorem isReadAs_of_rounded {x : Binary64} (hne : whole ≠ []) (hwhole : AreDigits whole)
    (hplaces : AreDigits places) (hbreak : AtBreak (textOf rest))
    (hx : rounded? whole places = some x) :
    IsReadAs (whole ++ 0x2E :: places) rest (.ok (.float x)) := by
  have hspells : Spells (textOf (whole ++ 0x2E :: places)) (.float x) := by
    rw [textOf_point]
    refine .float ?_ (isDigit_of_areDigits hwhole) (isDigit_of_areDigits hplaces) ?_
    · simpa [textOf] using hne
    · rw [ofRatio?_textOf, hx]
  exact isReadAs_of_spells (isNumeralRun_point hwhole hplaces) hspells hbreak

theorem isReadAs_of_not_rounded (hne : whole ≠ []) (hwhole : AreDigits whole)
    (hplaces : AreDigits places) (hbreak : AtBreak (textOf rest))
    (hnone : rounded? whole places = none) :
    IsReadAs (whole ++ 0x2E :: places) rest
      (.error (.malformedNumber (String.ofList (textOf (whole ++ 0x2E :: places))) .start)) := by
  obtain ⟨b, more, rfl⟩ := List.exists_cons_of_ne_nil hne
  have hrange : OutOfRange (textOf (b :: more ++ 0x2E :: places)) := by
    rw [textOf_point]
    refine .float (isDigit_of_areDigits hwhole) (isDigit_of_areDigits hplaces) ?_
    rw [ofRatio?_textOf, hnone]
  exact isReadAs_of_outOfRange (isDigit_of_areDigits hwhole _ List.mem_cons_self)
    (isNumeralRun_point hwhole hplaces) hrange hbreak

theorem IsReadAs.unique {result result' : Except LexicalError Lexeme}
    (h : IsReadAs numeral rest result) (h' : IsReadAs numeral rest result') : result = result' := by
  have heq := h.result_eq.symm.trans h'.result_eq
  cases result <;> cases result' <;> simp_all [Except.map]

theorem rounded?_of_isReadAs {x : Binary64} (hne : whole ≠ []) (hwhole : AreDigits whole)
    (hplaces : AreDigits places) (hbreak : AtBreak (textOf rest))
    (hx : IsReadAs (whole ++ 0x2E :: places) rest (.ok (.float x))) :
    rounded? whole places = some x := by
  cases hrounded : rounded? whole places with
  | none =>
    have hrefused := isReadAs_of_not_rounded hne hwhole hplaces hbreak hrounded
    cases hx.unique hrefused
  | some y =>
    have hy := isReadAs_of_rounded hne hwhole hplaces hbreak hrounded
    cases hx.unique hy
    rfl

theorem cast_places (places : List UInt8) :
    ((10 ^ places.length : Nat) : ℚ) = 10 ^ places.length := by
  rw [Nat.cast_pow, Nat.cast_ofNat]

theorem exists_rounded?_iff (whole places : List UInt8) :
    (∃ x, rounded? whole places = some x)
      ↔ (denoted (whole ++ places) / 10 ^ places.length : ℚ) < 2 ^ 1024 - 2 ^ 970 := by
  rw [← cast_places]
  exact Binary64.exists_ofRatio?_iff (Nat.pow_pos (by decide))

theorem value_of_rounded? {x : Binary64} {significand : Nat} {exponent : Int}
    (hx : rounded? whole places = some x) (hsignificand : significand < 2 ^ 53)
    (hleast : -1074 ≤ exponent) (hgreatest : exponent ≤ 971)
    (h : (denoted (whole ++ places) / 10 ^ places.length : ℚ) = significand * 2 ^ exponent) :
    x.value = denoted (whole ++ places) / 10 ^ places.length := by
  rw [← cast_places] at h ⊢
  exact Binary64.value_of_ofRatio? (Nat.pow_pos (by decide)) hx hsignificand hleast hgreatest h

/-- **Numerals at a break are exact, however long they are.** Digits are read as the integer that
they denote in base ten, or refused when it does not fit 64 bits with a sign. Digits with a point
are read as a floating point number exactly if what they denote is below halfway from the greatest
one to `2 ^ 1024`, and refused otherwise; and if it is a significand of up to 53 bits at the scale of
some floating point number, it is that number. What is refused is refused with its whole text. In
all cases the span is as wide as the numeral, and what stands behind it is left unread. -/
theorem numeral_is_exact :
    (∀ digits rest : List UInt8, digits ≠ [] → AreDigits digits → AtBreak (textOf rest) →
      (denoted digits ≤ 2 ^ 63 - 1 → ∃ n : Int64, n.toInt = denoted digits
          ∧ IsReadAs digits rest (.ok (.integer n)))
        ∧ (¬denoted digits ≤ 2 ^ 63 - 1 →
          IsReadAs digits rest
            (.error (.malformedNumber (String.ofList (textOf digits)) .start)))) ∧
    ∀ whole places rest : List UInt8, whole ≠ [] → AreDigits whole → AreDigits places →
      AtBreak (textOf rest) →
      let numeral := whole ++ 0x2E :: places
      let quotient : ℚ := denoted (whole ++ places) / 10 ^ places.length
      ((∃ x, IsReadAs numeral rest (.ok (.float x))) ↔ quotient < 2 ^ 1024 - 2 ^ 970)
        ∧ (¬quotient < 2 ^ 1024 - 2 ^ 970 →
          IsReadAs numeral rest
            (.error (.malformedNumber (String.ofList (textOf numeral)) .start)))
        ∧ ∀ x, IsReadAs numeral rest (.ok (.float x)) →
          x.isFinite = true ∧ x.isNegative = false
            ∧ ∀ (significand : Nat) (exponent : Int), significand < 2 ^ 53 → -1074 ≤ exponent →
              exponent ≤ 971 → quotient = significand * 2 ^ exponent → x.value = quotient := by
  refine ⟨fun digits rest hne hdigits hbreak => isReadAs_digits hne hdigits hbreak, ?_⟩
  intro whole places rest hne hwhole hplaces hbreak numeral quotient
  have hrange : (∃ x, rounded? whole places = some x) ↔ quotient < 2 ^ 1024 - 2 ^ 970 :=
    exists_rounded?_iff whole places
  have hread : ∀ x, IsReadAs numeral rest (.ok (.float x)) ↔ rounded? whole places = some x :=
    fun x => ⟨rounded?_of_isReadAs hne hwhole hplaces hbreak,
      isReadAs_of_rounded hne hwhole hplaces hbreak⟩
  refine ⟨?_, ?_, ?_⟩
  · rw [← hrange]
    exact exists_congr hread
  · intro hbeyond
    rw [← hrange, ← Option.ne_none_iff_exists', not_not] at hbeyond
    exact isReadAs_of_not_rounded hne hwhole hplaces hbreak hbeyond
  · intro x hx
    have hrounded := (hread x).1 hx
    obtain ⟨hfinite, hsign⟩ := Binary64.isFinite_of_ofRatio? hrounded
    refine ⟨hfinite, hsign, ?_⟩
    intro significand exponent hsignificand hleast hgreatest heq
    exact value_of_rounded? hrounded hsignificand hleast hgreatest heq

/-- Leading zeros before a blank, the least integer that does not fit, a numeral with a fraction
that is a floating point number, and digits beyond all of them with nothing behind their point. -/
theorem numeral_is_exact_at_limits :
    (∃ n : Int64, n.toInt = 7 ∧ IsReadAs [0x30, 0x30, 0x37] [0x20, 0x21] (.ok (.integer n))) ∧
    IsReadAs (String.toUTF8 "9223372036854775808").data.toList []
      (.error (.malformedNumber "9223372036854775808" .start)) ∧
    (∃ x, IsReadAs [0x37, 0x2E, 0x35] [0x0A] (.ok (.float x)) ∧ x.value = 15 / 2) ∧
    IsReadAs (List.replicate 309 0x39 ++ [0x2E]) []
      (.error (.malformedNumber (String.ofList (List.replicate 309 '9' ++ ['.'])) .start)) := by
  obtain ⟨n, hseven, hn⟩ := (numeral_is_exact.1 [0x30, 0x30, 0x37] [0x20, 0x21] (by decide)
    (by decide) (fun c hc => by cases hc; decide)).1 (by decide +kernel)
  have hrefused := (numeral_is_exact.1 (String.toUTF8 "9223372036854775808").data.toList []
    (by decide +kernel) (by decide +kernel) atBreak_nil).2 (by decide +kernel)
  have htext : String.ofList (textOf (String.toUTF8 "9223372036854775808").data.toList)
      = "9223372036854775808" := by
    decide +kernel
  rw [htext] at hrefused
  obtain ⟨hread, -, hexact⟩ := numeral_is_exact.2 [0x37] [0x35] [0x0A] (by decide) (by decide)
    (by decide) (fun c hc => by cases hc; decide)
  have hhalves : (denoted ([0x37] ++ [0x35]) : ℚ) / 10 ^ [(0x35 : UInt8)].length = 15 / 2 := by
    have hdenoted : denoted ([0x37] ++ [0x35]) = 75 := by decide +kernel
    rw [hdenoted]
    norm_num
  rw [hhalves, ← Binary64.cast_limit] at hread
  rw [hhalves] at hexact
  have hbelow : (15 / 2 : ℚ) < (2 ^ 1024 - 2 ^ 970 : Nat) :=
    lt_of_lt_of_le (by norm_num : (15 / 2 : ℚ) < (8 : Nat)) (Nat.cast_le.2 (by decide +kernel))
  obtain ⟨x, hx⟩ := hread.2 hbelow
  have hvalue := (hexact x hx).2.2 15 (-1) (by decide) (by decide) (by decide) (by norm_num)
  have hnines : AreDigits (List.replicate 309 0x39) := by
    intro b hb
    rw [List.eq_of_mem_replicate hb]
    decide
  obtain ⟨-, hbeyond, -⟩ := numeral_is_exact.2 (List.replicate 309 0x39) [] [] (by decide +kernel)
    hnines (by decide) atBreak_nil
  rw [List.length_nil, pow_zero, div_one, ← Binary64.cast_limit, Nat.cast_lt] at hbeyond
  have htext' : textOf (List.replicate 309 0x39 ++ [0x2E]) = List.replicate 309 '9' ++ ['.'] := by
    decide +kernel
  rw [htext'] at hbeyond
  exact ⟨⟨n, hseven, hn⟩, hrefused, ⟨x, hx, hvalue⟩, hbeyond (by decide +kernel)⟩

end BasicTokens
