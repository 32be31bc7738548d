import BasicTokens.Proofs.Grammar.Refusal
import BasicTokens.Proofs.Number.Shortest

/-!
# What the text of a number reads as

A number whose point is in its place has a text of digits, a point and digits, and that text denotes
it (`Binary64.spells_text`). In the other layout the exponent is glued to a numeral
(`Binary64.exists_exponent`), which no text of a lexeme may be.
-/

namespace BasicTokens

/-! ### The value of digits -/

namespace Numeral

theorem value_append (digits more : List Char) :
    value (digits ++ more) = 10 ^ more.length * value digits + value more := by
  change Nat.ofDigitChars 10 (digits ++ more) 0 = _
  rw [Nat.ofDigitChars_append, Nat.ofDigitChars_eq_ofDigitChars_zero]
  rfl

theorem value_replicate_zero (n : Nat) : value (List.replicate n '0') = 0 := by
  change Nat.ofDigitChars 10 (List.replicate n '0') 0 = 0
  rw [Nat.ofDigitChars_replicate_zero, Nat.mul_zero]

theorem value_toDigits (n : Nat) : value (Nat.toDigits 10 n) = n :=
  Nat.ofDigitChars_ten_toDigits

theorem isDigit_of_mem_toDigits {n : Nat} {c : Char} (h : c ∈ Nat.toDigits 10 n) :
    c.isDigit = true :=
  Nat.isDigit_of_mem_toDigits (by decide) (by decide) h

theorem isDigit_of_mem_replicate_zero {n : Nat} {c : Char} (h : c ∈ List.replicate n '0') :
    c.isDigit = true := by
  rw [List.eq_of_mem_replicate h]
  decide

end Numeral

/-! ### The layouts -/

namespace Decimal

/-- A text of digits, a point and digits that denotes `d` points of a grid. Grids are counted from
the finest. -/
structure IsPlaced (text : List Char) (d g : Nat) (whole places : List Char) : Prop where
  text_eq : text = whole ++ '.' :: places
  whole_ne : whole ≠ []
  whole_digits : ∀ c ∈ whole, c.isDigit = true
  places_digits : ∀ c ∈ places, c.isDigit = true
  value : Numeral.value (whole ++ places) * 10 ^ finest = d * 10 ^ g * 10 ^ places.length

theorem isPlaced_whole (d e : Nat) :
    IsPlaced (Nat.toDigits 10 d ++ List.replicate e '0' ++ ['.', '0']) d (finest + e)
      (Nat.toDigits 10 d ++ List.replicate e '0') ['0'] where
  text_eq := rfl
  whole_ne := List.append_ne_nil_of_left_ne_nil Nat.toDigits_ne_nil _
  whole_digits c hc := by
    rcases List.mem_append.1 hc with hc | hc
    · exact Numeral.isDigit_of_mem_toDigits hc
    · exact Numeral.isDigit_of_mem_replicate_zero hc
  places_digits := by simp
  value := by
    have hzero : Numeral.value ['0'] = 0 := rfl
    rw [Numeral.value_append, Numeral.value_append, Numeral.value_replicate_zero,
      Numeral.value_toDigits, List.length_replicate, List.length_singleton, Nat.pow_add, hzero]
    ring

theorem isPlaced_inside {d g k : Nat} (hk : finest = g + k) (hlt : k < (Nat.toDigits 10 d).length) :
    IsPlaced ((Nat.toDigits 10 d).take ((Nat.toDigits 10 d).length - k)
        ++ '.' :: (Nat.toDigits 10 d).drop ((Nat.toDigits 10 d).length - k)) d g
      ((Nat.toDigits 10 d).take ((Nat.toDigits 10 d).length - k))
      ((Nat.toDigits 10 d).drop ((Nat.toDigits 10 d).length - k)) where
  text_eq := rfl
  whole_ne h := by
    rcases List.take_eq_nil_iff.1 h with h | h
    · omega
    · exact Nat.toDigits_ne_nil h
  whole_digits c hc := Numeral.isDigit_of_mem_toDigits (List.mem_of_mem_take hc)
  places_digits c hc := Numeral.isDigit_of_mem_toDigits (List.mem_of_mem_drop hc)
  value := by
    have hlength : (Nat.toDigits 10 d).length - ((Nat.toDigits 10 d).length - k) = k := by omega
    rw [List.take_append_drop, List.length_drop, hlength, Numeral.value_toDigits, hk, Nat.pow_add,
      Nat.mul_assoc]

theorem isPlaced_behind {d g k : Nat} (hk : finest = g + k) (hle : (Nat.toDigits 10 d).length ≤ k) :
    IsPlaced ('0' :: '.' :: (List.replicate (k - (Nat.toDigits 10 d).length) '0'
        ++ Nat.toDigits 10 d)) d g
      ['0'] (List.replicate (k - (Nat.toDigits 10 d).length) '0' ++ Nat.toDigits 10 d) where
  text_eq := rfl
  whole_ne := List.cons_ne_nil _ _
  whole_digits := by simp
  places_digits c hc := by
    rcases List.mem_append.1 hc with hc | hc
    · exact Numeral.isDigit_of_mem_replicate_zero hc
    · exact Numeral.isDigit_of_mem_toDigits hc
  value := by
    have hzero : Numeral.value ['0'] = 0 := rfl
    have hlength : (List.replicate (k - (Nat.toDigits 10 d).length) '0'
        ++ Nat.toDigits 10 d).length = k := by
      rw [List.length_append, List.length_replicate]
      omega
    rw [hlength, Numeral.value_append, Numeral.value_append, Numeral.value_replicate_zero, hzero,
      Numeral.value_toDigits, hk, Nat.pow_add, Nat.mul_zero, Nat.mul_zero, Nat.zero_add,
      Nat.zero_add, Nat.mul_assoc]

theorem exists_isPlaced (d g : Nat) :
    ∃ whole places, IsPlaced (positional ⟨d, (g : Int) - (finest : Int)⟩) d g whole places := by
  by_cases hexponent : (0 : Int) ≤ (g : Int) - (finest : Int)
  · obtain ⟨e, rfl⟩ : ∃ e, g = finest + e := ⟨g - finest, by omega⟩
    have htoNat : (((finest + e : Nat) : Int) - (finest : Int)).toNat = e := by omega
    simp only [positional, digitChars, if_pos hexponent, htoNat]
    exact ⟨_, _, isPlaced_whole d e⟩
  · obtain ⟨k, hk⟩ : ∃ k, finest = g + k := ⟨finest - g, by omega⟩
    have htoNat : (-((g : Int) - (finest : Int))).toNat = k := by omega
    simp only [positional, digitChars, if_neg hexponent, htoNat]
    by_cases hlt : k < (Nat.toDigits 10 d).length
    · rw [if_pos hlt]
      exact ⟨_, _, isPlaced_inside hk hlt⟩
    · rw [if_neg hlt]
      exact ⟨_, _, isPlaced_behind hk (Nat.le_of_not_lt hlt)⟩

/-- A decimal in the other layout begins with a numeral that an `e` follows. -/
theorem exists_scientific (d : Decimal) :
    ∃ first more left, d.scientific = first :: more ++ 'e' :: left ∧ first.isDigit = true
      ∧ IsNumeralRun (first :: more) := by
  have hne : d.digitChars ≠ [] := Nat.toDigits_ne_nil
  have hdigits : ∀ c ∈ d.digitChars, c.isDigit = true := fun _ => Numeral.isDigit_of_mem_toDigits
  simp only [scientific]
  split
  · rename_i first second rest heq
    rw [heq] at hdigits
    have hfirst := hdigits first List.mem_cons_self
    refine ⟨first, '.' :: second :: rest, _, rfl, hfirst, ?_⟩
    exact @isNumeralRun_of_point [first] (second :: rest) (by simpa using hfirst) fun c hc =>
      hdigits c (List.mem_cons_of_mem _ hc)
  · rename_i hshort
    obtain ⟨first, more, hcons⟩ := List.exists_cons_of_ne_nil hne
    rw [hcons] at hdigits ⊢
    exact ⟨first, more, _, rfl, hdigits first List.mem_cons_self, isNumeralRun_of_isDigit hdigits⟩

end Decimal

/-! ### The text of a number -/

namespace Binary64

variable {x : Binary64}

theorem text_toList (hfinite : x.isFinite = true) (hsign : x.isNegative = false) :
    x.text.toList = if x.magnitude = 0 then ['0', '.', '0'] else (Decimal.shortest x).layOut := by
  have hlt : x.magnitude < infiniteMagnitude := of_decide_eq_true hfinite
  have hnan : x.isNaN = false := decide_eq_false (Nat.not_lt_of_lt hlt)
  have hinfinite : x.isInfinite = false := decide_eq_false (Nat.ne_of_lt hlt)
  simp only [text, magnitudeText, hnan, hsign, hinfinite, isZero, Bool.false_eq_true, if_false,
    decide_eq_true_eq, String.toList_ofList]

theorem spells_of_isPlaced {text whole places : List Char} {d g : Nat}
    (hfinite : x.isFinite = true) (hsign : x.isNegative = false)
    (hplaced : Decimal.IsPlaced text d g whole places)
    (hround : nearestMagnitude (d * Nat.pow 10 g) (Nat.pow 10 Decimal.finest) = x.magnitude) :
    Spells text (.float x) := by
  have hpos : ∀ n, 0 < Nat.pow 10 n := Decimal.pow_pos_of_pos (by decide)
  rw [hplaced.text_eq]
  refine .float hplaced.whole_ne hplaced.whole_digits hplaced.places_digits ?_
  rw [ofRatio?_eq_some_iff hfinite hsign, ← hround]
  refine nearestMagnitude_congr (hpos _) (hpos _) ?_
  simp only [Nat.pow_eq, hplaced.value]

/-- **The text of a number whose point is in its place denotes the number.** -/
theorem spells_text (hfinite : x.isFinite = true) (hsign : x.isNegative = false)
    (hx : x.magnitude = 0 ∨ 1 / 10 ^ 4 ≤ x.value ∧ x.value < 10 ^ 16) :
    Spells x.text.toList (.float x) := by
  rw [text_toList hfinite hsign]
  by_cases hzero : x.magnitude = 0
  · rw [if_pos hzero]
    have hplaced : Decimal.IsPlaced ['0', '.', '0'] 0 0 ['0'] ['0'] := by
      refine ⟨rfl, List.cons_ne_nil _ _, by simp, by simp, ?_⟩
      rw [show Numeral.value (['0'] ++ ['0']) = 0 from rfl, Nat.zero_mul, Nat.zero_mul,
        Nat.zero_mul]
    refine spells_of_isPlaced hfinite hsign hplaced ?_
    rw [Nat.zero_mul, hzero, Decimal.nearestMagnitude_zero (Decimal.pow_pos_of_pos (by decide) _)]
  · obtain ⟨d, g, hshortest, -, hround⟩ := Decimal.exists_shortest hzero
    have hlayout := (isPositional_iff hzero hsign).2 (hx.resolve_left hzero)
    rw [if_neg hzero, Decimal.layOut, if_pos hlayout, hshortest]
    obtain ⟨whole, places, hplaced⟩ := Decimal.exists_isPlaced d g
    exact spells_of_isPlaced hfinite hsign hplaced hround

/-- **The text of any other number has its exponent glued to a numeral.** -/
theorem exists_exponent (hfinite : x.isFinite = true) (hsign : x.isNegative = false)
    (hzero : x.magnitude ≠ 0) (hx : ¬(1 / 10 ^ 4 ≤ x.value ∧ x.value < 10 ^ 16)) :
    ∃ first more left, x.text.toList = first :: more ++ 'e' :: left ∧ first.isDigit = true
      ∧ IsNumeralRun (first :: more) := by
  have hlayout := mt (isPositional_iff hzero hsign).1 hx
  rw [text_toList hfinite hsign, if_neg hzero, Decimal.layOut, if_neg hlayout]
  exact Decimal.exists_scientific _

end Binary64

end BasicTokens
