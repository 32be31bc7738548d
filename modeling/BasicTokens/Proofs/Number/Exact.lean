import BasicTokens.Proofs.Grammar.WellFormed
import BasicTokens.Proofs.Number.Shortest

/-!
# Which quotients are rounded, and which need not be

Halfway between the greatest finite number and the next power of two, `2 ^ 1024`, lies
`2 ^ 1024 - 2 ^ 970`. The significand of the greatest finite number is odd, so a quotient rounds to
no number from there on (`ofRatio?_eq_none_iff`).

Below, a quotient that is itself some number rounds to that number, since nothing is nearer. Those
are the significands of up to 53 bits at a scale from `2 ^ (-1074)` to `2 ^ 971`
(`exists_unitsAt_eq`), so a quotient of that form keeps its value (`value_of_ofRatio?`).
-/

namespace BasicTokens.Binary64

/-! ### Where rounding leaves the finite numbers -/

theorem twice_le_twice_iff {num num' : Nat} : twice num ≤ twice num' ↔ num ≤ num' := by
  refine ⟨fun h => ?_, twice_le_twice⟩
  have hunit : 0 < Nat.pow 2 unitPlaces := Decimal.pow_pos_of_pos (by decide) unitPlaces
  exact Nat.le_of_mul_le_mul_right (Nat.le_of_mul_le_mul_left h Nat.two_pos) hunit

theorem halfway_greatest : halfway (infiniteMagnitude - 1) = twice (2 ^ 1024 - 2 ^ 970) := by
  decide +kernel

theorem ofRatio?_eq_none_iff {num den : Nat} (hden : 0 < den) :
    ofRatio? num den = none ↔ (2 ^ 1024 - 2 ^ 970) * den ≤ num := by
  have hodd : (infiniteMagnitude - 1) % 2 = 1 := by decide
  have hnone : ofRatio? num den = none ↔ infiniteMagnitude - 1 < nearestMagnitude num den := by
    have hpos : 0 < infiniteMagnitude := by decide
    rw [ofRatio?]
    split
    · simp
      omega
    · simp
      omega
  rw [hnone, lt_nearestMagnitude_iff hden, RoundsAbove, halfway_greatest, twice_mul,
    ← twice_le_twice_iff, and_iff_left hodd]
  exact Nat.le_iff_lt_or_eq.symm

/-! ### Quotients that are numbers -/

theorem exists_unitsAt_eq {significand scale : Nat}
    (h : significand < 2 * Nat.pow 2 fractionWidth) :
    ∃ k, k < (scale + 2) * Nat.pow 2 fractionWidth ∧ unitsAt k = significand * 2 ^ scale := by
  induction scale generalizing significand with
  | zero =>
    have hunits : unitsAt (0 * Nat.pow 2 fractionWidth + significand) = significand * 2 ^ 0 :=
      unitsAt_mul_add (.inl rfl) (Nat.le_of_lt h)
    refine ⟨_, ?_, hunits⟩
    rw [pow_fractionWidth] at *
    omega
  | succ scale ih =>
    by_cases hnormal : Nat.pow 2 fractionWidth ≤ significand
    · refine ⟨_, ?_, unitsAt_mul_add (.inr hnormal) (Nat.le_of_lt h)⟩
      rw [pow_fractionWidth] at *
      omega
    · have hdouble : 2 * significand < 2 * Nat.pow 2 fractionWidth := by omega
      obtain ⟨k, hk, hunits⟩ := ih hdouble
      refine ⟨k, Nat.lt_of_lt_of_le hk (Nat.mul_le_mul_right _ (Nat.le_succ _)), ?_⟩
      rw [hunits, Nat.pow_succ]
      ring

theorem nearestMagnitude_of_eq {num den k : Nat} (hden : 0 < den)
    (h : num * Nat.pow 2 unitPlaces = unitsAt k * den) : nearestMagnitude num den = k := by
  have htwice : twice num = 2 * unitsAt k * den := by
    rw [twice, h, Nat.mul_assoc]
  refine eq_of_forall_lt_iff fun j => ?_
  rw [lt_nearestMagnitude_iff hden, RoundsAbove, htwice]
  constructor
  · intro hround
    have hle : halfway j ≤ 2 * unitsAt k := by
      refine Nat.le_of_mul_le_mul_right ?_ hden
      omega
    have hstep : unitsAt j < unitsAt (j + 1) := unitsAt_strictMono (Nat.lt_succ_self j)
    refine unitsAt_strictMono.lt_iff_lt.1 ?_
    rw [halfway] at hle
    omega
  · intro hjk
    have hlt : unitsAt j < unitsAt k := unitsAt_strictMono hjk
    have hnext : unitsAt (j + 1) ≤ unitsAt k :=
      unitsAt_strictMono.monotone (Nat.succ_le_of_lt hjk)
    refine .inl (Nat.mul_lt_mul_of_pos_right ?_ hden)
    rw [halfway]
    omega

/-! ### As rational numbers -/

theorem cast_limit : ((2 ^ 1024 - 2 ^ 970 : Nat) : ℚ) = 2 ^ 1024 - 2 ^ 970 := by
  have hle : 2 ^ 970 ≤ 2 ^ 1024 := by decide +kernel
  rw [Nat.cast_sub hle, Nat.cast_pow, Nat.cast_pow, Nat.cast_ofNat]

/-- A quotient rounds to a number below halfway from the greatest one to `2 ^ 1024`. -/
theorem exists_ofRatio?_iff {num den : Nat} (hden : 0 < den) :
    (∃ x, ofRatio? num den = some x) ↔ (num / den : ℚ) < 2 ^ 1024 - 2 ^ 970 := by
  rw [← Option.ne_none_iff_exists', Ne, ofRatio?_eq_none_iff hden, Nat.not_le, ← cast_limit,
    div_lt_iff₀ (Nat.cast_pos.2 hden), ← Nat.cast_mul, Nat.cast_lt]

/-- **A quotient that is a significand at the scale of some number keeps its value.** -/
theorem value_of_ofRatio? {num den significand : Nat} {exponent : Int} {x : Binary64}
    (hden : 0 < den) (hx : ofRatio? num den = some x) (hsignificand : significand < 2 ^ 53)
    (hleast : -1074 ≤ exponent) (hgreatest : exponent ≤ 971)
    (h : (num / den : ℚ) = significand * 2 ^ exponent) : x.value = num / den := by
  obtain ⟨scale, hscale⟩ : ∃ scale : Nat, exponent = (scale : Int) - (unitPlaces : Int) :=
    ⟨(exponent + 1074).toNat, by rw [unitPlaces]; omega⟩
  have hunit : ((Nat.pow 2 unitPlaces : Nat) : ℚ) = 2 ^ unitPlaces := by
    rw [Nat.pow_eq, Nat.cast_pow, Nat.cast_ofNat]
  have hunit_ne : (2 ^ unitPlaces : ℚ) ≠ 0 := pow_ne_zero _ two_ne_zero
  have hquotient : (num / den : ℚ) = significand * 2 ^ scale / 2 ^ unitPlaces := by
    rw [h, hscale, zpow_sub₀ two_ne_zero, zpow_natCast, zpow_natCast, mul_div_assoc]
  obtain ⟨k, hk, hunits⟩ : ∃ k, k < (scale + 2) * Nat.pow 2 fractionWidth
      ∧ unitsAt k = significand * 2 ^ scale := exists_unitsAt_eq hsignificand
  have hnearest : nearestMagnitude num den = k := by
    refine nearestMagnitude_of_eq hden ?_
    rw [hunits, ← Nat.cast_inj (R := ℚ), Nat.cast_mul, Nat.cast_mul, Nat.cast_mul, Nat.cast_pow,
      Nat.cast_ofNat, hunit]
    exact (div_eq_div_iff (Nat.cast_ne_zero.2 (Nat.ne_of_gt hden)) hunit_ne).1 hquotient
  obtain ⟨hfinite, hsign⟩ := isFinite_of_ofRatio? hx
  rw [ofRatio?_eq_some_iff hfinite hsign, hnearest] at hx
  rw [value, units_eq, ← hx, hunits, hunit, hquotient, Nat.cast_mul, Nat.cast_pow, Nat.cast_ofNat]

end BasicTokens.Binary64
