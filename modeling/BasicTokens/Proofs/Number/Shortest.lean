import BasicTokens.Number.Decimal
import BasicTokens.Proofs.Number.Rounding
import Mathlib.Algebra.Order.Field.Basic
import Mathlib.Algebra.Order.Field.Rat

/-!
# The shortest decimal reads back

The interval of a number is bounded halfway to its two neighbours, so a decimal lies in it
if and only if the number is the nearest to the decimal (`readsBack_iff`). The finest grid has a
point in every interval, so the search comes to an end, and what it finds reads back as the number
(`exists_shortest`).
-/

namespace BasicTokens

namespace Decimal

open Binary64

variable {x : Binary64}

theorem pow_pos_of_pos {b : Nat} (h : 0 < b) (n : Nat) : 0 < Nat.pow b n :=
  Nat.pow_pos h

theorem upperEnd_eq (x : Binary64) : upperEnd x = 2 * halfway x.magnitude := by
  rw [upperEnd, halfway, unitsAt_succ, unitsAt, significandAt_eq, scaleAt_eq]
  change _ * 2 ^ x.scale = _
  ring

/-- The gap below a number is that above its predecessor. -/
theorem lowerEnd_eq {k : Nat} (hk : x.magnitude = k + 1) : lowerEnd x = 2 * halfway k := by
  have hunits : unitsAt k + 2 ^ scaleAt k = x.significand * 2 ^ x.scale := by
    rw [← unitsAt_succ, ← hk, ← units_eq]
    rfl
  have hpos : 0 < x.significand := by
    have hsum := scaleAt_mul_add x.magnitude
    have hbounds := significandAt_bounds x.magnitude
    rw [significandAt_eq, pow_fractionWidth] at hsum hbounds
    omega
  have hhalfway : halfway k = 2 * unitsAt k + 2 ^ scaleAt k := by
    rw [halfway, unitsAt_succ]
    omega
  have hscale : x.scale = (k + 1) / Nat.pow 2 fractionWidth - 1 := by
    rw [scale, exponentField, hk]
  rw [lowerEnd, hhalfway]
  change _ * 2 ^ x.scale = _
  cases hnarrow : x.isNarrowBelow with
  | true =>
    have hnext : x.scale = scaleAt k + 1 := by
      simp only [isNarrowBelow, fraction, exponentField, hk, pow_fractionWidth, Bool.and_eq_true,
        decide_eq_true_eq] at hnarrow
      rw [hscale, scaleAt, pow_fractionWidth]
      omega
    rw [hnext, Nat.pow_succ] at hunits ⊢
    rw [if_pos rfl, Nat.sub_mul, Nat.mul_assoc]
    omega
  | false =>
    have hsame : x.scale = scaleAt k := by
      simp only [isNarrowBelow, fraction, exponentField, hk, pow_fractionWidth,
        Bool.and_eq_false_iff, decide_eq_false_iff_not] at hnarrow
      rw [hscale, scaleAt, pow_fractionWidth]
      omega
    rw [hsame] at hunits ⊢
    rw [if_neg Bool.false_ne_true, Nat.sub_mul, Nat.mul_assoc]
    omega

theorem significand_mod_two (x : Binary64) : x.significand % 2 = x.magnitude % 2 := by
  have hsum := scaleAt_mul_add x.magnitude
  rw [significandAt_eq, pow_fractionWidth] at hsum
  omega

/-- **A decimal lies in the interval of a number if and only if the number is the nearest to it.**
-/
theorem readsBack_iff (hx : x.magnitude ≠ 0) (g d : Nat) :
    readsBack x g d = true
      ↔ nearestMagnitude (d * Nat.pow 10 g) (Nat.pow 10 finest) = x.magnitude := by
  obtain ⟨k, hk⟩ : ∃ k, x.magnitude = k + 1 := Nat.exists_eq_succ_of_ne_zero hx
  have hpoint : 4 * d * Nat.pow 10 g * Nat.pow 2 unitPlaces = 2 * twice (d * Nat.pow 10 g) := by
    rw [twice]
    ring
  have hparity := significand_mod_two x
  rw [hk] at hparity
  rw [hk, nearestMagnitude_eq_succ_iff (pow_pos_of_pos (by decide) finest), readsBack, hpoint,
    lowerEnd_eq hk, upperEnd_eq, hk, RoundsAbove, RoundsAbove]
  simp only [Nat.mul_assoc 2 (halfway _)]
  split <;> simp only [Bool.and_eq_true, decide_eq_true_eq] <;> omega

/-! ### The search -/

theorem two_mul_le_finest : 2 * Nat.pow 2 unitPlaces ≤ Nat.pow 10 finest := by
  decide +kernel

theorem readsBack_finest (hx : x.magnitude ≠ 0) : readsBack x 0 (below x 0) = true := by
  obtain ⟨k, hk⟩ : ∃ k, x.magnitude = k + 1 := Nat.exists_eq_succ_of_ne_zero hx
  have hbelow : unitsAt k < x.units := by
    rw [units_eq, hk]
    exact unitsAt_strictMono (Nat.lt_succ_self k)
  have habove : x.units < unitsAt (x.magnitude + 1) := by
    rw [units_eq]
    exact unitsAt_strictMono (Nat.lt_succ_self _)
  have hlowerEnd : lowerEnd x + 2 ≤ 4 * x.units := by
    rw [lowerEnd_eq hk, halfway, ← hk, ← units_eq]
    omega
  have hupperEnd : 4 * x.units + 2 ≤ upperEnd x := by
    rw [upperEnd_eq, halfway, ← units_eq]
    omega
  have hgrid := two_mul_le_finest
  have hfinest : 0 < Nat.pow 10 finest := pow_pos_of_pos (by decide) finest
  have hunit : 0 < Nat.pow 2 unitPlaces := pow_pos_of_pos (by decide) unitPlaces
  have hone : Nat.pow 10 0 = 1 := rfl
  rw [readsBack, below, hone, Nat.mul_one, Nat.one_mul]
  generalize Nat.pow 10 finest = grid at *
  generalize Nat.pow 2 unitPlaces = unit at *
  have hdown := Nat.div_mul_le_self (x.units * grid) unit
  have hup := Nat.lt_div_mul_add hunit (a := x.units * grid)
  generalize x.units * grid / unit = low at *
  have hlower : lowerEnd x * grid < 4 * low * unit := by
    have hle := Nat.mul_le_mul_right grid hlowerEnd
    rw [Nat.add_mul, Nat.mul_assoc 4] at hle
    rw [Nat.mul_assoc 4]
    omega
  have hupper : 4 * low * unit < upperEnd x * grid := by
    have hle := Nat.mul_le_mul_right grid hupperEnd
    rw [Nat.add_mul, Nat.mul_assoc 4] at hle
    rw [Nat.mul_assoc 4]
    omega
  simp only [hlower, hupper, Nat.le_of_lt, decide_true, Bool.and_self, ite_self]

theorem readsBack_of_onGrid? {g d : Nat} (h : onGrid? x g = some d) : readsBack x g d = true := by
  rw [onGrid?] at h
  split at h
  · rename_i hlow hnext
    rw [← Option.some.inj h]
    split
    · exact hnext
    · exact hlow
  · rename_i hlow hnext
    rw [← Option.some.inj h]
    exact hlow
  · rename_i hlow hnext
    rw [← Option.some.inj h]
    exact hnext
  · contradiction

theorem exists_fromGrid (hx : x.magnitude ≠ 0) (g : Nat) :
    ∃ d g' : Nat, fromGrid x g = ⟨d, (g' : Int) - (finest : Int)⟩ ∧ readsBack x g' d = true := by
  induction g with
  | zero =>
    have hsome : ∃ d, onGrid? x 0 = some d := by
      rw [onGrid?]
      simp only [readsBack_finest hx]
      split <;> simp_all
    obtain ⟨d, hd⟩ := hsome
    refine ⟨d, 0, ?_, readsBack_of_onGrid? hd⟩
    rw [fromGrid, hd]
    rfl
  | succ g ih =>
    rw [fromGrid]
    split
    · rename_i d hd
      exact ⟨d, g + 1, rfl, readsBack_of_onGrid? hd⟩
    · exact ih

theorem nearestMagnitude_zero {den : Nat} (hden : 0 < den) : nearestMagnitude 0 den = 0 := by
  refine Nat.eq_zero_of_not_pos fun hpos => ?_
  have hhalfway : 0 < halfway 0 * den :=
    Nat.mul_pos (Nat.add_pos_right _ (Nat.lt_of_le_of_lt (Nat.zero_le _)
      (unitsAt_strictMono Nat.zero_lt_one))) hden
  rw [lt_nearestMagnitude_iff hden, RoundsAbove, twice, Nat.zero_mul] at hpos
  omega

/-- **The shortest decimal of a positive number reads back as the number.** Grids are counted from
the finest. -/
theorem exists_shortest (hx : x.magnitude ≠ 0) :
    ∃ d g : Nat, shortest x = ⟨d, (g : Int) - (finest : Int)⟩ ∧ 0 < d
      ∧ nearestMagnitude (d * Nat.pow 10 g) (Nat.pow 10 finest) = x.magnitude := by
  obtain ⟨d, g, hshortest, hreads⟩ := exists_fromGrid hx (coarsest x)
  rw [readsBack_iff hx] at hreads
  refine ⟨d, g, hshortest, Nat.pos_of_ne_zero fun hd => hx ?_, hreads⟩
  rw [← hreads, hd, Nat.zero_mul, nearestMagnitude_zero (pow_pos_of_pos (by decide) finest)]

/-! ### Which layout it has -/

theorem leadingExponent_lt_iff {d g e : Nat} (hd : 0 < d) :
    leadingExponent ⟨d, (g : Int) - (finest : Int)⟩ < (e : Int) - (finest : Int)
      ↔ d * 10 ^ g < 10 ^ e := by
  have hlength : ∀ k, 0 < k → ((Nat.toDigits 10 d).length ≤ k ↔ d < 10 ^ k) := fun k hk =>
    Nat.length_toDigits_le_iff (by decide) hk
  have hlen : 0 < (Nat.toDigits 10 d).length := Nat.length_toDigits_pos
  rw [leadingExponent, digitChars]
  dsimp only
  generalize (Nat.toDigits 10 d).length = len at *
  constructor
  · intro hlt
    calc d * 10 ^ g < 10 ^ len * 10 ^ g :=
          Nat.mul_lt_mul_of_pos_right ((hlength len hlen).1 (Nat.le_refl _))
            (Nat.pow_pos (by decide))
      _ = 10 ^ (len + g) := (Nat.pow_add 10 len g).symm
      _ ≤ 10 ^ e := Nat.pow_le_pow_right (by decide) (by omega)
  · intro hlt
    by_contra hle
    have hlow : 10 ^ (len - 1) ≤ d := by
      rcases Nat.eq_zero_or_pos (len - 1) with hzero | hpos
      · rw [hzero]
        exact hd
      · exact Nat.le_of_not_lt ((hlength _ hpos).not.1 (by omega))
    have hpow : 10 ^ e ≤ d * 10 ^ g :=
      calc 10 ^ e ≤ 10 ^ (len - 1 + g) := Nat.pow_le_pow_right (by decide) (by omega)
        _ = 10 ^ (len - 1) * 10 ^ g := Nat.pow_add 10 _ _
        _ ≤ d * 10 ^ g := Nat.mul_le_mul_right _ hlow
    omega

/-- The number nearest to `10 ^ (-4)`. It lies above that. -/
def leastPositional : Binary64 := ⟨0x3F1A36E2EB1C432D⟩

def leastScientific : Binary64 := ⟨0x4341C37937E08000⟩

theorem shortest_leastPositional : shortest leastPositional = ⟨1, -4⟩ := by
  decide +kernel

theorem shortest_leastScientific : shortest leastScientific = ⟨1, 16⟩ := by
  decide +kernel

/-- The leading digit of a number stands below a power of ten if and only if the number lies below
the one that is shown as that power of ten. -/
theorem leadingExponent_shortest_lt_iff {y : Binary64} {e : Nat} (hx : x.magnitude ≠ 0)
    (hxsign : x.isNegative = false) (hy : y.magnitude ≠ 0) (hysign : y.isNegative = false)
    (hshortest : shortest y = ⟨1, (e : Int) - (finest : Int)⟩) :
    (shortest x).leadingExponent < (e : Int) - (finest : Int) ↔ x.magnitude < y.magnitude := by
  have hden : 0 < Nat.pow 10 finest := pow_pos_of_pos (by decide) finest
  obtain ⟨d, g, hd, hpos, hxround⟩ := exists_shortest hx
  have hyround : nearestMagnitude (1 * Nat.pow 10 e) (Nat.pow 10 finest) = y.magnitude := by
    obtain ⟨d', g', hd', -, hround⟩ := exists_shortest hy
    rw [hshortest, Decimal.mk.injEq] at hd'
    obtain ⟨rfl, hg'⟩ := hd'
    obtain rfl : e = g' := by omega
    exact hround
  rw [← hxround, ← hyround, hd, leadingExponent_lt_iff hpos]
  constructor
  · intro hlt
    refine Nat.lt_of_le_of_ne ?_ fun heq => ?_
    · refine nearestMagnitude_mono hden hden (Nat.mul_le_mul_right _ ?_)
      rw [Nat.one_mul]
      exact Nat.le_of_lt hlt
    · rw [hxround, hyround] at heq
      obtain rfl : x = y := by rw [eq_of_magnitude hxsign, heq, ← eq_of_magnitude hysign]
      have hone : Nat.toDigits 10 1 = ['1'] := Nat.toDigits_of_lt_base (by decide)
      rw [← leadingExponent_lt_iff hpos, ← hd, hshortest, leadingExponent, digitChars, hone] at hlt
      dsimp only [List.length_singleton] at hlt
      omega
  · intro hlt
    refine Nat.lt_of_not_le fun hle => Nat.not_le_of_lt hlt ?_
    refine nearestMagnitude_mono hden hden (Nat.mul_le_mul_right _ ?_)
    rw [Nat.one_mul]
    exact hle

end Decimal

/-! ### The range of positional texts -/

namespace Binary64

variable {x : Binary64}

/-- The absolute value of a finite number. -/
def value (x : Binary64) : ℚ :=
  x.units / (Nat.pow 2 unitPlaces : Nat)

theorem leastPositional_le_iff :
    Decimal.leastPositional.magnitude ≤ x.magnitude ↔ 1 / 10 ^ 4 ≤ x.value := by
  have hunit : (0 : ℚ) < (Nat.pow 2 unitPlaces : Nat) :=
    Nat.cast_pos.2 (Decimal.pow_pos_of_pos (by decide) unitPlaces)
  have hreached : Nat.pow 2 unitPlaces ≤ unitsAt Decimal.leastPositional.magnitude * 10 ^ 4 := by
    decide +kernel
  have hmissed : unitsAt (Decimal.leastPositional.magnitude - 1) * 10 ^ 4
      < Nat.pow 2 unitPlaces := by
    decide +kernel
  have hvalue : 1 / 10 ^ 4 ≤ x.value ↔ Nat.pow 2 unitPlaces ≤ unitsAt x.magnitude * 10 ^ 4 := by
    rw [value, units_eq, div_le_div_iff₀ (by norm_num) hunit, one_mul]
    exact_mod_cast Iff.rfl
  rw [hvalue]
  constructor
  · intro hle
    exact Nat.le_trans hreached (Nat.mul_le_mul_right _ (unitsAt_strictMono.monotone hle))
  · intro hle
    by_contra hlt
    have hbefore : unitsAt x.magnitude ≤ unitsAt (Decimal.leastPositional.magnitude - 1) :=
      unitsAt_strictMono.monotone (by omega)
    have hbound := Nat.mul_le_mul_right (10 ^ 4) hbefore
    omega

theorem lt_leastScientific_iff :
    x.magnitude < Decimal.leastScientific.magnitude ↔ x.value < 10 ^ 16 := by
  have hunit : (0 : ℚ) < (Nat.pow 2 unitPlaces : Nat) :=
    Nat.cast_pos.2 (Decimal.pow_pos_of_pos (by decide) unitPlaces)
  have hunits : unitsAt Decimal.leastScientific.magnitude = 10 ^ 16 * Nat.pow 2 unitPlaces := by
    decide +kernel
  rw [← unitsAt_strictMono.lt_iff_lt, hunits, value, units_eq, div_lt_iff₀ hunit]
  exact_mod_cast Iff.rfl

theorem isPositional_iff (hx : x.magnitude ≠ 0) (hsign : x.isNegative = false) :
    -4 ≤ (Decimal.shortest x).leadingExponent ∧ (Decimal.shortest x).leadingExponent < 16
      ↔ 1 / 10 ^ 4 ≤ x.value ∧ x.value < 10 ^ 16 := by
  have hleast : (Decimal.shortest x).leadingExponent < ((320 : Nat) : Int) - (Decimal.finest : Int)
      ↔ x.magnitude < Decimal.leastPositional.magnitude :=
    Decimal.leadingExponent_shortest_lt_iff hx hsign (by decide) (by decide)
      Decimal.shortest_leastPositional
  have hgreatest : (Decimal.shortest x).leadingExponent
        < ((340 : Nat) : Int) - (Decimal.finest : Int)
      ↔ x.magnitude < Decimal.leastScientific.magnitude :=
    Decimal.leadingExponent_shortest_lt_iff hx hsign (by decide) (by decide)
      Decimal.shortest_leastScientific
  rw [← leastPositional_le_iff, ← lt_leastScientific_iff, ← hgreatest, ← Nat.not_lt, ← hleast,
    Int.not_lt]
  rfl

end Binary64

end BasicTokens
