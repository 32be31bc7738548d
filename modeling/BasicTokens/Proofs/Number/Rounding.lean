import BasicTokens.Number.Binary64
import Mathlib.Order.Monotone.Basic
import Mathlib.Tactic.Ring

/-!
# Rounding as an order

The magnitudes of numbers, taken as natural numbers, are in the order of the values they stand for
(`unitsAt_strictMono`). A quotient rounds to a magnitude above `k` if it lies more than halfway from
`k` to its successor, or halfway when the successor is the even one of the two (`RoundsAbove`). The
number nearest to a quotient is the one that lies above exactly those magnitudes
(`lt_nearestMagnitude_iff`). So rounding is monotone in the quotient, and it does not depend on how
the quotient is written.
-/

namespace BasicTokens.Binary64

/-! ### Magnitudes and what they stand for -/

def scaleAt (m : Nat) : Nat :=
  m / Nat.pow 2 fractionWidth - 1

def significandAt (m : Nat) : Nat :=
  m - scaleAt m * Nat.pow 2 fractionWidth

/-- The units that a magnitude stands for. Beyond the finite ones it goes on in the same way. -/
def unitsAt (m : Nat) : Nat :=
  significandAt m * 2 ^ scaleAt m

theorem pow_fractionWidth : Nat.pow 2 fractionWidth = 4503599627370496 := rfl

theorem scaleAt_eq (x : Binary64) : scaleAt x.magnitude = x.scale := rfl

theorem significandAt_eq (x : Binary64) : significandAt x.magnitude = x.significand := by
  rw [significandAt, scaleAt, significand, exponentField, fraction, pow_fractionWidth]
  split <;> omega

theorem units_eq (x : Binary64) : x.units = unitsAt x.magnitude := by
  rw [units, unitsAt, significandAt_eq, scaleAt_eq]
  rfl

theorem scaleAt_mul_add (m : Nat) :
    scaleAt m * Nat.pow 2 fractionWidth + significandAt m = m := by
  rw [significandAt, scaleAt, pow_fractionWidth]
  omega

theorem significandAt_bounds (m : Nat) :
    (scaleAt m = 0 ∨ Nat.pow 2 fractionWidth ≤ significandAt m)
      ∧ significandAt m < 2 * Nat.pow 2 fractionWidth := by
  rw [significandAt, scaleAt, pow_fractionWidth]
  omega

/-- A significand that has reached the next power of two stands for the same under both scales. -/
theorem unitsAt_mul_add {scale significand : Nat}
    (hnormal : scale = 0 ∨ Nat.pow 2 fractionWidth ≤ significand)
    (hle : significand ≤ 2 * Nat.pow 2 fractionWidth) :
    unitsAt (scale * Nat.pow 2 fractionWidth + significand) = significand * 2 ^ scale := by
  have hscale : ∀ e, (scale * Nat.pow 2 fractionWidth + significand) / Nat.pow 2 fractionWidth
      = e → scaleAt (scale * Nat.pow 2 fractionWidth + significand) = e - 1 := by
    rintro e rfl
    rfl
  rw [unitsAt, significandAt]
  rw [pow_fractionWidth] at *
  by_cases hcarry : significand = 2 * 4503599627370496
  · rw [hscale (scale + 2) (by omega), hcarry, show scale + 2 - 1 = scale + 1 from rfl,
      show scale * 4503599627370496 + 2 * 4503599627370496 - (scale + 1) * 4503599627370496
        = 4503599627370496 by omega, Nat.pow_succ]
    ring
  · by_cases hlow : significand < 4503599627370496
    · obtain rfl : scale = 0 := by omega
      rw [hscale 0 (by omega)]
      simp
    · rw [hscale (scale + 1) (by omega), Nat.add_sub_cancel,
        show scale * 4503599627370496 + significand - scale * 4503599627370496 = significand by
          omega]

theorem unitsAt_succ (m : Nat) : unitsAt (m + 1) = unitsAt m + 2 ^ scaleAt m := by
  obtain ⟨hnormal, hlt⟩ := significandAt_bounds m
  have hnext : unitsAt (scaleAt m * Nat.pow 2 fractionWidth + (significandAt m + 1))
      = (significandAt m + 1) * 2 ^ scaleAt m :=
    unitsAt_mul_add (hnormal.imp_right (by omega)) (by omega)
  rw [← Nat.add_assoc, scaleAt_mul_add] at hnext
  rw [hnext, unitsAt, Nat.add_one_mul]

theorem unitsAt_strictMono : StrictMono unitsAt := by
  refine strictMono_nat_of_lt_succ fun m => ?_
  rw [unitsAt_succ]
  exact Nat.lt_add_of_pos_right (Nat.two_pow_pos _)

/-! ### Halfway between neighbours -/

/-- Twice the halfway between a magnitude and its successor, in units. -/
def halfway (k : Nat) : Nat :=
  unitsAt k + unitsAt (k + 1)

theorem halfway_strictMono : StrictMono halfway := fun _ _ h =>
  Nat.add_lt_add (unitsAt_strictMono h) (unitsAt_strictMono (Nat.succ_lt_succ h))

def twice (num : Nat) : Nat :=
  2 * (num * Nat.pow 2 unitPlaces)

theorem twice_mul (num den : Nat) : twice num * den = twice (num * den) := by
  simp only [twice, Nat.mul_assoc, Nat.mul_comm den]

theorem twice_le_twice {num num' : Nat} (h : num ≤ num') : twice num ≤ twice num' :=
  Nat.mul_le_mul_left 2 (Nat.mul_le_mul_right _ h)

/-- A quotient is nearer to the magnitudes above `k` than to `k`, or as near to the next one as to
`k` when the next one is even. -/
def RoundsAbove (num den k : Nat) : Prop :=
  halfway k * den < twice num ∨ halfway k * den = twice num ∧ k % 2 = 1

theorem RoundsAbove.of_lt {num den j k : Nat} (hden : 0 < den) (h : RoundsAbove num den k)
    (hjk : j < k) : RoundsAbove num den j := by
  have hlt : halfway j * den < halfway k * den :=
    Nat.mul_lt_mul_of_pos_right (halfway_strictMono hjk) hden
  rcases h with h | ⟨h, -⟩
  · exact .inl (Nat.lt_trans hlt h)
  · exact .inl (Nat.lt_of_lt_of_eq hlt h)

theorem RoundsAbove.mono {num den num' den' k : Nat} (hden : 0 < den) (hden' : 0 < den')
    (hle : num * den' ≤ num' * den) (h : RoundsAbove num den k) : RoundsAbove num' den' k := by
  have htwice : twice num * den' ≤ twice num' * den := by
    rw [twice_mul, twice_mul]
    exact twice_le_twice hle
  have hhalfway : halfway k * den * den' = halfway k * den' * den := Nat.mul_right_comm _ _ _
  rcases h with h | ⟨h, hodd⟩
  · have hlt := Nat.mul_lt_mul_of_pos_right h hden'
    rw [hhalfway] at hlt
    exact .inl (Nat.lt_of_mul_lt_mul_right (Nat.lt_of_lt_of_le hlt htwice))
  · rw [← h, hhalfway] at htwice
    rcases Nat.lt_or_eq_of_le (Nat.le_of_mul_le_mul_right htwice hden) with hlt | heq
    · exact .inl hlt
    · exact .inr ⟨heq, hodd⟩

/-! ### The nearest number -/

/-- A rounded quotient is at most half away, and half only if it is even. -/
theorem roundDiv_spec (num : Nat) {den : Nat} (hden : 0 < den) :
    (2 * num < (2 * roundDiv num den + 1) * den
        ∨ 2 * num = (2 * roundDiv num den + 1) * den ∧ roundDiv num den % 2 = 0)
      ∧ ∀ k, roundDiv num den = k + 1 → (2 * k + 1) * den < 2 * num
        ∨ (2 * k + 1) * den = 2 * num ∧ k % 2 = 1 := by
  have hsplit : den * (num / den) + num % den = num := Nat.div_add_mod num den
  have hlt : num % den < den := Nat.mod_lt num hden
  have hmul : ∀ k, (2 * k + 1) * den = 2 * (den * k) + den := fun k => by ring
  have hnext : ∀ k, den * (k + 1) = den * k + den := fun k => Nat.mul_succ den k
  rw [roundDiv]
  simp only [hmul]
  split
  · refine ⟨.inl (by omega), fun k hk => .inl ?_⟩
    rw [hk, hnext] at hsplit
    omega
  split
  · refine ⟨.inl (by rw [hnext]; omega), fun k hk => .inl ?_⟩
    obtain rfl : num / den = k := Nat.succ.inj hk
    omega
  rcases Nat.mod_two_eq_zero_or_one (num / den) with heven | hodd
  · rw [heven, Nat.add_zero]
    refine ⟨.inr ⟨by omega, heven⟩, fun k hk => .inl ?_⟩
    rw [hk, hnext] at hsplit
    omega
  · rw [hodd]
    refine ⟨.inl (by rw [hnext]; omega), fun k hk => .inr ?_⟩
    obtain rfl : num / den = k := Nat.succ.inj hk
    exact ⟨by omega, hodd⟩

/-- At a scale on which the quotient has as many bits as a significand, rounding it gives one. -/
theorem significand_of_roundDiv {num den scale : Nat} (hden : 0 < den)
    (hlow : scale = 0 ∨ Nat.pow 2 fractionWidth * den ≤ num)
    (hhigh : num < 2 * Nat.pow 2 fractionWidth * den) :
    (scale = 0 ∨ Nat.pow 2 fractionWidth ≤ roundDiv num den)
      ∧ roundDiv num den ≤ 2 * Nat.pow 2 fractionWidth := by
  obtain ⟨hup, hdown⟩ := roundDiv_spec num hden
  have hpos : 0 < Nat.pow 2 fractionWidth := Nat.two_pow_pos _
  generalize Nat.pow 2 fractionWidth = full at *
  refine ⟨hlow.imp_right fun hlow => ?_, ?_⟩
  · by_contra hlt
    have hle : (2 * roundDiv num den + 1) * den ≤ (2 * full - 1) * den :=
      Nat.mul_le_mul_right _ (by omega)
    have hfull : (2 * full - 1) * den + den = 2 * (full * den) := by
      rw [← Nat.add_one_mul, Nat.sub_add_cancel (by omega), Nat.mul_assoc]
    omega
  · by_contra hlt
    obtain ⟨k, hk⟩ : ∃ k, roundDiv num den = k + 1 := ⟨roundDiv num den - 1, by omega⟩
    have hle : 2 * (2 * full) * den ≤ (2 * k + 1) * den := Nat.mul_le_mul_right _ (by omega)
    rw [Nat.mul_assoc] at hle
    have hhalf := hdown k hk
    omega

theorem le_halfway {scale significand : Nat}
    (hnormal : scale = 0 ∨ Nat.pow 2 fractionWidth ≤ significand)
    (hle : significand ≤ 2 * Nat.pow 2 fractionWidth) :
    (2 * significand + 1) * 2 ^ scale
      ≤ halfway (scale * Nat.pow 2 fractionWidth + significand) := by
  have hunits := unitsAt_mul_add hnormal hle
  have hscale : scale ≤ scaleAt (scale * Nat.pow 2 fractionWidth + significand) := by
    rw [scaleAt]
    rw [pow_fractionWidth] at *
    omega
  have hgap := Nat.pow_le_pow_right Nat.two_pos hscale
  calc (2 * significand + 1) * 2 ^ scale
      = significand * 2 ^ scale + (significand * 2 ^ scale + 2 ^ scale) := by ring
    _ ≤ halfway (scale * Nat.pow 2 fractionWidth + significand) := by
      rw [halfway, unitsAt_succ, hunits]
      omega

/-- The halfway below a significand is half a step of its scale away, unless the scale changes
there, below a power of two. -/
theorem halfway_pred {scale significand k : Nat}
    (hnormal : scale = 0 ∨ Nat.pow 2 fractionWidth ≤ significand)
    (hle : significand ≤ 2 * Nat.pow 2 fractionWidth)
    (hk : scale * Nat.pow 2 fractionWidth + significand = k + 1) :
    (∃ j, significand = j + 1 ∧ halfway k = (2 * j + 1) * 2 ^ scale)
      ∨ scale ≠ 0 ∧ significand = Nat.pow 2 fractionWidth
        ∧ halfway k < 2 * (significand * 2 ^ scale) := by
  have hsum : halfway k + 2 ^ scaleAt k = 2 * (significand * 2 ^ scale) := by
    rw [← unitsAt_mul_add hnormal hle, hk, halfway, unitsAt_succ]
    omega
  by_cases hsame : scaleAt k = scale
  · rw [hsame] at hsum
    rw [pow_fractionWidth] at *
    obtain ⟨j, rfl⟩ : ∃ j, significand = j + 1 := ⟨significand - 1, by omega⟩
    have hmul : 2 * ((j + 1) * 2 ^ scale) = (2 * j + 1) * 2 ^ scale + 2 ^ scale := by ring
    exact .inl ⟨j, rfl, by omega⟩
  · have hgap : 0 < 2 ^ scaleAt k := Nat.two_pow_pos _
    have hlt : halfway k < 2 * (significand * 2 ^ scale) := by omega
    rw [scaleAt] at hsame
    rw [pow_fractionWidth] at *
    exact .inr ⟨by omega, by omega, hlt⟩

theorem roundsAbove_of_significand {num den scale significand : Nat} (hden : 0 < den)
    (hlow : scale = 0
      ∨ Nat.pow 2 fractionWidth * (den * 2 ^ scale) ≤ num * Nat.pow 2 unitPlaces)
    (hhigh : num * Nat.pow 2 unitPlaces < 2 * Nat.pow 2 fractionWidth * (den * 2 ^ scale))
    (hround : roundDiv (num * Nat.pow 2 unitPlaces) (den * 2 ^ scale) = significand) :
    ¬RoundsAbove num den (scale * Nat.pow 2 fractionWidth + significand)
      ∧ ∀ k, scale * Nat.pow 2 fractionWidth + significand = k + 1 → RoundsAbove num den k := by
  have hstep : 0 < den * 2 ^ scale := Nat.mul_pos hden (Nat.two_pow_pos _)
  obtain ⟨hnormal, hle⟩ := significand_of_roundDiv hstep hlow hhigh
  obtain ⟨hup, hdown⟩ := roundDiv_spec (num * Nat.pow 2 unitPlaces) hstep
  rw [hround] at hnormal hle hup hdown
  have hscaled : ∀ n, n * (den * 2 ^ scale) = n * 2 ^ scale * den := fun n => by ring
  refine ⟨?_, fun k hk => ?_⟩
  · have habove := Nat.mul_le_mul_right den (le_halfway hnormal hle)
    rw [hscaled] at hup
    have heven : (scale * Nat.pow 2 fractionWidth + significand) % 2 = significand % 2 := by
      rw [pow_fractionWidth]
      omega
    rw [RoundsAbove, twice, heven]
    omega
  · rcases halfway_pred hnormal hle hk with ⟨j, rfl, hhalfway⟩ | ⟨hscale, rfl, hhalfway⟩
    · rw [RoundsAbove, twice, hhalfway, ← hscaled]
      refine (hdown j rfl).imp_right fun ⟨htie, hodd⟩ => ⟨htie, ?_⟩
      rw [pow_fractionWidth] at hk
      omega
    · have hreached := hlow.resolve_left hscale
      have hlt := Nat.mul_lt_mul_of_pos_right hhalfway hden
      rw [hscaled] at hreached
      rw [Nat.mul_assoc] at hlt
      refine .inl ?_
      rw [twice]
      omega

/-- **The number nearest to a quotient lies above exactly those magnitudes that the quotient rounds
above.** -/
theorem lt_nearestMagnitude_iff {num den : Nat} (hden : 0 < den) {k : Nat} :
    k < nearestMagnitude num den ↔ RoundsAbove num den k := by
  let quotient := num * Nat.pow 2 unitPlaces / den
  let scale := Nat.log2 quotient - fractionWidth
  have hpow : ∀ n, Nat.pow 2 fractionWidth * (den * 2 ^ n) = 2 ^ (fractionWidth + n) * den := by
    intro n
    rw [Nat.pow_add, Nat.mul_comm den, ← Nat.mul_assoc]
    rfl
  have hlow : scale = 0
      ∨ Nat.pow 2 fractionWidth * (den * 2 ^ scale) ≤ num * Nat.pow 2 unitPlaces := by
    refine (Nat.eq_zero_or_pos scale).imp_right fun hpos => ?_
    have hlog : fractionWidth + scale = Nat.log2 quotient := by omega
    have hne : quotient ≠ 0 := by
      intro hzero
      rw [hzero, Nat.log2_zero] at hlog
      omega
    rw [hpow, hlog]
    exact Nat.le_trans (Nat.mul_le_mul_right _ (Nat.log2_self_le hne)) (Nat.div_mul_le_self _ _)
  have hhigh : num * Nat.pow 2 unitPlaces
      < 2 * Nat.pow 2 fractionWidth * (den * 2 ^ scale) := by
    have hlt : quotient < 2 ^ (fractionWidth + scale + 1) :=
      Nat.lt_of_lt_of_le Nat.lt_log2_self (Nat.pow_le_pow_right Nat.two_pos (by omega))
    rw [Nat.mul_assoc, hpow, ← Nat.mul_assoc, ← Nat.pow_succ']
    exact (Nat.div_lt_iff_lt_mul hden).1 hlt
  obtain ⟨hnot, habove⟩ := roundsAbove_of_significand hden hlow hhigh rfl
  change ¬RoundsAbove num den (nearestMagnitude num den) at hnot
  change ∀ k, nearestMagnitude num den = k + 1 → RoundsAbove num den k at habove
  constructor
  · intro hlt
    obtain ⟨j, hj⟩ : ∃ j, nearestMagnitude num den = j + 1 :=
      ⟨nearestMagnitude num den - 1, by omega⟩
    rcases Nat.lt_or_eq_of_le (show k ≤ j by omega) with hkj | rfl
    · exact (habove j hj).of_lt hden hkj
    · exact habove k hj
  · intro hk
    by_contra hle
    rcases Nat.lt_or_eq_of_le (Nat.le_of_not_lt hle) with hlt | heq
    · exact hnot (hk.of_lt hden hlt)
    · rw [heq] at hnot
      exact hnot hk

theorem nearestMagnitude_mono {num den num' den' : Nat} (hden : 0 < den) (hden' : 0 < den')
    (hle : num * den' ≤ num' * den) : nearestMagnitude num den ≤ nearestMagnitude num' den' := by
  refine le_of_forall_lt fun k hk => ?_
  rw [lt_nearestMagnitude_iff hden] at hk
  exact (lt_nearestMagnitude_iff hden').2 (hk.mono hden hden' hle)

theorem nearestMagnitude_congr {num den num' den' : Nat} (hden : 0 < den) (hden' : 0 < den')
    (heq : num * den' = num' * den) : nearestMagnitude num den = nearestMagnitude num' den' :=
  Nat.le_antisymm (nearestMagnitude_mono hden hden' (Nat.le_of_eq heq))
    (nearestMagnitude_mono hden' hden (Nat.le_of_eq heq.symm))

theorem nearestMagnitude_eq_succ_iff {num den : Nat} (hden : 0 < den) {k : Nat} :
    nearestMagnitude num den = k + 1 ↔ RoundsAbove num den k ∧ ¬RoundsAbove num den (k + 1) := by
  rw [← lt_nearestMagnitude_iff hden, ← lt_nearestMagnitude_iff hden]
  omega

/-! ### Finite numbers without a sign -/

theorem eq_of_magnitude {x : Binary64} (hsign : x.isNegative = false) :
    x = ⟨UInt64.ofNat x.magnitude⟩ := by
  have hlt : x.bits.toNat < Nat.pow 2 signPlace := by
    simpa [isNegative] using hsign
  rw [magnitude, Nat.mod_eq_of_lt hlt, UInt64.ofNat_toNat]

theorem toNat_ofNat {m : Nat} (h : m < infiniteMagnitude) : (UInt64.ofNat m).toNat = m := by
  have hinfinite : infiniteMagnitude < 2 ^ 64 := by decide
  rw [UInt64.toNat_ofNat']
  exact Nat.mod_eq_of_lt (by omega)

theorem magnitude_ofNat {m : Nat} (h : m < infiniteMagnitude) :
    (⟨UInt64.ofNat m⟩ : Binary64).magnitude = m := by
  have hinfinite : infiniteMagnitude < Nat.pow 2 signPlace := by decide
  rw [magnitude, toNat_ofNat h]
  exact Nat.mod_eq_of_lt (by omega)

theorem isNegative_ofNat {m : Nat} (h : m < infiniteMagnitude) :
    (⟨UInt64.ofNat m⟩ : Binary64).isNegative = false := by
  have hinfinite : infiniteMagnitude < Nat.pow 2 signPlace := by decide
  rw [isNegative, toNat_ofNat h]
  exact decide_eq_false (by omega)

theorem ofRatio?_eq_some_iff {num den : Nat} {x : Binary64} (hfinite : x.isFinite = true)
    (hsign : x.isNegative = false) :
    ofRatio? num den = some x ↔ nearestMagnitude num den = x.magnitude := by
  have hfinite : x.magnitude < infiniteMagnitude := of_decide_eq_true hfinite
  rw [ofRatio?]
  constructor
  · intro h
    split at h
    · rename_i hlt
      cases h
      exact (magnitude_ofNat hlt).symm
    · cases h
  · intro h
    rw [h, if_pos hfinite, ← eq_of_magnitude hsign]

end BasicTokens.Binary64
