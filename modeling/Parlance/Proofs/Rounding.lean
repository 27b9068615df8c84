import Mathlib
import Parlance.Number.Reading

/-!
# Rounding to doubles

Every double but the one that is no number has a sign and a code, and the codes count the magnitudes
from zero to infinity.  `shape` reads the code off the bits.  `nearest` rounds a ratio to a code: it
depends on the value of the ratio only, and a ratio that is a double is rounded to that double.

The same then holds of decimals.  The bounds that `ofDecimal` puts on the exponent change no result,
so zeros can be moved between the digits and the exponent.
-/

namespace Parlance.Number

open Float.Model (Format)
open Float.Model.UnpackedFloat (unpackExponent unpackMantissa)

/-! ## Bits -/

theorem toNat_unpackExponent (b : UInt64) :
    (@unpackExponent Format.binary64 b.toBitVec).toNat = b.toNat / 2 ^ 52 % 2 ^ 11 := by
  rw [Float.Model.UnpackedFloat.unpackExponent_def, BitVec.extractLsb'_toNat,
    Nat.shiftRight_eq_div_pow]
  rfl

theorem toNat_unpackMantissa (b : UInt64) :
    (@unpackMantissa Format.binary64 b.toBitVec).toNat = b.toNat % 2 ^ 52 := by
  rw [Float.Model.UnpackedFloat.unpackMantissa_def, BitVec.extractLsb'_toNat]
  rfl

/-- Bits that are not those of a NaN are kept as they are. -/
theorem toBits_ofBits {b : UInt64}
    (regular : b.toNat / 2 ^ 52 % 2 ^ 11 = 2047 → b.toNat % 2 ^ 52 = 0) :
    (Float.ofBits b).toBits = b := by
  have valid : Format.binary64.Valid b.toBitVec := by
    constructor
    intro exponent mantissa
    have full : b.toNat / 2 ^ 52 % 2 ^ 11 = 2047 := by
      rw [← toNat_unpackExponent, exponent]
      rfl
    have none : @unpackMantissa Format.binary64 b.toBitVec = 0#52 := by
      apply BitVec.eq_of_toNat_eq
      rw [toNat_unpackMantissa, regular full]
      rfl
    exact absurd none mantissa
  have kept := Float.Model.UnpackedFloat.pack_unpack_of_valid valid
  exact congrArg UInt64.ofBitVec kept

/-- All doubles that are no numbers are one. -/
theorem toBits_of_nan {x : Float} (exponent : x.toBits.toNat / 2 ^ 52 % 2 ^ 11 = 2047)
    (fraction : x.toBits.toNat % 2 ^ 52 ≠ 0) : x.toBits = 0x7ff8000000000000 := by
  have full : @unpackExponent Format.binary64 x.toBits.toBitVec = -1#11 := by
    apply BitVec.eq_of_toNat_eq
    rw [toNat_unpackExponent, exponent]
    rfl
  have some : @unpackMantissa Format.binary64 x.toBits.toBitVec ≠ 0#52 := by
    intro zero
    rw [← toNat_unpackMantissa, zero] at fraction
    exact fraction rfl
  have packed := x.toModel.valid.eq_packedNaN full some
  apply UInt64.eq_of_toBitVec_eq
  exact packed

/-! ## Codes -/

/-- The code of infinity, beyond which there is none. -/
def endCode : Nat := 2047 * 2 ^ 52

/-- The bits of a double are its sign and its code, which no code exceeds. -/
theorem toNat_toBits_ofCode (negative : Bool) (code : Nat) :
    (ofCode negative code).toBits.toNat = (if negative then 2 ^ 63 else 0) + min code endCode := by
  have bounded : min code endCode ≤ 2047 * 2 ^ 52 := Nat.min_le_right _ _
  have word : (if negative then (1 <<< 63) + min code (2047 <<< 52) else min code (2047 <<< 52)) =
      (if negative then 2 ^ 63 else 0) + min code endCode := by
    cases negative
    · exact (Nat.zero_add _).symm
    · rfl
  have small : (if negative then 2 ^ 63 else 0) + min code endCode < 2 ^ 64 := by
    split <;> omega
  have bits : (UInt64.ofNat ((if negative then 2 ^ 63 else 0) + min code endCode)).toNat =
      (if negative then 2 ^ 63 else 0) + min code endCode := by
    rw [UInt64.toNat_ofNat', Nat.mod_eq_of_lt small]
  unfold ofCode
  simp only [word]
  rw [toBits_ofBits, bits]
  rw [bits]
  intro full
  cases negative <;> simp at full ⊢ <;> omega

theorem eq_ofCode {x : Float} {negative : Bool} {code : Nat}
    (bits : x.toBits.toNat = (if negative then 2 ^ 63 else 0) + min code endCode) :
    x = ofCode negative code := by
  apply Float.toBits_inj.1
  apply UInt64.toNat_inj.1
  rw [toNat_toBits_ofCode, bits]

theorem ofCode_inj {negative : Bool} {c d : Nat} (same : ofCode false c = ofCode false d) :
    ofCode negative c = ofCode negative d := by
  have bits : min c endCode = min d endCode := by
    simpa [toNat_toBits_ofCode] using congrArg (fun x => x.toBits.toNat) same
  apply eq_ofCode
  rw [toNat_toBits_ofCode, bits]

theorem ofCode_of_endCode_le {negative : Bool} {code : Nat} (large : endCode ≤ code) :
    ofCode negative code = ofCode negative endCode := by
  apply eq_ofCode
  rw [toNat_toBits_ofCode, Nat.min_eq_right large, Nat.min_self]

/-- The parts of a finite double in normal form. -/
structure Fits (mantissa : Nat) (exponent : Int) : Prop where
  mantissa_lt : mantissa < 2 ^ 53
  le_exponent : -1074 ≤ exponent
  normal : 2 ^ 52 ≤ mantissa ∨ exponent = -1074

/-- The code of a finite double that is given by its parts. -/
def codeOf (mantissa : Nat) (exponent : Int) : Nat :=
  (exponent + 1074).toNat * 2 ^ 52 + mantissa

/-- What the parts of a double say of the double. -/
def Shape.Shows : Shape → Float → Prop
  | .nan, x => x = Float.ofBits 0x7ff8000000000000
  | .infinite negative, x => x = ofCode negative endCode
  | .finite negative mantissa exponent, x =>
    Fits mantissa exponent ∧ x = ofCode negative (codeOf mantissa exponent)

/-- The shape of a double shows its sign, its mantissa and its exponent as they are in its bits. -/
theorem shape_shows (x : Float) : (shape x).Shows x := by
  have word : x.toBits.toNat < 2 ^ 64 := x.toBits.toNat_lt
  have sign : x.toBits.toNat = (if decide ((1 <<< 63) ≤ x.toBits.toNat) then 2 ^ 63 else 0) +
      ((x.toBits.toNat >>> 52) % (1 <<< 11) * 2 ^ 52 + x.toBits.toNat % (1 <<< 52)) := by
    simp only [Nat.shiftRight_eq_div_pow, Nat.shiftLeft_eq, decide_eq_true_eq]
    split <;> omega
  have biased : (x.toBits.toNat >>> 52) % (1 <<< 11) < 2048 := Nat.mod_lt _ (by decide)
  have fraction : x.toBits.toNat % (1 <<< 52) < 2 ^ 52 := Nat.mod_lt _ (by decide)
  unfold shape
  simp only
  generalize decide ((1 <<< 63) ≤ x.toBits.toNat) = negative at *
  split
  case isTrue full =>
    split
    case isTrue zero =>
      apply eq_ofCode
      rw [sign, full, zero]
      rfl
    case isFalse some =>
      have bits := toBits_of_nan (x := x) (by rw [← full, Nat.shiftRight_eq_div_pow]; rfl) some
      show x = _
      rw [← bits, Float.ofBits_toBits]
  case isFalse finite =>
    split
    case isTrue zero =>
      refine ⟨⟨by omega, by omega, Or.inr rfl⟩, eq_ofCode ?_⟩
      have code : codeOf (x.toBits.toNat % (1 <<< 52)) (-1074) = x.toBits.toNat % (1 <<< 52) := by
        simp [codeOf]
      rw [code, Nat.min_eq_left (by unfold endCode; omega)]
      omega
    case isFalse normal =>
      refine ⟨⟨by omega, by omega, Or.inl (Nat.le_add_right _ _)⟩, eq_ofCode ?_⟩
      have code : codeOf ((1 <<< 52) + x.toBits.toNat % (1 <<< 52))
          (((x.toBits.toNat >>> 52) % (1 <<< 11) : Nat) - 1075) =
          (x.toBits.toNat >>> 52) % (1 <<< 11) * 2 ^ 52 + x.toBits.toNat % (1 <<< 52) := by
        unfold codeOf
        omega
      rw [code, Nat.min_eq_left (by unfold endCode; omega)]
      exact sign
/-! ## Rounding a ratio -/

theorem roundDiv_mul_left (num den : Nat) {k : Nat} (pos : 0 < k) :
    roundDiv (k * num) (k * den) = roundDiv num den := by
  have below : 2 * (k * (num % den)) < k * den ↔ 2 * (num % den) < den := by
    rw [Nat.mul_left_comm, Nat.mul_lt_mul_left pos]
  have above : k * den < 2 * (k * (num % den)) ↔ den < 2 * (num % den) := by
    rw [Nat.mul_left_comm, Nat.mul_lt_mul_left pos]
  simp only [roundDiv, Nat.mul_div_mul_left _ _ pos, Nat.mul_mod_mul_left, below, above]

theorem roundDiv_mul_right (num : Nat) {den : Nat} (pos : 0 < den) :
    roundDiv (num * den) den = num := by
  simp [roundDiv, Nat.mul_div_cancel _ pos, pos]

theorem roundDiv_eq_zero {num den : Nat} (small : 2 * num < den) : roundDiv num den = 0 := by
  have less : num < den := by omega
  simp [roundDiv, Nat.div_eq_of_lt less, Nat.mod_eq_of_lt less, small]

theorem le_roundDiv {num den q : Nat} (pos : 0 < den) (le : q * den ≤ num) :
    q ≤ roundDiv num den := by
  have quotient : q ≤ num / den := (Nat.le_div_iff_mul_le pos).2 le
  simp only [roundDiv]
  split
  · exact quotient
  · split <;> omega

/-- Rounding sees only the ratio. -/
theorem roundDiv_congr {num den num' den' : Nat} (pos : 0 < den) (pos' : 0 < den')
    (same : num * den' = num' * den) : roundDiv num den = roundDiv num' den' := by
  calc roundDiv num den = roundDiv (den' * num) (den' * den) := (roundDiv_mul_left _ _ pos').symm
    _ = roundDiv (den * num') (den * den') := by
      rw [Nat.mul_comm den' num, same, Nat.mul_comm num' den, Nat.mul_comm den' den]
    _ = roundDiv num' den' := roundDiv_mul_left _ _ pos

theorem two_zpow_eq (e : Int) : (2 : ℚ) ^ e = 2 ^ e.toNat / 2 ^ (-e).toNat := by
  rw [← zpow_natCast, ← zpow_natCast, ← zpow_sub₀ two_ne_zero]
  congr 1
  omega

/-- The logarithm found by counting bits is that of the quotient. -/
theorem ratioLog_eq {num den : Nat} (pos : 0 < num) (pos' : 0 < den) :
    ratioLog num den = Int.log 2 ((num : ℚ) / den) := by
  have positive : 0 < (num : ℚ) / den := by positivity
  obtain ⟨guess, guessed⟩ : ∃ g : Int, g = num.log2 - den.log2 := ⟨_, rfl⟩
  have low : guess - 1 ≤ Int.log 2 ((num : ℚ) / den) := by
    rw [← Int.zpow_le_iff_le_log one_lt_two positive, le_div_iff₀ (by positivity)]
    have h1 : ((2 ^ num.log2 : Nat) : ℚ) ≤ num := by
      exact_mod_cast Nat.log2_self_le pos.ne'
    have h2 : (den : ℚ) ≤ ((2 ^ (den.log2 + 1) : Nat) : ℚ) := by
      exact_mod_cast Nat.lt_log2_self.le
    calc ((2 : Nat) : ℚ) ^ (guess - 1) * den
        ≤ ((2 : Nat) : ℚ) ^ (guess - 1) * ((2 ^ (den.log2 + 1) : Nat) : ℚ) := by gcongr
      _ = ((2 ^ num.log2 : Nat) : ℚ) := by
        push_cast
        rw [← zpow_natCast, ← zpow_natCast, ← zpow_add₀ two_ne_zero]
        congr 1
        push_cast
        omega
      _ ≤ num := h1
  have high : Int.log 2 ((num : ℚ) / den) < guess + 1 := by
    rw [← Int.lt_zpow_iff_log_lt one_lt_two positive, div_lt_iff₀ (by positivity)]
    have h1 : (num : ℚ) < ((2 ^ (num.log2 + 1) : Nat) : ℚ) := by
      exact_mod_cast Nat.lt_log2_self
    have h2 : ((2 ^ den.log2 : Nat) : ℚ) ≤ den := by
      exact_mod_cast Nat.log2_self_le pos'.ne'
    calc (num : ℚ) < ((2 ^ (num.log2 + 1) : Nat) : ℚ) := h1
      _ = ((2 : Nat) : ℚ) ^ (guess + 1) * ((2 ^ den.log2 : Nat) : ℚ) := by
        push_cast
        rw [← zpow_natCast, ← zpow_natCast, ← zpow_add₀ two_ne_zero]
        congr 1
        push_cast
        omega
      _ ≤ ((2 : Nat) : ℚ) ^ (guess + 1) * den := by gcongr
  have test : den <<< guess.toNat ≤ num <<< (-guess).toNat ↔
      guess ≤ Int.log 2 ((num : ℚ) / den) := by
    rw [← Int.zpow_le_iff_le_log one_lt_two positive, le_div_iff₀ (by positivity)]
    rw [Nat.cast_ofNat, two_zpow_eq, div_mul_eq_mul_div, div_le_iff₀ (by positivity),
      Nat.shiftLeft_eq, Nat.shiftLeft_eq, mul_comm den]
    exact_mod_cast Iff.rfl
  simp only [ratioLog, ← guessed, test]
  split <;> omega


/-- The double nearest to a ratio depends on the ratio only. -/
theorem nearest_congr {num den num' den' : Nat} (negative : Bool) (pos : 0 < den) (pos' : 0 < den')
    (same : num * den' = num' * den) : nearest negative num den = nearest negative num' den' := by
  rcases Nat.eq_zero_or_pos num with rfl | some
  · have zero : num' = 0 := by
      rw [Nat.zero_mul] at same
      exact (Nat.mul_eq_zero.1 same.symm).resolve_right pos.ne'
    simp [nearest, zero]
  · have some' : 0 < num' := by
      apply Nat.pos_of_ne_zero
      rintro rfl
      rw [Nat.zero_mul] at same
      exact (Nat.mul_pos some pos').ne' same
    have ratio : (num : ℚ) / den = num' / den' := by
      rw [div_eq_div_iff (by positivity) (by positivity)]
      exact_mod_cast same
    have log : ratioLog num den = ratioLog num' den' := by
      rw [ratioLog_eq some pos, ratioLog_eq some' pos', ratio]
    simp only [nearest, some.ne', some'.ne', if_false, log]
    congr 2
    apply roundDiv_congr
    · rw [Nat.shiftLeft_eq]
      positivity
    · rw [Nat.shiftLeft_eq]
      positivity
    · simp only [Nat.shiftLeft_eq]
      rw [mul_mul_mul_comm, same, mul_mul_mul_comm]

/-- A double that is written as a ratio is nearest to it. -/
theorem scaled_eq_ofCode {mantissa : Nat} {exponent : Int} (fits : Fits mantissa exponent)
    (negative : Bool) :
    scaled negative mantissa exponent = ofCode negative (codeOf mantissa exponent) := by
  rcases Nat.eq_zero_or_pos mantissa with rfl | some
  · have least : exponent = -1074 := fits.normal.resolve_left (by simp)
    subst least
    simp [scaled, nearest, codeOf]
  · have value :
        ((mantissa <<< exponent.toNat : Nat) : ℚ) / ((1 <<< (-exponent).toNat : Nat) : ℚ) =
          mantissa * 2 ^ exponent := by
      rw [two_zpow_eq, Nat.shiftLeft_eq, Nat.shiftLeft_eq]
      push_cast
      rw [one_mul, mul_div_assoc]
    have positive : 0 < (mantissa : ℚ) * 2 ^ exponent := by positivity
    have log : max (ratioLog (mantissa <<< exponent.toNat) (1 <<< (-exponent).toNat) - 52) (-1074) =
        exponent := by
      rw [ratioLog_eq (by rw [Nat.shiftLeft_eq]; positivity) (by rw [Nat.shiftLeft_eq]; positivity),
        value]
      have high : Int.log 2 ((mantissa : ℚ) * 2 ^ exponent) < 53 + exponent := by
        rw [← Int.lt_zpow_iff_log_lt one_lt_two positive, Nat.cast_ofNat, zpow_add₀ two_ne_zero]
        gcongr
        exact_mod_cast fits.mantissa_lt
      rcases fits.normal with large | least
      · have low : 52 + exponent ≤ Int.log 2 ((mantissa : ℚ) * 2 ^ exponent) := by
          rw [← Int.zpow_le_iff_le_log one_lt_two positive, Nat.cast_ofNat,
            zpow_add₀ two_ne_zero]
          gcongr
          exact_mod_cast large
        have := fits.le_exponent
        omega
      · omega
    have nonzero : mantissa <<< exponent.toNat ≠ 0 := by
      rw [Nat.shiftLeft_eq]
      positivity
    have whole : roundDiv (mantissa <<< exponent.toNat <<< (-exponent).toNat)
        (1 <<< (-exponent).toNat <<< exponent.toNat) = mantissa := by
      simp only [Nat.shiftLeft_eq]
      rw [one_mul, mul_assoc, mul_comm (2 ^ exponent.toNat)]
      exact roundDiv_mul_right _ (by positivity)
    simp only [scaled, nearest, nonzero, if_false, log, whole]
    rw [Nat.shiftLeft_eq]
    rfl

/-- A quotient that is the size of a double is rounded to that double. -/
theorem nearest_eq_ofCode {num den mantissa : Nat} {exponent : Int} (fits : Fits mantissa exponent)
    (negative : Bool) (pos : 0 < den)
    (same : num * 2 ^ (-exponent).toNat = mantissa * 2 ^ exponent.toNat * den) :
    nearest negative num den = ofCode negative (codeOf mantissa exponent) := by
  rw [← scaled_eq_ofCode fits]
  apply nearest_congr negative pos
  · rw [Nat.shiftLeft_eq]
    positivity
  · rw [Nat.shiftLeft_eq, Nat.shiftLeft_eq, one_mul]
    exact same

/-- A ratio beyond the largest double is rounded to infinity. -/
theorem nearest_of_large {num den : Nat} (negative : Bool) (pos : 0 < den)
    (large : 2 ^ 1024 * den ≤ num) : nearest negative num den = ofCode negative endCode := by
  have some : 0 < num := by
    have : 0 < 2 ^ 1024 * den := by positivity
    omega
  have positive : 0 < (num : ℚ) / den := by positivity
  obtain ⟨log, logged⟩ : ∃ log, log = ratioLog num den := ⟨_, rfl⟩
  rw [ratioLog_eq some pos] at logged
  have high : 1024 ≤ log := by
    rw [logged, ← Int.zpow_le_iff_le_log one_lt_two positive, le_div_iff₀ (by positivity)]
    have bound : ((2 ^ 1024 * den : Nat) : ℚ) ≤ num := Nat.cast_le.2 large
    rwa [Nat.cast_mul, Nat.cast_pow] at bound
  have mantissa : 2 ^ 52 ≤ roundDiv (num <<< (-(log - 52)).toNat) (den <<< (log - 52).toNat) := by
    have none : (-(log - 52)).toNat = 0 := by omega
    have power : ((2 : Nat) : ℚ) ^ log ≤ (num : ℚ) / den := by
      rw [logged]
      exact Int.zpow_log_le_self one_lt_two positive
    have whole : ((2 : Nat) : ℚ) ^ log = ((2 ^ 52 * 2 ^ (log - 52).toNat : Nat) : ℚ) := by
      rw [← pow_add, Nat.cast_pow, ← zpow_natCast]
      congr 1
      omega
    rw [whole, le_div_iff₀ (by positivity)] at power
    have bound : 2 ^ 52 * 2 ^ (log - 52).toNat * den ≤ num := by exact_mod_cast power
    rw [none, Nat.shiftLeft_zero, Nat.shiftLeft_eq]
    apply le_roundDiv (by positivity)
    rw [mul_comm den, ← mul_assoc]
    exact bound
  have exponent : max (log - 52) (-1074) = log - 52 := by omega
  simp only [nearest, some.ne', if_false, ratioLog_eq some pos, ← logged, exponent]
  apply ofCode_of_endCode_le
  rw [Nat.shiftLeft_eq, endCode]
  have : 2046 ≤ (log - 52 + 1074).toNat := by omega
  omega

/-- A ratio below half of the least double is rounded to zero. -/
theorem nearest_of_small {num den k : Nat} (negative : Bool) (least : k = 1074)
    (small : 2 * (num * 2 ^ k) < den) : nearest negative num den = ofCode negative 0 := by
  rcases Nat.eq_zero_or_pos num with rfl | some
  · simp [nearest]
  · have pos : 0 < den := by omega
    have positive : 0 < (num : ℚ) / den := by positivity
    have low : Int.log 2 ((num : ℚ) / den) < -(k + 1 : Nat) := by
      rw [← Int.lt_zpow_iff_log_lt one_lt_two positive, div_lt_iff₀ (by positivity), zpow_neg,
        ← div_eq_inv_mul, lt_div_iff₀ (by positivity), zpow_natCast]
      have doubled : num * 2 ^ (k + 1) < den := by
        rw [pow_succ, ← mul_assoc, mul_comm]
        exact small
      exact_mod_cast doubled
    have exponent : max (ratioLog num den - 52) (-1074) = -1074 := by
      rw [ratioLog_eq some pos]
      omega
    have up : (-(-1074 : Int)).toNat = k := by omega
    have down : (-1074 : Int).toNat = 0 := rfl
    have mantissa : roundDiv (num <<< k) (den <<< 0) = 0 := by
      apply roundDiv_eq_zero
      rw [Nat.shiftLeft_zero, Nat.shiftLeft_eq]
      exact small
    simp only [nearest, some.ne', if_false, exponent, up, down, mantissa]
    rfl

/-! ## Decimals -/

theorem magnify_eq (base n k : Nat) : magnify base n k = n * base ^ k := by
  induction k generalizing n with
  | zero => simp [magnify]
  | succ k ih => rw [magnify, ih, pow_succ', mul_assoc]

/-- The bounds on the exponent of a decimal only save work. -/
theorem ofDecimal_eq_nearest (negative : Bool) (digits : Nat) (exponent : Int) :
    ofDecimal negative digits exponent =
      nearest negative (digits * 10 ^ exponent.toNat) (10 ^ (-exponent).toNat) := by
  unfold ofDecimal
  split
  case isTrue zero => simp [zero, nearest]
  case isFalse some =>
    have pos : 0 < digits := Nat.pos_of_ne_zero some
    split
    case isTrue large =>
      have whole : (-exponent).toNat = 0 := by omega
      refine (nearest_of_large negative (by positivity) ?_).symm
      rw [whole, pow_zero, mul_one]
      calc 2 ^ 1024 ≤ 10 ^ 311 := by decide +kernel
        _ ≤ 10 ^ exponent.toNat := Nat.pow_le_pow_right (by decide) (by omega)
        _ ≤ digits * 10 ^ exponent.toNat := Nat.le_mul_of_pos_left _ pos
    case isFalse =>
      split
      case isTrue small =>
        have whole : exponent.toNat = 0 := by omega
        refine (nearest_of_small negative rfl ?_).symm
        rw [whole, pow_zero, mul_one]
        calc 2 * (digits * 2 ^ 1074) < 2 * (2 ^ (digits.log2 + 1) * 2 ^ 1074) := by
              gcongr
              exact Nat.lt_log2_self
          _ = 2 ^ 1076 * 2 ^ digits.log2 := by
              rw [← pow_add, ← pow_succ', ← pow_add]
              congr 1
              omega
          _ ≤ 10 ^ 400 * 10 ^ digits.log2 :=
              Nat.mul_le_mul (by decide +kernel) (Nat.pow_le_pow_left (by decide) _)
          _ = 10 ^ (400 + digits.log2) := (pow_add _ _ _).symm
          _ ≤ 10 ^ (-exponent).toNat := Nat.pow_le_pow_right (by decide) (by omega)
      case isFalse => rw [magnify_eq, magnify_eq, one_mul]

/-- Zeros may move from the digits of a decimal to its exponent. -/
theorem ofDecimal_mul_pow (negative : Bool) (digits k : Nat) (exponent : Int) :
    ofDecimal negative (digits * 10 ^ k) exponent = ofDecimal negative digits (exponent + k) := by
  rw [ofDecimal_eq_nearest, ofDecimal_eq_nearest]
  apply nearest_congr negative (by positivity) (by positivity)
  rw [mul_assoc, mul_assoc, mul_assoc, ← pow_add, ← pow_add, ← pow_add]
  congr 2
  omega

/-- The sign of a decimal is the sign of its double. -/
theorem ofDecimal_eq_ofCode {digits code : Nat} {exponent : Int} (negative : Bool)
    (positive : ofDecimal false digits exponent = ofCode false code) :
    ofDecimal negative digits exponent = ofCode negative code := by
  obtain ⟨found, signed⟩ :
      ∃ c, ∀ negative, ofDecimal negative digits exponent = ofCode negative c := by
    simp only [ofDecimal, nearest]
    split
    · exact ⟨_, fun _ => rfl⟩
    · split
      · exact ⟨_, fun _ => rfl⟩
      · split
        · exact ⟨_, fun _ => rfl⟩
        · split
          · exact ⟨_, fun _ => rfl⟩
          · exact ⟨_, fun _ => rfl⟩
  rw [signed] at positive ⊢
  exact ofCode_inj positive

end Parlance.Number
