import Parlance.Proofs.Rationals

/-!
# Sums of doubles

The sum of two finite doubles is the double next to the exact sum, a tie going to the even mantissa
(`add_eq_ofCode`).  So a sum that lies between two doubles does not leave them (`add_between`).

The machine cuts a mantissa off bit by bit and keeps in mind what is lost in a round bit and a
sticky bit.  They hold what `roundDiv` looks at: how the remainder compares with one half.
-/

namespace Parlance.Number

open Float.Model (Format UnpackedFloat totalExponent)
open Float.Model.UnpackedFloat

/-! ## Round and sticky bits -/

/-- Rounding a quotient does not pass a whole number above it. -/
theorem roundDiv_le {num den q : Nat} (pos : 0 < den) (le : num ≤ q * den) :
    roundDiv num den ≤ q := by
  rcases Nat.lt_or_ge (num / den) q with less | more
  · simp only [roundDiv]
    split
    · exact Nat.le_of_lt less
    · split <;> omega
  · -- Then the quotient is exact.
    have same : num = q * den := Nat.le_antisymm le ((Nat.le_div_iff_mul_le pos).1 more)
    rw [same, roundDiv_mul_right q pos]

/-- Shifting an exact mantissa keeps the first bit lost, and whether any other was set. -/
theorem shiftRight_exact (m places : Nat) :
    ExtendedMantissa.ofMantissaAndAccuracy m .exact >>> (places + 1) =
      ⟨m / 2 ^ (places + 1), m / 2 ^ places % 2 != 0, m % 2 ^ places != 0⟩ := by
  induction places with
  | zero =>
    rw [pow_zero, Nat.div_one, Nat.mod_one]
    rfl
  | succ places ih =>
    have sticky : (m / 2 ^ places % 2 != 0 || m % 2 ^ places != 0) =
        (m % 2 ^ (places + 1) != 0) := by
      have power := Nat.two_pow_pos places
      rw [Nat.mod_pow_succ, Bool.eq_iff_iff]
      simp only [Bool.or_eq_true, bne_iff_ne, ne_eq, Nat.add_eq_zero_iff, Nat.mul_eq_zero,
        power.ne', false_or]
      tauto
    change (ExtendedMantissa.ofMantissaAndAccuracy m .exact >>> (places + 1)).shiftRightOne = _
    rw [ih, ExtendedMantissa.shiftRightOne]
    dsimp only
    rw [sticky, Nat.div_div_eq_div_mul, ← pow_succ]

/-- What is cut off bit by bit is rounded as a quotient. -/
theorem roundedMantissa_shiftRight (m places : Nat) :
    (ExtendedMantissa.ofMantissaAndAccuracy m .exact >>> places).roundedMantissa =
      roundDiv m (2 ^ places) := by
  cases places with
  | zero =>
    have whole := roundDiv_mul_right m Nat.one_pos
    rw [mul_one] at whole
    rw [pow_zero, whole]
    rfl
  | succ places =>
    have power := Nat.two_pow_pos places
    have lost : m % 2 ^ (places + 1) = m % 2 ^ places + 2 ^ places * (m / 2 ^ places % 2) :=
      Nat.mod_pow_succ
    have low : m % 2 ^ places < 2 ^ places := Nat.mod_lt _ power
    have double : 2 ^ (places + 1) = 2 * 2 ^ places := pow_succ' 2 places
    rw [shiftRight_exact, roundDiv, lost]
    rcases Nat.mod_two_eq_zero_or_one (m / 2 ^ places) with round | round
    · rw [round, if_pos (by omega)]
      rcases Nat.eq_zero_or_pos (m % 2 ^ places) with sticky | sticky
      · rw [sticky]
        rfl
      · rw [bne_iff_ne.2 sticky.ne']
        rfl
    · rw [round, if_neg (by omega)]
      rcases Nat.eq_zero_or_pos (m % 2 ^ places) with sticky | sticky
      · rw [if_neg (by omega), sticky]
        rfl
      · rw [if_pos (by omega), bne_iff_ne.2 sticky.ne']
        rfl

/-! ## Putting together -/

theorem ofModel_pack_zero (negative : Bool) :
    Float.ofModel (Float.Model.pack (.zero (signOf negative))) = ofCode negative 0 := by
  cases negative <;> rfl

/-- The packed fields, as a number. -/
theorem toNat_packComponents (negative : Bool) (exponent : BitVec 11) (mantissa : BitVec 52) :
    (packComponents Format.binary64 (signOf negative) exponent mantissa).toNat =
      (if negative then 2 ^ 63 else 0) + (exponent.toNat * 2 ^ 52 + mantissa.toNat) := by
  have sign : (signOf negative).toBitVec.toNat = if negative then 1 else 0 := by
    cases negative <;> rfl
  rw [packComponents, BitVec.toNat_append, ← Nat.shiftLeft_add_eq_or_of_lt mantissa.isLt,
    BitVec.toNat_append, ← Nat.shiftLeft_add_eq_or_of_lt exponent.isLt, sign, Nat.shiftLeft_eq,
    Nat.shiftLeft_eq]
  cases negative
  · simp
  · simp
    omega

/-- Parts in normal form are put together into the double of their code, which is infinite if the
exponent is too great. -/
theorem ofModel_pack_finite {m : Nat} {e : Int} (fits : Fits m e) (some : 0 < m)
    (negative : Bool) :
    Float.ofModel (Float.Model.pack (.finite (signOf negative) m e some)) =
      ofCode negative (codeOf m e) := by
  obtain ⟨short, low, normal⟩ := fits
  obtain ⟨biased, counted⟩ : ∃ biased : Nat, (e + Format.binary64.exponentBias +
      Format.binary64.mantissaBitsWithoutImplicit).toNat = biased := ⟨_, rfl⟩
  have bias : (Format.binary64.exponentBias : Int) = 1023 := rfl
  have places : (Format.binary64.mantissaBitsWithoutImplicit : Int) = 52 := rfl
  apply eq_ofCode
  change (pack Format.binary64 (.finite (signOf negative) m e some)).toNat = _
  unfold pack
  dsimp only
  rw [counted]
  split
  · next large =>
    rw [packedInfinity, toNat_packComponents]
    have beyond : endCode ≤ codeOf m e := by
      unfold codeOf endCode
      omega
    rw [Nat.min_eq_right beyond]
    rfl
  · next small =>
    have inside : codeOf m e ≤ endCode := by
      unfold codeOf endCode
      omega
    rw [Nat.min_eq_left inside]
    have digits : m.log2 < 53 := (Nat.log2_lt some.ne').2 short
    split
    · next full =>
      have large : 2 ^ 52 ≤ m := (Nat.le_log2 some.ne').1 (Nat.le_of_eq (Nat.succ.inj full).symm)
      rw [toNat_packComponents, BitVec.toNat_ofNat, BitVec.toNat_ofNat]
      change _ + (biased % 2 ^ 11 * 2 ^ 52 + m % 2 ^ 52) = _
      unfold codeOf
      omega
    · next partly =>
      have small : m < 2 ^ 52 := (Nat.log2_lt some.ne').1 (by
        have other : m.log2 + 1 ≠ 53 := partly
        omega)
      rw [toNat_packComponents, BitVec.toNat_ofNat]
      change _ + (0 * 2 ^ 52 + m % 2 ^ 52) = _
      unfold codeOf
      omega

/-! ## Rounding a magnitude -/

/-- The exponent of the doubles around a magnitude. -/
def gridExponent (m : Nat) (e : Int) : Int :=
  max (m.log2 + e - 52) (-1074)

/-- The mantissa next to a magnitude on the grid of the doubles around it. -/
def gridMantissa (m : Nat) (e : Int) : Nat :=
  roundDiv (m * 2 ^ (e - gridExponent m e).toNat) (2 ^ (gridExponent m e - e).toNat)

/-- The code of the double next to a magnitude. -/
def roundedCode (m : Nat) (e : Int) : Nat :=
  codeOf (gridMantissa m e) (gridExponent m e)

section Grid

variable {m : Nat} {e : Int}

/-- The grid is so fine that the mantissa has all its digits, and no finer than the doubles are. -/
theorem gridExponent_cases (some : 0 < m) :
    m * 2 ^ (e - gridExponent m e).toNat < 2 ^ 53 * 2 ^ (gridExponent m e - e).toNat ∧
      (gridExponent m e = -1074 ∨
        2 ^ 52 * 2 ^ (gridExponent m e - e).toNat ≤ m * 2 ^ (e - gridExponent m e).toNat) := by
  have low : 2 ^ m.log2 ≤ m := Nat.log2_self_le some.ne'
  have high : m < 2 ^ (m.log2 + 1) := Nat.lt_log2_self
  unfold gridExponent
  constructor
  · calc m * 2 ^ (e - max (m.log2 + e - 52) (-1074)).toNat
        < 2 ^ (m.log2 + 1) * 2 ^ (e - max (m.log2 + e - 52) (-1074)).toNat :=
          Nat.mul_lt_mul_of_pos_right high (Nat.two_pow_pos _)
      _ ≤ 2 ^ 53 * 2 ^ (max (m.log2 + e - 52) (-1074) - e).toNat := by
        rw [← pow_add, ← pow_add]
        exact Nat.pow_le_pow_right (by decide) (by omega)
  · by_cases least : max (m.log2 + e - 52) (-1074) = -1074
    · exact .inl least
    · right
      calc 2 ^ 52 * 2 ^ (max (m.log2 + e - 52) (-1074) - e).toNat
          ≤ 2 ^ m.log2 * 2 ^ (e - max (m.log2 + e - 52) (-1074)).toNat := by
            rw [← pow_add, ← pow_add]
            exact Nat.pow_le_pow_right (by decide) (by omega)
        _ ≤ m * 2 ^ (e - max (m.log2 + e - 52) (-1074)).toNat := Nat.mul_le_mul_right _ low

theorem le_gridExponent : -1074 ≤ gridExponent m e :=
  le_max_right _ _

theorem gridMantissa_le (some : 0 < m) : gridMantissa m e ≤ 2 ^ 53 :=
  roundDiv_le (Nat.two_pow_pos _) (Nat.le_of_lt (gridExponent_cases some).1)

theorem le_gridMantissa (some : 0 < m) (above : gridExponent m e ≠ -1074) :
    2 ^ 52 ≤ gridMantissa m e :=
  le_roundDiv (Nat.two_pow_pos _) ((gridExponent_cases some).2.resolve_left above)

/-- What is not above a magnitude is not above it after rounding. -/
theorem codeOf_le_roundedCode (some : 0 < m) {n : Nat} {f : Int} (fits : Fits n f)
    (le : magnitude n f ≤ magnitude m e) : codeOf n f ≤ roundedCode m e := by
  obtain ⟨short, low, normal⟩ := fits
  have least := @le_gridExponent m e
  rcases lt_trichotomy f (gridExponent m e) with finer | same | coarser
  · have full := @le_gridMantissa m e some (by omega)
    unfold roundedCode codeOf
    omega
  · rw [same, magnitude_le_magnitude_iff] at le
    have steps : n ≤ gridMantissa m e := le_roundDiv (Nat.two_pow_pos _) le
    rw [same]
    exact Nat.add_le_add_left steps _
  · -- A double on a coarser grid has a full mantissa, and so is above the magnitude.
    have full : 2 ^ 52 ≤ n := normal.resolve_right (by omega)
    have above : magnitude (2 ^ 53) (gridExponent m e) ≤ magnitude n f := by
      have doubled : 2 ^ 1 ≤ 2 ^ (f - gridExponent m e).toNat :=
        Nat.pow_le_pow_right (by decide) (by omega)
      rw [magnitude_le_magnitude_iff, show (gridExponent m e - f).toNat = 0 by omega, pow_zero,
        mul_one]
      exact Nat.mul_le_mul full doubled
    have within := magnitude_le_magnitude_iff.1 (above.trans le)
    exact absurd (gridExponent_cases some).1 (Nat.not_lt_of_le within)

/-- What is not below a magnitude is not below it after rounding. -/
theorem roundedCode_le_codeOf (some : 0 < m) {n : Nat} {f : Int} (fits : Fits n f)
    (le : magnitude m e ≤ magnitude n f) : roundedCode m e ≤ codeOf n f := by
  have bound := @gridMantissa_le m e some
  have least := @le_gridExponent m e
  have low := fits.le_exponent
  rcases lt_trichotomy f (gridExponent m e) with finer | same | coarser
  · -- The magnitude is at least that of a full mantissa on its grid, which is above the double.
    have full := (gridExponent_cases (e := e) some).2.resolve_left (by omega)
    have above := magnitude_lt_of_exponent_lt fits (fits_power least) finer
    exact absurd le ((above.trans_le (magnitude_le_magnitude_iff.2 full)).not_ge)
  · rw [same, magnitude_le_magnitude_iff] at le
    have steps : gridMantissa m e ≤ n := roundDiv_le (Nat.two_pow_pos _) le
    rw [same]
    exact Nat.add_le_add_left steps _
  · have full : 2 ^ 52 ≤ n := fits.normal.resolve_right (by omega)
    unfold roundedCode codeOf
    omega

/-- The logarithm of a size is that of its mantissa plus the exponent. -/
theorem log_magnitude (some : 0 < m) : Int.log 2 (magnitude m e) = m.log2 + e := by
  have positive := magnitude_pos some e
  have low : 2 ^ m.log2 ≤ m := Nat.log2_self_le some.ne'
  have high : m < 2 ^ (m.log2 + 1) := Nat.lt_log2_self
  apply le_antisymm
  · rw [← Int.lt_add_one_iff, ← Int.lt_zpow_iff_log_lt one_lt_two positive, Int.add_right_comm,
      Nat.cast_ofNat, zpow_add₀ two_ne_zero, magnitude]
    gcongr
    exact_mod_cast high
  · rw [← Int.zpow_le_iff_le_log one_lt_two positive, Nat.cast_ofNat, zpow_add₀ two_ne_zero,
      magnitude]
    gcongr
    exact_mod_cast low

/-- Rounding sees only the magnitude. -/
theorem roundedCode_congr {m' : Nat} {e' : Int} (some : 0 < m) (some' : 0 < m')
    (same : magnitude m e = magnitude m' e') : roundedCode m e = roundedCode m' e' := by
  have grid : gridExponent m e = gridExponent m' e' := by
    rw [gridExponent, gridExponent, ← log_magnitude some, ← log_magnitude some', same]
  have mantissa : gridMantissa m e = gridMantissa m' e' := by
    unfold gridMantissa
    rw [grid]
    apply roundDiv_congr (Nat.two_pow_pos _) (Nat.two_pow_pos _)
    have crossed : m * 2 ^ (e - e').toNat = m' * 2 ^ (e' - e).toNat :=
      Nat.le_antisymm (magnitude_le_magnitude_iff.1 same.le) (magnitude_le_magnitude_iff.1 same.ge)
    rcases le_total e e' with le | le
    · rw [show (e - e').toNat = 0 by omega, pow_zero, mul_one] at crossed
      rw [crossed, mul_assoc, mul_assoc, mul_assoc, ← pow_add, ← pow_add, ← pow_add]
      congr 2
      omega
    · rw [show (e' - e).toNat = 0 by omega, pow_zero, mul_one] at crossed
      rw [← crossed, mul_assoc, mul_assoc, mul_assoc, ← pow_add, ← pow_add, ← pow_add]
      congr 2
      omega
  rw [roundedCode, roundedCode, grid, mantissa]

theorem roundedCode_of_fits (fits : Fits m e) (some : 0 < m) : roundedCode m e = codeOf m e :=
  Nat.le_antisymm (roundedCode_le_codeOf some fits (le_refl _))
    (codeOf_le_roundedCode some fits (le_refl _))

/-- Shifting adds to the logarithm. -/
theorem log2_shiftLeft (some : 0 < m) (places : Nat) :
    (m <<< places).log2 = m.log2 + places := by
  have low : 2 ^ m.log2 ≤ m := Nat.log2_self_le some.ne'
  have high : m < 2 ^ (m.log2 + 1) := Nat.lt_log2_self
  have power := Nat.two_pow_pos places
  rw [Nat.shiftLeft_eq, Nat.log2_eq_iff (Nat.mul_pos some power).ne', pow_add, Nat.add_right_comm,
    pow_add]
  exact ⟨Nat.mul_le_mul_right _ low, Nat.mul_lt_mul_of_pos_right high power⟩

/-- Zero, or a mantissa that may have become one digit too long in rounding. -/
def settled (sign : UnpackedFloat.Sign) (mantissa : Nat) (exponent : Int) : UnpackedFloat :=
  let shifted := shiftToTargetExponent Format.binary64 mantissa exponent .exact
  if some : shifted.1.mantissa = 0 then .zero sign
  else .finite sign shifted.1.mantissa shifted.2 (Nat.pos_of_ne_zero some)

/-- A settled mantissa is packed to the code of its size. -/
theorem ofModel_pack_settled {r : Nat} (bound : r ≤ 2 ^ 53) (least : -1074 ≤ e)
    (normal : 2 ^ 52 ≤ r ∨ e = -1074) (negative : Bool) :
    Float.ofModel (Float.Model.pack (settled (signOf negative) r e)) =
      ofCode negative (codeOf r e) := by
  unfold settled
  rcases Nat.lt_or_eq_of_le bound with short | rfl
  · have digits : r.log2 ≤ 52 := by
      by_cases zero : r = 0
      · simp [zero]
      · exact Nat.le_of_lt_succ ((Nat.log2_lt zero).2 short)
    have none : surplus r e = 0 := by
      unfold surplus
      omega
    have kept : shiftToTargetExponent Format.binary64 r e .exact = (⟨r, false, false⟩, e) := by
      rw [shiftToTargetExponent_eq, none, Int.natCast_zero, Int.add_zero]
      rfl
    simp only [kept]
    split
    · next zero =>
      subst zero
      have last : e = -1074 := normal.resolve_left (by decide)
      rw [last, ofModel_pack_zero]
      rfl
    · next nonzero =>
      exact ofModel_pack_finite ⟨short, least, normal⟩ (Nat.pos_of_ne_zero nonzero) negative
  · have once : surplus (2 ^ 53) e = 1 := by
      unfold surplus
      rw [Nat.log2_two_pow]
      omega
    have moved : shiftToTargetExponent Format.binary64 (2 ^ 53) e .exact =
        (⟨2 ^ 52, false, false⟩, e + 1) := by
      rw [shiftToTargetExponent_eq, once, shiftRight_exact]
      rfl
    have same : codeOf (2 ^ 53) e = codeOf (2 ^ 52) (e + 1) := by
      unfold codeOf
      omega
    simp only [moved]
    rw [same]
    exact ofModel_pack_finite ⟨by decide, by omega, .inl (le_refl _)⟩ (by decide) negative

/-- The double next to a magnitude is what the machine puts together for it. -/
theorem ofModel_pack_round (some : 0 < m) (negative : Bool) :
    Float.ofModel (Float.Model.pack (UnpackedFloat.round Format.binary64 (signOf negative) m e)) =
      ofCode negative (roundedCode m e) := by
  have target : Format.binary64.targetExponent (totalExponent m e) = gridExponent m e := by
    change max ((m.log2 : Int) + 1 + e - 53) (-1074) = _
    rw [gridExponent]
    congr 1
    omega
  have logged := log2_shiftLeft some (e - gridExponent m e).toNat
  have first : surplus (m <<< (e - gridExponent m e).toNat)
      (e - (e - gridExponent m e).toNat) = (gridExponent m e - e).toNat := by
    unfold surplus gridExponent at *
    rw [logged]
    omega
  have reached : e - (e - gridExponent m e).toNat + (gridExponent m e - e).toNat =
      gridExponent m e := by
    omega
  have opened : UnpackedFloat.round Format.binary64 (signOf negative) m e =
      settled (signOf negative) (gridMantissa m e) (gridExponent m e) := by
    change roundWithAccuracy Format.binary64 (signOf negative)
      (m <<< (e - Format.binary64.targetExponent (totalExponent m e)).toNat)
      (e - (e - Format.binary64.targetExponent (totalExponent m e)).toNat) .exact = _
    rw [target]
    change settled (signOf negative)
      (shiftToTargetExponent Format.binary64 _ _ .exact).1.roundedMantissa
      (shiftToTargetExponent Format.binary64 _ _ .exact).2 = _
    rw [shiftToTargetExponent_eq, first, reached, roundedMantissa_shiftRight, Nat.shiftLeft_eq]
    rfl
  rw [opened, roundedCode]
  apply ofModel_pack_settled (gridMantissa_le some) le_gridExponent
  by_cases above : gridExponent m e = -1074
  · exact .inr above
  · exact .inl (le_gridMantissa some above)

end Grid

/-! ## Sums -/

theorem ofModel_pack_unpack (x : Float) :
    Float.ofModel (Float.Model.pack x.toModel.unpack) = x := by
  apply Float.toBits_inj.1
  exact congrArg UInt64.ofBitVec (pack_unpack_of_valid x.toModel.valid)

/-- A double is next to itself. -/
theorem eq_ofCode_roundedCode {x : Float} (finite : x.isFinite = true) {negative : Bool} {m : Nat}
    {e : Int} (some : 0 < m) (rat : toRat x = signed negative m e) :
    x = ofCode negative (roundedCode m e) := by
  obtain ⟨negative', m', e', parts⟩ := exists_parts finite
  obtain ⟨rfl, some', magnitudes⟩ := signed_inj some (parts.toRat_eq.symm.trans rat)
  rw [← roundedCode_congr some' some magnitudes, roundedCode_of_fits parts.fits some']
  exact parts.eq_ofCode

/-- A summand on the grid that it has in common with another one. -/
theorem unpack_aligned {x : Float} (finite : x.isFinite = true) :
    (∃ s, x.toModel.unpack = .zero s ∧ toRat x = 0) ∨
      ∃ s m e some, x.toModel.unpack = .finite s m e some ∧ ∀ e', toRat x =
        (s.apply (m <<< (e - min e e').toNat : Nat) : ℤ) * 2 ^ min e e' := by
  have grid (e e' : Int) : (e - min e e').toNat = (e - e').toNat := by omega
  rcases unpack_cases finite with zero | ⟨m, e, some, form, -, rat⟩ | ⟨m, e, some, form, -, rat⟩
  · exact .inl zero
  · refine .inr ⟨_, m, e, some, form, fun e' => ?_⟩
    rw [rat, magnitude_eq_aligned m e e', grid, Nat.shiftLeft_eq, UnpackedFloat.Sign.apply,
      Int.cast_natCast]
  · refine .inr ⟨_, m, e, some, form, fun e' => ?_⟩
    rw [rat, magnitude_eq_aligned m e e', grid, Nat.shiftLeft_eq, UnpackedFloat.Sign.apply,
      Int.cast_neg, Int.cast_natCast, neg_mul]

/-- What the machine adds up: nothing where a summand is zero, and otherwise two mantissas on a
common grid. -/
theorem add_cases {x y : Float} (finite : x.isFinite = true) (finite' : y.isFinite = true) :
    (toRat x = 0 ∧ toRat y = 0 ∧ ∃ negative, x + y = ofCode negative 0) ∨
      (toRat x = 0 ∧ x + y = y) ∨ (toRat y = 0 ∧ x + y = x) ∨
      ∃ (mantissa e : Int), toRat x + toRat y = mantissa * 2 ^ e ∧
        x + y =
          Float.ofModel (Float.Model.pack (normalize Format.binary64 mantissa e .positive)) := by
  have added : x + y = Float.ofModel (Float.Model.pack
      (UnpackedFloat.add Format.binary64 x.toModel.unpack y.toModel.unpack)) := rfl
  rcases unpack_aligned finite with ⟨s, form, zero⟩ | ⟨s, m, e, some, form, rat⟩
  · rcases unpack_aligned finite' with ⟨s', form', zero'⟩ | ⟨s', m', e', some', form', -⟩
    · refine .inl ⟨zero, zero', ?_⟩
      rw [added, form, form']
      cases s with
      | negative =>
        cases s' with
        | negative => exact ⟨true, rfl⟩
        | positive => exact ⟨false, rfl⟩
      | positive => cases s' <;> exact ⟨false, rfl⟩
    · refine .inr (.inl ⟨zero, ?_⟩)
      rw [added, form, form']
      change Float.ofModel (Float.Model.pack (.finite s' m' e' some')) = y
      rw [← form', ofModel_pack_unpack]
  · rcases unpack_aligned finite' with ⟨s', form', zero'⟩ | ⟨s', m', e', some', form', rat'⟩
    · refine .inr (.inr (.inl ⟨zero', ?_⟩))
      rw [added, form, form']
      change Float.ofModel (Float.Model.pack (.finite s m e some)) = x
      rw [← form, ofModel_pack_unpack]
    · refine .inr (.inr (.inr ⟨s.apply (m <<< (e - min e e').toNat : Nat) +
        s'.apply (m' <<< (e' - min e e').toNat : Nat), min e e', ?_, ?_⟩))
      · rw [rat e', rat' e, min_comm e' e, Int.cast_add, add_mul]
      · rw [added, form, form']
        rfl

/-- A value is normalized and packed to the double with its rounded code. -/
theorem ofModel_pack_normalize {mantissa e' : Int} {negative : Bool} {m : Nat} {e : Int}
    (some : 0 < m) (value : (mantissa : ℚ) * 2 ^ e' = signed negative m e) :
    Float.ofModel (Float.Model.pack (normalize Format.binary64 mantissa e' .positive)) =
      ofCode negative (roundedCode m e) := by
  have rounds {k : Nat} (negative' : Bool) (same : signed negative' k e' = signed negative m e) :
      0 < k ∧ Float.ofModel (Float.Model.pack
        (UnpackedFloat.round Format.binary64 (signOf negative') k e')) =
          ofCode negative (roundedCode m e) := by
    obtain ⟨rfl, some', magnitudes⟩ := signed_inj some same
    exact ⟨some', by rw [ofModel_pack_round some', roundedCode_congr some' some magnitudes]⟩
  obtain ⟨k, rfl | rfl⟩ := mantissa.eq_nat_or_neg
  · rw [Int.cast_natCast] at value
    obtain ⟨some', rounded⟩ := rounds false value
    have above : compare (k : Int) 0 = .gt := compare_gt_iff_gt.2 (Int.natCast_pos.2 some')
    unfold UnpackedFloat.normalize
    rw [above]
    exact rounded
  · rw [Int.cast_neg, Int.cast_natCast, neg_mul] at value
    obtain ⟨some', rounded⟩ := rounds true value
    have below : compare (-(k : Int)) 0 = .lt :=
      compare_lt_iff_lt.2 (neg_lt_zero.2 (Int.natCast_pos.2 some'))
    unfold UnpackedFloat.normalize
    rw [below, Int.neg_neg]
    exact rounded

/-- The sum of two finite doubles is the double next to the exact sum. -/
theorem add_eq_ofCode {x y : Float} (finite : x.isFinite = true) (finite' : y.isFinite = true)
    {negative : Bool} {m : Nat} {e : Int} (some : 0 < m)
    (sum : toRat x + toRat y = signed negative m e) :
    x + y = ofCode negative (roundedCode m e) := by
  rcases add_cases finite finite' with ⟨zero, zero', -⟩ | ⟨zero, same⟩ | ⟨zero, same⟩ |
    ⟨mantissa, e', value, same⟩
  · rw [zero, zero', add_zero] at sum
    have positive := magnitude_pos some e
    rw [← abs_signed negative, ← sum, abs_zero] at positive
    exact absurd positive (lt_irrefl _)
  · rw [zero, zero_add] at sum
    rw [same]
    exact eq_ofCode_roundedCode finite' some sum
  · rw [zero, add_zero] at sum
    rw [same]
    exact eq_ofCode_roundedCode finite some sum
  · rw [same]
    exact ofModel_pack_normalize some (value.symm.trans sum)

/-- Doubles whose sum is nothing add up to a zero. -/
theorem add_eq_zero {x y : Float} (finite : x.isFinite = true) (finite' : y.isFinite = true)
    (sum : toRat x + toRat y = 0) : (x + y).isFinite = true ∧ toRat (x + y) = 0 := by
  rcases add_cases finite finite' with ⟨-, -, negative, same⟩ | ⟨zero, same⟩ | ⟨zero, same⟩ |
    ⟨mantissa, e', value, same⟩
  · rw [same]
    exact ⟨isFinite_ofCode.2 (by decide), toRat_ofCode_zero negative⟩
  · rw [zero, zero_add] at sum
    rw [same]
    exact ⟨finite', sum⟩
  · rw [zero, add_zero] at sum
    rw [same]
    exact ⟨finite, sum⟩
  · have power : (2 : ℚ) ^ e' ≠ 0 := by positivity
    have none : mantissa = 0 := by
      rw [sum, zero_eq_mul, or_iff_left power] at value
      exact_mod_cast value
    have packed : x + y = ofCode false 0 := by
      rw [same, none]
      rfl
    rw [packed]
    exact ⟨isFinite_ofCode.2 (by decide), toRat_ofCode_zero false⟩

/-- The sum of two finite doubles is a mantissa with a sign and an exponent, before it is
rounded. -/
theorem exists_signed_add {x y : Float} (finite : x.isFinite = true) (finite' : y.isFinite = true) :
    ∃ negative m e, toRat x + toRat y = signed negative m e := by
  obtain ⟨negative, m, e, parts⟩ := exists_parts finite
  obtain ⟨negative', m', e', parts'⟩ := exists_parts finite'
  rcases add_cases finite finite' with ⟨zero, -, -⟩ | ⟨zero, -⟩ | ⟨zero, -⟩ |
    ⟨mantissa, f, value, -⟩
  · exact ⟨negative', m', e', by rw [zero, zero_add, parts'.toRat_eq]⟩
  · exact ⟨negative', m', e', by rw [zero, zero_add, parts'.toRat_eq]⟩
  · exact ⟨negative, m, e, by rw [zero, add_zero, parts.toRat_eq]⟩
  · obtain ⟨k, rfl | rfl⟩ := mantissa.eq_nat_or_neg
    · exact ⟨false, k, f, by rw [value, Int.cast_natCast]; rfl⟩
    · exact ⟨true, k, f, by rw [value, Int.cast_neg, Int.cast_natCast, neg_mul]; rfl⟩

/-- A magnitude within the finite doubles is rounded to a finite one, which is on the same side of
every double. -/
theorem exists_parts_rounded {z : Float} (finite : z.isFinite = true) {m : Nat} {e : Int}
    (some : 0 < m) (within : magnitude m e ≤ |toRat z|) (negative : Bool) :
    ∃ m' e', Parts (ofCode negative (roundedCode m e)) negative m' e' ∧
      magnitude m' e' ≤ |toRat z| ∧
      ∀ w : Float, w.isFinite = true → |toRat w| ≤ magnitude m e → |toRat w| ≤ magnitude m' e' := by
  obtain ⟨m', e', fits, code⟩ := exists_fits_codeOf (roundedCode m e)
  obtain ⟨_, n, f, parts⟩ := exists_parts finite
  rw [parts.abs_toRat] at within ⊢
  have le : codeOf m' e' ≤ codeOf n f :=
    code.trans_le (roundedCode_le_codeOf some parts.fits within)
  have bounded : e' ≤ 971 :=
    (codeOf_lt_endCode fits).1 (le.trans_lt ((codeOf_lt_endCode parts.fits).2 parts.bounded))
  rw [← code]
  refine ⟨m', e', parts_ofCode fits bounded negative,
    (codeOf_le_codeOf_iff fits parts.fits).1 le, ?_⟩
  intro w finite' below
  obtain ⟨_, k, g, parts'⟩ := exists_parts finite'
  rw [parts'.abs_toRat] at below ⊢
  rw [← codeOf_le_codeOf_iff parts'.fits fits, code]
  exact codeOf_le_roundedCode some parts'.fits below

/-- A sum between two finite doubles does not leave them in rounding. -/
theorem add_between {x y low high : Float} (finite : x.isFinite = true)
    (finite' : y.isFinite = true) (lowFinite : low.isFinite = true)
    (highFinite : high.isFinite = true) (above : toRat low ≤ toRat x + toRat y)
    (below : toRat x + toRat y ≤ toRat high) :
    (x + y).isFinite = true ∧ toRat low ≤ toRat (x + y) ∧ toRat (x + y) ≤ toRat high := by
  obtain ⟨negative, m, e, sum⟩ := exists_signed_add finite finite'
  rcases Nat.eq_zero_or_pos m with rfl | some
  · have zero : toRat x + toRat y = 0 := by
      rw [sum, ← abs_eq_zero, abs_signed, magnitude_eq_zero_iff]
    obtain ⟨sumFinite, same⟩ := add_eq_zero finite finite' zero
    rw [same, ← zero]
    exact ⟨sumFinite, above, below⟩
  · have positive := magnitude_pos some e
    rw [add_eq_ofCode finite finite' some sum]
    rw [sum] at above below
    cases negative with
    | false =>
      change _ ≤ magnitude m e at above
      change magnitude m e ≤ _ at below
      obtain ⟨m', e', parts, le, others⟩ :=
        exists_parts_rounded highFinite some (below.trans (le_abs_self _)) false
      have nonneg := magnitude_nonneg m' e'
      rw [abs_of_pos (positive.trans_le below)] at le
      refine ⟨parts.isFinite, ?_, ?_⟩
      · rw [parts.toRat_eq]
        change _ ≤ magnitude m' e'
        rcases le_total (toRat low) 0 with down | up
        · exact down.trans nonneg
        · have := others low lowFinite (by rwa [abs_of_nonneg up])
          rwa [abs_of_nonneg up] at this
      · rw [parts.toRat_eq]
        exact le
    | true =>
      change _ ≤ -magnitude m e at above
      change -magnitude m e ≤ _ at below
      obtain ⟨m', e', parts, le, others⟩ :=
        exists_parts_rounded lowFinite some ((le_neg.1 above).trans (neg_le_abs _)) true
      have nonneg := magnitude_nonneg m' e'
      rw [abs_of_neg (above.trans_lt (neg_lt_zero.2 positive))] at le
      refine ⟨parts.isFinite, ?_, ?_⟩
      · rw [parts.toRat_eq]
        exact le_neg.1 le
      · rw [parts.toRat_eq]
        change -magnitude m' e' ≤ _
        rcases le_total 0 (toRat high) with up | down
        · exact (neg_nonpos.2 nonneg).trans up
        · have := others high highFinite (by
            rw [abs_of_nonpos down]
            exact neg_le.1 below)
          rw [abs_of_nonpos down] at this
          exact neg_le.1 this

/-- A sum that is a double is exact. -/
theorem add_exact {x y z : Float} (finite : x.isFinite = true) (finite' : y.isFinite = true)
    (sumFinite : z.isFinite = true) (sum : toRat x + toRat y = toRat z) :
    (x + y).isFinite = true ∧ toRat (x + y) = toRat z := by
  obtain ⟨added, low, high⟩ := add_between finite finite' sumFinite sumFinite sum.ge sum.le
  exact ⟨added, le_antisymm high low⟩

end Parlance.Number
