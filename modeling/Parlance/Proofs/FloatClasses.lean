import Mathlib
import Parlance.Builtin
import Parlance.Proofs.Rounding

/-!
# Numbers, infinities and what is no number

What the operations on doubles make of a number and of a finite number.  Negation, magnitude, the
square root, the whole part, powers and the count by one lead from numbers to numbers, and from
finite numbers to finite ones; the count by one may be infinite, but then it is beyond every finite
bound.

A double is taken apart, worked on and put together again with its mantissa rounded.  What is put
together is no number only if it was none before, and it is finite if its exponent does not exceed
that of the greatest double (`InRange`).  Rounding keeps it there as long as what is rounded is
below the greatest double (`BelowTop`).
-/

namespace Parlance.Number

open Float.Model (Format UnpackedFloat totalExponent)
open Float.Model.UnpackedFloat

/-! ## Taking apart -/

/-- A double is finite exactly if not all bits of its exponent are set. -/
theorem isFinite_unpack (b : BitVec 64) :
    (unpack Format.binary64 b).isFinite = true ↔ @unpackExponent Format.binary64 b ≠ -1#11 := by
  fun_cases unpack Format.binary64 b with
  | case1 _ _ _ _ full => exact iff_of_false Bool.false_ne_true fun other => other full
  | case2 _ _ full => exact iff_of_false Bool.false_ne_true fun other => other full
  | case3 _ _ _ _ other => exact iff_of_true rfl other
  | case4 _ _ _ _ _ other => exact iff_of_true rfl other
  | case5 _ _ _ _ _ other => exact iff_of_true rfl other

/-- A double is no number exactly if all bits of its exponent are set and one at least of its
mantissa. -/
theorem isNaN_unpack (b : BitVec 64) :
    (unpack Format.binary64 b).isNaN = true ↔
      @unpackExponent Format.binary64 b = -1#11 ∧ @unpackMantissa Format.binary64 b ≠ 0#52 := by
  fun_cases unpack Format.binary64 b with
  | case1 _ _ _ _ _ none => exact iff_of_false Bool.false_ne_true fun both => both.2 none
  | case2 _ _ full some => exact iff_of_true rfl ⟨full, some⟩
  | case3 _ _ _ _ other => exact iff_of_false Bool.false_ne_true fun both => other both.1
  | case4 _ _ _ _ _ other => exact iff_of_false Bool.false_ne_true fun both => other both.1
  | case5 _ _ _ _ _ other => exact iff_of_false Bool.false_ne_true fun both => other both.1

/-- The parts of a finite double are within the bounds of the format. -/
theorem bounds_of_unpack {b : BitVec 64} {s : UnpackedFloat.Sign} {m : Nat} {e : Int} {pos : 0 < m}
    (parts : unpack Format.binary64 b = .finite s m e pos) : m < 2 ^ 53 ∧ e ≤ 971 := by
  revert parts
  fun_cases unpack Format.binary64 b with
  | case1 | case2 | case3 =>
    intro same
    cases same
  | case4 mantissa exponent shifted _ _ _ zero =>
    intro same
    obtain ⟨_, rfl, rfl⟩ := UnpackedFloat.finite.inj same
    have short : mantissa.toNat < 2 ^ 52 := mantissa.isLt
    have biased : shifted = (exponent.toNat : Int) - 1075 := rfl
    refine ⟨by omega, ?_⟩
    rw [biased, zero]
    decide
  | case5 mantissa exponent shifted _ _ full =>
    intro same
    obtain ⟨_, rfl, rfl⟩ := UnpackedFloat.finite.inj same
    have short : (1#1 ++ mantissa).toNat < 2 ^ 53 := (1#1 ++ mantissa).isLt
    have bounded : exponent.toNat < 2 ^ 11 := exponent.isLt
    have other : exponent.toNat ≠ 2047 := fun same => full (BitVec.eq_of_toNat_eq same)
    have biased : shifted = (exponent.toNat : Int) - 1075 := rfl
    exact ⟨short, by omega⟩

theorem isFinite_iff (x : Float) :
    x.isFinite = true ↔ x.toBits.toNat / 2 ^ 52 % 2 ^ 11 ≠ 2047 := by
  change (unpack Format.binary64 x.toBits.toBitVec).isFinite = true ↔ _
  rw [isFinite_unpack, ← toNat_unpackExponent, BitVec.toNat_ne]
  rfl

theorem isNaN_iff (x : Float) :
    x.isNaN = true ↔ x.toBits.toNat / 2 ^ 52 % 2 ^ 11 = 2047 ∧ x.toBits.toNat % 2 ^ 52 ≠ 0 := by
  change (unpack Format.binary64 x.toBits.toBitVec).isNaN = true ↔ _
  rw [isNaN_unpack, ← toNat_unpackExponent, ← toNat_unpackMantissa, BitVec.toNat_ne,
    ← BitVec.toNat_inj]
  rfl

/-! ## Codes -/

/-- A code never stands for what is no number. -/
theorem isNaN_ofCode (negative : Bool) (code : Nat) : (ofCode negative code).isNaN = false := by
  rw [Bool.eq_false_iff, ne_eq, isNaN_iff, toNat_toBits_ofCode]
  have bounded : min code endCode ≤ 2047 * 2 ^ 52 := Nat.min_le_right _ _
  cases negative <;> simp <;> omega

theorem isFinite_ofCode {negative : Bool} {code : Nat} :
    (ofCode negative code).isFinite = true ↔ code < endCode := by
  rw [isFinite_iff, toNat_toBits_ofCode, endCode]
  cases negative <;> simp <;> omega

/-- What is read as a decimal is a number. -/
theorem isNaN_ofDecimal (negative : Bool) (digits : Nat) (exponent : Int) :
    (ofDecimal negative digits exponent).isNaN = false := by
  rw [ofDecimal_eq_nearest]
  unfold nearest
  split
  · exact isNaN_ofCode negative _
  · exact isNaN_ofCode negative _

/-- A plain decimal is a number. -/
theorem isNaN_of_plain? {value? : Char → Option Nat} {negative : Bool} {cs : List Char} {x : Float}
    (read : plain? value? negative cs = some x) : x.isNaN = false := by
  unfold plain? at read
  split at read
  · cases read
  · cases read
    exact isNaN_ofDecimal negative _ _
  · split at read
    · cases read
    · cases read
      exact isNaN_ofDecimal negative _ _
    · cases read
  · cases read

theorem isNaN_literal (text : String) : (literal text).isNaN = false := by
  unfold literal
  cases read : plain? asciiDigit? false text.toList with
  | none => rfl
  | some x => exact isNaN_of_plain? read

/-- A natural below `2 ^ 53` has room for all its digits. -/
theorem exists_fits_shifted {n : Nat} (some : 0 < n) (short : n < 2 ^ 53) :
    ∃ rest : Nat, Fits (n * 2 ^ rest) (-rest) := by
  have low : 2 ^ n.log2 ≤ n := Nat.log2_self_le some.ne'
  have high : n < 2 ^ (n.log2 + 1) := Nat.lt_log2_self
  have digits : n.log2 ≤ 52 := Nat.le_of_lt_succ ((Nat.log2_lt some.ne').2 short)
  obtain ⟨rest, split⟩ := Nat.exists_eq_add_of_le digits
  refine ⟨rest, ?_, by omega, .inl ?_⟩
  · calc n * 2 ^ rest < 2 ^ (n.log2 + 1) * 2 ^ rest :=
        Nat.mul_lt_mul_of_pos_right high (Nat.two_pow_pos _)
      _ = 2 ^ 53 := by rw [← Nat.pow_add, Nat.add_right_comm, ← split]
  · calc 2 ^ 52 = 2 ^ n.log2 * 2 ^ rest := by rw [← Nat.pow_add, ← split]
      _ ≤ n * 2 ^ rest := Nat.mul_le_mul_right _ low

/-- A natural below `2 ^ 53` is a double. -/
theorem isFinite_nearest {n : Nat} (negative : Bool) (short : n < 2 ^ 53) :
    (nearest negative n 1).isFinite = true := by
  rcases Nat.eq_zero_or_pos n with rfl | some
  · exact isFinite_ofCode.2 (by decide)
  · obtain ⟨rest, fits⟩ := exists_fits_shifted some short
    have same : n * 2 ^ (-(-rest : Int)).toNat = n * 2 ^ rest * 2 ^ (-rest : Int).toNat * 1 := by
      simp
    rw [nearest_eq_ofCode fits negative Nat.one_pos same, isFinite_ofCode, codeOf, endCode]
    have := fits.mantissa_lt
    omega

/-- The whole part of a finite number is finite: it is the number itself, or a natural below
`2 ^ 53` with a sign. -/
theorem isFinite_floor {x : Float} (finite : x.isFinite = true) : (floor x).isFinite = true := by
  have shown := shape_shows x
  unfold floor
  cases parts : shape x with
  | nan | infinite negative => exact finite
  | finite negative m e =>
    rw [parts] at shown
    obtain ⟨fits, same⟩ := shown
    rw [same, isFinite_ofCode] at finite
    have short := fits.mantissa_lt
    dsimp only
    by_cases whole : 0 ≤ e
    · have divisor : 1 <<< (-e).toNat = 1 := by
        rw [show (-e).toNat = 0 by omega]
        rfl
      rw [divisor, Nat.add_sub_cancel, Nat.div_one, ite_self]
      rw [nearest_eq_ofCode fits _ Nat.one_pos, isFinite_ofCode]
      · exact finite
      · rw [show (-e).toNat = 0 by omega, Nat.shiftLeft_eq]
        simp
    · have divides : 0 < 1 <<< (-e).toNat := by
        rw [Nat.one_shiftLeft]
        exact Nat.two_pow_pos _
      generalize 1 <<< (-e).toNat = divisor at divides ⊢
      rw [show e.toNat = 0 by omega, Nat.shiftLeft_zero]
      apply isFinite_nearest
      split
      · rw [Nat.div_lt_iff_lt_mul divides]
        omega
      · exact Nat.lt_of_le_of_lt (Nat.div_le_self m divisor) short

/-! ## Putting together -/

/-- What has been taken apart is finite and does not become infinite when it is put together. -/
def InRange : UnpackedFloat → Prop
  | .zero _ => True
  | .finite _ _ exponent _ => exponent ≤ 971
  | _ => False

theorem InRange.isNaN {f : UnpackedFloat} (range : InRange f) : f.isNaN = false := by
  cases f with
  | notANumber | infinity => cases range
  | zero | finite => rfl

/-- What a finite double unpacks to is in range. -/
theorem inRange_unpack {x : Float} (finite : x.isFinite = true) : InRange x.toModel.unpack := by
  change x.toModel.unpack.isFinite = true at finite
  cases parts : x.toModel.unpack with
  | notANumber | infinity =>
    rw [parts] at finite
    cases finite
  | zero => trivial
  | finite s m e pos => exact (bounds_of_unpack parts).2

/-- A finite double with too great an exponent becomes infinite, with its sign; otherwise not all
bits of the exponent are set. -/
theorem pack_finite_cases (s : UnpackedFloat.Sign) (m : Nat) (e : Int) (pos : 0 < m) :
    pack Format.binary64 (.finite s m e pos) = packedInfinity Format.binary64 s ∧ 971 < e ∨
      @unpackExponent Format.binary64 (pack Format.binary64 (.finite s m e pos)) ≠ -1#11 := by
  have biased : e + Format.binary64.exponentBias + Format.binary64.mantissaBitsWithoutImplicit =
      e + 1075 := by
    rw [Int.add_assoc]
    rfl
  unfold pack
  rw [biased]
  dsimp only
  split
  · next large =>
    refine .inl ⟨rfl, ?_⟩
    omega
  · next small =>
    refine .inr ?_
    split
    · rw [unpackExponent_packComponents]
      intro full
      have same : (e + 1075).toNat % 2 ^ 11 = 2047 := congrArg BitVec.toNat full
      omega
    · rw [unpackExponent_packComponents]
      decide

theorem unpack_packedInfinity (s : UnpackedFloat.Sign) :
    unpack Format.binary64 (packedInfinity Format.binary64 s) = .infinity s := by
  simp [unpack, packedInfinity]

/-- Packing keeps what is no number, and makes no other such thing. -/
theorem isNaN_pack (f : UnpackedFloat) : (Float.Model.pack f).isNaN = f.isNaN := by
  change (unpack Format.binary64 (pack Format.binary64 f)).isNaN = f.isNaN
  cases f with
  | notANumber => exact congrArg UnpackedFloat.isNaN unpack_packedNaN
  | infinity s => exact congrArg UnpackedFloat.isNaN (unpack_packedInfinity s)
  | zero s => exact congrArg UnpackedFloat.isNaN unpack_packedZero
  | finite s m e pos =>
    rcases pack_finite_cases s m e pos with ⟨infinite, _⟩ | other
    · rw [infinite, unpack_packedInfinity]
      rfl
    · change _ = false
      rw [Bool.eq_false_iff, ne_eq, isNaN_unpack]
      exact fun both => other both.1

/-- What is in range packs to a finite double. -/
theorem isFinite_pack {f : UnpackedFloat} (range : InRange f) :
    (Float.Model.pack f).isFinite = true := by
  change (unpack Format.binary64 (pack Format.binary64 f)).isFinite = true
  cases f with
  | notANumber | infinity => cases range
  | zero s => exact congrArg UnpackedFloat.isFinite unpack_packedZero
  | finite s m e pos =>
    rcases pack_finite_cases s m e pos with ⟨_, large⟩ | other
    · exact absurd range (Int.not_le.2 large)
    · exact (isFinite_unpack _).2 other

/-! ## Rounding -/

/-- Shifting an extended mantissa divides its mantissa. -/
theorem mantissa_shiftRight (extended : ExtendedMantissa) (places : Nat) :
    (extended >>> places).mantissa = extended.mantissa / 2 ^ places := by
  induction places with
  | zero =>
    rw [Nat.pow_zero, Nat.div_one]
    rfl
  | succ places ih =>
    change (extended >>> places).mantissa / 2 = _
    rw [ih, Nat.div_div_eq_div_mul, Nat.pow_succ]

theorem mantissa_ofMantissaAndAccuracy (mantissa : Nat) (accuracy : Accuracy) :
    (ExtendedMantissa.ofMantissaAndAccuracy mantissa accuracy).mantissa = mantissa := by
  cases accuracy with
  | exact => rfl
  | inexact half => cases half <;> rfl

/-- Rounding adds one at most. -/
theorem roundedMantissa_le (extended : ExtendedMantissa) :
    extended.roundedMantissa ≤ extended.mantissa + 1 := by
  unfold ExtendedMantissa.roundedMantissa
  cases extended.accuracy with
  | exact => exact Nat.le_succ _
  | inexact half =>
    cases half with
    | lt => exact Nat.le_succ _
    | eq => exact Nat.add_le_add_left (Nat.le_of_lt_succ (Nat.mod_lt _ (by decide))) _
    | gt => exact Nat.le_refl _

/-- How many places of a mantissa are cut off to make it fit. -/
def surplus (mantissa : Nat) (exponent : Int) : Nat :=
  (max (mantissa.log2 + 1 + exponent - 53) (-1074) - exponent).toNat

theorem shiftToTargetExponent_eq (mantissa : Nat) (exponent : Int) (accuracy : Accuracy) :
    shiftToTargetExponent Format.binary64 mantissa exponent accuracy =
      (ExtendedMantissa.ofMantissaAndAccuracy mantissa accuracy >>> surplus mantissa exponent,
        exponent + surplus mantissa exponent) :=
  rfl

/-- `mantissa · 2 ^ exponent` is below the greatest double. -/
structure BelowTop (mantissa : Nat) (exponent : Int) : Prop where
  exponent_le : exponent ≤ 971
  mantissa_lt : mantissa < (2 ^ 53 - 1) * 2 ^ (971 - exponent).toNat

/-- What does not exceed the greatest double is not shifted beyond its exponent. -/
theorem exponent_add_surplus_le {mantissa : Nat} {exponent : Int} (low : exponent ≤ 971)
    (below : mantissa ≤ (2 ^ 53 - 1) * 2 ^ (971 - exponent).toNat) :
    exponent + surplus mantissa exponent ≤ 971 := by
  have digits : mantissa.log2 ≤ 52 + (971 - exponent).toNat := by
    by_cases zero : mantissa = 0
    · simp [zero]
    · apply Nat.le_of_lt_succ
      rw [Nat.log2_lt zero]
      calc mantissa ≤ (2 ^ 53 - 1) * 2 ^ (971 - exponent).toNat := below
        _ < 2 ^ 53 * 2 ^ (971 - exponent).toNat :=
          Nat.mul_lt_mul_of_pos_right (by decide) (Nat.two_pow_pos _)
        _ = 2 ^ (52 + (971 - exponent).toNat + 1) := by rw [← Nat.pow_add, Nat.add_right_comm]
  unfold surplus
  omega

/-- Rounding does not lead beyond the greatest double: the mantissa goes up by one at most, and as
far as that there are no more digits. -/
theorem inRange_roundWithAccuracy (sign : UnpackedFloat.Sign) {mantissa : Nat} {exponent : Int}
    (below : BelowTop mantissa exponent) (accuracy : Accuracy) :
    InRange (roundWithAccuracy Format.binary64 sign mantissa exponent accuracy) := by
  obtain ⟨exponent_le, mantissa_lt⟩ := below
  have low := exponent_add_surplus_le exponent_le (Nat.le_of_lt mantissa_lt)
  unfold roundWithAccuracy
  rw [shiftToTargetExponent_eq]
  dsimp only
  generalize shifted : ExtendedMantissa.ofMantissaAndAccuracy mantissa accuracy >>>
    surplus mantissa exponent = extended
  have cut : extended.mantissa = mantissa / 2 ^ surplus mantissa exponent := by
    rw [← shifted, mantissa_shiftRight, mantissa_ofMantissaAndAccuracy]
  have split : (971 - (exponent + surplus mantissa exponent)).toNat + surplus mantissa exponent =
      (971 - exponent).toNat := by
    omega
  have rounded : extended.roundedMantissa ≤
      (2 ^ 53 - 1) * 2 ^ (971 - (exponent + surplus mantissa exponent)).toNat := by
    apply Nat.le_trans (roundedMantissa_le extended)
    rw [cut, Nat.succ_le_iff, Nat.div_lt_iff_lt_mul (Nat.two_pow_pos _), Nat.mul_assoc,
      ← Nat.pow_add, split]
    exact mantissa_lt
  rw [shiftToTargetExponent_eq]
  dsimp only
  split
  · trivial
  · exact exponent_add_surplus_le low rounded

/-- What is below the top is in range after rounding. -/
theorem inRange_round (sign : UnpackedFloat.Sign) {mantissa : Nat} {exponent : Int}
    (below : BelowTop mantissa exponent) :
    InRange (UnpackedFloat.round Format.binary64 sign mantissa exponent) := by
  obtain ⟨exponent_le, mantissa_lt⟩ := below
  unfold UnpackedFloat.round decreaseExponent
  dsimp only
  generalize (exponent - _).toNat = shift
  have split : (971 - (exponent - shift)).toNat = (971 - exponent).toNat + shift := by omega
  refine inRange_roundWithAccuracy sign ⟨by omega, ?_⟩ _
  rw [Nat.shiftLeft_eq, split, Nat.pow_add, ← Nat.mul_assoc]
  exact Nat.mul_lt_mul_of_pos_right mantissa_lt (Nat.two_pow_pos _)

/-- Rounding keeps the sign. -/
theorem roundWithAccuracy_cases (sign : UnpackedFloat.Sign) (mantissa : Nat) (exponent : Int)
    (accuracy : Accuracy) :
    roundWithAccuracy Format.binary64 sign mantissa exponent accuracy = .zero sign ∨
      ∃ m e pos, roundWithAccuracy Format.binary64 sign mantissa exponent accuracy =
        .finite sign m e pos := by
  unfold roundWithAccuracy
  dsimp only
  split
  · exact .inl rfl
  · next some => exact .inr ⟨_, _, Nat.pos_of_ne_zero some, rfl⟩

/-! ## Operations -/

section Operations

variable {x y : Float}

/-- A double that is a number and not infinite is finite. -/
theorem isFinite_of_not (number : x.isNaN = false) (bounded : x.isInf = false) :
    x.isFinite = true := by
  change x.toModel.unpack.isNaN = false at number
  change x.toModel.unpack.isInf = false at bounded
  change x.toModel.unpack.isFinite = true
  cases parts : x.toModel.unpack with
  | notANumber =>
    rw [parts] at number
    cases number
  | infinity =>
    rw [parts] at bounded
    cases bounded
  | zero | finite => rfl

/-- A finite double is a number. -/
theorem isNaN_of_isFinite (finite : x.isFinite = true) : x.isNaN = false := by
  change x.toModel.unpack.isFinite = true at finite
  change x.toModel.unpack.isNaN = false
  cases parts : x.toModel.unpack with
  | notANumber | infinity =>
    rw [parts] at finite
    cases finite
  | zero | finite => rfl

theorem isNaN_neg (number : x.isNaN = false) : (-x).isNaN = false := by
  change x.toModel.unpack.isNaN = false at number
  change (Float.Model.pack x.toModel.unpack.neg).isNaN = false
  rw [isNaN_pack, ← number]
  cases x.toModel.unpack <;> rfl

theorem isFinite_neg (finite : x.isFinite = true) : (-x).isFinite = true := by
  have range := inRange_unpack finite
  apply isFinite_pack
  cases parts : x.toModel.unpack <;> rw [parts] at range <;> exact range

theorem isNaN_abs (number : x.isNaN = false) : x.abs.isNaN = false := by
  change x.toModel.unpack.isNaN = false at number
  change (Float.Model.pack x.toModel.unpack.abs).isNaN = false
  rw [isNaN_pack, ← number]
  cases x.toModel.unpack <;> rfl

theorem isFinite_abs (finite : x.isFinite = true) : x.abs.isFinite = true := by
  have range := inRange_unpack finite
  apply isFinite_pack
  cases parts : x.toModel.unpack <;> rw [parts] at range <;> exact range

theorem lt_iff : x < y ↔ x.toModel.unpack.lt y.toModel.unpack = true :=
  decide_eq_true_iff

theorem le_iff : x ≤ y ↔ x.toModel.unpack.le y.toModel.unpack = true :=
  decide_eq_true_iff

/-! ### The square root -/

/-- A square root is far below the top. -/
theorem belowTop_sqrtCore {mantissa : Nat} {exponent : Int} (mantissa_lt : mantissa < 2 ^ 53)
    (exponent_le : exponent ≤ 971) :
    BelowTop (sqrtCore Format.binary64 mantissa exponent).1
      (sqrtCore Format.binary64 mantissa exponent).2.1 := by
  unfold sqrtCore
  dsimp only
  have twice : 2 * exponent.ediv 2 ≤ exponent := Int.mul_ediv_self_le (by decide)
  have half_le := min_le_left (exponent.ediv 2)
    (Format.binary64.targetExponent ((totalExponent mantissa exponent + 1).ediv 2))
  generalize min (exponent.ediv 2)
    (Format.binary64.targetExponent ((totalExponent mantissa exponent + 1).ediv 2)) = half
    at half_le ⊢
  have root_lt : Nat.sqrt (mantissa <<< (exponent - 2 * half).toNat) < 2 ^ (512 - half).toNat := by
    rw [Nat.sqrt_lt, Nat.shiftLeft_eq, ← Nat.pow_add]
    calc mantissa * 2 ^ (exponent - 2 * half).toNat
        < 2 ^ 53 * 2 ^ (exponent - 2 * half).toNat :=
          Nat.mul_lt_mul_of_pos_right mantissa_lt (Nat.two_pow_pos _)
      _ = 2 ^ (53 + (exponent - 2 * half).toNat) := (Nat.pow_add ..).symm
      _ ≤ 2 ^ ((512 - half).toNat + (512 - half).toNat) :=
          Nat.pow_le_pow_right (by decide) (by omega)
  refine ⟨by omega, Nat.lt_of_lt_of_le root_lt ?_⟩
  calc 2 ^ (512 - half).toNat ≤ 1 * 2 ^ (971 - half).toNat := by
        rw [Nat.one_mul]
        exact Nat.pow_le_pow_right (by decide) (by omega)
    _ ≤ (2 ^ 53 - 1) * 2 ^ (971 - half).toNat := Nat.mul_le_mul_right _ (by decide)

/-- The square root of a number that is not below zero is a number. -/
theorem isNaN_sqrt (number : x.isNaN = false) (defined : ¬ x < 0) : x.sqrt.isNaN = false := by
  change x.toModel.unpack.isNaN = false at number
  change (Float.Model.pack (UnpackedFloat.sqrt Format.binary64 x.toModel.unpack)).isNaN = false
  rw [lt_iff] at defined
  rw [isNaN_pack]
  cases parts : x.toModel.unpack with
  | notANumber =>
    rw [parts] at number
    cases number
  | zero => rfl
  | infinity s =>
    cases s with
    | positive => rfl
    | negative =>
      rw [parts] at defined
      exact absurd rfl defined
  | finite s m e pos =>
    cases s with
    | positive =>
      rcases roundWithAccuracy_cases .positive (sqrtCore Format.binary64 m e).1
        (sqrtCore Format.binary64 m e).2.1 (sqrtCore Format.binary64 m e).2.2 with
        zero | ⟨_, _, _, finite⟩
      · exact congrArg UnpackedFloat.isNaN zero
      · exact congrArg UnpackedFloat.isNaN finite
    | negative =>
      rw [parts] at defined
      exact absurd rfl defined

/-- The square root of a finite double that is not negative is finite. -/
theorem isFinite_sqrt (finite : x.isFinite = true) (defined : ¬ x < 0) :
    x.sqrt.isFinite = true := by
  change x.toModel.unpack.isFinite = true at finite
  rw [lt_iff] at defined
  apply isFinite_pack
  cases parts : x.toModel.unpack with
  | notANumber | infinity =>
    rw [parts] at finite
    cases finite
  | zero => trivial
  | finite s m e pos =>
    cases s with
    | positive =>
      obtain ⟨mantissa_lt, exponent_le⟩ := bounds_of_unpack parts
      exact inRange_roundWithAccuracy _ (belowTop_sqrtCore mantissa_lt exponent_le) _
    | negative =>
      rw [parts] at defined
      exact absurd rfl defined

/-! ### Powers -/

/-- Of two numbers the power at the limits is a number. -/
theorem isNaN_powerAtLimit (base : x.isNaN = false) (exponent : y.isNaN = false) :
    (powerAtLimit x y).isNaN = false := by
  unfold powerAtLimit
  rw [base, exponent]
  simp only [Bool.false_eq_true, if_false]
  split
  · split
    · split
      · exact base
      · exact isNaN_abs base
    · split
      · rfl
      · split <;> rfl
  · split
    · rfl
    · split
      · exact exponent
      · split
        · exact isNaN_neg exponent
        · rfl

/-- A power is finite, unless an argument is infinite or no number. -/
theorem power_cases {z : Float} (found : power x y = .ok z) :
    z.isFinite = true ∨ ¬ (x.isFinite && y.isFinite) = true ∧ z = powerAtLimit x y := by
  unfold power at found
  split at found
  · dsimp only at found
    split at found
    · next finite =>
      cases found
      exact .inl finite
    · split at found <;> cases found
  · next limit =>
    cases found
    exact .inr ⟨limit, rfl⟩

theorem isNaN_of_power {z : Float} (base : x.isNaN = false) (exponent : y.isNaN = false)
    (found : power x y = .ok z) : z.isNaN = false := by
  rcases power_cases found with finite | ⟨_, rfl⟩
  · exact isNaN_of_isFinite finite
  · exact isNaN_powerAtLimit base exponent

theorem isFinite_of_power {z : Float} (base : x.isFinite = true) (exponent : y.isFinite = true)
    (found : power x y = .ok z) : z.isFinite = true := by
  rcases power_cases found with finite | ⟨limit, _⟩
  · exact finite
  · exact absurd (Bool.and_eq_true_iff.2 ⟨base, exponent⟩) limit

/-! ### Counting -/

theorem unpack_one : (1.0 : Float).toModel.unpack = .finite .positive (2 ^ 52) (-52) (by decide) :=
  rfl

/-- One more than a finite double is in range or above zero, before it is put together: below zero
its magnitude has become less. -/
theorem add_one_cases {s : UnpackedFloat.Sign} {m : Nat} {e : Int} {pos : 0 < m} {one : 0 < 2 ^ 52}
    (mantissa_lt : m < 2 ^ 53) (exponent_le : e ≤ 971) :
    InRange (UnpackedFloat.add Format.binary64 (.finite s m e pos)
        (.finite .positive (2 ^ 52) (-52) one)) ∨
      ∃ m' e' pos', UnpackedFloat.add Format.binary64 (.finite s m e pos)
        (.finite .positive (2 ^ 52) (-52) one) = .finite .positive m' e' pos' := by
  unfold UnpackedFloat.add decreaseExponent
  dsimp only
  have shifted : m <<< (e - min e (-52)).toNat ≤ (2 ^ 53 - 1) * 2 ^ (971 - min e (-52)).toNat := by
    rw [Nat.shiftLeft_eq]
    exact Nat.mul_le_mul (Nat.le_sub_one_of_lt mantissa_lt)
      (Nat.pow_le_pow_right (by decide) (by omega))
  have unit_pos : 0 < 2 ^ 52 <<< (-52 - min e (-52)).toNat := by
    rw [Nat.shiftLeft_eq]
    exact Nat.mul_pos one (Nat.two_pow_pos _)
  generalize m <<< (e - min e (-52)).toNat = whole at shifted
  generalize 2 ^ 52 <<< (-52 - min e (-52)).toNat = unit at unit_pos
  unfold UnpackedFloat.normalize
  split
  · next below =>
    have below : s.apply whole + UnpackedFloat.Sign.positive.apply unit < 0 :=
      compare_lt_iff_lt.1 below
    cases s with
    | positive =>
      simp only [UnpackedFloat.Sign.apply] at below
      omega
    | negative =>
      simp only [UnpackedFloat.Sign.apply] at below ⊢
      refine .inl (inRange_round _ ⟨by omega, Nat.lt_of_lt_of_le ?_ shifted⟩)
      omega
  · exact .inl trivial
  · unfold UnpackedFloat.round
    dsimp only
    rcases roundWithAccuracy_cases .positive _ _ _ with zero | finite
    · rw [zero]
      exact .inl trivial
    · exact .inr finite

/-- The sum of a number and one is a number. -/
theorem isNaN_add_one (number : x.isNaN = false) : (x + 1.0).isNaN = false := by
  change x.toModel.unpack.isNaN = false at number
  change (Float.Model.pack (UnpackedFloat.add Format.binary64 x.toModel.unpack
    (1.0 : Float).toModel.unpack)).isNaN = false
  rw [isNaN_pack, unpack_one]
  cases parts : x.toModel.unpack with
  | notANumber =>
    rw [parts] at number
    cases number
  | infinity | zero => rfl
  | finite s m e pos =>
    obtain ⟨mantissa_lt, exponent_le⟩ := bounds_of_unpack parts
    rcases add_one_cases mantissa_lt exponent_le with range | ⟨_, _, _, sum⟩
    · exact range.isNaN
    · rw [sum]
      rfl

/-- The sum of a finite number and one is finite, if it does not exceed a finite bound. -/
theorem isFinite_add_one (finite : x.isFinite = true) (bound : y.isFinite = true)
    (le : x + 1.0 ≤ y) : (x + 1.0).isFinite = true := by
  change x.toModel.unpack.isFinite = true at finite
  change (Float.Model.pack (UnpackedFloat.add Format.binary64 x.toModel.unpack
    (1.0 : Float).toModel.unpack)).isFinite = true
  rw [le_iff] at le
  change (Float.Model.pack (UnpackedFloat.add Format.binary64 x.toModel.unpack
    (1.0 : Float).toModel.unpack)).unpack.le y.toModel.unpack = true at le
  rw [unpack_one] at le ⊢
  cases parts : x.toModel.unpack with
  | notANumber | infinity =>
    rw [parts] at finite
    cases finite
  | zero =>
    apply isFinite_pack
    change (-52 : Int) ≤ 971
    decide
  | finite s m e pos =>
    rw [parts] at le
    obtain ⟨mantissa_lt, exponent_le⟩ := bounds_of_unpack parts
    rcases add_one_cases mantissa_lt exponent_le with range | ⟨m', e', pos', sum⟩
    · exact isFinite_pack range
    · rw [sum] at le ⊢
      -- Only here may the sum have become infinite, and then it is above the bound.
      rcases pack_finite_cases .positive m' e' pos' with ⟨infinite, _⟩ | other
      · change (unpack Format.binary64 (pack Format.binary64 _)).le _ = true at le
        rw [infinite, unpack_packedInfinity] at le
        change y.toModel.unpack.isFinite = true at bound
        cases parts : y.toModel.unpack <;> rw [parts] at bound le
        · cases bound
        · cases bound
        · cases le
        · cases le
      · exact (isFinite_unpack _).2 other

end Operations

end Parlance.Number
