import Parlance.Proofs.FloatClasses

/-!
# Doubles as rational numbers

A finite double stands for the rational number that its parts spell (`toRat`).  The codes of the
finite doubles are in the order of their magnitudes (`codeOf_le_codeOf_iff`), so the comparisons of
finite doubles are those of rational numbers.
-/

namespace Parlance.Number

open Float.Model (Format UnpackedFloat)
open Float.Model.UnpackedFloat

/-! ## Magnitudes and codes -/

/-- What the parts of a finite double spell without the sign. -/
def magnitude (mantissa : Nat) (exponent : Int) : ℚ :=
  mantissa * 2 ^ exponent

theorem magnitude_nonneg (m : Nat) (e : Int) : 0 ≤ magnitude m e := by
  unfold magnitude
  positivity

theorem magnitude_pos {m : Nat} (some : 0 < m) (e : Int) : 0 < magnitude m e := by
  unfold magnitude
  positivity

theorem magnitude_eq_zero_iff {m : Nat} {e : Int} : magnitude m e = 0 ↔ m = 0 := by
  have power : (2 : ℚ) ^ e ≠ 0 := by positivity
  rw [magnitude, mul_eq_zero, or_iff_left power, Nat.cast_eq_zero]

/-- A magnitude with a sign. -/
def signed (negative : Bool) (m : Nat) (e : Int) : ℚ :=
  if negative then -magnitude m e else magnitude m e

theorem abs_signed (negative : Bool) (m : Nat) (e : Int) :
    |signed negative m e| = magnitude m e := by
  have nonneg := magnitude_nonneg m e
  unfold signed
  split
  · rw [abs_neg, abs_of_nonneg nonneg]
  · exact abs_of_nonneg nonneg

theorem decide_signed_lt_zero {m : Nat} (some : 0 < m) (negative : Bool) (e : Int) :
    decide (signed negative m e < 0) = negative := by
  have positive := magnitude_pos some e
  cases negative
  · exact decide_eq_false positive.le.not_gt
  · exact decide_eq_true (neg_lt_zero.2 positive)

/-- A value that is not zero determines its sign and its size. -/
theorem signed_inj {negative negative' : Bool} {m m' : Nat} {e e' : Int} (some : 0 < m)
    (same : signed negative' m' e' = signed negative m e) :
    negative' = negative ∧ 0 < m' ∧ magnitude m' e' = magnitude m e := by
  have magnitudes : magnitude m' e' = magnitude m e := by rw [← abs_signed, same, abs_signed]
  have some' : 0 < m' := by
    rw [Nat.pos_iff_ne_zero, ne_eq, ← @magnitude_eq_zero_iff m' e', magnitudes]
    exact (magnitude_pos some e).ne'
  refine ⟨?_, some', magnitudes⟩
  rw [← decide_signed_lt_zero some' negative' e', same, decide_signed_lt_zero some]

/-- Two magnitudes have a grid in common. -/
theorem magnitude_eq_aligned (m : Nat) (e e' : Int) :
    magnitude m e = (m * 2 ^ (e - e').toNat : Nat) * 2 ^ min e e' := by
  have shift : (2 : ℚ) ^ e = 2 ^ (e - e').toNat * 2 ^ min e e' := by
    rw [← zpow_natCast, ← zpow_add₀ two_ne_zero]
    congr 1
    omega
  rw [magnitude, shift, ← mul_assoc]
  push_cast
  rfl

theorem magnitude_le_magnitude_iff {m m' : Nat} {e e' : Int} :
    magnitude m e ≤ magnitude m' e' ↔ m * 2 ^ (e - e').toNat ≤ m' * 2 ^ (e' - e).toNat := by
  have positive : (0 : ℚ) < 2 ^ min e e' := by positivity
  rw [magnitude_eq_aligned m e e', magnitude_eq_aligned m' e' e, min_comm e' e,
    mul_le_mul_iff_left₀ positive, Nat.cast_le]

theorem fits_power {e : Int} (low : -1074 ≤ e) : Fits (2 ^ 52) e :=
  ⟨by decide, low, .inl (le_refl _)⟩

/-- With the smaller exponent the magnitude is smaller, as the greater one has a full mantissa. -/
theorem magnitude_lt_of_exponent_lt {m m' : Nat} {e e' : Int} (fits : Fits m e) (fits' : Fits m' e')
    (less : e < e') : magnitude m e < magnitude m' e' := by
  have full : 2 ^ 52 ≤ m' := by
    rcases fits'.normal with full | least
    · exact full
    · have := fits.le_exponent
      omega
  have short : (m : ℚ) < 2 ^ 53 := by exact_mod_cast fits.mantissa_lt
  have full : (2 : ℚ) ^ 52 ≤ m' := by exact_mod_cast full
  have shift : (2 : ℚ) ^ (e + 1) ≤ 2 ^ e' := zpow_le_zpow_right₀ (by norm_num) (by omega)
  have positive : (0 : ℚ) < 2 ^ e := by positivity
  calc magnitude m e < 2 ^ 53 * 2 ^ e := mul_lt_mul_of_pos_right short positive
    _ = 2 ^ 52 * 2 ^ (e + 1) := by
      rw [zpow_add_one₀ two_ne_zero]
      ring
    _ ≤ magnitude m' e' := mul_le_mul full shift (by positivity) (by positivity)

theorem codeOf_lt_of_exponent_lt {m m' : Nat} {e e' : Int} (fits : Fits m e) (fits' : Fits m' e')
    (less : e < e') : codeOf m e < codeOf m' e' := by
  have short := fits.mantissa_lt
  have low := fits.le_exponent
  have full : 2 ^ 52 ≤ m' := fits'.normal.resolve_right (by omega)
  unfold codeOf
  omega

/-- The codes are in the order of the magnitudes. -/
theorem codeOf_lt_codeOf_iff {m m' : Nat} {e e' : Int} (fits : Fits m e) (fits' : Fits m' e') :
    codeOf m e < codeOf m' e' ↔ magnitude m e < magnitude m' e' := by
  rcases lt_trichotomy e e' with less | rfl | more
  · exact iff_of_true (codeOf_lt_of_exponent_lt fits fits' less)
      (magnitude_lt_of_exponent_lt fits fits' less)
  · have positive : (0 : ℚ) < 2 ^ e := by positivity
    rw [magnitude, magnitude, mul_lt_mul_iff_left₀ positive, Nat.cast_lt, codeOf, codeOf]
    omega
  · exact iff_of_false (codeOf_lt_of_exponent_lt fits' fits more).not_gt
      (magnitude_lt_of_exponent_lt fits' fits more).not_gt

theorem codeOf_le_codeOf_iff {m m' : Nat} {e e' : Int} (fits : Fits m e) (fits' : Fits m' e') :
    codeOf m e ≤ codeOf m' e' ↔ magnitude m e ≤ magnitude m' e' := by
  rw [← not_lt, ← not_lt, codeOf_lt_codeOf_iff fits' fits]

theorem codeOf_lt_endCode {m : Nat} {e : Int} (fits : Fits m e) :
    codeOf m e < endCode ↔ e ≤ 971 := by
  have short := fits.mantissa_lt
  have low := fits.le_exponent
  have normal := fits.normal
  unfold codeOf endCode
  omega

/-- Every code belongs to parts in normal form. -/
theorem exists_fits_codeOf (code : Nat) : ∃ m e, Fits m e ∧ codeOf m e = code := by
  by_cases small : code < 2 ^ 52
  · refine ⟨code, -1074, ⟨by omega, le_refl _, .inr rfl⟩, ?_⟩
    simp [codeOf]
  · refine ⟨2 ^ 52 + code % 2 ^ 52, code / 2 ^ 52 - 1075, ⟨by omega, by omega, .inl (by omega)⟩, ?_⟩
    unfold codeOf
    omega

/-! ## Shapes -/

/-- The parts of a finite double are found again in its bits. -/
theorem shape_ofCode {m : Nat} {e : Int} (fits : Fits m e) (bounded : e ≤ 971) (negative : Bool) :
    shape (ofCode negative (codeOf m e)) = .finite negative m e := by
  have inside : min (codeOf m e) endCode = codeOf m e :=
    Nat.min_eq_left (Nat.le_of_lt ((codeOf_lt_endCode fits).2 bounded))
  obtain ⟨short, low, normal⟩ := fits
  obtain ⟨shifted, counted⟩ : ∃ k : Nat, (e + 1074).toNat = k := ⟨_, rfl⟩
  have code : codeOf m e = shifted * 2 ^ 52 + m := by rw [codeOf, counted]
  have sign : decide (2 ^ 63 ≤ (if negative then 2 ^ 63 else 0) + codeOf m e) = negative := by
    cases negative
    · simp
      omega
    · simp
  have biased : ((if negative then 2 ^ 63 else 0) + codeOf m e) / 2 ^ 52 % 2 ^ 11 =
      codeOf m e / 2 ^ 52 := by
    split <;> omega
  have fraction : ((if negative then 2 ^ 63 else 0) + codeOf m e) % 2 ^ 52 = m % 2 ^ 52 := by
    split <;> omega
  unfold shape
  rw [toNat_toBits_ofCode, inside]
  simp only [Nat.shiftRight_eq_div_pow, Nat.shiftLeft_eq, one_mul, sign, biased, fraction]
  rw [if_neg (by omega)]
  split
  · next least =>
    congr 1 <;> omega
  · next greater =>
    congr 1 <;> omega

/-- The double is finite, and these are its parts. -/
structure Parts (x : Float) (negative : Bool) (m : Nat) (e : Int) : Prop where
  shape_eq : shape x = .finite negative m e
  fits : Fits m e
  bounded : e ≤ 971
  eq_ofCode : x = ofCode negative (codeOf m e)

theorem parts_ofCode {m : Nat} {e : Int} (fits : Fits m e) (bounded : e ≤ 971) (negative : Bool) :
    Parts (ofCode negative (codeOf m e)) negative m e :=
  ⟨shape_ofCode fits bounded negative, fits, bounded, rfl⟩

theorem Parts.isFinite {x : Float} {negative : Bool} {m : Nat} {e : Int}
    (parts : Parts x negative m e) : x.isFinite = true := by
  rw [parts.eq_ofCode, isFinite_ofCode, codeOf_lt_endCode parts.fits]
  exact parts.bounded

/-- A finite shape gives the sign, the mantissa and the exponent of the double. -/
theorem parts_of_shape {x : Float} {negative : Bool} {m : Nat} {e : Int}
    (form : shape x = .finite negative m e) : Parts x negative m e := by
  have shown := shape_shows x
  rw [form] at shown
  obtain ⟨fits, same⟩ := shown
  refine ⟨form, fits, ?_, same⟩
  have biased : x.toBits.toNat >>> 52 % (1 <<< 11) < 2048 := Nat.mod_lt _ (by decide)
  unfold shape at form
  dsimp only at form
  split at form
  · split at form <;> cases form
  · split at form
    · cases form
      decide
    · cases form
      omega

theorem exists_parts {x : Float} (finite : x.isFinite = true) :
    ∃ negative m e, Parts x negative m e := by
  have shown := shape_shows x
  cases form : shape x with
  | nan =>
    rw [form] at shown
    rw [shown] at finite
    exact absurd finite (by decide)
  | infinite negative =>
    rw [form] at shown
    rw [shown, isFinite_ofCode] at finite
    exact absurd finite (lt_irrefl _)
  | finite negative m e => exact ⟨negative, m, e, parts_of_shape form⟩

/-! ## Rational numbers -/

/-- The rational number that a finite double stands for. -/
def toRat (x : Float) : ℚ :=
  match shape x with
  | .finite negative m e => signed negative m e
  | _ => 0

theorem Parts.toRat_eq {x : Float} {negative : Bool} {m : Nat} {e : Int}
    (parts : Parts x negative m e) : toRat x = signed negative m e := by
  rw [toRat, parts.shape_eq]

theorem Parts.abs_toRat {x : Float} {negative : Bool} {m : Nat} {e : Int}
    (parts : Parts x negative m e) : |toRat x| = magnitude m e := by
  rw [parts.toRat_eq, abs_signed]

theorem Parts.toRat_eq_zero_iff {x : Float} {negative : Bool} {m : Nat} {e : Int}
    (parts : Parts x negative m e) : toRat x = 0 ↔ m = 0 := by
  rw [← abs_eq_zero, parts.abs_toRat, magnitude_eq_zero_iff]

theorem Parts.decide_toRat_lt_zero {x : Float} {negative : Bool} {m : Nat} {e : Int}
    (parts : Parts x negative m e) (nonzero : toRat x ≠ 0) :
    decide (toRat x < 0) = negative := by
  have some := Nat.pos_of_ne_zero (mt parts.toRat_eq_zero_iff.2 nonzero)
  rw [parts.toRat_eq, decide_signed_lt_zero some]

theorem exists_parts_of_pos {x : Float} (finite : x.isFinite = true) (positive : 0 < toRat x) :
    ∃ m e, Parts x false m e ∧ magnitude m e = toRat x := by
  obtain ⟨negative, m, e, parts⟩ := exists_parts finite
  have sign := parts.decide_toRat_lt_zero positive.ne'
  rw [decide_eq_false positive.not_gt] at sign
  subst sign
  exact ⟨m, e, parts, parts.toRat_eq.symm⟩

/-- A double below zero has the negative sign, and its size is its value turned round. -/
theorem exists_parts_of_neg {x : Float} (finite : x.isFinite = true) (below : toRat x < 0) :
    ∃ m e, Parts x true m e ∧ magnitude m e = -toRat x := by
  obtain ⟨negative, m, e, parts⟩ := exists_parts finite
  have sign := parts.decide_toRat_lt_zero below.ne
  rw [decide_eq_true below] at sign
  subst sign
  refine ⟨m, e, parts, ?_⟩
  rw [parts.toRat_eq]
  exact (neg_neg _).symm

theorem codeOf_zero : codeOf 0 (-1074) = 0 := by
  simp [codeOf]

theorem Parts.codeOf_of_toRat {x : Float} {negative : Bool} {m : Nat} {e : Int}
    (parts : Parts x negative m e) (zero : toRat x = 0) : codeOf m e = 0 := by
  obtain rfl := parts.toRat_eq_zero_iff.1 zero
  rw [parts.fits.normal.resolve_left (by decide), codeOf_zero]

theorem toRat_ofCode_zero (negative : Bool) : toRat (ofCode negative 0) = 0 := by
  have fits : Fits 0 (-1074) := ⟨by decide, by decide, .inr rfl⟩
  have parts := parts_ofCode fits (by decide) negative
  rw [codeOf_zero] at parts
  exact parts.toRat_eq_zero_iff.2 rfl

theorem toRat_zero : toRat 0.0 = 0 :=
  toRat_ofCode_zero false

/-! ## Taking apart -/

/-- The sign of a double that is taken apart. -/
def signOf (negative : Bool) : UnpackedFloat.Sign :=
  if negative then .negative else .positive

/-- What a double is taken apart into. -/
def Shape.unpacked : Shape → UnpackedFloat
  | .nan => .notANumber
  | .infinite negative => .infinity (signOf negative)
  | .finite negative m e =>
    if some : 0 < m then .finite (signOf negative) m e some else .zero (signOf negative)

theorem toNat_unpackSign (b : UInt64) :
    (@unpackSign Format.binary64 b.toBitVec).toNat = b.toNat / 2 ^ 63 := by
  have word : b.toNat < 2 ^ 64 := b.toNat_lt
  rw [unpackSign_def, BitVec.extractLsb'_toNat, Nat.shiftRight_eq_div_pow]
  change b.toNat / 2 ^ 63 % 2 = _
  omega

/-- The sign is the highest bit. -/
theorem ofBitVec_unpackSign (b : UInt64) :
    UnpackedFloat.Sign.ofBitVec (@unpackSign Format.binary64 b.toBitVec) =
      signOf (decide (2 ^ 63 ≤ b.toNat)) := by
  have clear : @unpackSign Format.binary64 b.toBitVec = 0#1 ↔ ¬ 2 ^ 63 ≤ b.toNat := by
    rw [← BitVec.toNat_inj, toNat_unpackSign]
    change b.toNat / 2 ^ 63 = 0 ↔ _
    omega
  simp only [Sign.ofBitVec, clear, signOf, decide_eq_true_eq, ite_not]

/-- The digit in front of the stored ones. -/
theorem toNat_one_append (v : BitVec 52) : (1#1 ++ v).toNat = 2 ^ 52 + v.toNat := by
  rw [BitVec.toNat_append, ← Nat.shiftLeft_add_eq_or_of_lt v.isLt]
  rfl

/-- The library's reading of the bits and the one by fields agree. -/
theorem unpack_eq_unpacked (x : Float) : x.toModel.unpack = (shape x).unpacked := by
  have exponent := toNat_unpackExponent x.toBits
  have mantissa := toNat_unpackMantissa x.toBits
  have sign := ofBitVec_unpackSign x.toBits
  have full : @unpackExponent Format.binary64 x.toBits.toBitVec = -1#11 ↔
      x.toBits.toNat / 2 ^ 52 % 2 ^ 11 = 2047 := by
    rw [← BitVec.toNat_inj, exponent]
    rfl
  have least : @unpackExponent Format.binary64 x.toBits.toBitVec = 0#11 ↔
      x.toBits.toNat / 2 ^ 52 % 2 ^ 11 = 0 := by
    rw [← BitVec.toNat_inj, exponent]
    rfl
  have none : @unpackMantissa Format.binary64 x.toBits.toBitVec = 0#52 ↔
      x.toBits.toNat % 2 ^ 52 = 0 := by
    rw [← BitVec.toNat_inj, mantissa]
    rfl
  have bias : (Format.binary64.exponentBias : Int) = 1023 := rfl
  change unpack Format.binary64 x.toBits.toBitVec = _
  unfold unpack shape
  simp only [Nat.shiftRight_eq_div_pow, Nat.shiftLeft_eq, one_mul, sign, full, least, none]
  split
  · split <;> rfl
  · split
    · split
      · rw [Shape.unpacked, dif_neg (by omega)]
      · next stored some =>
        rw [Shape.unpacked, dif_pos (by omega), UnpackedFloat.finite.injEq, mantissa, exponent]
        exact ⟨rfl, rfl, by omega⟩
    · rw [Shape.unpacked, dif_pos (by omega), UnpackedFloat.finite.injEq, exponent,
        toNat_one_append, mantissa]
      exact ⟨rfl, rfl, by omega⟩

/-- A finite double that is taken apart is zero or has a sign, and then its parts are in normal
form. -/
theorem unpack_cases {x : Float} (finite : x.isFinite = true) :
    (∃ s, x.toModel.unpack = .zero s ∧ toRat x = 0) ∨
      (∃ m e some, x.toModel.unpack = .finite .positive m e some ∧ Fits m e ∧
        toRat x = magnitude m e) ∨
      ∃ m e some, x.toModel.unpack = .finite .negative m e some ∧ Fits m e ∧
        toRat x = -magnitude m e := by
  obtain ⟨negative, m, e, parts⟩ := exists_parts finite
  rw [unpack_eq_unpacked, parts.toRat_eq, parts.shape_eq, Shape.unpacked]
  rcases Nat.eq_zero_or_pos m with rfl | some
  · refine .inl ⟨signOf negative, rfl, ?_⟩
    simp [signed, magnitude]
  · rw [dif_pos some]
    cases negative
    · exact .inr (.inl ⟨m, e, some, rfl, parts.fits, rfl⟩)
    · exact .inr (.inr ⟨m, e, some, rfl, parts.fits, rfl⟩)

/-! ## Comparisons -/

/-- Canonical pairs are ordered by exponent and then by mantissa, as their sizes are. -/
theorem then_compare_eq {m m' : Nat} {e e' : Int} (fits : Fits m e) (fits' : Fits m' e') :
    (compare e e').then (compare m m') = compare (magnitude m e) (magnitude m' e') := by
  rcases lt_trichotomy e e' with less | rfl | more
  · rw [compare_lt_iff_lt.2 less, compare_lt_iff_lt.2 (magnitude_lt_of_exponent_lt fits fits' less)]
    rfl
  · have positive : (0 : ℚ) < 2 ^ e := by positivity
    have scaled := cmp_mul_pos_right positive (m : ℚ) m'
    have cast := (Nat.strictMono_cast (α := ℚ)).cmp_map_eq m m'
    simp only [cmp_eq_compare] at scaled cast
    rw [compare_eq_iff_eq.2 rfl, magnitude, magnitude, scaled, cast]
    rfl
  · rw [compare_gt_iff_gt.2 more, compare_gt_iff_gt.2 (magnitude_lt_of_exponent_lt fits' fits more)]
    rfl

/-- Negation turns an order round. -/
theorem compare_neg_neg (a b : ℚ) : compare (-a) (-b) = (compare a b).swap := by
  rcases lt_trichotomy a b with less | rfl | more
  · rw [compare_lt_iff_lt.2 less, compare_gt_iff_gt.2 (neg_lt_neg less)]
    rfl
  · rw [compare_eq_iff_eq.2 rfl, compare_eq_iff_eq.2 rfl]
    rfl
  · rw [compare_gt_iff_gt.2 more, compare_lt_iff_lt.2 (neg_lt_neg more)]
    rfl

/-- Finite doubles are compared as the rational numbers that they stand for. -/
theorem compare_eq {x y : Float} (finite : x.isFinite = true) (finite' : y.isFinite = true) :
    x.toModel.unpack.compare y.toModel.unpack = some (compare (toRat x) (toRat y)) := by
  rcases unpack_cases finite with ⟨s, form, rat⟩ | ⟨m, e, some, form, fits, rat⟩ |
    ⟨m, e, some, form, fits, rat⟩
  · rw [form, rat]
    rcases unpack_cases finite' with ⟨s', form', rat'⟩ | ⟨m', e', some', form', -, rat'⟩ |
      ⟨m', e', some', form', -, rat'⟩
    · rw [form', rat', compare_eq_iff_eq.2 rfl]
      rfl
    · rw [form', rat', compare_lt_iff_lt.2 (magnitude_pos some' e')]
      rfl
    · rw [form', rat', compare_gt_iff_gt.2 (neg_lt_zero.2 (magnitude_pos some' e'))]
      rfl
  · have above := magnitude_pos some e
    rw [form, rat]
    rcases unpack_cases finite' with ⟨s', form', rat'⟩ | ⟨m', e', some', form', fits', rat'⟩ |
      ⟨m', e', some', form', -, rat'⟩
    · rw [form', rat', compare_gt_iff_gt.2 above]
      rfl
    · rw [form', rat', ← then_compare_eq fits fits']
      rfl
    · have below := neg_lt_zero.2 (magnitude_pos some' e')
      rw [form', rat', compare_gt_iff_gt.2 (below.trans above)]
      rfl
  · have below := neg_lt_zero.2 (magnitude_pos some e)
    rw [form, rat]
    rcases unpack_cases finite' with ⟨s', form', rat'⟩ | ⟨m', e', some', form', -, rat'⟩ |
      ⟨m', e', some', form', fits', rat'⟩
    · rw [form', rat', compare_lt_iff_lt.2 below]
      rfl
    · rw [form', rat', compare_lt_iff_lt.2 (below.trans (magnitude_pos some' e'))]
      rfl
    · rw [form', rat', compare_neg_neg, ← then_compare_eq fits fits']
      rfl

theorem le_iff_toRat {x y : Float} (finite : x.isFinite = true) (finite' : y.isFinite = true) :
    x ≤ y ↔ toRat x ≤ toRat y := by
  rw [le_iff, UnpackedFloat.le, compare_eq finite finite', Option.any_some,
    Std.LawfulBCmp.isLE_iff_le]

theorem lt_iff_toRat {x y : Float} (finite : x.isFinite = true) (finite' : y.isFinite = true) :
    x < y ↔ toRat x < toRat y := by
  rw [lt_iff, UnpackedFloat.lt, compare_eq finite finite', beq_iff_eq, Option.some_inj,
    compare_lt_iff_lt]

theorem beq_iff_toRat {x y : Float} (finite : x.isFinite = true) (finite' : y.isFinite = true) :
    (x == y) = true ↔ toRat x = toRat y := by
  change x.toModel.unpack.beq y.toModel.unpack = true ↔ _
  rw [UnpackedFloat.beq, compare_eq finite finite', beq_iff_eq, Option.some_inj,
    compare_eq_iff_eq]

/-! ## Whole numbers -/

theorem magnitude_eq_natCast_iff {m n : Nat} {e : Int} :
    magnitude m e = n ↔ m * 2 ^ e.toNat = n * 2 ^ (-e).toNat := by
  have places : (0 : ℚ) < 2 ^ (-e).toNat := by positivity
  rw [magnitude, two_zpow_eq, ← mul_div_assoc, div_eq_iff places.ne']
  exact_mod_cast Iff.rfl

/-- A magnitude with places below the point is whole if these places are all zero. -/
theorem magnitude_eq_natCast_iff_places {m n : Nat} {e : Int} :
    magnitude m e = n ↔ m % 2 ^ (-e).toNat = 0 ∧ m / 2 ^ (-e).toNat * 2 ^ e.toNat = n := by
  rw [magnitude_eq_natCast_iff]
  rcases le_or_gt 0 e with whole | part
  · rw [show (-e).toNat = 0 by omega, pow_zero, mul_one, Nat.mod_one, Nat.div_one]
    exact (and_iff_right rfl).symm
  · rw [show e.toNat = 0 by omega, pow_zero, mul_one, mul_one]
    constructor
    · rintro rfl
      exact ⟨Nat.mul_mod_left _ _, Nat.mul_div_cancel _ (by positivity)⟩
    · rintro ⟨divides, rfl⟩
      exact (Nat.div_mul_cancel (Nat.dvd_of_mod_eq_zero divides)).symm

theorem Parts.magnitude_eq_natAbs {x : Float} {negative : Bool} {m : Nat} {e n : Int}
    (parts : Parts x negative m e) (rat : toRat x = n) : magnitude m e = n.natAbs := by
  rw [← parts.abs_toRat, rat, Nat.cast_natAbs, Int.cast_abs]

/-- A double is taken for a whole number exactly if its value is that number. -/
theorem Parts.whole?_eq_some_iff {x : Float} {negative : Bool} {m : Nat} {e : Int}
    (parts : Parts x negative m e) {n : Int} : whole? x = some n ↔ toRat x = n := by
  unfold whole?
  rw [parts.shape_eq]
  simp only [Nat.shiftLeft_eq, one_mul]
  split
  · next divides =>
    have natural := magnitude_eq_natCast_iff_places.2 ⟨divides, rfl⟩
    rw [parts.toRat_eq, signed, natural, Option.some_inj, ← Int.cast_natCast (R := ℚ)]
    split
    · rw [← Int.cast_neg (R := ℚ), Int.cast_inj]
    · exact Int.cast_inj.symm
  · next other =>
    refine iff_of_false (Option.some_ne_none n).symm fun rat => ?_
    exact other (magnitude_eq_natCast_iff_places.1 (parts.magnitude_eq_natAbs rat)).1

/-- The whole numbers among the finite doubles. -/
theorem whole?_eq_some_iff {x : Float} {n : Int} :
    whole? x = some n ↔ x.isFinite = true ∧ toRat x = n := by
  constructor
  · intro whole
    cases form : shape x with
    | nan | infinite =>
      rw [whole?, form] at whole
      cases whole
    | finite negative m e =>
      have parts := parts_of_shape form
      exact ⟨parts.isFinite, parts.whole?_eq_some_iff.1 whole⟩
  · rintro ⟨finite, rat⟩
    obtain ⟨negative, m, e, parts⟩ := exists_parts finite
    exact parts.whole?_eq_some_iff.2 rat

end Parlance.Number
