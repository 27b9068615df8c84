import Parlance.Proofs.Sums

/-!
# Counting by one

A range loop counts in doubles.  Between `-2 ^ 53` and `2 ^ 53` one more is a greater double, and
exact if the number is whole.  Beyond, a double is more than one away from its neighbours, and one
more is the same double again, at the latest when it is added for the second time.  So the count
from a finite start goes beyond a finite bound unless it comes to stand still before
(`exists_not_counter_le_iff`).
-/

namespace Parlance.Number

/-- The counter of a range loop after so many rounds. -/
def counter (start : Float) : Nat → Float
  | 0 => start
  | rounds + 1 => counter start rounds + 1.0

/-! ## Small integers -/

theorem toRat_one : toRat 1.0 = 1 := by
  have whole : whole? 1.0 = some 1 := by decide
  rw [(whole?_eq_some_iff.1 whole).2, Int.cast_one]

theorem isFinite_one : (1.0 : Float).isFinite = true := by
  decide

/-- Every natural number up to 2^53 is the size of a double. -/
theorem exists_magnitude_eq {n : Nat} (small : n ≤ 2 ^ 53) :
    ∃ m e, Fits m e ∧ e ≤ 971 ∧ magnitude m e = n := by
  rcases Nat.eq_zero_or_pos n with rfl | some
  · refine ⟨0, -1074, ⟨by decide, by decide, .inr rfl⟩, by decide, ?_⟩
    rw [magnitude_eq_zero_iff.2 rfl, Nat.cast_zero]
  · rcases Nat.lt_or_eq_of_le small with short | rfl
    · obtain ⟨rest, fits⟩ := exists_fits_shifted some short
      refine ⟨_, _, fits, by omega, magnitude_eq_natCast_iff.2 ?_⟩
      rw [show (-(rest : Int)).toNat = 0 by omega, show (-(-(rest : Int))).toNat = rest by omega,
        pow_zero, mul_one]
    · exact ⟨2 ^ 52, 1, fits_power (by decide), by decide, magnitude_eq_natCast_iff.2 rfl⟩

/-- The integers up to `2 ^ 53` are doubles. -/
theorem exists_toRat_eq {n : Int} (small : n.natAbs ≤ 2 ^ 53) :
    ∃ z : Float, z.isFinite = true ∧ toRat z = n := by
  obtain ⟨m, e, fits, bounded, same⟩ := exists_magnitude_eq small
  have parts := parts_ofCode fits bounded (decide (n < 0))
  refine ⟨_, parts.isFinite, ?_⟩
  rw [parts.toRat_eq, signed, same, Nat.cast_natAbs]
  split
  · next below => rw [abs_of_neg (of_decide_eq_true below), Int.cast_neg, neg_neg]
  · next above => rw [abs_of_nonneg (not_lt.1 fun below => above (decide_eq_true below))]

/-- Below `2 ^ 53` one more is exact. -/
theorem whole?_add_one {x : Float} {n : Int} (whole : whole? x = some n) (low : -2 ^ 53 ≤ n)
    (high : n < 2 ^ 53) : whole? (x + 1.0) = some (n + 1) := by
  obtain ⟨finite, rat⟩ := whole?_eq_some_iff.1 whole
  obtain ⟨z, zFinite, same⟩ := @exists_toRat_eq (n + 1) (by omega)
  have sum : toRat x + toRat 1.0 = toRat z := by
    rw [rat, toRat_one, same, Int.cast_add, Int.cast_one]
  obtain ⟨added, exact'⟩ := add_exact finite isFinite_one zFinite sum
  exact whole?_eq_some_iff.2 ⟨added, exact'.trans same⟩

theorem le_iff_of_whole? {x y : Float} {a b : Int} (whole : whole? x = some a)
    (bound : whole? y = some b) : x ≤ y ↔ a ≤ b := by
  obtain ⟨finite, same⟩ := whole?_eq_some_iff.1 whole
  obtain ⟨finite', same'⟩ := whole?_eq_some_iff.1 bound
  rw [le_iff_toRat finite finite', same, same', Int.cast_le]

/-- Up to `2 ^ 53` a counter goes through the whole numbers. -/
theorem whole?_counter {start : Float} {a : Int} (whole : whole? start = some a)
    (low : -2 ^ 53 ≤ a) {k : Nat} (high : a + k ≤ 2 ^ 53) :
    whole? (counter start k) = some (a + k) := by
  induction k with
  | zero => simpa [counter] using whole
  | succ k ih =>
    have before := ih (by omega)
    rw [Nat.cast_succ, ← add_assoc]
    exact whole?_add_one before (by omega) (by omega)

/-- There is no double between `2 ^ 53 - 1` and `2 ^ 53`, which have neighbouring codes. -/
theorem toRat_le_of_lt {x : Float} (finite : x.isFinite = true) (less : toRat x < 2 ^ 53) :
    toRat x ≤ 2 ^ 53 - 1 := by
  by_contra more
  rw [not_le] at more
  obtain ⟨m, e, parts, value⟩ := exists_parts_of_pos finite (lt_trans (by norm_num) more)
  rw [← value] at less more
  have below : Fits (2 ^ 53 - 1) 0 := ⟨by decide, by decide, .inl (by decide)⟩
  have above : Fits (2 ^ 52) 1 := fits_power (by decide)
  have low : codeOf (2 ^ 53 - 1) 0 < codeOf m e := by
    rw [codeOf_lt_codeOf_iff below parts.fits]
    norm_num [magnitude] at more ⊢
    exact more
  have high : codeOf m e < codeOf (2 ^ 52) 1 := by
    rw [codeOf_lt_codeOf_iff parts.fits above]
    norm_num [magnitude] at less ⊢
    exact less
  have next : codeOf (2 ^ 52) 1 = codeOf (2 ^ 53 - 1) 0 + 1 := rfl
  omega

/-- Up to `2 ^ 53` one more leads to the next integer at least, and not beyond `2 ^ 53`. -/
theorem floor_lt_add_one {x : Float} (finite : x.isFinite = true) (low : -2 ^ 53 ≤ toRat x)
    (high : toRat x < 2 ^ 53) :
    (x + 1.0).isFinite = true ∧ (⌊toRat x⌋ + 1 : Int) ≤ toRat (x + 1.0) ∧
      toRat (x + 1.0) ≤ 2 ^ 53 := by
  have up := toRat_le_of_lt finite high
  have floored := Int.floor_le (toRat x)
  have least : -2 ^ 53 ≤ ⌊toRat x⌋ := by
    rw [Int.le_floor]
    exact_mod_cast low
  have greatest : ⌊toRat x⌋ ≤ 2 ^ 53 - 1 := by
    have : (⌊toRat x⌋ : ℚ) ≤ 2 ^ 53 - 1 := floored.trans up
    exact_mod_cast this
  obtain ⟨z, zFinite, same⟩ := @exists_toRat_eq (⌊toRat x⌋ + 1) (by omega)
  obtain ⟨z', zFinite', same'⟩ := @exists_toRat_eq (2 ^ 53) (by decide)
  have between := add_between finite isFinite_one zFinite zFinite'
  rw [same, same', toRat_one] at between
  push_cast at between ⊢
  exact between (by linarith) (by linarith)

/-! ## Great numbers -/

/-- A natural number of more than 53 bits is rounded to its leading 53, up or down by the rest. -/
theorem roundedCode_of_split {q k r : Nat} (full : 2 ^ 52 ≤ q) (short : q < 2 ^ 53)
    (rest : r < 2 ^ k) :
    roundedCode (q * 2 ^ k + r) 0 =
      codeOf (if 2 * r < 2 ^ k then q else if 2 ^ k < 2 * r then q + 1 else q + q % 2) k := by
  have power := Nat.two_pow_pos k
  have log : (q * 2 ^ k + r).log2 = 52 + k := by
    rw [Nat.log2_eq_iff (Nat.add_pos_left (Nat.mul_pos (by omega) power) r).ne', pow_add,
      Nat.add_right_comm, pow_add]
    constructor
    · exact Nat.le_add_right_of_le (Nat.mul_le_mul_right _ full)
    · calc q * 2 ^ k + r < (q + 1) * 2 ^ k := by rw [Nat.succ_mul]; omega
        _ ≤ 2 ^ (52 + 1) * 2 ^ k := Nat.mul_le_mul_right _ short
  have grid : gridExponent (q * 2 ^ k + r) 0 = k := by
    rw [gridExponent, log]
    omega
  have quotient : (q * 2 ^ k + r) / 2 ^ k = q := by
    rw [Nat.mul_comm, Nat.mul_add_div power, Nat.div_eq_of_lt rest, Nat.add_zero]
  have remainder : (q * 2 ^ k + r) % 2 ^ k = r := by
    rw [Nat.mul_comm, Nat.mul_add_mod, Nat.mod_eq_of_lt rest]
  rw [roundedCode, gridMantissa, grid, show (0 - (k : Int)).toNat = 0 by omega,
    show ((k : Int) - 0).toNat = k by omega, pow_zero, mul_one, roundDiv, quotient, remainder]

theorem roundedCode_succ {m k : Nat} (full : 2 ^ 52 ≤ m) (short : m < 2 ^ 53) (great : 1 ≤ k) :
    roundedCode (m * 2 ^ k + 1) 0 = codeOf (if k = 1 then m + m % 2 else m) k := by
  rcases Nat.lt_or_eq_of_le great with greater | rfl
  · have power : 2 ^ 2 ≤ 2 ^ k := Nat.pow_le_pow_right (by decide) greater
    rw [roundedCode_of_split full short (by omega), if_pos (by omega), if_neg (by omega)]
  · rw [roundedCode_of_split full short (by decide)]
    rfl

/-- One below a double of more than 53 bits is rounded up to it again, unless the next one below is
as near. -/
theorem roundedCode_pred {m k : Nat} (full : 2 ^ 52 < m) (short : m < 2 ^ 53) (great : 1 ≤ k) :
    roundedCode (m * 2 ^ k - 1) 0 = codeOf (if k = 1 then m - m % 2 else m) k := by
  have power : 2 ^ 1 ≤ 2 ^ k := Nat.pow_le_pow_right (by decide) great
  have split : m * 2 ^ k - 1 = (m - 1) * 2 ^ k + (2 ^ k - 1) := by
    rw [Nat.sub_one_mul]
    have := Nat.le_mul_of_pos_left (2 ^ k) (show 0 < m by omega)
    omega
  rw [split, roundedCode_of_split (by omega) (by omega) (by omega)]
  rcases Nat.lt_or_eq_of_le great with greater | rfl
  · have power : 2 ^ 2 ≤ 2 ^ k := Nat.pow_le_pow_right (by decide) greater
    rw [if_neg (by omega), if_pos (by omega), if_neg (by omega), Nat.sub_add_cancel (by omega)]
  · change codeOf (m - 1 + (m - 1) % 2) 1 = codeOf (m - m % 2) 1
    congr 1
    omega

/-- The grid is finer below a power of two, and yet one less is the power of two again. -/
theorem roundedCode_pred_power {k : Nat} (great : 2 ≤ k) :
    roundedCode (2 ^ 52 * 2 ^ k - 1) 0 = codeOf (2 ^ 52) k := by
  obtain ⟨j, rfl⟩ := Nat.exists_eq_add_of_le' (Nat.le_of_succ_le great)
  have power : 2 ^ 1 ≤ 2 ^ j := Nat.pow_le_pow_right (by decide) (by omega)
  have split : 2 ^ 52 * 2 ^ (j + 1) - 1 = (2 ^ 53 - 1) * 2 ^ j + (2 ^ j - 1) := by
    rw [pow_succ]
    omega
  have next : codeOf (2 ^ 53) j = codeOf (2 ^ 52) (j + 1 : Nat) := by
    unfold codeOf
    omega
  rw [split, roundedCode_of_split (by decide) (by decide) (by omega), if_neg (by omega)]
  split
  · exact next
  · exact next

section Great

variable {x : Float} {negative : Bool} {m : Nat} {e : Int}

theorem magnitude_natCast (m k : Nat) : magnitude m k = (m * 2 ^ k : Nat) := by
  rw [magnitude, zpow_natCast, Nat.cast_mul, Nat.cast_pow, Nat.cast_ofNat]

/-- On a coarse grid one more than a double is the double itself.  On the grid of the even numbers
it is halfway between two, and becomes the one with the even mantissa. -/
theorem add_one_of_great (parts : Parts x negative m e) (great : 1 ≤ e)
    (beyond : negative = true → e = 1 → 2 ^ 52 < m) :
    x + 1.0 = ofCode negative
      (codeOf (if e = 1 then bif negative then m - m % 2 else m + m % 2 else m) e) := by
  have full : 2 ^ 52 ≤ m := parts.fits.normal.resolve_right (by omega)
  have short := parts.fits.mantissa_lt
  obtain ⟨k, rfl⟩ := Int.eq_ofNat_of_zero_le (show 0 ≤ e by omega)
  have power := Nat.two_pow_pos k
  have large : 2 ^ 52 * 1 ≤ m * 2 ^ k := Nat.mul_le_mul full power
  cases negative with
  | false =>
    have sum : toRat x + toRat 1.0 = signed false (m * 2 ^ k + 1) 0 := by
      rw [parts.toRat_eq, toRat_one]
      change magnitude m k + 1 = magnitude (m * 2 ^ k + 1) (0 : Nat)
      rw [magnitude_natCast, magnitude_natCast, pow_zero, mul_one, Nat.cast_add, Nat.cast_one]
    rw [add_eq_ofCode parts.isFinite isFinite_one (Nat.succ_pos _) sum,
      roundedCode_succ full short (by omega)]
    simp only [Nat.cast_eq_one, cond_false]
  | true =>
    have sum : toRat x + toRat 1.0 = signed true (m * 2 ^ k - 1) 0 := by
      rw [parts.toRat_eq, toRat_one]
      change -magnitude m k + 1 = -magnitude (m * 2 ^ k - 1) (0 : Nat)
      rw [magnitude_natCast, magnitude_natCast, pow_zero, mul_one, Nat.cast_sub (by omega),
        Nat.cast_one]
      ring
    rw [add_eq_ofCode parts.isFinite isFinite_one (by omega) sum]
    rcases Nat.lt_or_eq_of_le full with above | rfl
    · rw [roundedCode_pred above short (by omega)]
      simp only [Nat.cast_eq_one, cond_true]
    · have other : (k : Int) ≠ 1 := fun one => absurd (beyond rfl one) (lt_irrefl _)
      rw [roundedCode_pred_power (by omega), if_neg other]

/-- A double with an exponent of at least one stays the same, except next to 2^53, where odd
mantissas and the negative power of two move. -/
theorem add_one_eq_self (parts : Parts x negative m e) (great : 1 ≤ e)
    (beyond : negative = true → e = 1 → 2 ^ 52 < m) (even : e = 1 → m % 2 = 0) :
    x + 1.0 = x := by
  rw [add_one_of_great parts great beyond]
  split
  · next one =>
    rw [even one, Nat.sub_zero, Nat.add_zero, Bool.cond_self, ← parts.eq_ofCode]
  · exact parts.eq_ofCode.symm

/-- The first step leads to an even mantissa or to a coarser grid. -/
theorem add_one_add_one (parts : Parts x negative m e) (great : 1 ≤ e)
    (beyond : negative = true → e = 1 → 2 ^ 52 + 1 < m) : x + 1.0 + 1.0 = x + 1.0 := by
  have full : 2 ^ 52 ≤ m := parts.fits.normal.resolve_right (by omega)
  have short := parts.fits.mantissa_lt
  have above : negative = true → e = 1 → 2 ^ 52 < m :=
    fun down one => Nat.lt_of_succ_lt (beyond down one)
  by_cases even : e = 1 → m % 2 = 0
  · rw [add_one_eq_self parts great above even, add_one_eq_self parts great above even]
  · obtain ⟨rfl, odd⟩ := Classical.not_imp.1 even
    have step := add_one_of_great parts great above
    rw [if_pos rfl] at step
    cases negative with
    | true =>
      have least := beyond rfl rfl
      have fits : Fits (m - m % 2) 1 := ⟨by omega, by decide, .inl (by omega)⟩
      have parts' := parts_ofCode fits (by decide) true
      rw [step]
      exact add_one_eq_self parts' (le_refl _) (fun _ _ => by omega) (fun _ => by omega)
    | false =>
      rw [step]
      rcases Nat.lt_or_eq_of_le (Nat.succ_le_of_lt short) with room | top
      · have fits : Fits (m + m % 2) 1 := ⟨by omega, by decide, .inl (by omega)⟩
        have parts' := parts_ofCode fits (by decide) false
        exact add_one_eq_self parts' (le_refl _) (fun down => absurd down Bool.false_ne_true)
          (fun _ => by omega)
      · have parts' := parts_ofCode (fits_power (show -1074 ≤ 2 by decide)) (by decide) false
        have next : codeOf (m + m % 2) 1 = codeOf (2 ^ 52) 2 := by
          unfold codeOf
          omega
        rw [cond_false, next]
        exact add_one_eq_self parts' (by decide) (fun down => absurd down Bool.false_ne_true)
          (fun one => absurd one (by decide))

/-- One more is no less, and finite. -/
theorem toRat_le_add_one (finite : x.isFinite = true) :
    (x + 1.0).isFinite = true ∧ toRat x ≤ toRat (x + 1.0) := by
  obtain ⟨negative, m, e, parts⟩ := exists_parts finite
  by_cases coarse : 2 ≤ e
  · rw [add_one_eq_self parts (by omega) (fun _ one => by omega) (fun one => by omega)]
    exact ⟨finite, le_refl _⟩
  · -- So the double is far below the greatest one.
    obtain ⟨z, zFinite, same⟩ : ∃ z : Float, z.isFinite = true ∧ toRat z = 2 ^ 55 := by
      have fits : Fits (2 ^ 52) 3 := fits_power (by decide)
      have parts := parts_ofCode fits (by decide) false
      refine ⟨_, parts.isFinite, parts.toRat_eq.trans ?_⟩
      norm_num [signed, magnitude]
    have below : toRat x < 2 ^ 54 := by
      have fits : Fits (2 ^ 52) 2 := fits_power (by decide)
      calc toRat x ≤ |toRat x| := le_abs_self _
        _ = magnitude m e := parts.abs_toRat
        _ < magnitude (2 ^ 52) 2 := magnitude_lt_of_exponent_lt parts.fits fits (by omega)
        _ = 2 ^ 54 := by norm_num [magnitude]
    have between := add_between finite isFinite_one finite zFinite
    rw [toRat_one, same] at between
    obtain ⟨added, more, -⟩ := between (by linarith) (by linarith)
    exact ⟨added, more⟩

/-! ## The range in which the count goes on -/

theorem magnitude_power : magnitude (2 ^ 52) 1 = 2 ^ 53 := by
  norm_num [magnitude]

theorem magnitude_next : magnitude (2 ^ 52 + 1) 1 = 2 ^ 53 + 2 := by
  norm_num [magnitude]

/-- A double from 2^53 on has an exponent of at least one. -/
theorem great_of_le (finite : x.isFinite = true) (le : 2 ^ 53 ≤ toRat x) :
    ∃ m e, Parts x false m e ∧ 1 ≤ e := by
  obtain ⟨m, e, parts, value⟩ := exists_parts_of_pos finite (lt_of_lt_of_le (by norm_num) le)
  refine ⟨m, e, parts, ?_⟩
  have fits : Fits (2 ^ 52) 1 := fits_power (by decide)
  have code : codeOf (2 ^ 52) 1 = 1076 * 2 ^ 52 := rfl
  rw [← magnitude_power, ← value, ← codeOf_le_codeOf_iff fits parts.fits, code, codeOf] at le
  have short := parts.fits.mantissa_lt
  omega

/-- A double below a bound of at most -2^53 has an exponent of at least one, and with an exponent of
one its mantissa is beyond that of the bound. -/
theorem great_of_lt (finite : x.isFinite = true) {n : Nat} (fits : Fits n 1)
    (less : toRat x < -magnitude n 1) : ∃ m e, Parts x true m e ∧ 1 ≤ e ∧ (e = 1 → n < m) := by
  have below : toRat x < 0 := less.trans_le (neg_nonpos.2 (magnitude_nonneg n 1))
  obtain ⟨m, e, parts, value⟩ := exists_parts_of_neg finite below
  refine ⟨m, e, parts, ?_⟩
  have full : 2 ^ 52 ≤ n := fits.normal.resolve_right (by decide)
  rw [lt_neg, ← value, ← codeOf_lt_codeOf_iff fits parts.fits, codeOf, codeOf] at less
  have short := parts.fits.mantissa_lt
  omega

/-- Far from zero the count stands still after one round. -/
theorem add_one_stays (finite : x.isFinite = true)
    (great : toRat x < -(2 ^ 53 + 2) ∨ 2 ^ 53 ≤ toRat x) : x + 1.0 + 1.0 = x + 1.0 := by
  rcases great with less | le
  · have fits : Fits (2 ^ 52 + 1) 1 := ⟨by decide, by decide, .inl (by decide)⟩
    rw [← magnitude_next] at less
    obtain ⟨m, e, parts, coarse, beyond⟩ := great_of_lt finite fits less
    exact add_one_add_one parts coarse fun _ => beyond
  · obtain ⟨m, e, parts, coarse⟩ := great_of_le finite le
    exact add_one_add_one parts coarse fun down => absurd down Bool.false_ne_true

/-- Doubles of the same value are the same, unless they are zeros. -/
theorem eq_of_toRat_eq {y : Float} (finite : x.isFinite = true) (finite' : y.isFinite = true)
    (same : toRat x = toRat y) (nonzero : toRat y ≠ 0) : x = y := by
  obtain ⟨negative, m, e, parts⟩ := exists_parts finite
  obtain ⟨negative', m', e', parts'⟩ := exists_parts finite'
  have some := Nat.pos_of_ne_zero (mt parts'.toRat_eq_zero_iff.2 nonzero)
  rw [parts.toRat_eq, parts'.toRat_eq] at same
  obtain ⟨rfl, -, magnitudes⟩ := signed_inj some same
  rw [parts.eq_ofCode, parts'.eq_ofCode, Nat.le_antisymm
    ((codeOf_le_codeOf_iff parts.fits parts'.fits).2 magnitudes.le)
    ((codeOf_le_codeOf_iff parts'.fits parts.fits).2 magnitudes.ge)]

/-- The greatest number that the count goes on to. -/
theorem toRat_top :
    (9007199254740992.0 : Float).isFinite = true ∧ toRat 9007199254740992.0 = 2 ^ 53 := by
  have whole : whole? 9007199254740992.0 = some (2 ^ 53) := by decide +kernel
  obtain ⟨finite, same⟩ := whole?_eq_some_iff.1 whole
  exact ⟨finite, same.trans (by norm_num)⟩

/-- The least number from which the count goes on. -/
theorem toRat_bottom :
    (-9007199254740994.0 : Float).isFinite = true ∧
      toRat (-9007199254740994.0) = -(2 ^ 53 + 2) := by
  have whole : whole? (-9007199254740994.0) = some (-(2 ^ 53 + 2)) := by decide +kernel
  obtain ⟨finite, same⟩ := whole?_eq_some_iff.1 whole
  exact ⟨finite, same.trans (by norm_num)⟩

/-- One more than a double up to 2^53 is not above it. -/
theorem add_one_le_of_le (finite : x.isFinite = true) (le : toRat x ≤ 2 ^ 53) :
    toRat (x + 1.0) ≤ 2 ^ 53 := by
  obtain ⟨topFinite, same⟩ := toRat_top
  rcases lt_or_eq_of_le le with less | top
  · have up := toRat_le_of_lt finite less
    have between := add_between finite isFinite_one finite topFinite
    rw [toRat_one, same] at between
    exact (between (by linarith) (by linarith)).2.2
  · have stuck : whole? (9007199254740992.0 + 1.0) = some (2 ^ 53) := by decide +kernel
    have value := (whole?_eq_some_iff.1 stuck).2
    push_cast at value
    rw [eq_of_toRat_eq finite topFinite (top.trans same.symm) (by rw [same]; norm_num)]
    exact value.le

/-- As long as whole numbers are at hand, one more is at least one more after rounding. -/
theorem floor_add_one_le (finite : x.isFinite = true) (low : -(2 ^ 53 + 2) ≤ toRat x)
    (high : toRat x < 2 ^ 53) : ⌊toRat x⌋ + 1 ≤ ⌊toRat (x + 1.0)⌋ := by
  by_cases near : -2 ^ 53 ≤ toRat x
  · exact Int.le_floor.2 (floor_lt_add_one finite near high).2.1
  · -- The only double below is `-2 ^ 53 - 2`, which is rounded up.
    have bottom : toRat x = -(2 ^ 53 + 2) := by
      apply le_antisymm _ low
      have fits : Fits (2 ^ 52) 1 := fits_power (by decide)
      have fits' : Fits (2 ^ 52 + 1) 1 := ⟨by decide, by decide, .inl (by decide)⟩
      rw [not_le, ← magnitude_power] at near
      obtain ⟨m, e, parts, coarse, beyond⟩ := great_of_lt finite fits near
      have short := parts.fits.mantissa_lt
      have full : 2 ^ 52 ≤ m := parts.fits.normal.resolve_right (by omega)
      rw [parts.toRat_eq, ← magnitude_next]
      apply neg_le_neg
      have code : codeOf (2 ^ 52 + 1) 1 = 1076 * 2 ^ 52 + 1 := rfl
      rw [← codeOf_le_codeOf_iff fits' parts.fits, code, codeOf]
      omega
    have next : whole? (-9007199254740994.0 + 1.0) = some (-2 ^ 53) := by decide +kernel
    obtain ⟨bottomFinite, same⟩ := toRat_bottom
    have value := (whole?_eq_some_iff.1 next).2
    rw [eq_of_toRat_eq finite bottomFinite (bottom.trans same.symm) (by rw [same]; norm_num), value,
      same]
    norm_num

end Great

section Count

variable {a b : Float}

theorem isFinite_counter (finite : a.isFinite = true) (n : Nat) :
    (counter a n).isFinite = true := by
  induction n with
  | zero => exact finite
  | succ n ih => exact (toRat_le_add_one ih).1

theorem le_counter (finite : a.isFinite = true) (n : Nat) : toRat a ≤ toRat (counter a n) := by
  induction n with
  | zero => exact le_refl _
  | succ n ih => exact ih.trans (toRat_le_add_one (isFinite_counter finite n)).2

theorem counter_succ (start : Float) (n : Nat) :
    counter (start + 1.0) n = counter start (n + 1) := by
  induction n with
  | zero => rfl
  | succ n ih => rw [counter, ih, counter.eq_def start (n + 1 + 1)]

/-- Up to `2 ^ 53` the count takes in an integer each round. -/
theorem floor_add_le_counter (finite : a.isFinite = true) (low : -(2 ^ 53 + 2) ≤ toRat a) {n : Nat}
    (high : ∀ k < n, toRat (counter a k) < 2 ^ 53) : ⌊toRat a⌋ + n ≤ ⌊toRat (counter a n)⌋ := by
  induction n with
  | zero => simp [counter]
  | succ n ih =>
    have before := ih fun k less => high k (Nat.lt_succ_of_lt less)
    have step := floor_add_one_le (isFinite_counter finite n) (low.trans (le_counter finite n))
      (high n (Nat.lt_succ_self n))
    rw [Nat.cast_succ, ← add_assoc]
    exact (add_le_add_left before 1).trans step

theorem counter_stays (stays : a + 1.0 + 1.0 = a + 1.0) (n : Nat) :
    counter a (n + 1) = a + 1.0 := by
  induction n with
  | zero => rfl
  | succ n ih => rw [counter, ih, stays]

theorem counter_le (finite : a.isFinite = true) (le : toRat a ≤ 2 ^ 53) (n : Nat) :
    toRat (counter a n) ≤ 2 ^ 53 := by
  induction n with
  | zero => exact le
  | succ n ih => exact add_one_le_of_le (isFinite_counter finite n) ih

/-- The count goes beyond the bound after one round, or it starts from where it goes on and the
bound is there too. -/
theorem exists_not_counter_le_iff (finite : a.isFinite = true) (bound : b.isFinite = true) :
    (∃ n, ¬ counter a n ≤ b) ↔
      ¬ a + 1.0 ≤ b ∨ -9007199254740994.0 ≤ a ∧ b < 9007199254740992.0 := by
  obtain ⟨topFinite, top⟩ := toRat_top
  obtain ⟨bottomFinite, bottom⟩ := toRat_bottom
  rw [le_iff_toRat bottomFinite finite, lt_iff_toRat bound topFinite, top, bottom]
  constructor
  · rintro ⟨n, beyond⟩
    by_contra other
    rw [not_or, not_not, not_and_or, not_le, not_lt] at other
    obtain ⟨first, far⟩ := other
    rw [le_iff_toRat (isFinite_counter finite n) bound] at beyond
    rw [le_iff_toRat (toRat_le_add_one finite).1 bound] at first
    by_cases great : toRat a < -(2 ^ 53 + 2) ∨ 2 ^ 53 ≤ toRat a
    · apply beyond
      cases n with
      | zero => exact (toRat_le_add_one finite).2.trans first
      | succ n => rwa [counter_stays (add_one_stays finite great)]
    · rw [not_or, not_lt, not_le] at great
      have high := far.resolve_left (not_lt.2 great.1)
      exact beyond ((counter_le finite great.2.le n).trans high)
  · rintro (beyond | ⟨low, high⟩)
    · exact ⟨1, beyond⟩
    · by_contra never
      rw [not_exists] at never
      have within : ∀ k, toRat (counter a k) ≤ toRat b := fun k => by
        rw [← le_iff_toRat (isFinite_counter finite k) bound]
        exact not_not.1 (never k)
      have grown := @floor_add_le_counter a finite low (⌊toRat b⌋ - ⌊toRat a⌋ + 1).toNat
        fun k _ => (within k).trans_lt high
      have capped := Int.floor_le_floor (within (⌊toRat b⌋ - ⌊toRat a⌋ + 1).toNat)
      omega

end Count

end Parlance.Number
