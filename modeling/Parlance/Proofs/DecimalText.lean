import Mathlib
import Parlance.Json.Reader
import Parlance.Json.Writer
import Parlance.Proofs.Rounding

/-!
# Numbers read back from their texts

A double is written with the fewest digits that read back as it, with a point or with an exponent,
and an integer with all its digits.  Whatever follows, as long as it cannot go on with the number,
the reader of JSON values takes off exactly what was written and returns the same number.

The digits read back because every candidate of the search is tried before it is taken, and the
exact expansion, which stands in should the search fail, is rounded to the double itself.
-/

namespace Parlance.Number

/-! ## The fewest digits -/

/-- Digits that are found on a grid read back as the double. -/
theorem onGrid?_readsBack {x : Float} {num den digits : Nat} {exponent : Int}
    (found : onGrid? x num den exponent = some digits) : readsBack x digits exponent = true := by
  unfold onGrid? at found
  simp only at found
  generalize magnify 10 num (-exponent).toNat = num at found
  generalize magnify 10 den exponent.toNat = den at found
  split at found
  case h_1 below above =>
    -- both neighbours read back, and rounding gives one of them
    cases found
    have neighbour : roundDiv num den = num / den ∨ roundDiv num den = num / den + 1 := by
      simp only [roundDiv]
      split
      · exact Or.inl rfl
      · split
        · exact Or.inr rfl
        · omega
    rcases neighbour with down | up
    · rwa [down]
    · rwa [up]
  case h_2 below above =>
    cases found
    exact below
  case h_3 below above =>
    cases found
    exact above
  case h_4 => cases found

/-- Digits that the search ends with read back as the double. -/
theorem searchGrids_readsBack {x : Float} {num den tries digits : Nat} {exponent scale : Int}
    (found : searchGrids x num den exponent tries = some (digits, scale)) :
    readsBack x digits scale = true := by
  induction tries generalizing exponent with
  | zero => cases found
  | succ tries ih =>
    rw [searchGrids] at found
    split at found
    case h_1 hit =>
      cases found
      exact onGrid?_readsBack hit
    case h_2 => exact ih found

/-- The exact expansion of a double reads back. -/
theorem ofDecimal_expansion {mantissa : Nat} {exponent : Int} (fits : Fits mantissa exponent)
    (negative : Bool) :
    ofDecimal negative (magnify 5 (mantissa <<< exponent.toNat) (-exponent).toNat)
      (min exponent 0) = ofCode negative (codeOf mantissa exponent) := by
  have up : (min exponent 0).toNat = 0 := by omega
  have down : (-(min exponent 0)).toNat = (-exponent).toNat := by omega
  rw [ofDecimal_eq_nearest, magnify_eq, up, down, pow_zero, mul_one]
  apply nearest_eq_ofCode fits negative (by positivity)
  rw [Nat.shiftLeft_eq, mul_assoc, ← mul_pow]
  rfl

/-- The fewest digits read back as the double that they were found for. -/
theorem ofDecimal_shortest {mantissa : Nat} {exponent : Int} (fits : Fits mantissa exponent)
    (negative : Bool) :
    ofDecimal negative (shortest mantissa exponent).1 (shortest mantissa exponent).2 =
      ofCode negative (codeOf mantissa exponent) := by
  unfold shortest
  simp only
  cases found : searchGrids (scaled false mantissa exponent) (ratio mantissa exponent).1
      (ratio mantissa exponent).2
      (decimalLog (ratio mantissa exponent).1 (ratio mantissa exponent).2 - 1) 17 with
  | none => exact ofDecimal_expansion fits negative
  | some decimal =>
    obtain ⟨digits, scale⟩ := decimal
    have same : ofDecimal false digits scale = scaled false mantissa exponent := by
      apply Float.toBits_inj.1
      exact beq_iff_eq.1 (searchGrids_readsBack found)
    rw [scaled_eq_ofCode fits] at same
    exact ofDecimal_eq_ofCode negative same

/-- A double that is not zero has digits that are not zero. -/
theorem shortest_pos {mantissa : Nat} {exponent : Int} (fits : Fits mantissa exponent)
    (some : 0 < mantissa) : 0 < (shortest mantissa exponent).1 := by
  apply Nat.pos_of_ne_zero
  intro zero
  have same := ofDecimal_shortest fits false
  rw [zero] at same
  have codes : min 0 endCode = min (codeOf mantissa exponent) endCode := by
    have bits := congrArg (fun x => x.toBits.toNat) same
    simpa [ofDecimal, toNat_toBits_ofCode] using bits
  have : mantissa ≤ codeOf mantissa exponent := Nat.le_add_left _ _
  have : 0 < endCode := by decide
  omega

/-! ## Rows of digits -/

theorem toNat_of_isDigit {c : Char} (digit : c.isDigit = true) : 48 ≤ c.toNat ∧ c.toNat ≤ 57 := by
  obtain ⟨low, high⟩ := Bool.and_eq_true_iff.1 digit
  exact ⟨of_decide_eq_true low, of_decide_eq_true high⟩

/-- The values of a row of digits. -/
def values (cs : List Char) : List Nat :=
  cs.map fun c => c.toNat - 48

theorem values_append (cs ds : List Char) : values (cs ++ ds) = values cs ++ values ds :=
  List.map_append

theorem length_values (cs : List Char) : (values cs).length = cs.length :=
  List.length_map _

theorem ofDigits_values (cs : List Char) : ofDigits (values cs) = Nat.ofDigitChars 10 cs 0 := by
  rw [Nat.ofDigitChars_eq_foldl, ofDigits, values, List.foldl_map]
  rfl

/-- A row of digits ends where no digit follows. -/
theorem spanDigits_row {value? : Char → Option Nat} {cs rest : List Char}
    (digits : ∀ c ∈ cs, value? c = some (c.toNat - 48))
    (stop : ∀ c ∈ rest.head?, value? c = none) :
    spanDigits value? (cs ++ rest) = (values cs, rest) := by
  induction cs with
  | nil =>
    cases rest with
    | nil => rfl
    | cons c rest => simp [spanDigits, stop c rfl, values]
  | cons c cs ih =>
    rw [List.forall_mem_cons] at digits
    simp [spanDigits, digits.1, ih digits.2, values]

theorem spanDigits_append {cs rest : List Char} (digits : ∀ c ∈ cs, c.isDigit = true)
    (stop : ∀ c ∈ rest.head?, c.isDigit = false) :
    spanDigits asciiDigit? (cs ++ rest) = (values cs, rest) := by
  refine spanDigits_row (fun c mem => ?_) fun c first => ?_
  · rw [asciiDigit?, if_pos (digits c mem)]
  · rw [asciiDigit?, stop c first, if_neg Bool.false_ne_true]

theorem isDigit_of_mem_zeros {n : Nat} {c : Char} (mem : c ∈ List.replicate n '0') :
    c.isDigit = true := by
  rw [List.eq_of_mem_replicate mem]
  rfl

/-- The digits of a decimal: some, and not a zero in front. -/
structure Leads (cs : List Char) : Prop where
  digits : ∀ c ∈ cs, c.isDigit = true
  front : ∃ c rest, cs = c :: rest ∧ c ≠ '0'

/-- The digits of a positive number begin with one that is not zero. -/
theorem leads_toDigits {n : Nat} (pos : 0 < n) : Leads (Nat.toDigits 10 n) := by
  refine ⟨fun c mem => Nat.isDigit_of_mem_toDigits (by decide) (by decide) mem, ?_⟩
  induction n using Nat.strong_induction_on with
  | _ n ih =>
    rw [Nat.toDigits_eq_if (by decide)]
    split
    case isTrue small =>
      refine ⟨_, _, rfl, ?_⟩
      interval_cases n <;> decide
    case isFalse large =>
      obtain ⟨c, rest, front, other⟩ := ih (n / 10) (by omega) (by omega)
      exact ⟨c, rest ++ [(n % 10).digitChar], by rw [front]; rfl, other⟩

theorem ofDigitChars_zeros_append (k : Nat) (cs : List Char) :
    Nat.ofDigitChars 10 (List.replicate k '0' ++ cs) 0 = Nat.ofDigitChars 10 cs 0 := by
  rw [Nat.ofDigitChars_append, Nat.ofDigitChars_replicate_zero, mul_zero]

theorem Leads.take {cs : List Char} (leads : Leads cs) {n : Nat} (pos : 0 < n) :
    Leads (cs.take n) := by
  obtain ⟨c, rest, rfl, other⟩ := leads.front
  obtain ⟨n, rfl⟩ : ∃ k, n = k + 1 := ⟨n - 1, by omega⟩
  exact ⟨fun d mem => leads.digits d (List.mem_of_mem_take mem), c, rest.take n, rfl, other⟩

theorem Leads.append {cs ds : List Char} (leads : Leads cs)
    (digits : ∀ c ∈ ds, c.isDigit = true) : Leads (cs ++ ds) := by
  obtain ⟨c, rest, rfl, other⟩ := leads.front
  refine ⟨fun d mem => ?_, c, rest ++ ds, rfl, other⟩
  rcases List.mem_append.1 mem with front | back
  · exact leads.digits d front
  · exact digits d back

/-- Taking the zeros off the end of a row that does not start with a zero. -/
theorem Leads.strip {cs : List Char} (leads : Leads cs) :
    ∃ zeros, Leads (cs.reverse.dropWhile (· == '0')).reverse ∧
      cs = (cs.reverse.dropWhile (· == '0')).reverse ++ List.replicate zeros '0' := by
  have parts : cs = (cs.reverse.dropWhile (· == '0')).reverse ++
      (cs.reverse.takeWhile (· == '0')).reverse := by
    rw [← List.reverse_append, List.takeWhile_append_dropWhile, List.reverse_reverse]
  have zeros : (cs.reverse.takeWhile (· == '0')).reverse =
      List.replicate (cs.reverse.takeWhile (· == '0')).length '0' := by
    rw [List.eq_replicate_iff]
    refine ⟨List.length_reverse, fun c mem => ?_⟩
    have zero := List.mem_takeWhile_imp (List.mem_reverse.1 mem)
    exact beq_iff_eq.1 zero
  refine ⟨_, ⟨fun c mem => leads.digits c ?_, ?_⟩, zeros ▸ parts⟩
  · rw [parts]
    exact List.mem_append_left _ mem
  · obtain ⟨c, rest, front, other⟩ := leads.front
    cases stripped : (cs.reverse.dropWhile (· == '0')).reverse with
    | nil =>
      rw [stripped, zeros, List.nil_append] at parts
      have zero : c = '0' := by
        apply List.eq_of_mem_replicate
        rw [← parts, front]
        exact List.mem_cons_self
      exact absurd zero other
    | cons d tail =>
      rw [stripped, front] at parts
      obtain rfl : c = d := (List.cons.inj parts).1
      exact ⟨c, tail, rfl, other⟩

theorem Decimal.leads_ofScaled {digits : Nat} (pos : 0 < digits) (scale : Int) :
    Leads (Decimal.ofScaled digits scale).digits := by
  obtain ⟨zeros, leads, -⟩ := (leads_toDigits pos).strip
  exact leads

/-- A decimal without zeros at its end stands for the same number as with them. -/
theorem Decimal.ofDecimal_ofScaled {digits : Nat} (pos : 0 < digits) (scale : Int)
    (negative : Bool) :
    ofDecimal negative (Nat.ofDigitChars 10 (Decimal.ofScaled digits scale).digits 0)
      ((Decimal.ofScaled digits scale).point - (Decimal.ofScaled digits scale).digits.length) =
      ofDecimal negative digits scale := by
  obtain ⟨zeros, leads, parts⟩ := (leads_toDigits pos).strip
  have whole :
      digits = Nat.ofDigitChars 10 (Decimal.ofScaled digits scale).digits 0 * 10 ^ zeros := by
    conv_lhs => rw [← @Nat.ofDigitChars_ten_toDigits digits, parts]
    rw [Nat.ofDigitChars_append, Nat.ofDigitChars_replicate_zero, mul_comm]
    rfl
  have length : (Nat.toDigits 10 digits).length =
      (Decimal.ofScaled digits scale).digits.length + zeros := by
    conv_lhs => rw [parts]
    rw [List.length_append, List.length_replicate]
    rfl
  conv_rhs => rw [whole, ofDecimal_mul_pow]
  congr 1
  have point : (Decimal.ofScaled digits scale).point = (Nat.toDigits 10 digits).length + scale :=
    rfl
  omega

/-- The form with a point is two rows of digits, and read as one row they are the decimal. -/
theorem Decimal.exists_rows {decimal : Decimal} (leads : Leads decimal.digits) :
    ∃ whole fraction, decimal.positional = whole ++ '.' :: fraction ∧
      (whole = ['0'] ∨ Leads whole) ∧ fraction ≠ [] ∧ (∀ c ∈ fraction, c.isDigit = true) ∧
      ∀ negative,
        ofDecimal negative (Nat.ofDigitChars 10 (whole ++ fraction) 0) (-fraction.length) =
          ofDecimal negative (Nat.ofDigitChars 10 decimal.digits 0)
            (decimal.point - decimal.digits.length) := by
  obtain ⟨digits, point⟩ := decimal
  have some : digits ≠ [] := by
    obtain ⟨c, cs, rfl, -⟩ := leads.front
    exact List.cons_ne_nil c cs
  unfold Decimal.positional
  simp only at leads ⊢
  split
  case isTrue below =>
    refine ⟨['0'], List.replicate (-point).toNat '0' ++ digits, rfl, .inl rfl, by simp [some],
      fun c mem => ?_, fun negative => ?_⟩
    · rcases List.mem_append.1 mem with zero | digit
      · exact isDigit_of_mem_zeros zero
      · exact leads.digits c digit
    · have value : Nat.ofDigitChars 10 (['0'] ++ (List.replicate (-point).toNat '0' ++ digits)) 0 =
          Nat.ofDigitChars 10 digits 0 :=
        (ofDigitChars_zeros_append 1 _).trans (ofDigitChars_zeros_append _ _)
      rw [value, List.length_append, List.length_replicate]
      congr 1
      omega
  case isFalse above =>
    obtain ⟨places, rfl⟩ : ∃ n : Nat, point = n := ⟨point.toNat, by omega⟩
    have pos : 0 < places := by omega
    rw [Int.toNat_natCast]
    rcases Nat.lt_or_ge places digits.length with inner | outer
    · -- the point stands between two digits
      have none : places - digits.length = 0 := by omega
      have fraction : digits.drop places ≠ [] := by
        rw [Ne, List.drop_eq_nil_iff]
        omega
      refine ⟨digits.take places, digits.drop places, by simp [none, fraction],
        .inr (leads.take pos), fraction, fun c mem => leads.digits c (List.mem_of_mem_drop mem),
        fun negative => ?_⟩
      rw [List.take_append_drop, List.length_drop]
      congr 1
      omega
    · -- all digits stand before the point, filled up with zeros
      have fraction : digits.drop places = [] := List.drop_eq_nil_iff.2 outer
      have row : Leads (digits ++ List.replicate (places - digits.length) '0') :=
        leads.append fun c mem => isDigit_of_mem_zeros mem
      refine ⟨digits ++ List.replicate (places - digits.length) '0', ['0'],
        by simp [fraction, List.take_of_length_le outer], .inr row, List.cons_ne_nil '0' [],
        fun c mem => ?_, fun negative => ?_⟩
      · rw [List.eq_of_mem_singleton mem]
        rfl
      · have value : Nat.ofDigitChars 10
            (digits ++ List.replicate (places - digits.length) '0' ++ ['0']) 0 =
            Nat.ofDigitChars 10 digits 0 * 10 ^ (places - digits.length + 1) := by
          rw [List.append_assoc, ← List.replicate_succ', Nat.ofDigitChars_append,
            Nat.ofDigitChars_replicate_zero, mul_comm]
        rw [value, ofDecimal_mul_pow, List.length_singleton]
        congr 1
        omega

end Parlance.Number

namespace Parlance.Json

open Number (Leads values Decimal)

/-! ## Reading a number -/

/-- No number goes on at the front of a text. -/
def Ends (rest : List Char) : Prop :=
  ∀ c ∈ rest.head?, c.isDigit = false ∧ c ≠ '.' ∧ c ≠ 'e' ∧ c ≠ 'E'

theorem spanFraction_of_head {rest : List Char} (stop : ∀ c ∈ rest.head?, c ≠ '.') :
    spanFraction rest = ([], rest) := by
  unfold spanFraction
  split
  case h_1 cs => exact absurd rfl (stop '.' rfl)
  case h_2 => rfl

theorem spanFraction_append {fraction rest : List Char} (digits : ∀ c ∈ fraction, c.isDigit = true)
    (some : fraction ≠ []) (stop : ∀ c ∈ rest.head?, c.isDigit = false) :
    spanFraction ('.' :: (fraction ++ rest)) = (values fraction, rest) := by
  rw [spanFraction, Number.spanDigits_append digits stop]
  cases fraction with
  | nil => exact absurd rfl some
  | cons c cs => rfl

theorem spanExponent_of_ends {rest : List Char} (ends : Ends rest) :
    spanExponent rest = (none, rest) := by
  cases rest with
  | nil => rfl
  | cons c rest =>
    obtain ⟨-, -, small, large⟩ := ends c rfl
    simp [spanExponent, small, large]

/-- The sign and the digits of an exponent. -/
theorem spanExponent_append {digits rest : List Char} (negative : Bool)
    (row : ∀ c ∈ digits, c.isDigit = true) (some : digits ≠ [])
    (stop : ∀ c ∈ rest.head?, c.isDigit = false) :
    spanExponent ('e' :: (if negative then '-' else '+') :: (digits ++ rest)) =
      (Option.some (if negative then -(Nat.ofDigitChars 10 digits 0 : Int)
        else Nat.ofDigitChars 10 digits 0), rest) := by
  have sign : Number.spanSign ((if negative then '-' else '+') :: (digits ++ rest)) =
      (negative, digits ++ rest) := by
    cases negative <;> rfl
  have nonempty : values digits ≠ [] := by
    rw [values, Ne, List.map_eq_nil_iff]
    exact some
  rw [spanExponent, if_pos (Or.inl rfl), sign]
  simp only
  rw [Number.spanDigits_append row stop]
  cases found : values digits with
  | nil => exact absurd found nonempty
  | cons d ds =>
    simp only [← found, Number.ofDigits_values]

/-- The digits before the point are read back up to whatever is no digit. -/
theorem spanWhole_append {whole tail : List Char} (starts : whole = ['0'] ∨ Leads whole)
    (stop : ∀ c ∈ tail.head?, c.isDigit = false) :
    spanWhole (whole ++ tail) = (values whole, tail) := by
  rcases starts with rfl | leads
  · rfl
  · obtain ⟨c, cs, rfl, other⟩ := leads.front
    rw [← Number.spanDigits_append leads.digits stop]
    unfold spanWhole
    split
    case h_1 rest same => exact absurd (List.cons.inj same).1 other
    case h_2 => rfl

/-- A number is read in three parts. -/
theorem readNumber_append {whole tail tail' rest : List Char} {fraction : List Nat}
    {exponent : Option Int} (negative : Bool) (starts : whole = ['0'] ∨ Leads whole)
    (stop : ∀ c ∈ tail.head?, c.isDigit = false)
    (fractions : spanFraction tail = (fraction, tail'))
    (exponents : spanExponent tail' = (exponent, rest)) :
    readNumber negative (whole ++ tail) =
      if fraction.isEmpty && exponent.isNone then
        if maxDigits < whole.length then .error .integerTooLong
        else
          .ok (.int (if negative then -(Nat.ofDigitChars 10 whole 0 : Int)
            else Nat.ofDigitChars 10 whole 0), rest)
      else
        .ok (.number (Number.ofDecimal negative (Number.ofDigits (values whole ++ fraction))
          (exponent.getD 0 - fraction.length)), rest) := by
  have nonempty : (values whole).isEmpty = false := by
    rcases starts with rfl | leads
    · rfl
    · obtain ⟨c, cs, rfl, -⟩ := leads.front
      rfl
  unfold readNumber
  simp only [spanWhole_append starts stop, fractions, exponents, nonempty, Number.length_values,
    Number.ofDigits_values, Bool.false_eq_true, if_false]

/-- A number with a point. -/
theorem readNumber_point {whole fraction rest : List Char} (negative : Bool)
    (starts : whole = ['0'] ∨ Leads whole) (digits : ∀ c ∈ fraction, c.isDigit = true)
    (some : fraction ≠ []) (ends : Ends rest) :
    readNumber negative (whole ++ '.' :: (fraction ++ rest)) =
      .ok (.number (Number.ofDecimal negative (Nat.ofDigitChars 10 (whole ++ fraction) 0)
        (-fraction.length)), rest) := by
  have fractions := spanFraction_append digits some fun c mem => (ends c mem).1
  have nonempty : (values fraction).isEmpty = false := by
    cases fraction with
    | nil => exact absurd rfl some
    | cons c cs => rfl
  rw [readNumber_append negative starts (by simp) fractions (spanExponent_of_ends ends),
    nonempty, Bool.false_and, if_neg Bool.false_ne_true, ← Number.values_append,
    Number.ofDigits_values, Number.length_values, Option.getD_none, Int.zero_sub]

/-- The form with a point. -/
theorem readNumber_positional {decimal : Decimal} {rest : List Char} (negative : Bool)
    (leads : Leads decimal.digits) (ends : Ends rest) :
    readNumber negative (decimal.positional ++ rest) =
      .ok (.number (Number.ofDecimal negative (Nat.ofDigitChars 10 decimal.digits 0)
        (decimal.point - decimal.digits.length)), rest) := by
  obtain ⟨whole, fraction, text, starts, some, digits, value⟩ := decimal.exists_rows leads
  rw [text, List.append_assoc, List.cons_append, readNumber_point negative starts digits some ends,
    value]

/-- The form with an exponent. -/
theorem readNumber_exponential {decimal : Decimal} {rest : List Char} (negative : Bool)
    (leads : Leads decimal.digits) (ends : Ends rest) :
    readNumber negative (decimal.exponential ++ rest) =
      .ok (.number (Number.ofDecimal negative (Nat.ofDigitChars 10 decimal.digits 0)
        (decimal.point - decimal.digits.length)), rest) := by
  obtain ⟨digits, point⟩ := decimal
  obtain ⟨exponent, power⟩ : ∃ e, e = point - 1 := ⟨_, rfl⟩
  obtain ⟨row, written⟩ : ∃ row, row = List.replicate (2 - (Nat.toDigits 10 exponent.natAbs).length)
      '0' ++ Nat.toDigits 10 exponent.natAbs := ⟨_, rfl⟩
  have digital : ∀ c ∈ row, c.isDigit = true := by
    intro c mem
    rw [written] at mem
    rcases List.mem_append.1 mem with zero | digit
    · exact Number.isDigit_of_mem_zeros zero
    · exact Nat.isDigit_of_mem_toDigits (by decide) (by decide) digit
  have nonempty : row ≠ [] := by
    rw [written]
    exact List.append_ne_nil_of_right_ne_nil _ Nat.toDigits_ne_nil
  have value : (if decide (exponent < 0) then -(Nat.ofDigitChars 10 row 0 : Int)
      else Nat.ofDigitChars 10 row 0) = exponent := by
    rw [written, Number.ofDigitChars_zeros_append, Nat.ofDigitChars_ten_toDigits]
    split
    case isTrue below =>
      have := of_decide_eq_true below
      omega
    case isFalse above =>
      have := of_decide_eq_false (Bool.eq_false_of_not_eq_true above)
      omega
  have exponents := spanExponent_append (decide (exponent < 0)) digital nonempty
    fun c mem => (ends c mem).1
  rw [value] at exponents
  have sign : (if decide (exponent < 0) then '-' else '+') = if exponent < 0 then '-' else '+' := by
    simp only [decide_eq_true_eq]
  rw [sign] at exponents
  unfold Decimal.exponential
  simp only [← power, ← written] at leads ⊢
  obtain ⟨first, others, rfl, other⟩ := leads.front
  have whole : Leads [first] := by
    refine ⟨fun c mem => ?_, first, [], rfl, other⟩
    rw [List.eq_of_mem_singleton mem]
    exact leads.digits first List.mem_cons_self
  cases others with
  | nil =>
    have read := readNumber_append negative (Or.inr whole) (by simp)
      (spanFraction_of_head (by simp)) exponents
    rw [List.append_nil, Number.ofDigits_values] at read
    simpa [power] using read
  | cons second others =>
    have fractions : spanFraction ('.' :: (second :: others ++
        'e' :: (if exponent < 0 then '-' else '+') :: (row ++ rest))) =
        (values (second :: others), 'e' :: (if exponent < 0 then '-' else '+') :: (row ++ rest)) :=
      spanFraction_append (fun c mem => leads.digits c (List.mem_cons_of_mem first mem))
        (List.cons_ne_nil second others) (by simp)
    have read := readNumber_append negative (Or.inr whole) (by simp) fractions exponents
    rw [← Number.values_append, Number.ofDigits_values, Number.length_values] at read
    have scale : exponent - ((second :: others).length : Int) =
        point - (first :: second :: others).length := by
      simp only [List.length_cons]
      omega
    simp only [Option.isNone_some, Bool.and_false, Bool.false_eq_true, if_false, Option.getD_some,
      scale] at read
    simpa using read

/-! ## The texts of numbers -/

/-- A digit in front, with or without a sign, begins a number. -/
theorem readScalar_digit {c : Char} (digit : c.isDigit = true) (cs : List Char) :
    readScalar (c :: cs) = readNumber false (c :: cs) ∧
      readScalar ('-' :: c :: cs) = readNumber true (c :: cs) := by
  obtain ⟨low, high⟩ := Number.toNat_of_isDigit digit
  have same := Char.ofNat_toNat c
  generalize c.toNat = n at low high same
  subst same
  interval_cases n <;> exact ⟨rfl, rfl⟩

theorem readScalar_signed {text : List Char} (negative : Bool)
    (front : ∃ c cs, text = c :: cs ∧ c.isDigit = true) :
    readScalar (Number.sign negative ++ text) = readNumber negative text := by
  obtain ⟨c, cs, rfl, digit⟩ := front
  cases negative
  · exact (readScalar_digit digit cs).1
  · exact (readScalar_digit digit cs).2

/-- The digits of an integer are read back, if they are not too many. -/
theorem readNumber_toDigits {n : Nat} {rest : List Char} (negative : Bool)
    (short : (Nat.toDigits 10 n).length ≤ maxDigits) (ends : Ends rest) :
    readNumber negative (Nat.toDigits 10 n ++ rest) =
      .ok (.int (if negative then -(n : Int) else n), rest) := by
  have starts : Nat.toDigits 10 n = ['0'] ∨ Leads (Nat.toDigits 10 n) := by
    rcases Nat.eq_zero_or_pos n with rfl | pos
    · exact Or.inl (Nat.toDigits_zero 10)
    · exact Or.inr (Number.leads_toDigits pos)
  have read := readNumber_append negative starts (fun c mem => (ends c mem).1)
    (spanFraction_of_head fun c mem => (ends c mem).2.1) (spanExponent_of_ends ends)
  rw [Nat.ofDigitChars_ten_toDigits] at read
  simpa [Nat.not_lt.2 short] using read

/-- An integer that is not too long is read as it was written. -/
theorem readScalar_integerText {n : Int} {rest : List Char}
    (short : (Nat.toDigits 10 n.natAbs).length ≤ maxDigits) (ends : Ends rest) :
    readScalar ((Number.integerText n).toList ++ rest) = .ok (.int n, rest) := by
  have value : (if decide (n < 0) then -(n.natAbs : Int) else n.natAbs) = n := by
    simp only [decide_eq_true_eq]
    split <;> omega
  have front : ∃ c cs, Nat.toDigits 10 n.natAbs ++ rest = c :: cs ∧ c.isDigit = true := by
    obtain ⟨c, cs, front⟩ := List.exists_cons_of_ne_nil (@Nat.toDigits_ne_nil n.natAbs 10)
    have mem : c ∈ Nat.toDigits 10 n.natAbs := by
      rw [front]
      exact List.mem_cons_self
    exact ⟨c, cs ++ rest, by rw [front]; rfl,
      Nat.isDigit_of_mem_toDigits (by decide) (by decide) mem⟩
  rw [Number.integerText, String.toList_ofList, List.append_assoc, readScalar_signed _ front,
    readNumber_toDigits _ short ends, value]

/-- A decimal is read back as the double nearest to it, in whichever of its two forms it is
written. -/
theorem readScalar_decimal {decimal : Decimal} {rest : List Char} (negative : Bool)
    (leads : Leads decimal.digits) (ends : Ends rest) :
    readScalar (Number.sign negative ++
        ((if -4 < decimal.point ∧ decimal.point ≤ 16 then decimal.positional
          else decimal.exponential) ++ rest)) =
      .ok (.number (Number.ofDecimal negative (Nat.ofDigitChars 10 decimal.digits 0)
        (decimal.point - decimal.digits.length)), rest) := by
  obtain ⟨first, others, found, -⟩ := leads.front
  have digit : first.isDigit = true := by
    apply leads.digits
    rw [found]
    exact List.mem_cons_self
  split
  case isTrue =>
    rw [← readNumber_positional negative leads ends]
    apply readScalar_signed negative
    unfold Decimal.positional
    split
    case isTrue => exact ⟨'0', _, rfl, rfl⟩
    case isFalse above =>
      obtain ⟨places, counted⟩ : ∃ n, decimal.point.toNat = n + 1 :=
        ⟨decimal.point.toNat - 1, by omega⟩
      simp only [counted, found]
      exact ⟨first, _, rfl, digit⟩
  case isFalse =>
    rw [← readNumber_exponential negative leads ends]
    apply readScalar_signed negative
    unfold Decimal.exponential
    cases others with
    | nil =>
      simp only [found]
      exact ⟨first, _, rfl, digit⟩
    | cons second others =>
      simp only [found]
      exact ⟨first, _, rfl, digit⟩

/-- A double is read as it was written. -/
theorem readScalar_dataText {x : Float} {rest : List Char} (ends : Ends rest) :
    readScalar ((Number.dataTextWith special x).toList ++ rest) =
      .ok (.number x, rest) := by
  have shows := Number.shape_shows x
  unfold Number.dataTextWith
  cases form : Number.shape x with
  | nan =>
    rw [form] at shows
    rw [shows]
    rfl
  | infinite negative =>
    rw [form] at shows
    rw [shows]
    cases negative <;> rfl
  | finite negative mantissa exponent =>
    rw [form] at shows
    obtain ⟨fits, rfl⟩ := shows
    simp only [String.toList_ofList, List.append_assoc]
    split
    case isTrue zero =>
      subst zero
      have code : Number.codeOf 0 exponent = 0 := by
        rw [fits.normal.resolve_left (by decide)]
        rfl
      have read := readNumber_point negative (Or.inl rfl) (fun c mem => by
        rw [List.eq_of_mem_singleton mem]; rfl) (List.cons_ne_nil '0' []) ends
      rw [code]
      exact (readScalar_signed negative ⟨'0', _, rfl, rfl⟩).trans read
    case isFalse nonzero =>
      have pos := Number.shortest_pos fits (Nat.pos_of_ne_zero nonzero)
      rw [readScalar_decimal negative (Decimal.leads_ofScaled pos _) ends,
        Decimal.ofDecimal_ofScaled pos, Number.ofDecimal_shortest fits]

end Parlance.Json
