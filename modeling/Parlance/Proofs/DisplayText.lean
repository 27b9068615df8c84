import Mathlib
import Parlance.Execution
import Parlance.Descent.Expression
import Parlance.Proofs.Covering
import Parlance.Proofs.DecimalText
import Parlance.Proofs.Rationals

/-!
# Shown numbers read back

A program shows a finite number as a numeral: a minus or none, digits, and maybe a point with more
digits.  There is never an exponent.  Both readers of a program, that of input lines and that of
literals, read the number from its numeral again, with one loss: negative zero is shown as zero
(`shown`).
-/

namespace Parlance

/-- Digits, and either nothing more or a point and more digits. -/
def IsNumeral (cs : List Char) : Prop :=
  IsDigits cs ∨ ∃ whole fraction, cs = whole ++ '.' :: fraction ∧ IsDigits whole ∧ IsDigits fraction

/-- A numeral has digits and a point at most. -/
theorem IsNumeral.isDigit_or_point {cs : List Char} (numeral : IsNumeral cs) :
    ∀ c ∈ cs, c.isDigit = true ∨ c = '.' := by
  intro c mem
  rcases numeral with digits | ⟨whole, fraction, rfl, before, after⟩
  · exact .inl (digits.2 c mem)
  · rcases List.mem_append.1 mem with front | back
    · exact .inl (before.2 c front)
    · rcases List.mem_cons.1 back with point | back
      · exact .inr point
      · exact .inl (after.2 c back)

theorem IsNumeral.front {cs : List Char} (numeral : IsNumeral cs) :
    ∃ c rest, cs = c :: rest ∧ c.isDigit = true := by
  rcases numeral with digits | ⟨whole, fraction, rfl, before, after⟩
  · obtain ⟨c, rest, rfl⟩ := List.exists_cons_of_ne_nil digits.1
    exact ⟨c, rest, rfl, digits.2 c List.mem_cons_self⟩
  · obtain ⟨c, rest, rfl⟩ := List.exists_cons_of_ne_nil before.1
    exact ⟨c, rest ++ '.' :: fraction, rfl, before.2 c List.mem_cons_self⟩

namespace Number

/-! ## Reading numerals -/

/-- The digits of the reader include the ASCII ones, and a point is none of them. -/
structure DigitReader (value? : Char → Option Nat) : Prop where
  digit : ∀ c, c.isDigit = true → value? c = some (c.toNat - 48)
  point : value? '.' = none

theorem digitReader_asciiDigit? : DigitReader asciiDigit? :=
  ⟨fun _ digit => if_pos digit, rfl⟩

/-- The digits of all scripts are read, those of the displayed text among them. -/
theorem digitReader_digitValue? : DigitReader Text.digitValue? := by
  refine ⟨fun c digit => ?_, by decide⟩
  have range := toNat_of_isDigit digit
  have inside : (decide (48 ≤ c.toNat) && decide (c.toNat < 48 + 10)) = true := by
    simp only [Bool.and_eq_true, decide_eq_true_eq]
    omega
  obtain ⟨others, table⟩ : ∃ others, Text.zeroDigits = 48 :: others := ⟨_, rfl⟩
  simp only [Text.digitValue?, table, List.find?_cons, inside, Option.map_some]

section Rows

variable {value? : Char → Option Nat} {whole fraction : List Char}

theorem values_ne_nil {cs : List Char} (digits : IsDigits cs) : values cs ≠ [] := by
  rw [values, Ne, List.map_eq_nil_iff]
  exact digits.1

theorem spanDigits_eq_values (reader : DigitReader value?) {cs : List Char} (digits : IsDigits cs) :
    spanDigits value? cs = (values cs, []) := by
  have stop : ∀ c ∈ ([] : List Char).head?, value? c = none := by simp
  have span := spanDigits_row (fun c mem => reader.digit c (digits.2 c mem)) stop
  rwa [List.append_nil] at span

theorem plain?_row (reader : DigitReader value?) (digits : IsDigits whole) (negative : Bool) :
    plain? value? negative whole =
      some (ofDecimal negative (Nat.ofDigitChars 10 whole 0) 0) := by
  obtain ⟨d, ds, found⟩ := List.exists_cons_of_ne_nil (values_ne_nil digits)
  rw [← ofDigits_values]
  unfold plain?
  rw [spanDigits_eq_values reader digits, found]

/-- A numeral with a point is the decimal of its digits, with as many places as stand behind the
point. -/
theorem plain?_point (reader : DigitReader value?) (before : IsDigits whole)
    (after : IsDigits fraction) (negative : Bool) :
    plain? value? negative (whole ++ '.' :: fraction) =
      some (ofDecimal negative (Nat.ofDigitChars 10 (whole ++ fraction) 0) (-fraction.length)) := by
  have stop : ∀ c ∈ ('.' :: fraction).head?, value? c = none := by
    rintro c ⟨⟩
    exact reader.point
  have front := spanDigits_row (fun c mem => reader.digit c (before.2 c mem)) stop
  obtain ⟨d, ds, found⟩ := List.exists_cons_of_ne_nil (values_ne_nil before)
  obtain ⟨d', ds', found'⟩ := List.exists_cons_of_ne_nil (values_ne_nil after)
  rw [← ofDigits_values, values_append, ← length_values]
  unfold plain?
  rw [front, found]
  simp only [spanDigits_eq_values reader after, found']

end Rows

/-! ## Showing numbers -/

/-- The number that the text of a finite number shows: zero has no sign in it. -/
def shown (x : Float) : Float :=
  if x == 0.0 then 0.0 else x

theorem shown_of_toRat_ne_zero {x : Float} (finite : x.isFinite = true) (nonzero : toRat x ≠ 0) :
    shown x = x := by
  apply if_neg
  rwa [beq_iff_toRat finite (by decide), toRat_zero]

theorem shown_of_toRat_eq_zero {x : Float} (finite : x.isFinite = true) (zero : toRat x = 0) :
    shown x = 0.0 := by
  apply if_pos
  rwa [beq_iff_toRat finite (by decide), toRat_zero]

theorem shown_beq {x : Float} (finite : x.isFinite = true) : (shown x == x) = true := by
  by_cases zero : toRat x = 0
  · rw [shown_of_toRat_eq_zero finite zero, beq_iff_toRat (by decide) finite, toRat_zero, zero]
  · rw [shown_of_toRat_ne_zero finite zero, beq_iff_toRat finite finite]

/-- There are two zeros. -/
theorem eq_zero_of_toRat {x : Float} (finite : x.isFinite = true) (zero : toRat x = 0) :
    x = 0.0 ∨ x = -0.0 := by
  obtain ⟨negative, m, e, parts⟩ := exists_parts finite
  rw [parts.eq_ofCode, parts.codeOf_of_toRat zero]
  cases negative
  · exact .inl rfl
  · exact .inr rfl

theorem isDigits_toDigits (n : Nat) : IsDigits (Nat.toDigits 10 n) :=
  ⟨Nat.toDigits_ne_nil, fun _ mem => Nat.isDigit_of_mem_toDigits (by decide) (by decide) mem⟩

/-- The decimal digits of a whole double are those of the double. -/
theorem ofDecimal_natAbs {x : Float} {n : Int} (whole : whole? x = some n) :
    ofDecimal (decide (toRat x < 0)) n.natAbs 0 = shown x := by
  obtain ⟨finite, rat⟩ := whole?_eq_some_iff.1 whole
  obtain ⟨negative, m, e, parts⟩ := exists_parts finite
  have natural := magnitude_eq_natCast_iff.1 (parts.magnitude_eq_natAbs rat)
  rw [ofDecimal_eq_nearest, Int.toNat_zero, pow_zero, mul_one, Int.neg_zero, Int.toNat_zero,
    pow_zero, nearest_eq_ofCode parts.fits _ Nat.one_pos (natural.symm.trans (mul_one _).symm)]
  by_cases zero : toRat x = 0
  · rw [shown_of_toRat_eq_zero finite zero, parts.codeOf_of_toRat zero, zero]
    rfl
  · rw [shown_of_toRat_ne_zero finite zero, parts.decide_toRat_lt_zero zero, ← parts.eq_ofCode]

/-- Only the two zeros are shown as the same number. -/
theorem eq_or_zeros_of_shown {x y : Float} (finite : x.isFinite = true)
    (finite' : y.isFinite = true) (same : shown x = shown y) :
    y = x ∨ y = 0.0 ∧ x = -0.0 ∨ y = -0.0 ∧ x = 0.0 := by
  by_cases zero : toRat x = 0 <;> by_cases zero' : toRat y = 0
  · rcases eq_zero_of_toRat finite zero with rfl | rfl <;>
      rcases eq_zero_of_toRat finite' zero' with rfl | rfl
    · exact .inl rfl
    · exact .inr (.inr ⟨rfl, rfl⟩)
    · exact .inr (.inl ⟨rfl, rfl⟩)
    · exact .inl rfl
  · rw [shown_of_toRat_eq_zero finite zero, shown_of_toRat_ne_zero finite' zero'] at same
    rw [← same, toRat_zero] at zero'
    exact absurd rfl zero'
  · rw [shown_of_toRat_ne_zero finite zero, shown_of_toRat_eq_zero finite' zero'] at same
    rw [same, toRat_zero] at zero
    exact absurd rfl zero
  · rw [shown_of_toRat_ne_zero finite zero, shown_of_toRat_ne_zero finite' zero'] at same
    exact .inl same.symm

/-- The text of a finite number is a numeral with a minus if the number is below zero, and a reader
of digits gets from the numeral what is shown. -/
theorem exists_numeral {x : Float} (finite : x.isFinite = true) :
    ∃ row, (display x).toList = sign (decide (toRat x < 0)) ++ row ∧ IsNumeral row ∧
      ∀ value?, DigitReader value? →
        plain? value? (decide (toRat x < 0)) row = some (shown x) := by
  obtain ⟨negative, m, e, parts⟩ := exists_parts finite
  unfold display
  rw [parts.shape_eq]
  dsimp only
  split
  · next n whole =>
    have rat := (whole?_eq_some_iff.1 whole).2
    have below : decide (toRat x < 0) = decide (n < 0) := by
      rw [rat, decide_eq_decide]
      exact Int.cast_lt_zero
    refine ⟨Nat.toDigits 10 n.natAbs, ?_, .inl (isDigits_toDigits _), fun value? reader => ?_⟩
    · rw [below, integerText, String.toList_ofList]
    · rw [plain?_row reader (isDigits_toDigits _), Nat.ofDigitChars_ten_toDigits,
        ofDecimal_natAbs whole]
  · next part =>
    have nonzero : toRat x ≠ 0 := by
      intro zero
      have whole : whole? x = some 0 := parts.whole?_eq_some_iff.2 (zero.trans Int.cast_zero.symm)
      cases part.symm.trans whole
    have some : 0 < m := Nat.pos_of_ne_zero (mt parts.toRat_eq_zero_iff.2 nonzero)
    have below := parts.decide_toRat_lt_zero nonzero
    have pos := shortest_pos parts.fits some
    obtain ⟨whole, fraction, text, starts, nonempty, digits, value⟩ :=
      Decimal.exists_rows (Decimal.leads_ofScaled pos (shortest m e).2)
    have before : IsDigits whole := by
      rcases starts with rfl | leads
      · refine ⟨List.cons_ne_nil '0' [], fun c mem => ?_⟩
        rw [List.eq_of_mem_singleton mem]
        rfl
      · obtain ⟨c, rest, rfl, -⟩ := leads.front
        exact ⟨List.cons_ne_nil c rest, leads.digits⟩
    refine ⟨_, ?_, .inr ⟨whole, fraction, text, before, nonempty, digits⟩, fun value? reader => ?_⟩
    · rw [below, String.toList_ofList]
    · rw [text, plain?_point reader before ⟨nonempty, digits⟩, value,
        Decimal.ofDecimal_ofScaled pos, ofDecimal_shortest parts.fits, below,
        shown_of_toRat_ne_zero finite nonzero,
        ← parts.eq_ofCode]

end Number

/-! ## Lines of input and literals -/

theorem Text.strip_of_forall {cs : List Char} (solid : ∀ c ∈ cs, isBlank c = false) :
    strip cs = cs := by
  have keep {ds : List Char} (all : ∀ c ∈ ds, isBlank c = false) : ds.dropWhile isBlank = ds := by
    cases ds with
    | nil => rfl
    | cons d ds => rw [List.dropWhile_cons_of_neg (by simp [all d List.mem_cons_self])]
  rw [strip, keep solid, keep fun c mem => solid c (List.mem_reverse.1 mem), List.reverse_reverse]

/-- A numeral with its sign has no blank, so nothing is stripped from it. -/
theorem IsNumeral.not_isBlank {row : List Char} (numeral : IsNumeral row) (negative : Bool) :
    ∀ c ∈ Number.sign negative ++ row, Text.isBlank c = false := by
  intro c mem
  rcases List.mem_append.1 mem with minus | mem
  · cases negative
    · cases minus
    · rw [List.eq_of_mem_singleton minus]
      decide
  · rcases numeral.isDigit_or_point c mem with digit | rfl
    · exact Text.not_isBlank_of_isWordChar (Text.isWordChar_of_isDigit digit)
    · decide

/-- The sign of a numeral is told from its digits. -/
theorem IsNumeral.spanSign_sign_append {row : List Char} (numeral : IsNumeral row)
    (negative : Bool) : Number.spanSign (Number.sign negative ++ row) = (negative, row) := by
  cases negative
  · obtain ⟨c, rest, rfl, digit⟩ := numeral.front
    rw [Number.sign, if_neg Bool.false_ne_true, List.nil_append]
    unfold Number.spanSign
    split
    · next same =>
      cases same
      cases digit
    · next same =>
      cases same
      cases digit
    · rfl
  · rfl

/-- As a line of input, the text of a finite number is the number. -/
theorem answerOf_display {x : Float} (finite : x.isFinite = true) :
    answerOf (Number.display x) = .number (Number.shown x) := by
  obtain ⟨row, text, numeral, reads⟩ := Number.exists_numeral finite
  have read : Number.input? (Number.display x).toList = some (Number.shown x) := by
    rw [text, Number.input?, numeral.spanSign_sign_append]
    exact reads _ Number.digitReader_digitValue?
  have solid := numeral.not_isBlank (decide (Number.toRat x < 0))
  rw [← text] at solid
  rw [answerOf, Text.strip_of_forall solid, read]

/-- In a source, the text of a number that is not below zero is one token, and its literal is the
number. -/
theorem literal_display {x : Float} (finite : x.isFinite = true) (nonneg : 0.0 ≤ x) :
    (Word.number (Number.display x)).WellFormed ∧
      Number.literal (Number.display x) = Number.shown x := by
  obtain ⟨row, text, numeral, reads⟩ := Number.exists_numeral finite
  have above : ¬ Number.toRat x < 0 := by
    rw [Number.le_iff_toRat (by decide) finite, Number.toRat_zero] at nonneg
    exact nonneg.not_gt
  rw [decide_eq_false above] at text reads
  have unsigned : (Number.display x).toList = row := text
  refine ⟨?_, ?_⟩
  · change IsNumeral (Number.display x).toList
    rwa [unsigned]
  · rw [Number.literal, unsigned, reads _ Number.digitReader_asciiDigit?]
    rfl

/-- A finite number is shown as a numeral, without an exponent.  As a line of input the numeral
reads as the number, so no two numbers share a numeral but the two zeros.  Where the number is not
below zero, the numeral is one token of a source, and a literal whose value is the number. -/
theorem Number.display_reads_back {x : Float} (finite : x.isFinite = true) :
    (∃ negative row, (display x).toList = sign negative ++ row ∧ IsNumeral row) ∧
    (answerOf (display x) = .number (shown x) ∧ (shown x == x) = true) ∧
    (∀ y : Float, y.isFinite = true → display y = display x →
      y = x ∨ y = 0.0 ∧ x = -0.0 ∨ y = -0.0 ∧ x = 0.0) ∧
    (0.0 ≤ x → ∃ finish, Scan.ofSource (display x) = .ok ⟨[⟨.number (display x), 1, 1⟩], finish⟩ ∧
      ∀ bound room, Descent.expression bound (room + 1) .atom [⟨.number (display x), 1, 1⟩] =
        .ok (.number (shown x) 1, [])) := by
  refine ⟨?_, ⟨answerOf_display finite, shown_beq finite⟩, fun y finite' same => ?_,
    fun nonneg => ?_⟩
  · obtain ⟨row, text, numeral, -⟩ := exists_numeral finite
    exact ⟨_, row, text, numeral⟩
  · have answers := answerOf_display finite'
    rw [same, answerOf_display finite] at answers
    exact eq_or_zeros_of_shown finite finite' (Tree.number.inj answers)
  · obtain ⟨formed, value⟩ := literal_display finite nonneg
    have covers : Covers [] [⟨[], .number (display x)⟩] :=
      .piece .nothing formed (by simp [Word.Maximal, spellOut]) .nothing
    refine ⟨_, Scan.ofSource_of_covers (by simp [spellOut, Word.spelling]) covers
      (.gap .nothing), fun bound room => ?_⟩
    rw [← value]
    rfl

/-- Below `10 ^ (-4)`, where the form for data files has an exponent. -/
theorem Number.display_small_reads_back :
    dataText 0.000015 = "1.5e-05" ∧ display 0.000015 = "0.000015" ∧
      answerOf "0.000015" = .number 0.000015 := by
  have text : display 0.000015 = "0.000015" := by decide +kernel
  have same : shown 0.000015 = 0.000015 := by decide +kernel
  have finite : (0.000015 : Float).isFinite = true := by decide +kernel
  obtain ⟨-, ⟨answer, -⟩, -⟩ := display_reads_back finite
  rw [text, same] at answer
  exact ⟨by decide +kernel, text, answer⟩

example : Number.display (-0.0) = Number.display 0.0 := by decide +kernel

end Parlance
