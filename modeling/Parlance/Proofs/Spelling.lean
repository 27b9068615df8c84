import Parlance.Proofs.ContextualLexing

/-!
# How words are spelled

`Word.WellFormed` says which words a source can have and `Word.Maximal` that a word does not go on
with the characters after it.  Together they say exactly what `front` cuts off: a word stands at the
front of a text if and only if it is well-formed, spelled there, and as long as it can be
(`front_eq_word_iff`).  Where neither a word nor a gap can begin the text is unreadable, and that is
exactly where `front` gives up (`front_eq_bad_iff`).
-/

namespace Parlance

open Text

/-! ## Characters -/

/-- No blank is a letter or a numeral. -/
theorem Text.blanks_apart_words :
    ∀ b ∈ blankRanges, ∀ r ∈ letterRanges ++ numeralRanges, r.2 < b.1 ∨ b.2 < r.1 := by
  have checked : (blankRanges.all fun b => (letterRanges ++ numeralRanges).all fun r =>
      Nat.blt r.2 b.1 || Nat.blt b.2 r.1) = true := by
    decide +kernel
  intro b listed r ranged
  have apart := List.all_eq_true.1 (List.all_eq_true.1 checked b listed) r ranged
  simpa only [Bool.or_eq_true, Nat.blt_eq] using apart

/-- No blank is a part of a word. -/
theorem Text.not_isWordChar_of_isBlank {c : Char} (blank : isBlank c = true) :
    isWordChar c = false := by
  obtain ⟨b, listed, low, high⟩ := Ranges.has_eq_true_iff.1 blank
  have apart {ranges : Ranges} (part : ranges ⊆ letterRanges ++ numeralRanges) :
      ranges.has c = false := by
    rw [Bool.eq_false_iff, Ne, Ranges.has_eq_true_iff]
    rintro ⟨r, ranged, low', high'⟩
    have := blanks_apart_words b listed r (part ranged)
    omega
  by_cases small : c.toNat < 128
  · -- The tables start at U+0080, so below it every character is looked at.
    have ascii : ∀ n < 128, blankRanges.any (fun r => r.1 ≤ n && n ≤ r.2) →
        isWordChar (Char.ofNat n) = false := by
      decide +kernel
    have inside := ascii c.toNat small (List.any_eq_true.2 ⟨b, listed, by simp [low, high]⟩)
    rwa [Char.ofNat_toNat] at inside
  · have underscore : c ≠ '_' := by
      rintro rfl
      exact small (by decide)
    have letter := apart (List.subset_append_left letterRanges numeralRanges)
    have numeral := apart (List.subset_append_right letterRanges numeralRanges)
    simp [isWordChar, isLetter, isNumeral, small, underscore, letter, numeral]

theorem Text.not_isBlank_of_isWordChar {c : Char} (inside : isWordChar c = true) :
    isBlank c = false := by
  rw [Bool.eq_false_iff]
  intro blank
  cases (not_isWordChar_of_isBlank blank).symm.trans inside

theorem Text.isWordChar_of_isDigit {c : Char} (digit : c.isDigit = true) : isWordChar c = true := by
  have small : c.toNat < 128 :=
    Nat.lt_of_le_of_lt (of_decide_eq_true (Bool.and_eq_true_iff.1 digit).2) (by decide)
  simp [isWordChar, isNumeral, small, digit]

/-- What has a property up to a character that lacks it is cut off there. -/
theorem span_of_head {p : Char → Bool} {inside rest : List Char}
    (holds : ∀ c ∈ inside, p c = true) (stops : ∀ c ∈ rest.head?, p c = false) :
    (inside ++ rest).takeWhile p = inside ∧ (inside ++ rest).dropWhile p = rest := by
  rw [List.takeWhile_append_of_pos holds, List.dropWhile_append_of_pos holds]
  cases rest with
  | nil => simp
  | cons c rest => simp [stops c rfl]

theorem head_dropWhile {p : Char → Bool} (cs : List Char) :
    ∀ c ∈ (cs.dropWhile p).head?, p c = false := by
  intro c first
  obtain ⟨rest, stopped⟩ := List.head?_eq_some_iff.1 first
  exact eq_false_of_dropWhile_eq_cons stopped

/-! ## Words -/

/-- Decimal digits, at least one. -/
def IsDigits (cs : List Char) : Prop :=
  cs ≠ [] ∧ ∀ c ∈ cs, c.isDigit = true

/-- The word is one that a source can have. -/
def Word.WellFormed : Word → Prop
  | .keyword _ | .symbol _ => True
  | .name s =>
    ∃ c cs, s.toList = c :: cs ∧ (isLetter c || c == '_') = true ∧
      (∀ d ∈ cs, isWordChar d = true) ∧ ∀ k : Keyword, k.letters ≠ s.toList
  | .number digits =>
    IsDigits digits.toList ∨ ∃ whole fraction, digits.toList = whole ++ '.' :: fraction ∧
      IsDigits whole ∧ IsDigits fraction
  | .text content => '"' ∉ content.toList
  | .finish => False

/-- The word does not go on with what comes after it. -/
def Word.Maximal (rest : List Char) : Word → Prop
  | .keyword _ | .name _ => ∀ c ∈ rest.head?, isWordChar c = false
  | .number digits =>
    (∀ c ∈ rest.head?, c.isDigit = false) ∧
      ('.' ∉ digits.toList → ∀ d more, rest = '.' :: d :: more → d.isDigit = false)
  | .symbol s => s ∈ [Symbol.assign, .less, .greater] → rest.head? ≠ some '='
  | .text _ | .finish => True

/-! ### Letters -/

section Letters

variable {c : Char} {cs rest : List Char}

/-- Letters up to a boundary are cut off as one word. -/
theorem front_letters (opens : (isLetter c || c == '_') = true)
    (inside : ∀ d ∈ cs, isWordChar d = true) (boundary : ∀ d ∈ rest.head?, isWordChar d = false) :
    front c (cs ++ rest) = .word (.ofLetters (c :: cs)) rest := by
  have word := isWordChar_of_opens opens
  have blank := not_isBlank_of_isWordChar word
  have hash := (outside_of_isWordChar word).2
  obtain ⟨taken, dropped⟩ := span_of_head inside boundary
  unfold front
  rw [if_neg (by simp [blank]), if_neg hash, if_pos opens, taken, dropped]

/-- A reserved word up to a boundary is cut off as that word. -/
theorem front_keyword {k : Keyword} (boundary : ∀ d ∈ rest.head?, isWordChar d = false)
    (spelled : k.letters ++ rest = c :: cs) : front c cs = .word (.keyword k) rest := by
  cases letters : k.letters with
  | nil => cases k <;> cases letters
  | cons d ds =>
    rw [letters, List.cons_append] at spelled
    obtain ⟨rfl, rfl⟩ := List.cons.inj spelled
    have listed : ∀ e ∈ d :: ds, e ∈ k.letters := fun e member => letters ▸ member
    have opens : (isLetter d || d == '_') = true := by
      simp [(Contextual.plain_of_mem_letters (listed d (.head _))).1]
    have inside : ∀ e ∈ ds, isWordChar e = true :=
      fun e member => Contextual.isWordChar_of_mem_letters (listed e (.tail _ member))
    have known : Word.ofLetters (d :: ds) = .keyword k := by
      unfold Word.ofLetters
      rw [Keyword.ofLetters?_eq_some_iff.2 letters]
    rw [front_letters opens inside boundary, known]

/-- A well-formed name up to a boundary is cut off as that name. -/
theorem front_name {s : String} (formed : (Word.name s).WellFormed)
    (boundary : ∀ d ∈ rest.head?, isWordChar d = false) (spelled : s.toList ++ rest = c :: cs) :
    front c cs = .word (.name s) rest := by
  obtain ⟨d, ds, letters, opens, inside, unreserved⟩ := formed
  rw [letters, List.cons_append] at spelled
  obtain ⟨rfl, rfl⟩ := List.cons.inj spelled
  have unknown : Keyword.ofLetters? (d :: ds) = none := by
    rw [Option.eq_none_iff_forall_ne_some]
    intro k known
    exact unreserved k ((Keyword.ofLetters?_eq_some_iff.1 known).trans letters.symm)
  have named : Word.ofLetters (d :: ds) = .name s := by
    unfold Word.ofLetters
    rw [unknown, ← letters, String.ofList_toList]
  rw [front_letters opens inside boundary, named]

/-- Letters that look like a name are a well-formed word. -/
theorem wellFormed_ofLetters (opens : (isLetter c || c == '_') = true)
    (inside : ∀ d ∈ cs, isWordChar d = true) : (Word.ofLetters (c :: cs)).WellFormed := by
  unfold Word.ofLetters
  split
  · trivial
  · next unknown =>
    refine ⟨c, cs, by simp, opens, inside, fun k same => ?_⟩
    rw [String.toList_ofList] at same
    rw [Keyword.ofLetters?_eq_some_iff.2 same] at unknown
    cases unknown

theorem maximal_ofLetters (boundary : ∀ d ∈ rest.head?, isWordChar d = false) :
    (Word.ofLetters cs).Maximal rest := by
  unfold Word.ofLetters
  split <;> exact boundary

end Letters

/-! ### Numbers -/

section Numbers

variable {c : Char} {cs whole fraction rest : List Char}

/-- Digits are a number up to whatever is no digit, and no point with a digit behind it. -/
theorem spanNumber_whole (digits : ∀ d ∈ whole, d.isDigit = true)
    (ends : ∀ d ∈ rest.head?, d.isDigit = false)
    (pointless : ∀ d more, rest = '.' :: d :: more → d.isDigit = false) :
    spanNumber (whole ++ rest) = (whole, rest) := by
  obtain ⟨taken, dropped⟩ := span_of_head digits ends
  unfold spanNumber
  rw [taken, dropped]
  split
  · next d more => rw [if_neg (by simp [pointless d more rfl])]
  · rfl

/-- Digits with a point and more digits are a number up to whatever is no digit. -/
theorem spanNumber_fraction (digits : ∀ d ∈ whole, d.isDigit = true) (decimals : IsDigits fraction)
    (ends : ∀ d ∈ rest.head?, d.isDigit = false) :
    spanNumber (whole ++ '.' :: fraction ++ rest) = (whole ++ '.' :: fraction, rest) := by
  obtain ⟨some, decimals⟩ := decimals
  obtain ⟨d, more, rfl⟩ := List.exists_cons_of_ne_nil some
  have point : ∀ e ∈ ('.' :: (d :: more ++ rest)).head?, e.isDigit = false := by
    rintro e ⟨⟩
    decide
  obtain ⟨taken, dropped⟩ := span_of_head digits point
  obtain ⟨takenAfter, droppedAfter⟩ := span_of_head decimals ends
  rw [List.append_assoc, List.cons_append]
  unfold spanNumber
  rw [taken, dropped]
  simp only [List.cons_append] at takenAfter droppedAfter ⊢
  simp only [decimals d (.head _), if_true, takenAfter, droppedAfter]

/-- A well-formed number is read up to where it has to end. -/
theorem spanNumber_of_wellFormed {digits : String} (formed : (Word.number digits).WellFormed)
    (maximal : (Word.number digits).Maximal rest) :
    spanNumber (digits.toList ++ rest) = (digits.toList, rest) := by
  rcases formed with plain | ⟨whole, fraction, split, before, after⟩
  · have pointless : '.' ∉ digits.toList := by
      intro point
      exact absurd (plain.2 '.' point) (by decide)
    exact spanNumber_whole plain.2 maximal.1 (maximal.2 pointless)
  · rw [split]
    exact spanNumber_fraction before.2 after maximal.1

/-- A well-formed number begins with a digit. -/
theorem isDigit_of_number {digits : String} (formed : (Word.number digits).WellFormed)
    (spelled : digits.toList ++ rest = c :: cs) : c.isDigit = true := by
  have first : ∃ whole more, digits.toList = whole ++ more ∧ IsDigits whole := by
    rcases formed with plain | ⟨whole, fraction, split, before, _⟩
    · exact ⟨_, [], (List.append_nil _).symm, plain⟩
    · exact ⟨whole, _, split, before⟩
  obtain ⟨whole, more, split, some, all⟩ := first
  obtain ⟨d, ds, rfl⟩ := List.exists_cons_of_ne_nil some
  rw [split, List.append_assoc, List.cons_append] at spelled
  obtain ⟨rfl, _⟩ := List.cons.inj spelled
  exact all d (.head _)

/-- A well-formed number is cut off where it has to end. -/
theorem front_number {digits : String} (formed : (Word.number digits).WellFormed)
    (maximal : (Word.number digits).Maximal rest) (spelled : digits.toList ++ rest = c :: cs) :
    front c cs = .word (.number digits) rest := by
  have digit := isDigit_of_number formed spelled
  have word := isWordChar_of_isDigit digit
  have blank := not_isBlank_of_isWordChar word
  have hash := (outside_of_isWordChar word).2
  have underscore : c ≠ '_' := by
    rintro rfl
    exact absurd digit (by decide)
  have span := spanNumber_of_wellFormed formed maximal
  rw [spelled] at span
  unfold front
  rw [if_neg (by simp [blank]), if_neg hash,
    if_neg (by simp [not_isLetter_of_isDigit digit, underscore]), if_pos digit, span,
    String.ofList_toList]

/-- What `spanNumber` cuts off is a number that does not go on. -/
theorem spanNumber_spec (digit : c.isDigit = true) :
    let w := Word.number (String.ofList (spanNumber (c :: cs)).1)
    w.WellFormed ∧ w.Maximal (spanNumber (c :: cs)).2 := by
  have whole : IsDigits ((c :: cs).takeWhile Char.isDigit) :=
    ⟨by simp [digit], fun d listed => List.mem_takeWhile_imp listed⟩
  have ends := head_dropWhile (p := Char.isDigit) (c :: cs)
  unfold spanNumber Word.WellFormed Word.Maximal
  simp only [String.toList_ofList]
  split
  · next d rest found =>
    rw [found] at ends
    split
    · next decimal =>
      have fraction : IsDigits ((d :: rest).takeWhile Char.isDigit) :=
        ⟨by simp [decimal], fun e listed => List.mem_takeWhile_imp listed⟩
      refine ⟨.inr ⟨_, _, rfl, whole, fraction⟩, head_dropWhile _, fun pointless => ?_⟩
      exact absurd (by simp) pointless
    · next other =>
      refine ⟨.inl whole, ends, fun _ e more same => ?_⟩
      cases same
      simpa using other
  · next other => exact ⟨.inl whole, ends, fun _ d more same => (other d more same).elim⟩

end Numbers

/-! ### Texts and symbols -/

section Symbols

variable {c : Char} {cs rest : List Char} {s : Symbol}

/-- A text is cut off behind its closing quote, whatever comes next. -/
theorem front_text {content : String} (formed : (Word.text content).WellFormed)
    (spelled : (Word.text content).spelling ++ rest = c :: cs) :
    front c cs = .word (.text content) rest := by
  have opened : '"' :: (content.toList ++ '"' :: rest) = c :: cs := by
    simpa [Word.spelling] using spelled
  obtain ⟨rfl, rfl⟩ := List.cons.inj opened
  have inside : ∀ d ∈ content.toList, decide (d ≠ '"') = true := by
    intro d listed
    exact decide_eq_true fun same => formed (same ▸ listed)
  have ends : ∀ d ∈ ('"' :: rest).head?, decide (d ≠ '"') = false := by
    rintro d ⟨⟩
    decide
  obtain ⟨taken, dropped⟩ := span_of_head inside ends
  unfold front
  rw [if_neg (by decide), if_neg (by decide), if_neg (by decide), if_neg (by decide), if_pos rfl,
    dropped, taken, String.ofList_toList]

/-- A symbol is cut off where it is spelled and does not go on. -/
theorem Symbol.span?_eq_some_iff :
    span? cs = some (s, rest) ↔ s.letters ++ rest = cs ∧ (Word.symbol s).Maximal rest := by
  constructor
  · intro found
    refine ⟨(eq_append_of_span? found).symm, fun short next => ?_⟩
    obtain ⟨more, rfl⟩ := List.head?_eq_some_iff.1 next
    obtain rfl := eq_append_of_span? found
    simp only [List.mem_cons, List.not_mem_nil, or_false] at short
    rcases short with rfl | rfl | rfl <;> cases found
  · rintro ⟨rfl, maximal⟩
    have alone : s ∈ [Symbol.assign, .less, .greater] → ∀ more, rest = '=' :: more → False := by
      rintro short more rfl
      exact maximal short rfl
    cases s with
    | assign | less | greater =>
      rw [letters, List.singleton_append, span?]
      exact alone (by simp)
    | _ => rfl

/-- A symbol is cut off unless what comes next makes it a longer one. -/
theorem front_symbol (maximal : (Word.symbol s).Maximal rest)
    (spelled : s.letters ++ rest = c :: cs) : front c cs = .word (.symbol s) rest := by
  have outside : isBlank c = false ∧ c ≠ '#' ∧ (isLetter c || c == '_') = false ∧
      c.isDigit = false ∧ c ≠ '"' := by
    cases s <;> cases spelled <;> decide
  obtain ⟨blank, hash, letter, digit, quote⟩ := outside
  unfold front
  rw [if_neg (by simp [blank]), if_neg hash, if_neg (by simp [letter]), if_neg (by simp [digit]),
    if_neg quote, Symbol.span?_eq_some_iff.2 ⟨spelled, maximal⟩]

/-- Where the characters of a symbol stand, some symbol is found. -/
theorem Symbol.span?_letters_ne_none (s : Symbol) (more : List Char) :
    span? (s.letters ++ more) ≠ none := by
  by_cases maximal : (Word.symbol s).Maximal more
  · rw [span?_eq_some_iff.2 ⟨rfl, maximal⟩]
    simp
  · -- It goes on with `=`, and then a longer one is found.
    simp only [Word.Maximal, ne_eq, Classical.not_imp, not_not] at maximal
    obtain ⟨short, next⟩ := maximal
    obtain ⟨more, rfl⟩ := List.head?_eq_some_iff.1 next
    simp only [List.mem_cons, List.not_mem_nil, or_false] at short
    rcases short with rfl | rfl | rfl <;> simp [letters, span?]

end Symbols

/-! ### What stands at the front -/

section Front

variable {c : Char} {cs rest : List Char} {w : Word}

/-- A word stands at the front of a text exactly if it is spelled there and does not go on. -/
theorem front_eq_word_iff :
    front c cs = .word w rest ↔ w.WellFormed ∧ w.Maximal rest ∧ w.spelling ++ rest = c :: cs := by
  constructor
  · intro found
    have word := frontWord_of_front found
    refine and_assoc.1 ⟨?_, word.append_eq⟩
    cases word with
    | letters opens =>
      exact ⟨wellFormed_ofLetters opens fun d listed => List.mem_takeWhile_imp listed,
        maximal_ofLetters (head_dropWhile cs)⟩
    | number digit => exact spanNumber_spec digit
    | text opens closed =>
      refine ⟨?_, trivial⟩
      simp only [Word.WellFormed, String.toList_ofList]
      intro listed
      simpa using List.mem_takeWhile_imp listed
    | symbol spanned => exact ⟨trivial, (Symbol.span?_eq_some_iff.1 spanned).2⟩
  · rintro ⟨formed, maximal, spelled⟩
    cases w with
    | keyword k => exact front_keyword maximal spelled
    | name s => exact front_name formed maximal spelled
    | number digits => exact front_number formed maximal spelled
    | text content => exact front_text formed spelled
    | symbol s => exact front_symbol maximal spelled
    | finish => exact formed.elim

/-- No word, blank or comment begins with the character, and no text. -/
structure Stray (c : Char) (rest : List Char) : Prop where
  blank : isBlank c = false
  hash : c ≠ '#'
  quote : c ≠ '"'
  wordless : ∀ w : Word, w.WellFormed → ¬ w.spelling <+: c :: rest

/-- The character cannot be read, for one of two reasons: it opens a text that is never closed, or
nothing begins with it. -/
inductive Unreadable (c : Char) (rest : List Char) : LexicalCause → Prop
  | unclosed (opens : c = '"') (never : '"' ∉ rest) : Unreadable c rest .unterminatedText
  | stray (alone : Stray c rest) : Unreadable c rest (.strayCharacter c)

/-- No word begins with a character that is neither a letter, a digit nor a quote and at which no
symbol stands. -/
theorem wordless_of_missed (letter : (isLetter c || c == '_') = false) (digit : c.isDigit = false)
    (quote : c ≠ '"') (missed : Symbol.span? (c :: cs) = none) (formed : w.WellFormed) :
    ¬ w.spelling <+: c :: cs := by
  rintro ⟨more, spelled⟩
  cases w with
  | keyword k =>
    have listed : c ∈ k.letters := by cases k <;> cases spelled <;> exact .head _
    simp [(Contextual.plain_of_mem_letters listed).1] at letter
  | name s =>
    obtain ⟨d, ds, letters, opens, _⟩ := formed
    rw [Word.spelling, letters, List.cons_append] at spelled
    obtain ⟨rfl, _⟩ := List.cons.inj spelled
    cases opens.symm.trans letter
  | number digits => cases (isDigit_of_number formed spelled).symm.trans digit
  | text content => exact quote (List.cons.inj spelled).1.symm
  | symbol s =>
    rw [← spelled] at missed
    exact Symbol.span?_letters_ne_none s more missed
  | finish => exact formed

/-- The front of a text cannot be cut exactly if it is unreadable. -/
theorem front_eq_bad_iff {cause : LexicalCause} :
    front c cs = .bad cause ↔ Unreadable c cs cause := by
  constructor
  · intro found
    obtain ⟨blank, hash⟩ := plain_of_no_gap fun skipped rest gap => by cases gap.symm.trans found
    have letter : (isLetter c || c == '_') = false := by
      rw [Bool.eq_false_iff]
      intro opens
      have inside : ∀ d ∈ cs.takeWhile isWordChar, isWordChar d = true :=
        fun d listed => List.mem_takeWhile_imp listed
      have word := front_letters opens inside (head_dropWhile cs)
      rw [List.takeWhile_append_dropWhile] at word
      cases word.symm.trans found
    cases frontBad_of_front found with
    | text opens unclosed =>
      refine .unclosed opens fun listed => ?_
      have closed := List.dropWhile_eq_nil_iff.1 unclosed '"' listed
      simp at closed
    | stray quote _ digit missed =>
      exact .stray ⟨blank, hash, quote, fun w formed =>
        wordless_of_missed letter digit quote missed formed⟩
  · intro unreadable
    cases outcome : front c cs with
    | gap skipped rest =>
      cases frontGap_of_front outcome with
      | blank white =>
        cases unreadable with
        | unclosed opens => exact absurd opens (outside_of_isBlank white).1
        | stray alone => cases white.symm.trans alone.blank
      | comment opens =>
        subst opens
        cases unreadable with
        | unclosed opens => exact absurd opens (by decide)
        | stray alone => exact absurd rfl alone.hash
    | word w rest =>
      obtain ⟨formed, _, spelled⟩ := front_eq_word_iff.1 outcome
      cases unreadable with
      | unclosed opens never =>
        subst opens
        have unclosed : cs.dropWhile (· ≠ '"') = [] :=
          List.dropWhile_eq_nil_iff.2 fun d listed =>
            decide_eq_true fun same => never (same ▸ listed)
        unfold front at outcome
        rw [if_neg (by decide), if_neg (by decide), if_neg (by decide), if_neg (by decide),
          if_pos rfl, unclosed] at outcome
        cases outcome
      | stray alone => exact absurd ⟨rest, spelled⟩ (alone.wordless w formed)
    | bad cause' =>
      cases frontBad_of_front outcome with
      | text opens _ =>
        cases unreadable with
        | unclosed => rfl
        | stray alone => exact absurd opens alone.quote
      | stray quote =>
        cases unreadable with
        | unclosed opens => exact absurd opens quote
        | stray => rfl

end Front

end Parlance
