import Mathlib.Data.List.TakeWhile
import Parlance.Text.Digit
import Parlance.Token.Scan

/-!
# The words of a source

How the front of a text is cut: the four kinds of words (`FrontWord`), the two kinds of gaps
(`FrontGap`) and what is neither (`FrontBad`).  What is cut off and the rest make up the text.
Letters and decimal digits have no character in common.  `Cuts` says how a text is cut into tokens
up to some place.
-/

namespace Parlance.Text

/-- Every letter lies in one of these ranges. -/
theorem exists_range_of_isLetter {c : Char} (letter : isLetter c = true) :
    ∃ r ∈ (0x41, 0x5A) :: (0x61, 0x7A) :: letterRanges, r.1 ≤ c.toNat ∧ c.toNat ≤ r.2 := by
  unfold isLetter at letter
  split at letter
  · rcases Bool.or_eq_true_iff.1 letter with upper | lower
    · obtain ⟨low, high⟩ := of_decide_eq_true upper
      exact ⟨_, .head _, low, high⟩
    · obtain ⟨low, high⟩ := Bool.and_eq_true_iff.1 lower
      exact ⟨_, .tail _ (.head _), of_decide_eq_true low, of_decide_eq_true high⟩
  · obtain ⟨r, listed, inside⟩ := Ranges.has_eq_true_iff.1 letter
    exact ⟨r, .tail _ (.tail _ listed), inside⟩

/-- No script has a digit among its letters. -/
theorem letters_apart_digits :
    ∀ r ∈ (0x41, 0x5A) :: (0x61, 0x7A) :: letterRanges, ∀ first ∈ zeroDigits,
      r.2 < first ∨ first + 9 < r.1 := by
  -- The tables are compared by a function, which the kernel runs faster than a decision.
  have checked : (((0x41, 0x5A) :: (0x61, 0x7A) :: letterRanges).all fun r =>
      zeroDigits.all fun first => Nat.blt r.2 first || Nat.blt (first + 9) r.1) = true := by
    decide +kernel
  intro r listed first firstListed
  have apart := List.all_eq_true.1 (List.all_eq_true.1 checked r listed) first firstListed
  simpa only [Bool.or_eq_true, Nat.blt_eq] using apart

/-- No letter is a digit. -/
theorem not_isDecimal_of_isLetter {c : Char} (letter : isLetter c = true) :
    isDecimal c = false := by
  obtain ⟨r, listed, low, high⟩ := exists_range_of_isLetter letter
  simp only [isDecimal, digitValue?, Option.isSome_map, Bool.eq_false_iff]
  intro decimal
  obtain ⟨first, firstListed, inside⟩ := List.find?_isSome.1 decimal
  simp only [Bool.and_eq_true, decide_eq_true_eq] at inside
  have apart := letters_apart_digits r listed first firstListed
  omega

/-- The digits from 0 to 9 are decimal digits. -/
theorem isDecimal_of_isDigit {c : Char} (digit : c.isDigit = true) : isDecimal c = true := by
  obtain ⟨above, below⟩ := Bool.and_eq_true_iff.1 digit
  have low : 48 ≤ c.toNat := of_decide_eq_true above
  have high : c.toNat ≤ 57 := of_decide_eq_true below
  simp only [isDecimal, digitValue?, Option.isSome_map, List.find?_isSome]
  refine ⟨0x30, .head _, ?_⟩
  simp only [Bool.and_eq_true, decide_eq_true_eq]
  omega

theorem not_isLetter_of_isDigit {c : Char} (digit : c.isDigit = true) : isLetter c = false := by
  rw [Bool.eq_false_iff]
  intro letter
  cases (not_isDecimal_of_isLetter letter).symm.trans (isDecimal_of_isDigit digit)

end Parlance.Text

namespace Parlance

open Text

theorem eq_false_of_dropWhile_eq_cons {α : Type} {p : α → Bool} {l rest : List α} {a : α}
    (stopped : l.dropWhile p = a :: rest) : p a = false := by
  have head := List.head?_dropWhile_not p l
  rw [stopped] at head
  exact head

theorem exists_of_map_eq_ok {ε α β : Type} {x : Except ε α} {f : α → β} {b : β}
    (mapped : x.map f = .ok b) : ∃ a, x = .ok a ∧ f a = b := by
  cases x with
  | error e => cases mapped
  | ok a =>
    cases mapped
    exact ⟨a, rfl, rfl⟩

theorem eq_error_of_map {ε α β : Type} {x : Except ε α} {f : α → β} {e : ε}
    (mapped : x.map f = .error e) : x = .error e := by
  cases x with
  | error e' =>
    cases mapped
    rfl
  | ok a => cases mapped

/-- How `c :: cs` begins with a word. -/
inductive FrontWord (c : Char) (cs : List Char) : Word → List Char → Prop
  | letters (opens : (isLetter c || c == '_') = true) :
    FrontWord c cs (.ofLetters (c :: cs.takeWhile isWordChar)) (cs.dropWhile isWordChar)
  | number (digit : c.isDigit = true) :
    FrontWord c cs (.number (String.ofList (spanNumber (c :: cs)).1)) (spanNumber (c :: cs)).2
  | text {quote rest} (opens : c = '"') (closed : cs.dropWhile (· ≠ '"') = quote :: rest) :
    FrontWord c cs (.text (String.ofList (cs.takeWhile (· ≠ '"')))) rest
  | symbol {s rest} (found : Symbol.span? (c :: cs) = some (s, rest)) :
    FrontWord c cs (.symbol s) rest

/-- A word in front is one of the kinds that `FrontWord` lists. -/
theorem frontWord_of_front {c : Char} {cs rest : List Char} {w : Word}
    (found : front c cs = .word w rest) : FrontWord c cs w rest := by
  unfold front at found
  repeat' split at found
  all_goals try contradiction
  · next opens =>
    cases found
    exact .letters opens
  · next digit =>
    cases found
    exact .number digit
  · next opens _ _ _ closed =>
    cases found
    exact .text opens closed
  · next spanned =>
    cases found
    exact .symbol spanned

theorem Word.spelling_ofLetters (letters : List Char) :
    (Word.ofLetters letters).spelling = letters := by
  unfold Word.ofLetters
  split
  · next k known => exact Keyword.ofLetters?_eq_some_iff.1 known
  · simp [Word.spelling]

/-- A number and what is left are the text. -/
theorem spanNumber_append (cs : List Char) : (spanNumber cs).1 ++ (spanNumber cs).2 = cs := by
  have whole := List.takeWhile_append_dropWhile (p := Char.isDigit) (l := cs)
  unfold spanNumber
  split
  · next d rest found =>
    rw [found] at whole
    split
    · have fraction := List.takeWhile_append_dropWhile (p := Char.isDigit) (l := d :: rest)
      simp [fraction, whole]
    · exact whole
  · exact whole

theorem takeWhile_append_quote {cs rest : List Char} {quote : Char}
    (closed : cs.dropWhile (· ≠ '"') = quote :: rest) :
    cs.takeWhile (· ≠ '"') ++ '"' :: rest = cs := by
  have last : quote = '"' := by simpa using eq_false_of_dropWhile_eq_cons closed
  have whole := List.takeWhile_append_dropWhile (p := fun d => decide (d ≠ '"')) (l := cs)
  rwa [closed, last] at whole

/-- A word and the rest make up the text. -/
theorem FrontWord.append_eq {c : Char} {cs rest : List Char} {w : Word}
    (found : FrontWord c cs w rest) : w.spelling ++ rest = c :: cs := by
  cases found with
  | letters opens => simp [Word.spelling_ofLetters]
  | number digit => simpa [Word.spelling] using spanNumber_append (c :: cs)
  | text opens closed =>
    simpa [Word.spelling, opens] using takeWhile_append_quote closed
  | symbol spanned => exact (Symbol.eq_append_of_span? spanned).symm

/-- How `c :: cs` begins with a gap. -/
inductive FrontGap (c : Char) (cs : List Char) : List Char → List Char → Prop
  | blank (blank : isBlank c = true) : FrontGap c cs [c] cs
  | comment (hash : c = '#') :
    FrontGap c cs (c :: cs.takeWhile (· ≠ '\n')) (cs.dropWhile (· ≠ '\n'))

/-- A gap in front is one of the kinds that `FrontGap` lists. -/
theorem frontGap_of_front {c : Char} {cs skipped rest : List Char}
    (found : front c cs = .gap skipped rest) : FrontGap c cs skipped rest := by
  unfold front at found
  repeat' split at found
  all_goals try contradiction
  · next blank =>
    cases found
    exact .blank blank
  · next hash =>
    cases found
    exact .comment hash

theorem FrontGap.append_eq {c : Char} {cs skipped rest : List Char}
    (found : FrontGap c cs skipped rest) : skipped ++ rest = c :: cs := by
  cases found with
  | blank blank => rfl
  | comment hash => rw [List.cons_append, List.takeWhile_append_dropWhile]

/-- How `c :: cs` begins with neither. -/
inductive FrontBad (c : Char) (cs : List Char) : LexicalCause → Prop
  | text (opens : c = '"') (unclosed : cs.dropWhile (· ≠ '"') = []) :
    FrontBad c cs .unterminatedText
  | stray (quote : c ≠ '"') (letter : isLetter c = false) (digit : c.isDigit = false)
      (missed : Symbol.span? (c :: cs) = none) : FrontBad c cs (.strayCharacter c)

/-- What is neither a gap nor a word is one of the kinds that `FrontBad` lists. -/
theorem frontBad_of_front {c : Char} {cs : List Char} {cause : LexicalCause}
    (found : front c cs = .bad cause) : FrontBad c cs cause := by
  unfold front at found
  repeat' split at found
  all_goals try contradiction
  · next opens _ unclosed =>
    cases found
    exact .text opens unclosed
  · next letter digit quote _ missed =>
    cases found
    refine .stray quote ?_ (by simpa using digit) missed
    simp only [Bool.or_eq_true, not_or, Bool.not_eq_true] at letter
    exact letter.1

/-- A text that starts at the first place is cut into the tokens up to the second place, where the
rest of it starts. -/
inductive Cuts : Position → List Char → List Token → Position → List Char → Prop
  | stop {p cs} : Cuts p cs [] p cs
  | gap {p c cs skipped rest ts q left} (found : front c cs = .gap skipped rest)
      (more : Cuts (p.advance skipped) rest ts q left) : Cuts p (c :: cs) ts q left
  | word {p c cs w rest ts q left} (found : front c cs = .word w rest)
      (more : Cuts (p.advance w.spelling) rest ts q left) :
    Cuts p (c :: cs) (⟨w, p.line, p.column⟩ :: ts) q left

/-- A scan that succeeds cuts the text token by token. -/
theorem cuts_of_startingAt {p finish : Position} {cs : List Char} {ts : List Token}
    (scanned : Scan.startingAt p cs = .ok ⟨ts, finish⟩) : Cuts p cs ts finish [] := by
  fun_induction Scan.startingAt p cs generalizing ts with
  | case1 p =>
    cases scanned
    exact .stop
  | case2 p c cs skipped rest found _ ih => exact .gap found (ih scanned)
  | case3 p c cs w rest found _ ih =>
    obtain ⟨⟨later, finish'⟩, scanned', same⟩ := exists_of_map_eq_ok scanned
    cases same
    exact .word found (ih scanned')
  | case4 p c cs cause found => cases scanned

/-- Cutting goes on with the rest. -/
theorem Cuts.startingAt_eq {p q : Position} {cs left : List Char} {ts : List Token}
    (cuts : Cuts p cs ts q left) :
    Scan.startingAt p cs =
      (Scan.startingAt q left).map fun scan => { scan with tokens := ts ++ scan.tokens } := by
  induction cuts with
  | @stop p cs => cases Scan.startingAt p cs <;> rfl
  | gap found _ ih =>
    rw [Scan.startingAt]
    split
    · next found' =>
      cases found.symm.trans found'
      exact ih
    · next found' => cases found.symm.trans found'
    · next found' => cases found.symm.trans found'
  | @word p c cs w rest ts q left found _ ih =>
    rw [Scan.startingAt]
    split
    · next found' => cases found.symm.trans found'
    · next found' =>
      cases found.symm.trans found'
      rw [ih]
      cases Scan.startingAt q left <;> rfl
    · next found' => cases found.symm.trans found'

theorem Scan.ofSource_of_cuts {source : String} {ts : List Token} {finish : Position}
    (cut : Cuts {} source.toList ts finish []) : Scan.ofSource source = .ok ⟨ts, finish⟩ := by
  rw [Scan.ofSource, cut.startingAt_eq]
  simp [Scan.startingAt, Except.map]

/-- Cutting ends at what is neither a gap nor a word. -/
theorem Cuts.startingAt_eq_error {p q : Position} {cs rest : List Char} {ts : List Token} {c : Char}
    {cause : LexicalCause} (cuts : Cuts p cs ts q (c :: rest)) (bad : front c rest = .bad cause) :
    Scan.startingAt p cs = .error ⟨q.line, cause⟩ := by
  rw [cuts.startingAt_eq, Scan.startingAt]
  split
  · next found => cases bad.symm.trans found
  · next found => cases bad.symm.trans found
  · next found =>
    cases bad.symm.trans found
    rfl

/-- Tokens come in the order of their lines. -/
theorem Cuts.lines_ascend {p q : Position} {cs left : List Char} {ts : List Token}
    (cuts : Cuts p cs ts q left) :
    (∀ t ∈ ts, p.line ≤ t.line) ∧ ts.Pairwise fun t u => t.line ≤ u.line := by
  induction cuts with
  | stop => exact ⟨(by simp), .nil⟩
  | @gap p _ _ skipped _ _ _ _ found _ ih =>
    have later : p.line ≤ (p.advance skipped).line := by
      rw [Position.line_advance]
      exact Nat.le_add_right _ _
    exact ⟨fun t listed => Nat.le_trans later (ih.1 t listed), ih.2⟩
  | @word p _ _ w _ ts _ _ found _ ih =>
    have later : p.line ≤ (p.advance w.spelling).line := by
      rw [Position.line_advance]
      exact Nat.le_add_right _ _
    have after : ∀ t ∈ ts, p.line ≤ t.line := fun t listed => Nat.le_trans later (ih.1 t listed)
    refine ⟨fun t listed => ?_, .cons after ih.2⟩
    rcases List.mem_cons.1 listed with rfl | listed
    · exact Nat.le_refl _
    · exact after t listed

end Parlance
